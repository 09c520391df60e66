import Mathlib
import Overlay.Proofs.Peers.Neighborhood

/-!
What one offer makes of a neighborhood. A member is offered room by dropping its old copy, so a new
one is never turned away, however far behind it ranks. A newcomer fills a free place, or takes that
of the last member of a full set if it ranks before it, and what is turned away leaves no trace.
-/

namespace Overlay.Neighborhood

open Roster (place length_place filter_of_new)

/-- What an offer makes of the members, by cases. -/
inductive Offered (before : Node → Node → Bool) (capacity : Nat) (n : Node) (ms : List Node) :
    List Node → Prop
  | renewed (hmember : ∃ m ∈ ms, m.id = n.id) : Offered before capacity n ms (place before n ms)
  | joined (hnew : ∀ m ∈ ms, m.id ≠ n.id) (hroom : ms.length < capacity) :
    Offered before capacity n ms (Ranked.insert before n ms)
  | rejected (hnew : ∀ m ∈ ms, m.id ≠ n.id) (hfull : ms.length = capacity)
    (hbehind : ∀ m ∈ ms, before m n = true) : Offered before capacity n ms ms
  | displaced {others : List Node} {worst : Node} (hnew : ∀ m ∈ ms, m.id ≠ n.id)
    (hfull : ms.length = capacity) (hms : ms = others ++ [worst])
    (hahead : before n worst = true) :
    Offered before capacity n ms (Ranked.insert before n others)

theorem Sound.offered {s : Neighborhood} (h : s.Sound) {n : Node} (hid : n.id ≠ s.origin.id) :
    Offered (s.metric.nearer s.origin) s.capacity n s.members (s.offer n).1.members := by
  rw [h.offer_eq hid]
  by_cases hmember : ∃ m ∈ s.members, m.id = n.id
  · have hany : s.members.any (·.id = n.id) = true := by simpa using hmember
    have hlength : (place (s.metric.nearer s.origin) n s.members).length ≤ s.capacity := by
      have hle := h.length_le
      have hpos : 0 < s.members.length := by
        obtain ⟨m, hm, -⟩ := hmember
        exact List.length_pos_of_mem hm
      rw [length_place, List.length_eraseP, if_pos hany]
      omega
    rw [List.take_of_length_le hlength]
    exact .renewed hmember
  · have hnew : ∀ m ∈ s.members, m.id ≠ n.id := by simpa using hmember
    rw [Roster.place_of_new hnew]
    rcases Nat.lt_or_eq_of_le h.length_le with hroom | hfull
    · rw [List.take_of_length_le (by rw [Ranked.length_insert]; omega)]
      exact .joined hnew hroom
    · rw [← hfull]
      rcases List.eq_nil_or_concat s.members with hnil | ⟨others, worst, hconcat⟩
      · have hnone : (Ranked.insert (s.metric.nearer s.origin) n s.members).take s.members.length =
            s.members := by rw [hnil]; rfl
        rw [hnone, hfull]
        exact .rejected hnew hfull (by simp [hnil])
      · rw [List.concat_eq_append] at hconcat
        have hworst : worst.id ≠ n.id := hnew worst (by simp [hconcat])
        have hascending := h.kept.ascending
        have hcomparable : s.metric.nearer s.origin worst n = true ∨
            s.metric.nearer s.origin n worst = true := Ranked.Ranking.comparable hworst
        rcases hcomparable with hbehind | hahead
        · rw [hconcat] at hascending
          have hall := hascending.before_of_before_last hbehind
          rw [← hconcat] at hall
          rw [Ranked.insert_eq_append hall, List.take_left' rfl, hfull]
          exact .rejected hnew hfull hall
        · have htake : (Ranked.insert (s.metric.nearer s.origin) n s.members).take
              s.members.length = Ranked.insert (s.metric.nearer s.origin) n others := by
            rw [hconcat, Ranked.insert_append_last others (Ranked.Ranking.asymm hahead),
              List.take_left' (by simp)]
          rw [htake, hfull]
          exact .displaced hnew hfull hconcat hahead

/-- A new copy of a member is only put in its place. -/
theorem Offered.eq_place {before : Node → Node → Bool} {capacity : Nat} {n : Node}
    {ms after : List Node} (h : Offered before capacity n ms after)
    (hmember : ∃ m ∈ ms, m.id = n.id) : after = place before n ms := by
  obtain ⟨m, hm, hid⟩ := hmember
  cases h with
  | renewed => rfl
  | joined hnew => exact absurd hid (hnew m hm)
  | rejected hnew => exact absurd hid (hnew m hm)
  | displaced hnew => exact absurd hid (hnew m hm)

section

variable {before : Node → Node → Bool} {capacity : Nat} {n : Node} {ms after : List Node}

/-- An offer that is turned away changes nothing. -/
theorem Offered.eq_of_not_mem (h : Offered before capacity n ms after) (hout : n ∉ after) :
    after = ms := by
  cases h with
  | renewed => exact absurd (Ranked.mem_insert_self n _) hout
  | joined => exact absurd (Ranked.mem_insert_self n _) hout
  | rejected => rfl
  | displaced => exact absurd (Ranked.mem_insert_self n _) hout

/-- A newcomer displaces at most the last member, and that one only if the set is full and it ranks
before it. -/
theorem Offered.others (h : Offered before capacity n ms after) (hnew : ∀ m ∈ ms, m.id ≠ n.id) :
    after.filter (·.id ≠ n.id) = ms ∨
      ∃ kept worst, ms = kept ++ [worst] ∧ ms.length = capacity ∧ before n worst = true ∧
        after.filter (·.id ≠ n.id) = kept := by
  have hinsert {kept : List Node} (hsub : ∀ m ∈ kept, m ∈ ms) :
      (Ranked.insert before n kept).filter (·.id ≠ n.id) = kept := by
    rw [Ranked.filter_insert (by simp), filter_of_new fun m hm => hnew m (hsub m hm)]
  cases h with
  | renewed hmember =>
    obtain ⟨m, hm, hid⟩ := hmember
    exact absurd hid (hnew m hm)
  | joined => exact Or.inl (hinsert fun _ hm => hm)
  | rejected => exact Or.inl (filter_of_new hnew)
  | @displaced kept worst _ hfull hms hahead =>
    right
    refine ⟨kept, worst, hms, hfull, hahead, hinsert fun m hm => ?_⟩
    exact hms ▸ List.mem_append_left _ hm

end

variable {s : Neighborhood}

/-- An offer is reported as taken if the copy offered is a member afterwards. -/
theorem Sound.offer_taken_iff (h : s.Sound) (n : Node) :
    (s.offer n).2 = true ↔ n ∈ (s.offer n).1.members := by
  by_cases hid : n.id = s.origin.id
  · rw [offer_self s hid]
    exact iff_of_false Bool.false_ne_true fun hn => h.ne_origin n hn hid
  · have hoffered := h.offered hid
    have hdropped : n ∉ (s.erase n.id).members := fun hn => (h.mem_erase.mp hn).2 rfl
    rw [Neighborhood.offer, if_neg hid] at hoffered ⊢
    simp only [Bool.or_eq_true] at hoffered ⊢
    rw [Ranked.offer_taken_iff hdropped]
    refine or_iff_left_of_imp fun hmember => ?_
    -- Where the old copy was dropped there is room, so the list without it takes the new one.
    rw [hoffered.eq_place (contains_iff.mp hmember)]
    exact Ranked.mem_insert_self _ _

/-- A rejected offer leaves the members as they were. -/
theorem Sound.members_of_rejected (h : s.Sound) {n : Node} (hrejected : (s.offer n).2 = false) :
    (s.offer n).1.members = s.members := by
  by_cases hid : n.id = s.origin.id
  · rw [offer_self s hid]
  · apply (h.offered hid).eq_of_not_mem
    rw [← h.offer_taken_iff, hrejected]
    exact Bool.false_ne_true

/-- A new copy of a member takes the place of the old one and touches no other member. -/
theorem Sound.offer_member (h : s.Sound) {n : Node} (hmember : s.contains n.id = true) :
    (s.offer n).2 = true ∧
      (∀ id, id ∈ (s.offer n).1.members.map (·.id) ↔ id ∈ s.members.map (·.id)) ∧
      (s.offer n).1.members.filter (·.id ≠ n.id) = s.members.filter (·.id ≠ n.id) := by
  obtain ⟨m, hm, hmid⟩ := contains_iff.mp hmember
  have hid : n.id ≠ s.origin.id := hmid ▸ h.ne_origin m hm
  have hplace := (h.offered hid).eq_place ⟨m, hm, hmid⟩
  rw [h.offer_taken_iff, hplace]
  refine ⟨Ranked.mem_insert_self _ _, fun id => ?_, h.kept.distinct.filter_place n⟩
  rw [h.kept.mem_ids_place]
  refine or_iff_right_of_imp ?_
  rintro rfl
  exact List.mem_map.mpr ⟨m, hm, hmid⟩

/-- A newcomer leaves all members where they were, or all but the last one of a full set. -/
theorem Sound.offer_newcomer (h : s.Sound) (n : Node) (hnone : s.contains n.id = false) :
    (s.offer n).1.members.filter (·.id ≠ n.id) = s.members ∨
      ∃ kept worst, s.members = kept ++ [worst] ∧ s.members.length = s.capacity ∧
        s.metric.nearer s.origin n worst = true ∧
          (s.offer n).1.members.filter (·.id ≠ n.id) = kept := by
  have hnew : ∀ m ∈ s.members, m.id ≠ n.id := by
    intro m hm hid
    have hmember := contains_iff.mpr ⟨m, hm, hid⟩
    rw [hnone] at hmember
    cases hmember
  by_cases hid : n.id = s.origin.id
  · rw [offer_self s hid]
    exact Or.inl (filter_of_new hnew)
  · exact (h.offered hid).others hnew

/-- After any history an offer leaves at most as many members as there are places, nearest first,
each once and the origin never. It is taken just if the copy is a member afterwards, and changes
nothing if not. A member is never turned away, and only its copy changes. A newcomer displaces at
most one member, the last one of a full set, and only by ranking before it. -/
theorem offer_displaces_only_last (origin : Node) (metric : Metric) (capacity : Nat)
    (history : List Update) (n : Node) :
    let s := (empty origin metric capacity).updateAll history
    let t := (s.offer n).1
    let taken := (s.offer n).2
    let others := t.members.filter (·.id ≠ n.id)
    t.members.length ≤ capacity ∧
      t.members.Pairwise (fun a b => metric.nearer origin a b = true) ∧
      (t.members.map (·.id)).Nodup ∧
      (∀ m ∈ t.members, m.id ≠ origin.id) ∧
      (taken = true ↔ n ∈ t.members) ∧
      (taken = false → t.members = s.members) ∧
      (s.contains n.id = true →
        taken = true ∧ (∀ id, id ∈ t.members.map (·.id) ↔ id ∈ s.members.map (·.id)) ∧
          others = s.members.filter (·.id ≠ n.id)) ∧
      (s.contains n.id = false →
        others = s.members ∨
          ∃ kept worst, s.members = kept ++ [worst] ∧ s.members.length = capacity ∧
            metric.nearer origin n worst = true ∧ others = kept) := by
  intro s t taken others
  have hs : s.Sound := (empty_sound origin metric capacity).updateAll history
  have ht : t.Sound := hs.offer n
  obtain ⟨horigin, hmetric, hcapacity⟩ :
      s.origin = origin ∧ s.metric = metric ∧ s.capacity = capacity :=
    updateAll_parameters (empty origin metric capacity) history
  obtain ⟨htorigin, htmetric, htcapacity⟩ :
      t.origin = s.origin ∧ t.metric = s.metric ∧ t.capacity = s.capacity :=
    s.update_parameters (.insert n)
  have hlength := ht.length_le
  have hascending := ht.kept.ascending
  have hne := ht.ne_origin
  rw [htcapacity, hcapacity] at hlength
  rw [htorigin, htmetric, horigin, hmetric] at hascending
  rw [htorigin, horigin] at hne
  have hnewcomer := hs.offer_newcomer n
  rw [horigin, hmetric, hcapacity] at hnewcomer
  exact ⟨hlength, hascending, ht.kept.distinct, hne, hs.offer_taken_iff n, hs.members_of_rejected,
    hs.offer_member, hnewcomer⟩

end Overlay.Neighborhood
