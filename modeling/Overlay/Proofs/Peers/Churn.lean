import Mathlib
import Overlay.Proofs.Config
import Overlay.Proofs.Peers.Coherence
import Overlay.Proofs.Peers.Halves

/-!
How well the leaf set reflects what the table stores while nodes come and go. A half keeps the
nearest stored nodes of its side until an eviction takes one of them away from a half that has left
others out: nobody is called back, and the half stays one short until nodes are inserted again.
-/

namespace Overlay

open Keyspace (Id)
open LeafSet (nearer)
open Roster (Kept Distinct place length_place)

namespace Peers

/-- The stored nodes of one side. -/
def stored (p : Peers) (side : Side) : List Node :=
  p.table.entries.filter (side.holds p.table.origin.id ·.id)

/-- The half of a side holds the nearest stored nodes of that side, as many as fit. -/
def Complete (p : Peers) (side : Side) : Prop :=
  p.leaves.half side =
    Ranked.nearest (nearer p.table.origin.id) p.leaves.capacity (p.stored side)

/-- True of an eviction that takes a member out of a half which has left out a stored node. -/
def vacates (p : Peers) (side : Side) : Update → Bool
  | .insert _ => false
  | .evict id => (p.leaves.half side).any (·.id = id) && p.leaves.capacity < (p.stored side).length

/-- The number of such evictions in a history. -/
def vacancies (side : Side) (p : Peers) : List Update → Nat
  | [] => 0
  | u :: history => (if p.vacates side u then 1 else 0) + vacancies side (p.update u) history

/-- All stored nodes of a side, nearest first. -/
def ranked (p : Peers) (side : Side) : List Node :=
  Ranked.sort (nearer p.table.origin.id) (p.stored side)

theorem length_ranked (p : Peers) (side : Side) : (p.ranked side).length = (p.stored side).length :=
  List.length_mergeSort _

theorem complete_iff {p : Peers} {side : Side} :
    p.Complete side ↔ p.leaves.half side = (p.ranked side).take p.leaves.capacity :=
  Iff.rfl

theorem Complete.length_half {p : Peers} {side : Side} (h : p.Complete side) :
    (p.leaves.half side).length = min p.leaves.capacity (p.stored side).length := by
  rw [complete_iff.mp h, List.length_take, length_ranked]

variable {origin : Node} {metric : Metric} {config : Config} {p : Peers} {known : Known}

theorem update_parameters (p : Peers) (u : Update) :
    (p.update u).table.origin = p.table.origin ∧
      (p.update u).leaves.capacity = p.leaves.capacity := by
  have heach := And.intro (p.table.update_parameters u).1 (p.leaves.update_parameters u).2
  cases u with
  | insert n =>
    rcases p.insert_cases n with ⟨-, hinsert⟩ | ⟨-, hinsert⟩
    · rw [update, hinsert]
      exact ⟨rfl, rfl⟩
    · rw [update, hinsert]
      exact heach
  | evict id => exact heach

theorem Coherent.kept_ranked (h : p.Coherent known) (side : Side) :
    Kept (nearer p.table.origin.id) (p.ranked side) := by
  have hdistinct : Distinct (p.stored side) :=
    h.stores.distinct_entries.of_sublist List.filter_sublist
  exact ⟨Ranked.sort_ascending hdistinct,
    ((List.mergeSort_perm _ _).map _).nodup_iff.mpr hdistinct⟩

theorem Coherent.mem_ranked (h : p.Coherent known) {side : Side} {n : Node} :
    n ∈ p.ranked side ↔
      known.lookup n.id = some n ∧ side.holds p.table.origin.id n.id = true := by
  rw [ranked, Ranked.mem_sort, stored, List.mem_filter, h.stores.mem_entries]

theorem Coherent.ranked_insert (h : p.Coherent known) {n : Node}
    (htaken : (p.table.insert n).2 ≠ .ignored) (side : Side) :
    (p.insert n).1.ranked side =
      if side.holds p.table.origin.id n.id then
        place (nearer p.table.origin.id) n (p.ranked side)
      else p.ranked side := by
  have horigin : (p.insert n).1.table.origin = p.table.origin :=
    (p.update_parameters (.insert n)).1
  have hkept := (h.insert n).kept_ranked side
  -- Both lists are in ascending order, so it is enough to compare their members.
  have hmem (a : Node) : a ∈ (p.insert n).1.ranked side ↔
      (a = n ∨ a ∈ p.ranked side ∧ a.id ≠ n.id) ∧
        side.holds p.table.origin.id a.id = true := by
    simp only [ranked, Ranked.mem_sort, stored, List.mem_filter, horigin,
      h.mem_entries_insert htaken]
    refine and_congr_left fun hside => ?_
    simp [hside]
  rw [horigin] at hkept
  split
  case isTrue hside =>
    refine hkept.ascending.ext ((h.kept_ranked side).place n).ascending fun a => ?_
    rw [hmem, (h.kept_ranked side).mem_place]
    constructor
    · exact fun ha => ha.1
    · rintro (rfl | ha)
      · exact ⟨Or.inl rfl, hside⟩
      · exact ⟨Or.inr ha, (h.mem_ranked.mp ha.1).2⟩
  case isFalse hside =>
    refine hkept.ascending.ext (h.kept_ranked side).ascending fun a => ?_
    rw [hmem]
    constructor
    · rintro ⟨rfl | ha, haside⟩
      · exact absurd haside hside
      · exact ha.1
    · intro ha
      have haside := (h.mem_ranked.mp ha).2
      exact ⟨Or.inr ⟨ha, fun hid => hside (hid ▸ haside)⟩, haside⟩

theorem Coherent.ranked_evict (h : p.Coherent known) (id : Id) (side : Side) :
    (p.evict id).1.ranked side = (p.ranked side).eraseP (·.id = id) := by
  have horigin : (p.evict id).1.table.origin = p.table.origin :=
    (p.update_parameters (.evict id)).1
  have hafter := h.evict id
  have hkept := hafter.kept_ranked side
  rw [horigin] at hkept
  refine hkept.ascending.ext
    ((h.kept_ranked side).of_sublist List.eraseP_sublist).ascending fun a => ?_
  rw [hafter.mem_ranked, (h.kept_ranked side).distinct.mem_eraseP, h.mem_ranked, horigin,
    Known.update]
  by_cases hid : a.id = id
  · rw [hid, Finmap.lookup_erase]
    simp
  · rw [Finmap.lookup_erase_ne hid]
    simp [hid]

/-- Dropping an element from the beginning of a list gives the beginning of what is left of the
list, unless the element is one of the first and others stand behind these. -/
theorem eraseP_take_iff {α : Type} (q : α → Bool) (ns : List α) (k : Nat) :
    (ns.take k).eraseP q = (ns.eraseP q).take k ↔
      ¬((ns.take k).any q = true ∧ k < ns.length) := by
  have hsplit : ns.eraseP q = (ns.take k ++ ns.drop k).eraseP q := by rw [List.take_append_drop]
  rcases Nat.lt_or_ge k ns.length with hlong | hshort
  · have hlength : (ns.take k).length = k := List.length_take_of_le (Nat.le_of_lt hlong)
    cases hany : (ns.take k).any q with
    | true =>
      -- The element behind the first `k` moves up on one side only, and the lengths differ.
      have hdrop : 0 < (ns.drop k).length := by rw [List.length_drop]; omega
      have hk : 0 < k := by
        obtain ⟨a, ha, -⟩ := List.any_eq_true.mp hany
        have hpos := List.length_pos_of_mem ha
        rwa [hlength] at hpos
      refine iff_of_false (fun heq => ?_) (by simp [hlong])
      have hlengths := congrArg List.length heq
      rw [hsplit, List.eraseP_append, if_pos hany, List.length_take, List.length_append,
        List.length_eraseP, if_pos hany, hlength] at hlengths
      omega
    | false =>
      have hnone : ∀ a ∈ ns.take k, ¬q a = true := by simpa using hany
      refine iff_of_true ?_ (by simp)
      rw [hsplit, List.eraseP_append_right _ hnone, List.eraseP_of_forall_not hnone,
        List.take_left' hlength]
  · refine iff_of_true ?_ (by omega)
    rw [List.take_of_length_le hshort,
      List.take_of_length_le (Nat.le_trans List.eraseP_sublist.length_le hshort)]

theorem Around.same_origin (h : Around origin metric config p) :
    p.leaves.origin = p.table.origin.id := by
  rw [h.leaves_origin, h.table_origin]

theorem Coherent.half_insert (h : p.Coherent known) (haround : Around origin metric config p)
    {n : Node} (htaken : (p.table.insert n).2 ≠ .ignored) (side : Side) :
    (p.insert n).1.leaves.half side =
      if side.holds p.table.origin.id n.id then
        (place (nearer p.table.origin.id) n (p.leaves.half side)).take p.leaves.capacity
      else p.leaves.half side := by
  rcases p.insert_cases n with ⟨hignored, -⟩ | ⟨-, hinsert⟩
  · exact absurd hignored htaken
  · rw [hinsert, ← haround.same_origin]
    exact h.leaves.half_offer n side

theorem Coherent.half_evict (h : p.Coherent known) (id : Id) (side : Side) :
    (p.evict id).1.leaves.half side = (p.leaves.half side).eraseP (·.id = id) :=
  h.leaves.half_erase id side

/-- A half that holds the nearest stored nodes still does after an insertion. -/
theorem Coherent.complete_insert (h : p.Coherent known) (haround : Around origin metric config p)
    {side : Side} (hcomplete : p.Complete side) (n : Node) : (p.insert n).1.Complete side := by
  rcases p.insert_cases n with ⟨-, hinsert⟩ | ⟨htaken, -⟩
  · rw [hinsert]
    exact hcomplete
  · have hcapacity : (p.insert n).1.leaves.capacity = p.leaves.capacity :=
      (p.update_parameters (.insert n)).2
    rw [complete_iff] at hcomplete ⊢
    rw [h.half_insert haround htaken, h.ranked_insert htaken, hcapacity, hcomplete]
    split
    · exact LeafSet.take_place_take (h.kept_ranked side) n _
    · rfl

theorem Coherent.complete_evict_iff (h : p.Coherent known) {side : Side}
    (hcomplete : p.Complete side) (id : Id) :
    (p.evict id).1.Complete side ↔ p.vacates side (.evict id) = false := by
  have hcapacity : (p.evict id).1.leaves.capacity = p.leaves.capacity :=
    (p.update_parameters (.evict id)).2
  rw [complete_iff] at hcomplete ⊢
  rw [h.half_evict, hcapacity, h.ranked_evict, hcomplete, eraseP_take_iff, vacates, hcomplete,
    ← length_ranked, ← Bool.not_eq_true, Bool.and_eq_true, decide_eq_true_eq]

theorem Coherent.complete_update_iff (h : p.Coherent known)
    (haround : Around origin metric config p) {side : Side} (hcomplete : p.Complete side)
    (u : Update) : (p.update u).Complete side ↔ p.vacates side u = false := by
  cases u with
  | insert n => exact iff_of_true (h.complete_insert haround hcomplete n) rfl
  | evict id => exact h.complete_evict_iff hcomplete id

/-- The invariant of a run in which no eviction vacates a place. -/
theorem Coherent.complete_updateAll (h : p.Coherent known)
    (haround : Around origin metric config p) {side : Side} (hcomplete : p.Complete side)
    {history : List Update} (hnone : vacancies side p history = 0) :
    (p.updateAll history).Complete side := by
  induction history generalizing p known with
  | nil => exact hcomplete
  | cons u history ih =>
    obtain ⟨hfirst, hrest⟩ := Nat.add_eq_zero_iff.mp hnone
    have hkeeps : p.vacates side u = false := by
      cases hvacates : p.vacates side u with
      | false => rfl
      | true => simp [hvacates] at hfirst
    exact ih (h.update u) (haround.update u)
      ((h.complete_update_iff haround hcomplete u).mpr hkeeps) hrest

theorem Coherent.half_subset (h : p.Coherent known) (haround : Around origin metric config p)
    (side : Side) : p.leaves.half side ⊆ p.ranked side := by
  intro n hn
  have hside := (h.leaves.half side).side_of_mem n hn
  rw [haround.same_origin] at hside
  refine h.mem_ranked.mpr ⟨h.leaf_known n ?_, hside⟩
  cases side with
  | below => exact List.mem_append_left _ hn
  | above => exact List.mem_append_right _ hn

theorem Coherent.any_ranked (h : p.Coherent known) (haround : Around origin metric config p)
    {side : Side} {id : Id} (hmember : (p.leaves.half side).any (·.id = id) = true) :
    (p.ranked side).any (·.id = id) = true := by
  obtain ⟨n, hn, hid⟩ := List.any_eq_true.mp hmember
  exact List.any_eq_true.mpr ⟨n, h.half_subset haround side hn, hid⟩

/-- At most `missing` more stored nodes of a side would fit in its half. -/
def ShortBy (p : Peers) (side : Side) (missing : Nat) : Prop :=
  min p.leaves.capacity (p.stored side).length ≤ (p.leaves.half side).length + missing

theorem Coherent.shortBy_insert (h : p.Coherent known) (haround : Around origin metric config p)
    {side : Side} {missing : Nat} (hshort : p.ShortBy side missing) (n : Node) :
    (p.insert n).1.ShortBy side missing := by
  rcases p.insert_cases n with ⟨-, hinsert⟩ | ⟨htaken, -⟩
  · rw [hinsert]
    exact hshort
  · have hcapacity : (p.insert n).1.leaves.capacity = p.leaves.capacity :=
      (p.update_parameters (.insert n)).2
    have hmember : (p.leaves.half side).any (·.id = n.id) = true →
        (p.ranked side).any (·.id = n.id) = true := h.any_ranked haround
    unfold ShortBy at hshort ⊢
    rw [← length_ranked] at hshort ⊢
    rw [hcapacity, h.half_insert haround htaken, h.ranked_insert htaken]
    split
    · rw [List.length_take, length_place, length_place, List.length_eraseP, List.length_eraseP]
      -- A new copy changes no number. A new node adds one to both, unless the half is full.
      by_cases hold : (p.ranked side).any (·.id = n.id) = true
      · have hpos : 0 < (p.ranked side).length := by
          obtain ⟨a, ha, -⟩ := List.any_eq_true.mp hold
          exact List.length_pos_of_mem ha
        rw [if_pos hold]
        split <;> omega
      · rw [if_neg hold, if_neg fun hkept => hold (hmember hkept)]
        omega
    · exact hshort

theorem Coherent.shortBy_evict (h : p.Coherent known) (haround : Around origin metric config p)
    {side : Side} {missing : Nat} (hshort : p.ShortBy side missing) (id : Id) :
    (p.evict id).1.ShortBy side (missing + if p.vacates side (.evict id) then 1 else 0) := by
  have hcapacity : (p.evict id).1.leaves.capacity = p.leaves.capacity :=
    (p.update_parameters (.evict id)).2
  have hstored := length_ranked p side
  unfold ShortBy at hshort ⊢
  rw [← length_ranked, hcapacity, h.half_evict, h.ranked_evict, List.length_eraseP,
    List.length_eraseP, hstored]
  by_cases hkept : (p.leaves.half side).any (·.id = id) = true
  · simp only [vacates, hkept, h.any_ranked haround hkept, if_true, Bool.true_and,
      decide_eq_true_eq]
    split <;> omega
  · simp only [vacates, hkept, if_false, Bool.false_and, Bool.false_eq_true, Nat.add_zero]
    split <;> omega

theorem Coherent.shortBy_update (h : p.Coherent known) (haround : Around origin metric config p)
    {side : Side} {missing : Nat} (hshort : p.ShortBy side missing) (u : Update) :
    (p.update u).ShortBy side (missing + if p.vacates side u then 1 else 0) := by
  cases u with
  | insert n => exact h.shortBy_insert haround hshort n
  | evict id => exact h.shortBy_evict haround hshort id

/-- The invariant of a run: a half is short by at most the places that evictions have vacated. -/
theorem Coherent.shortBy_updateAll (h : p.Coherent known)
    (haround : Around origin metric config p) {side : Side} {missing : Nat}
    (hshort : p.ShortBy side missing) (history : List Update) :
    (p.updateAll history).ShortBy side (missing + vacancies side p history) := by
  induction history generalizing p known missing with
  | nil => exact hshort
  | cons u history ih =>
    rw [vacancies, ← Nat.add_assoc]
    exact ih (h.update u) (haround.update u) (h.shortBy_update haround hshort u)

theorem empty_stored (origin : Node) (metric : Metric) (config : Config) (side : Side) :
    (empty origin metric config).stored side = [] := by
  rw [stored, empty_entries, List.filter_nil]

/-- Every stored node lies on one of the two sides. -/
theorem Coherent.entries_eq_nil (h : p.Coherent known) (hnone : ∀ side, p.stored side = []) :
    p.table.entries = [] := by
  refine List.eq_nil_iff_forall_not_mem.mpr fun n hn => ?_
  have hlocated := h.stores.located n.id n ((h.stores.mem_entries n).mp hn)
  have hne : n.id ≠ p.table.origin.id := (PrefixTable.cell?_isSome.mp hlocated.2).2
  have hnot (side : Side) : ¬side.holds p.table.origin.id n.id = true := fun hside => by
    have hstored : n ∈ p.stored side := List.mem_filter.mpr ⟨hn, hside⟩
    rw [hnone side] at hstored
    cases hstored
  rcases LeafSet.side_cases p.table.origin.id n.id with heq | ⟨hside, -⟩ | ⟨hside, -⟩
  · exact hne heq
  · exact hnot .below hside
  · exact hnot .above hside

/-- As long as no eviction takes a member out of a half that has left out a stored node, the half of
a side holds the nearest stored nodes of that side, as many as fit, and just such an eviction ends
this. In general a half is short by at most the number of such evictions, since nothing refills it.
Without them an empty leaf set, which covers every key, means an empty table. -/
theorem halves_under_churn (origin : Node) (metric : Metric) (config : Config)
    (history : List Update) :
    let start := empty origin metric config
    let p := start.updateAll history
    (∀ side, vacancies side start history = 0 → p.Complete side) ∧
      (∀ side u, p.Complete side → ((p.update u).Complete side ↔ p.vacates side u = false)) ∧
      (∀ side, min config.leafCapacity (p.stored side).length ≤
        (p.leaves.half side).length + vacancies side start history) ∧
      (0 < config.leafCapacity → (∀ side, vacancies side start history = 0) →
        p.leaves.isEmpty = true → p.table.entries = []) := by
  intro start p
  have hstart : start.Coherent ∅ := empty_coherent origin metric config
  have haround : Around origin metric config start := empty_around origin metric config
  obtain ⟨haroundp, h⟩ := updateAll_empty origin metric config history
  have hempty (side : Side) : start.leaves.half side = [] := by cases side <;> rfl
  have hcomplete (side : Side) : start.Complete side := by
    have hranked : start.ranked side = [] := by
      rw [ranked, empty_stored, Ranked.sort, List.mergeSort_nil]
    rw [complete_iff, hempty, hranked, List.take_nil]
  have hshort (side : Side) : min config.leafCapacity (p.stored side).length ≤
      (p.leaves.half side).length + vacancies side start history := by
    have hstartShort : start.ShortBy side 0 := by simp [ShortBy, start, empty_stored]
    have hrun := hstart.shortBy_updateAll haround hstartShort history
    rwa [Nat.zero_add, ShortBy, haroundp.leaves_capacity] at hrun
  refine ⟨fun side => hstart.complete_updateAll haround (hcomplete side),
    fun side u hnow => h.complete_update_iff haroundp hnow u, hshort, ?_⟩
  intro hpos hnone hisEmpty
  refine h.entries_eq_nil fun side => ?_
  have hhalf : p.leaves.half side = [] := by
    obtain ⟨hbelow, habove⟩ := (Bool.and_eq_true _ _).mp hisEmpty
    cases side with
    | below => exact List.isEmpty_iff.mp hbelow
    | above => exact List.isEmpty_iff.mp habove
  have hbound : min config.leafCapacity (p.stored side).length ≤ 0 := by
    simpa [hhalf, hnone side] using hshort side
  have hlength : (p.stored side).length = 0 := by omega
  exact List.eq_nil_of_length_eq_zero hlength

/-- A half with room for one turns a node away and then loses the one it has. The node that was
turned away is stored and not called back, and the origin claims every key as if it were alone. -/
theorem eviction_empties_half :
    let space : Keyspace.Space := { radix := .binary, length := 2 }
    let node := Node.sample space
    let config : Config := { space, leafCapacity := 1 }
    let p := (empty (node 0) .default config).updateAll
      [.insert (node 1), .insert (node 2), .evict (node 1).id]
    config.check = .ok .default ∧ p.table.entries = [node 2] ∧ p.leaves.isEmpty = true ∧
      (∀ key, p.leaves.covers key = true) ∧ ¬p.Complete .above := by
  refine ⟨?_, by rfl, by rfl, fun key => by rfl, fun hcomplete => ?_⟩
  · rw [Config.check_eq_ok]
    exact ⟨dif_pos Metric.default.penalty_exceedsOne, by decide⟩
  · exact absurd hcomplete.length_half (by decide)

end Peers

end Overlay
