import Mathlib
import Overlay.Proofs.Config
import Overlay.Proofs.Peers.Coherence
import Overlay.Proofs.Peers.Displacement

/-!
How well the neighborhood reflects what the table stores while nodes are measured again. A neighbor
keeps its place when a new copy of it arrives, wherever that ranks, and nobody is called back from
the table. What is out of place is counted: neighbors that a stored node from outside outranks. Only
a new copy of a neighbor that falls behind such a node adds to the count, and by one.
-/

namespace Overlay

open Keyspace (Id)
open Roster (Distinct Kept place length_place)

namespace Peers

/-- A stored node which is no neighbor ranks before `n`. -/
def outranked (p : Peers) (n : Node) : Bool :=
  p.table.entries.any fun m =>
    !p.neighborhood.contains m.id && p.table.metric.nearer p.table.origin m n

/-- True of a new copy of a neighbor that falls behind a stored node which is no neighbor. -/
def demotes (p : Peers) (n : Node) : Bool := p.neighborhood.contains n.id && p.outranked n

/-- The number of such copies in a series of insertions. -/
def demotions (p : Peers) : List Node → Nat
  | [] => 0
  | n :: insertions => (if p.demotes n then 1 else 0) + demotions (p.insert n).1 insertions

/-- The number of neighbors that a stored node which is no neighbor outranks. -/
def misplaced (p : Peers) : Nat := p.neighborhood.members.countP p.outranked

/-- The neighborhood holds the nearest stored nodes, as many as fit. -/
def Nearest (p : Peers) : Prop :=
  p.neighborhood.members =
    Ranked.nearest (p.table.metric.nearer p.table.origin) p.neighborhood.capacity p.table.entries

variable {origin : Node} {metric : Metric} {config : Config} {p : Peers} {known : Known}

theorem outranked_eq_true {n : Node} :
    p.outranked n = true ↔ ∃ m ∈ p.table.entries,
      (∀ a ∈ p.neighborhood.members, a.id ≠ m.id) ∧ p.table.before m n = true := by
  simp [outranked, Neighborhood.contains, PrefixTable.before]

/-- The neighborhood is full, or holds all there is. -/
def Stocked (p : Peers) : Prop :=
  p.neighborhood.members.length = min p.neighborhood.capacity p.table.entries.length

theorem Around.same_rank (h : Around origin metric config p) :
    p.neighborhood.metric.nearer p.neighborhood.origin = p.table.before := by
  rw [h.neighborhood_metric, h.neighborhood_origin, ← h.table_metric, ← h.table_origin]
  rfl

theorem insert_before (p : Peers) (n : Node) :
    (p.insert n).1.table.before = p.table.before := by
  rcases p.insert_cases n with ⟨-, hinsert⟩ | ⟨-, hinsert⟩
  · rw [hinsert]
  · obtain ⟨horigin, hmetric⟩ := p.table.update_parameters (.insert n)
    rw [hinsert]
    funext a b
    rw [PrefixTable.before, PrefixTable.before]
    exact congrArg₂ (fun (m : Metric) o => m.nearer o a b) hmetric horigin

theorem Coherent.kept_members (h : p.Coherent known) (haround : Around origin metric config p) :
    Kept p.table.before p.neighborhood.members := by
  rw [← haround.same_rank]
  exact h.neighborhood.kept

theorem Coherent.members_subset (h : p.Coherent known) :
    p.neighborhood.members ⊆ p.table.entries := fun n hn =>
  (h.stores.mem_entries n).mpr (h.neighbor_known n hn)

/-- A new copy changes no number, and a new node adds one. -/
theorem Coherent.length_entries_insert (h : p.Coherent known) {n : Node}
    (htaken : (p.table.insert n).2 ≠ .ignored) :
    (p.insert n).1.table.entries.length =
      p.table.entries.length + if p.table.entries.any (·.id = n.id) then 0 else 1 := by
  have hrest : Distinct (p.table.entries.eraseP (·.id = n.id)) :=
    h.stores.distinct_entries.of_sublist List.eraseP_sublist
  have hnew : n ∉ p.table.entries.eraseP (·.id = n.id) := fun hn =>
    (h.stores.distinct_entries.mem_eraseP.mp hn).2 rfl
  have hperm : (p.insert n).1.table.entries.Perm (n :: p.table.entries.eraseP (·.id = n.id)) := by
    refine (List.perm_ext_iff_of_nodup ((h.insert n).stores.distinct_entries.of_map _)
      (List.nodup_cons.mpr ⟨hnew, hrest.of_map _⟩)).mpr fun a => ?_
    rw [h.mem_entries_insert htaken, List.mem_cons, h.stores.distinct_entries.mem_eraseP]
  rw [hperm.length_eq, List.length_cons, List.length_eraseP]
  split
  case isTrue hold =>
    obtain ⟨a, ha, -⟩ := List.any_eq_true.mp hold
    have hpos := List.length_pos_of_mem ha
    omega
  case isFalse => rfl

theorem Coherent.offered (h : p.Coherent known) (haround : Around origin metric config p)
    {n : Node} (htaken : (p.table.insert n).2 ≠ .ignored) :
    Neighborhood.Offered p.table.before p.neighborhood.capacity n p.neighborhood.members
      (p.insert n).1.neighborhood.members := by
  have hid : n.id ≠ p.neighborhood.origin.id := by
    rw [haround.neighborhood_origin, ← haround.table_origin]
    by_contra hself
    exact htaken ((p.table.insert_ignored_iff n).mpr fun hlocal => hlocal.2 hself)
  rcases p.insert_cases n with ⟨hignored, -⟩ | ⟨-, hinsert⟩
  · exact absurd hignored htaken
  · rw [hinsert, ← haround.same_rank]
    exact h.neighborhood.offered hid

theorem insert_neighborhood_capacity (p : Peers) (n : Node) :
    (p.insert n).1.neighborhood.capacity = p.neighborhood.capacity := by
  rcases p.insert_cases n with ⟨-, hinsert⟩ | ⟨-, hinsert⟩
  · rw [hinsert]
  · rw [hinsert]
    exact (p.neighborhood.update_parameters (.insert n)).2.2

/-- With room for all, everything stored is a neighbor. -/
theorem Coherent.entries_subset (h : p.Coherent known) (hstocked : p.Stocked)
    (hroom : p.table.entries.length ≤ p.neighborhood.capacity) :
    p.table.entries ⊆ p.neighborhood.members := by
  rw [Stocked, Nat.min_eq_right hroom] at hstocked
  have hdistinct : p.neighborhood.members.Nodup := h.neighborhood.kept.distinct.of_map _
  exact ((List.subperm_of_subset hdistinct h.members_subset).perm_of_length_le
    (Nat.le_of_eq hstocked.symm)).symm.subset

theorem Coherent.stocked_insert (h : p.Coherent known) (haround : Around origin metric config p)
    (hstocked : p.Stocked) (n : Node) : (p.insert n).1.Stocked := by
  rcases p.insert_cases n with ⟨-, hinsert⟩ | ⟨htaken, -⟩
  · rw [hinsert]
    exact hstocked
  · have hentries := h.length_entries_insert htaken
    have hall := h.entries_subset hstocked
    unfold Stocked at hstocked ⊢
    rw [insert_neighborhood_capacity, hentries]
    have hoffered := h.offered haround htaken
    generalize (p.insert n).1.neighborhood.members = after at hoffered ⊢
    cases hoffered with
    | renewed hmember =>
      obtain ⟨m, hm, hid⟩ := hmember
      have hpos := List.length_pos_of_mem hm
      rw [if_pos (List.any_eq_true.mpr ⟨m, h.members_subset hm, by simpa using hid⟩),
        length_place, List.length_eraseP, if_pos (List.any_eq_true.mpr ⟨m, hm, by simpa using hid⟩)]
      omega
    | joined hnew hroom =>
      have hnowhere : ¬p.table.entries.any (·.id = n.id) = true := by
        intro hany
        obtain ⟨m, hm, hid⟩ := List.any_eq_true.mp hany
        exact hnew m (hall (by omega) hm) (by simpa using hid)
      rw [if_neg hnowhere, Ranked.length_insert]
      omega
    | rejected hnew hfull => omega
    | displaced hnew hfull hms =>
      have hlength := congrArg List.length hms
      rw [List.length_append, List.length_singleton] at hlength
      rw [Ranked.length_insert]
      omega

/-- A set with room for all has nobody out of place. -/
theorem Coherent.misplaced_eq_zero (h : p.Coherent known) (hstocked : p.Stocked)
    (hroom : p.table.entries.length ≤ p.neighborhood.capacity) : p.misplaced = 0 := by
  refine List.countP_eq_zero.mpr fun n _ houtranked => ?_
  obtain ⟨m, hm, houtside, -⟩ := outranked_eq_true.mp houtranked
  exact houtside m (h.entries_subset hstocked hroom hm) rfl

/-- What outranks a node after an insertion is the new copy or was stored before. -/
theorem Coherent.outranked_insert_iff (h : p.Coherent known) {n : Node}
    (htaken : (p.table.insert n).2 ≠ .ignored) (a : Node) :
    (p.insert n).1.outranked a = true ↔
      ∃ m, (m = n ∨ m ∈ p.table.entries ∧ m.id ≠ n.id) ∧
        (∀ b ∈ (p.insert n).1.neighborhood.members, b.id ≠ m.id) ∧
          p.table.before m a = true := by
  rw [outranked_eq_true, insert_before]
  exact exists_congr fun m => and_congr_left fun _ => h.mem_entries_insert htaken

/-- A new copy of a neighbor leaves those outside where they are. -/
theorem Coherent.outranked_renewed (h : p.Coherent known)
    (haround : Around origin metric config p) {n : Node}
    (htaken : (p.table.insert n).2 ≠ .ignored)
    (hmember : ∃ m ∈ p.neighborhood.members, m.id = n.id) (a : Node) :
    (p.insert n).1.outranked a = true ↔ p.outranked a = true := by
  rw [h.outranked_insert_iff htaken, outranked_eq_true, (h.offered haround htaken).eq_place hmember]
  refine exists_congr fun m => ?_
  rw [← and_assoc, ← and_assoc]
  refine and_congr_left fun _ => ?_
  have hmem {b : Node} := (h.kept_members haround).mem_place (n := n) (a := b)
  constructor
  · rintro ⟨rfl | ⟨hm, hne⟩, houtside⟩
    · exact absurd rfl (houtside m (hmem.mpr (Or.inl rfl)))
    · refine ⟨hm, fun b hb hid => ?_⟩
      exact houtside b (hmem.mpr (Or.inr ⟨hb, hid ▸ hne⟩)) hid
  · rintro ⟨hm, houtside⟩
    obtain ⟨old, hold, hid⟩ := hmember
    have hne : m.id ≠ n.id := fun heq => houtside old hold (hid.trans heq.symm)
    refine ⟨Or.inr ⟨hm, hne⟩, fun b hb => ?_⟩
    rcases hmem.mp hb with rfl | ⟨hb, -⟩
    · exact Ne.symm hne
    · exact houtside b hb

/-- The neighbor that makes room outranks nobody who ranks before it. -/
theorem Coherent.outranked_of_displaced (h : p.Coherent known) {n worst a : Node}
    {others : List Node}
    (htaken : (p.table.insert n).2 ≠ .ignored)
    (hmembers : p.neighborhood.members = others ++ [worst])
    (hafter : (p.insert n).1.neighborhood.members = Ranked.insert p.table.before n others)
    (hahead : p.table.before a worst = true) (houtranked : (p.insert n).1.outranked a = true) :
    p.outranked a = true := by
  obtain ⟨m, hm, houtside, hbefore⟩ := (h.outranked_insert_iff htaken a).mp houtranked
  rw [hafter] at houtside
  have hother (b : Node) (hb : b ∈ others) : b.id ≠ m.id :=
    houtside b (Ranked.mem_insert.mpr (Or.inr hb))
  rcases hm with rfl | ⟨hm, -⟩
  · exact absurd rfl (houtside m (Ranked.mem_insert_self _ _))
  · have hworst : worst.id ≠ m.id := fun hid => by
      have hstored : worst ∈ p.table.entries := h.members_subset (by simp [hmembers])
      rw [← h.stores.distinct_entries.eq_of_id hstored hm hid,
        Ranked.Ranking.asymm hahead] at hbefore
      cases hbefore
    refine outranked_eq_true.mpr ⟨m, hm, fun b hb => ?_, hbefore⟩
    rw [hmembers, List.mem_append, List.mem_singleton] at hb
    rcases hb with hb | rfl
    · exact hother b hb
    · exact hworst

theorem countP_insert (before : Node → Node → Bool) (q : Node → Bool) (n : Node) (ns : List Node) :
    (Ranked.insert before n ns).countP q = ns.countP q + if q n then 1 else 0 := by
  rw [Ranked.insert_perm.countP_eq, List.countP_cons]

/-- Only a demotion puts a neighbor out of place, and no more than one. -/
theorem Coherent.misplaced_insert (h : p.Coherent known) (haround : Around origin metric config p)
    (hstocked : p.Stocked) (n : Node) :
    (p.insert n).1.misplaced ≤ p.misplaced + if p.demotes n then 1 else 0 := by
  rcases p.insert_cases n with ⟨-, hinsert⟩ | ⟨htaken, -⟩
  · rw [hinsert]
    exact Nat.le_add_right _ _
  · have hascending := (h.kept_members haround).ascending
    have hoffered := h.offered haround htaken
    generalize hafter : (p.insert n).1.neighborhood.members = after at hoffered
    cases hoffered with
    | renewed hmember =>
      have hsame : (p.insert n).1.outranked = p.outranked :=
        funext fun a => Bool.eq_iff_iff.mpr (h.outranked_renewed haround htaken hmember a)
      have hcontains : p.neighborhood.contains n.id = true :=
        Neighborhood.contains_iff.mpr hmember
      rw [misplaced, hafter, hsame, place, countP_insert, demotes, hcontains, Bool.true_and,
        misplaced]
      exact Nat.add_le_add_right (List.eraseP_sublist.countP_le) _
    | joined hnew hroom =>
      have hentries := h.length_entries_insert htaken
      have hfits : (p.insert n).1.table.entries.length ≤
          (p.insert n).1.neighborhood.capacity := by
        rw [insert_neighborhood_capacity, hentries]
        unfold Stocked at hstocked
        split <;> omega
      rw [(h.insert n).misplaced_eq_zero (h.stocked_insert haround hstocked n) hfits]
      exact Nat.zero_le _
    | rejected hnew hfull hbehind =>
      rw [misplaced, hafter]
      refine Nat.le_add_right_of_le (List.countP_mono_left fun a ha houtranked => ?_)
      obtain ⟨m, hm, houtside, hbefore⟩ := (h.outranked_insert_iff htaken a).mp houtranked
      rw [hafter] at houtside
      rcases hm with rfl | ⟨hm, -⟩
      · rw [Ranked.Ranking.asymm (hbehind a ha)] at hbefore
        cases hbefore
      · exact outranked_eq_true.mpr ⟨m, hm, houtside, hbefore⟩
    | @displaced others worst hnew hfull hms hahead =>
      have hkeeps {a : Node} (ha : p.table.before a worst = true)
          (houtranked : (p.insert n).1.outranked a = true) : p.outranked a = true :=
        h.outranked_of_displaced htaken hms hafter ha houtranked
      have hothers : others.countP (p.insert n).1.outranked ≤ others.countP p.outranked := by
        rw [hms] at hascending
        refine List.countP_mono_left fun a ha => hkeeps ?_
        exact (List.pairwise_append.mp hascending).2.2 a ha worst (List.mem_singleton_self worst)
      -- What is ahead of the new node is ahead of the neighbor that makes room for it.
      have hplace : (p.insert n).1.outranked n = true → p.outranked worst = true := by
        intro houtranked
        obtain ⟨m, hm, houtside, hbefore⟩ := outranked_eq_true.mp (hkeeps hahead houtranked)
        exact outranked_eq_true.mpr ⟨m, hm, houtside, Ranked.Ranking.trans hbefore hahead⟩
      rw [misplaced, hafter, countP_insert, misplaced, hms, List.countP_append,
        List.countP_singleton]
      by_cases houtranked : (p.insert n).1.outranked n = true
      · rw [if_pos houtranked, if_pos (hplace houtranked)]
        omega
      · rw [if_neg houtranked]
        omega

/-- The invariants of a run: the set is full or holds all there is, and no more neighbors are out of
place than were demoted. -/
theorem Coherent.misplaced_updateAll (h : p.Coherent known)
    (haround : Around origin metric config p) (hstocked : p.Stocked) (insertions : List Node) :
    (p.updateAll (insertions.map .insert)).Stocked ∧
      (p.updateAll (insertions.map .insert)).misplaced ≤ p.misplaced + p.demotions insertions := by
  induction insertions generalizing p known with
  | nil => exact ⟨hstocked, Nat.le_refl _⟩
  | cons n insertions ih =>
    obtain ⟨hlater, hrest⟩ := ih (h.insert n) (haround.update (.insert n))
      (h.stocked_insert haround hstocked n)
    refine ⟨hlater, Nat.le_trans hrest ?_⟩
    rw [demotions, ← Nat.add_assoc]
    exact Nat.add_le_add_right (h.misplaced_insert haround hstocked n) _

theorem Coherent.sorted (h : p.Coherent known) :
    Ranked.Ascending p.table.before (Ranked.sort p.table.before p.table.entries) :=
  Ranked.sort_ascending h.stores.distinct_entries

/-- With nobody out of place the stored nodes are the neighbors, and behind them the others. -/
theorem Coherent.sort_eq (h : p.Coherent known) (haround : Around origin metric config p)
    (hnone : p.misplaced = 0) :
    Ranked.sort p.table.before p.table.entries = p.neighborhood.members ++
      (Ranked.sort p.table.before p.table.entries).filter (!p.neighborhood.contains ·.id) := by
  refine h.sorted.ext (List.pairwise_append.mpr ⟨(h.kept_members haround).ascending,
    h.sorted.sublist List.filter_sublist, fun a ha m hm => ?_⟩) fun a => ?_
  · obtain ⟨hm, houtside⟩ := List.mem_filter.mp hm
    have houtside : ∀ b ∈ p.neighborhood.members, b.id ≠ m.id := by
      simpa [Neighborhood.contains] using houtside
    have hcomparable : p.table.before a m = true ∨ p.table.before m a = true :=
      Ranked.Ranking.comparable (houtside a ha)
    refine hcomparable.resolve_right fun hbefore => ?_
    exact List.countP_eq_zero.mp hnone a ha
      (outranked_eq_true.mpr ⟨m, Ranked.mem_sort.mp hm, houtside, hbefore⟩)
  · rw [List.mem_append, List.mem_filter, Ranked.mem_sort]
    constructor
    · intro ha
      cases hcontains : p.neighborhood.contains a.id with
      | true =>
        obtain ⟨b, hb, hid⟩ := List.any_eq_true.mp hcontains
        have hsame : b = a := h.stores.distinct_entries.eq_of_id (h.members_subset hb) ha
          (by simpa using hid)
        exact Or.inl (hsame ▸ hb)
      | false => exact Or.inr ⟨ha, rfl⟩
    · rintro (ha | ha)
      · exact h.members_subset ha
      · exact ha.1

theorem Coherent.nearest_iff (h : p.Coherent known) (haround : Around origin metric config p)
    (hstocked : p.Stocked) : p.Nearest ↔ p.misplaced = 0 := by
  constructor
  · intro (hnearest : p.neighborhood.members =
      (Ranked.sort p.table.before p.table.entries).take p.neighborhood.capacity)
    refine List.countP_eq_zero.mpr fun a ha houtranked => ?_
    obtain ⟨m, hm, houtside, hbefore⟩ := outranked_eq_true.mp houtranked
    have hlater :
        m ∈ (Ranked.sort p.table.before p.table.entries).drop p.neighborhood.capacity := by
      have hsorted : m ∈ Ranked.sort p.table.before p.table.entries := Ranked.mem_sort.mpr hm
      rw [← List.take_append_drop p.neighborhood.capacity (Ranked.sort _ _), List.mem_append,
        ← hnearest] at hsorted
      exact hsorted.resolve_left fun hmember => houtside m hmember rfl
    have hsorted := h.sorted
    rw [← List.take_append_drop p.neighborhood.capacity (Ranked.sort _ _), ← hnearest] at hsorted
    rw [Ranked.Ranking.asymm ((List.pairwise_append.mp hsorted).2.2 a ha m hlater)] at hbefore
    cases hbefore
  · intro hnone
    have hsort := h.sort_eq haround hnone
    have hlength := congrArg List.length hsort
    rw [List.length_append, Ranked.sort, List.length_mergeSort] at hlength
    change p.neighborhood.members =
      (Ranked.sort p.table.before p.table.entries).take p.neighborhood.capacity
    unfold Stocked at hstocked
    rcases Nat.le_total p.neighborhood.capacity p.table.entries.length with hfull | hroom
    · rw [hsort, List.take_left' (by omega)]
    · have hrest : ((p.table.entries.mergeSort fun a b => !p.table.before b a).filter
          (!p.neighborhood.contains ·.id)).length = 0 := by omega
      rw [hsort, Ranked.sort, List.eq_nil_of_length_eq_zero hrest, List.append_nil,
        List.take_of_length_le (by omega)]

/-- A stored node is none that the table ignores. -/
theorem Coherent.taken_of_member (h : p.Coherent known) {n : Node}
    (hmember : ∃ m ∈ p.neighborhood.members, m.id = n.id) : (p.table.insert n).2 ≠ .ignored := by
  obtain ⟨m, hm, hid⟩ := hmember
  have hlocated := (h.stores.located m.id m (h.neighbor_known m hm)).2
  rw [hid, PrefixTable.cell?_isSome] at hlocated
  exact fun hignored => (p.table.insert_ignored_iff n).mp hignored hlocated

/-- A demotion puts the neighbor out of place. -/
theorem Coherent.misplaced_pos (h : p.Coherent known) (haround : Around origin metric config p)
    {n : Node} (hdemotes : p.demotes n = true) : 0 < (p.insert n).1.misplaced := by
  obtain ⟨hcontains, houtranked⟩ := (Bool.and_eq_true _ _).mp hdemotes
  have hmember := Neighborhood.contains_iff.mp hcontains
  have htaken := h.taken_of_member hmember
  refine List.countP_pos_iff.mpr
    ⟨n, ?_, (h.outranked_renewed haround htaken hmember n).mpr houtranked⟩
  rw [(h.offered haround htaken).eq_place hmember]
  exact Ranked.mem_insert_self _ _

theorem Coherent.nearest_insert_iff (h : p.Coherent known)
    (haround : Around origin metric config p) (hstocked : p.Stocked) (hnearest : p.Nearest)
    (n : Node) : (p.insert n).1.Nearest ↔ p.demotes n = false := by
  rw [(h.insert n).nearest_iff (haround.update (.insert n)) (h.stocked_insert haround hstocked n)]
  have hstep := h.misplaced_insert haround hstocked n
  rw [(h.nearest_iff haround hstocked).mp hnearest, Nat.zero_add] at hstep
  cases hdemotes : p.demotes n with
  | true =>
    have hpos := h.misplaced_pos haround hdemotes
    simp only [Bool.true_eq_false, iff_false]
    omega
  | false =>
    rw [hdemotes] at hstep
    simpa using hstep

/-- Nodes are inserted, each once or in one new copy after the other. As long as no new copy of a
neighbor falls behind a stored node which is no neighbor, the neighborhood holds the nearest stored
nodes, as many as fit, and just such a copy ends this. In general no more neighbors are out of place
than copies fell behind like this, and the neighborhood is still ordered, in step with the table and
as large as it can be. -/
theorem neighborhood_under_remeasuring (origin : Node) (metric : Metric) (config : Config)
    (insertions : List Node) :
    let start := empty origin metric config
    let p := start.applyAll (insertions.map .insert)
    (start.demotions insertions = 0 → p.Nearest) ∧
      (p.Nearest → ∀ n, (p.apply (.insert n)).Nearest ↔ p.demotes n = false) ∧
      (p.Nearest ↔ p.misplaced = 0) ∧
      p.misplaced ≤ start.demotions insertions ∧
      p.neighborhood.members.length = min config.neighborhoodCapacity p.table.entries.length ∧
      p.neighborhood.members.Pairwise (fun a b => metric.nearer origin a b = true) ∧
      ∀ n ∈ p.neighborhood.members, n ∈ p.table.entries := by
  intro start p
  have hstart : start.Coherent ∅ := empty_coherent origin metric config
  have haround : Around origin metric config start := empty_around origin metric config
  have hstocked : start.Stocked := by
    rw [Stocked, empty_entries, List.length_nil, Nat.min_zero]
    rfl
  have hp : p = start.updateAll (insertions.map .insert) := by
    change start.applyAll (insertions.map .insert) = _
    rw [applyAll_eq, List.filterMap_map, ← List.filterMap_eq_map]
    rfl
  obtain ⟨haroundp, h⟩ := updateAll_empty origin metric config (insertions.map .insert)
  obtain ⟨hstockedp, hbound⟩ := hstart.misplaced_updateAll haround hstocked insertions
  rw [← hp] at haroundp h hstockedp hbound
  have hbound : p.misplaced ≤ start.demotions insertions := by
    rwa [show start.misplaced = 0 from rfl, Nat.zero_add] at hbound
  have hnearest := h.nearest_iff haroundp hstockedp
  refine ⟨fun hnone => hnearest.mpr (by omega),
    fun hnow n => h.nearest_insert_iff haroundp hstockedp hnow n, hnearest, hbound, ?_, ?_,
    h.members_subset⟩
  · rw [← haroundp.neighborhood_capacity]
    exact hstockedp
  · have hascending := (h.kept_members haroundp).ascending
    rw [← haroundp.same_rank, haroundp.neighborhood_metric, haroundp.neighborhood_origin]
      at hascending
    exact hascending

/-- The only neighbor is measured again and falls behind the node that it kept out. It stays, and
the other one, stored and now nearer, is not called back. -/
theorem demoted_neighbor_stays :
    let node (value : Keyspace.Word) (latency : Nat) : Node :=
      (Node.sample .canonical value).withLatency latency
    let config : Config := { space := .canonical, neighborhoodCapacity := 1 }
    let p := (empty (node 0 0) .default config).applyAll
      [.insert (node 1 10), .insert (node 2 20), .insert (node 1 30)]
    config.check = .ok .default ∧ p.neighborhood.members = [node 1 30] ∧
      Ranked.nearest (Metric.default.nearer (node 0 0)) 1 p.table.entries = [node 2 20] := by
  intro node config p
  have hentries : p.table.entries = [node 1 30, node 2 20] := by decide +kernel
  have hperm : p.table.entries.Perm [node 2 20, node 1 30] := by
    rw [hentries]
    exact List.Perm.swap _ _ _
  have hpair : Ranked.Ascending (Metric.default.nearer (node 0 0)) [node 2 20, node 1 30] :=
    List.pairwise_pair.mpr (by decide +kernel)
  refine ⟨?_, by decide +kernel, ?_⟩
  · rw [Config.check_eq_ok]
    exact ⟨dif_pos Metric.default.penalty_exceedsOne, by decide⟩
  · rw [Ranked.nearest_eq_of_perm hperm (by decide +kernel), Ranked.nearest, hpair.sort_eq]
    rfl

end Peers

end Overlay
