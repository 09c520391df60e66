import Mathlib
import Overlay.Peers.LeafSet
import Overlay.Proofs.Keyspace.Order
import Overlay.Proofs.Peers.History
import Overlay.Proofs.Peers.Roster

/-!
What a leaf set keeps. The rank of a node depends on its identifier alone. A bounded half that is
offered nodes one by one is therefore always the beginning of the half without a bound, and that is
the sorted list of all candidates.
-/

namespace Overlay.LeafSet

open Keyspace (Id)
open Ranked (Ranking)
open Roster (Kept Distinct place place_of_new placeAll latest mem_ids_filter)

variable {origin : Id}

instance (origin : Id) : Ranking (closer origin) id :=
  Ranking.of_cmp (compareLex (compareOn origin.distance) Id.order) fun a b h => by
    rw [compareLex, Ordering.then_eq_eq] at h
    exact Std.LawfulEqCmp.eq_of_compare h.2

/-- `a` ranks before `b` in a half. -/
def nearer (origin : Id) (a b : Node) : Bool := closer origin a.id b.id

instance (origin : Id) : Ranking (nearer origin) Node.id :=
  Ranking.of_key Node.id (closer origin)

/-- Exchanging the copy where it stands is the same as ranking the new copy. -/
theorem exchange_eq_place {half : List Node} (h : Kept (nearer origin) half) {n : Node}
    (hmember : ∃ m ∈ half, m.id = n.id) :
    half.map (fun m => if m.id = n.id then n else m) = place (nearer origin) n half := by
  have hid (m : Node) : (if m.id = n.id then n else m).id = m.id := by
    split
    case isTrue heq => exact heq.symm
    case isFalse => rfl
  have hascending :
      Ranked.Ascending (nearer origin) (half.map fun m => if m.id = n.id then n else m) := by
    refine List.pairwise_map.mpr (h.ascending.imp fun {a b} hab => ?_)
    rw [nearer, hid, hid]
    exact hab
  refine hascending.ext (h.place n).ascending fun a => ?_
  rw [h.mem_place, List.mem_map]
  constructor
  · rintro ⟨m, hm, rfl⟩
    split
    case isTrue => exact Or.inl rfl
    case isFalse hne => exact Or.inr ⟨hm, hne⟩
  · rintro (rfl | ⟨ha, hne⟩)
    · obtain ⟨m, hm, heq⟩ := hmember
      exact ⟨m, hm, if_pos heq⟩
    · exact ⟨a, ha, if_neg hne⟩

/-- Offering a node to a half keeps the beginning of the half with the node put in place. -/
theorem offerHalf_eq_take {capacity : Nat} {half : List Node} (h : Kept (nearer origin) half)
    (hlength : half.length ≤ capacity) (n : Node) :
    (offerHalf origin capacity n half).1 = (place (nearer origin) n half).take capacity := by
  unfold offerHalf
  split
  case isTrue hmember =>
    have hexchange := exchange_eq_place h (n := n) (by simpa using hmember)
    rw [← hexchange, List.take_of_length_le (by simpa using hlength)]
  case isFalse hnew =>
    have hnew : ∀ m ∈ half, m.id ≠ n.id := by simpa using hnew
    rw [place_of_new hnew]
    exact h.ascending.offer_eq hlength hnew

/-- A node ranks behind the first `k` others if an old copy of it does. -/
theorem nearer_of_mem_drop {ns : List Node} (h : Kept (nearer origin) ns) {n m : Node} {k : Nat}
    (hm : m ∈ ns.drop k) (hid : m.id = n.id) : ∀ a ∈ ns.take k, nearer origin a n = true := by
  intro a ha
  have hascending : Ranked.Ascending (nearer origin) (ns.take k ++ ns.drop k) := by
    rw [List.take_append_drop]
    exact h.ascending
  have ham := (List.pairwise_append.mp hascending).2.2 a ha m hm
  rwa [nearer, hid] at ham

/-- Putting a node in place behind the first `k` others leaves these alone. -/
theorem take_place_of_mem_drop {ns : List Node} (h : Kept (nearer origin) ns) {n m : Node}
    {k : Nat} (hm : m ∈ ns.drop k) (hid : m.id = n.id) (hnew : ∀ a ∈ ns.take k, a.id ≠ n.id) :
    (place (nearer origin) n ns).take k = ns.take k := by
  have hsame : ∀ a ∈ ns.take k, (if a.id = n.id then n else a) = a :=
    fun a ha => if_neg (hnew a ha)
  rw [← exchange_eq_place h ⟨m, List.mem_of_mem_drop hm, hid⟩, ← List.map_take,
    List.map_congr_left hsame, List.map_id']

theorem take_insert_of_mem_drop {ns : List Node} (h : Kept (nearer origin) ns) {n m : Node}
    {k : Nat} (hm : m ∈ ns.drop k) (hid : m.id = n.id) :
    (Ranked.insert (nearer origin) n ns).take k = ns.take k := by
  have hlength : (ns.take k).length = k := by
    have hpos := List.length_pos_of_mem hm
    rw [List.length_drop] at hpos
    exact List.length_take_of_le (by omega)
  rw [← Ranked.take_insert_take, Ranked.insert_eq_append (nearer_of_mem_drop h hm hid),
    List.take_left' hlength]

/-- What does not fit makes no difference to later offers: an offer to the beginning of a list gives
the beginning of the list with the node put in place. -/
theorem take_place_take {ns : List Node} (h : Kept (nearer origin) ns) (n : Node) (k : Nat) :
    (place (nearer origin) n (ns.take k)).take k = (place (nearer origin) n ns).take k := by
  by_cases hkept : ∃ m ∈ ns.take k, m.id = n.id
  · have hmember : ∃ m ∈ ns, m.id = n.id := by
      obtain ⟨m, hm, hid⟩ := hkept
      exact ⟨m, List.mem_of_mem_take hm, hid⟩
    rw [← exchange_eq_place (h.of_sublist (List.take_sublist k ns)) hkept,
      ← exchange_eq_place h hmember, List.map_take, List.take_take, Nat.min_self]
  · have hnew : ∀ m ∈ ns.take k, m.id ≠ n.id := by simpa using hkept
    rw [place_of_new hnew, Ranked.take_insert_take]
    by_cases hbehind : ∃ m ∈ ns.drop k, m.id = n.id
    · obtain ⟨m, hm, hid⟩ := hbehind
      rw [take_place_of_mem_drop h hm hid hnew, take_insert_of_mem_drop h hm hid]
    · have hnowhere : ∀ m ∈ ns, m.id ≠ n.id := by
        intro m hm hid
        rw [← List.take_append_drop k ns, List.mem_append] at hm
        rcases hm with hm | hm
        · exact hnew m hm hid
        · exact hbehind ⟨m, hm, hid⟩
      rw [place_of_new hnowhere]

/-- A bounded half: ranked, within capacity, and with identifiers of one side only. -/
structure Half (origin : Id) (capacity : Nat) (side : Id → Bool) (half : List Node) : Prop where
  kept : Kept (nearer origin) half
  length_le : half.length ≤ capacity
  side_of_mem : ∀ m ∈ half, side m.id = true

theorem Half.nil (origin : Id) (capacity : Nat) (side : Id → Bool) :
    Half origin capacity side [] :=
  ⟨Kept.nil, Nat.zero_le _, by simp⟩

theorem Half.of_sublist {capacity : Nat} {side : Id → Bool} {half half' : List Node}
    (h : Half origin capacity side half) (hsub : half'.Sublist half) :
    Half origin capacity side half' :=
  ⟨h.kept.of_sublist hsub, Nat.le_trans hsub.length_le h.length_le,
    fun m hm => h.side_of_mem m (hsub.subset hm)⟩

theorem Half.offer {capacity : Nat} {side : Id → Bool} {half : List Node}
    (h : Half origin capacity side half) {n : Node} (hside : side n.id = true) :
    Half origin capacity side (offerHalf origin capacity n half).1 := by
  rw [offerHalf_eq_take h.kept h.length_le]
  refine ⟨(h.kept.place n).of_sublist (List.take_sublist _ _), List.length_take_le _ _, ?_⟩
  intro m hm
  rcases h.kept.mem_place.mp (List.mem_of_mem_take hm) with rfl | ⟨hm, -⟩
  · exact hside
  · exact h.side_of_mem m hm

/-- A node is reported as taken if it is in the half afterwards. -/
theorem offerHalf_taken_iff {capacity : Nat} {half : List Node} (n : Node) :
    (offerHalf origin capacity n half).2 = true ↔
      ∃ m ∈ (offerHalf origin capacity n half).1, m.id = n.id := by
  unfold offerHalf
  split
  case isTrue hmember =>
    obtain ⟨m, hm, hid⟩ : ∃ m ∈ half, m.id = n.id := by simpa using hmember
    simp only [true_iff]
    exact ⟨n, List.mem_map.mpr ⟨m, hm, if_pos hid⟩, rfl⟩
  case isFalse hnew =>
    have hnew : ∀ m ∈ half, m.id ≠ n.id := by simpa using hnew
    rw [Ranked.offer_taken_iff fun hn => hnew n hn rfl]
    constructor
    · intro hn
      exact ⟨n, hn, rfl⟩
    · rintro ⟨m, hm, hid⟩
      rcases Ranked.mem_of_mem_offer hm with rfl | hold
      · exact hm
      · exact absurd hid (hnew m hold)

/-- Offers to a half one after the other. -/
def offerAllHalf (origin : Id) (capacity : Nat) (offers half : List Node) : List Node :=
  offers.foldl (fun half n => (offerHalf origin capacity n half).1) half

/-- The bounded half is at any time the beginning of the one without a bound. -/
theorem offerAllHalf_take {ns : List Node} (h : Kept (nearer origin) ns) (capacity : Nat)
    (offers : List Node) :
    offerAllHalf origin capacity offers (ns.take capacity) =
      (placeAll (nearer origin) offers ns).take capacity := by
  induction offers generalizing ns with
  | nil => rfl
  | cons n offers ih =>
    have hstep : (offerHalf origin capacity n (ns.take capacity)).1 =
        (place (nearer origin) n ns).take capacity := by
      rw [offerHalf_eq_take (h.of_sublist (List.take_sublist _ _)) (List.length_take_le _ _),
        take_place_take h]
    have hrest := ih (h.place n)
    rw [← hstep] at hrest
    exact hrest

theorem Half.offerAllHalf_eq {capacity : Nat} {side : Id → Bool} {half : List Node}
    (h : Half origin capacity side half) (offers : List Node) :
    offerAllHalf origin capacity offers half =
      (placeAll (nearer origin) offers half).take capacity := by
  rw [← offerAllHalf_take h.kept, List.take_of_length_le h.length_le]

/-- Which identifiers a half ends up with depends only on which were offered. -/
theorem ids_placeAll_eq {ns : List Node} (h : Kept (nearer origin) ns) {offers offers' : List Node}
    (same : ∀ id, id ∈ offers'.map (·.id) ↔ id ∈ offers.map (·.id)) :
    (placeAll (nearer origin) offers' ns).map (·.id) =
      (placeAll (nearer origin) offers ns).map (·.id) := by
  have hascending (offers : List Node) :
      Ranked.Ascending (closer origin) ((placeAll (nearer origin) offers ns).map (·.id)) :=
    List.pairwise_map.mpr (h.placeAll offers).ascending
  refine (hascending offers').ext (hascending offers) fun id => ?_
  rw [h.mem_ids_placeAll, h.mem_ids_placeAll, same id]

theorem offer_self (s : LeafSet) {n : Node} (hid : n.id = s.origin) : s.offer n = (s, false) :=
  if_pos hid

theorem offer_below (s : LeafSet) {n : Node} (hside : n.id.precedes s.origin = true) :
    s.offer n = ({ s with below := (offerHalf s.origin s.capacity n s.below).1 },
      (offerHalf s.origin s.capacity n s.below).2) := by
  have hne : n.id ≠ s.origin := by
    intro hid
    rw [hid, Id.precedes_irrefl] at hside
    cases hside
  simp [offer, hne, hside]

theorem offer_above (s : LeafSet) {n : Node} (hside : s.origin.precedes n.id = true) :
    s.offer n = ({ s with above := (offerHalf s.origin s.capacity n s.above).1 },
      (offerHalf s.origin s.capacity n s.above).2) := by
  have hne : n.id ≠ s.origin := by
    intro hid
    rw [hid, Id.precedes_irrefl] at hside
    cases hside
  simp [offer, hne, (Id.precedes_iff_not_precedes hne).mp hside]

/-- An identifier is the origin's, or on exactly one side of it. -/
theorem side_cases (origin id : Id) :
    id = origin ∨ id.precedes origin = true ∧ origin.precedes id = false ∨
      origin.precedes id = true ∧ id.precedes origin = false := by
  by_cases hid : id = origin
  · exact Or.inl hid
  · right
    have hopposite := Id.precedes_iff_not_precedes hid
    cases hside : id.precedes origin with
    | false => exact Or.inr ⟨hopposite.mpr hside, rfl⟩
    | true => exact Or.inl ⟨rfl, by simpa [hside] using hopposite⟩

/-- Both halves are sound, and they lie on different sides of the origin. -/
structure Sound (s : LeafSet) : Prop where
  below : Half s.origin s.capacity (·.precedes s.origin) s.below
  above : Half s.origin s.capacity (s.origin.precedes ·) s.above

theorem empty_sound (origin : Id) (capacity : Nat) : (empty origin capacity).Sound :=
  ⟨Half.nil _ _ _, Half.nil _ _ _⟩

theorem Sound.offer {s : LeafSet} (h : s.Sound) (n : Node) : (s.offer n).1.Sound := by
  rcases side_cases s.origin n.id with hid | ⟨hside, -⟩ | ⟨hside, -⟩
  · rw [offer_self s hid]
    exact h
  · rw [offer_below s hside]
    exact ⟨h.below.offer hside, h.above⟩
  · rw [offer_above s hside]
    exact ⟨h.below, h.above.offer hside⟩

theorem Sound.erase {s : LeafSet} (h : s.Sound) (id : Id) : (s.erase id).Sound := by
  unfold LeafSet.erase
  split
  · exact ⟨h.below.of_sublist List.eraseP_sublist, h.above⟩
  · exact ⟨h.below, h.above.of_sublist List.eraseP_sublist⟩

/-- An update of the leaf set. -/
def update (s : LeafSet) : Update → LeafSet
  | .insert n => (s.offer n).1
  | .evict id => s.erase id

/-- The leaf set after a history. -/
def updateAll (s : LeafSet) (history : List Update) : LeafSet := history.foldl update s

theorem Sound.update {s : LeafSet} (h : s.Sound) (u : Update) : (s.update u).Sound := by
  cases u with
  | insert n => exact h.offer n
  | evict id => exact h.erase id

theorem Sound.updateAll {s : LeafSet} (h : s.Sound) (history : List Update) :
    (s.updateAll history).Sound := by
  induction history generalizing s with
  | nil => exact h
  | cons u history ih => exact ih (h.update u)

/-- What an update leaves alone. -/
theorem update_parameters (s : LeafSet) (u : Update) :
    (s.update u).origin = s.origin ∧ (s.update u).capacity = s.capacity := by
  cases u with
  | insert n =>
    rcases side_cases s.origin n.id with hid | ⟨hside, -⟩ | ⟨hside, -⟩
    · rw [update, offer_self s hid]
      exact ⟨rfl, rfl⟩
    · rw [update, offer_below s hside]
      exact ⟨rfl, rfl⟩
    · rw [update, offer_above s hside]
      exact ⟨rfl, rfl⟩
  | evict id =>
    rw [update, LeafSet.erase]
    split <;> exact ⟨rfl, rfl⟩

theorem updateAll_parameters (s : LeafSet) (history : List Update) :
    (s.updateAll history).origin = s.origin ∧ (s.updateAll history).capacity = s.capacity := by
  induction history generalizing s with
  | nil => exact ⟨rfl, rfl⟩
  | cons u history ih =>
    obtain ⟨horigin, hcapacity⟩ := ih (s.update u)
    obtain ⟨horigin', hcapacity'⟩ := s.update_parameters u
    exact ⟨horigin.trans horigin', hcapacity.trans hcapacity'⟩

/-- Offers nodes one after the other. -/
def offerAll (s : LeafSet) (offers : List Node) : LeafSet := s.updateAll (offers.map .insert)

/-- Each half sees the offers of its own side only. -/
theorem offerAll_halves (s : LeafSet) (offers : List Node) :
    (s.offerAll offers).below =
        offerAllHalf s.origin s.capacity (offers.filter (·.id.precedes s.origin)) s.below ∧
      (s.offerAll offers).above =
        offerAllHalf s.origin s.capacity (offers.filter (s.origin.precedes ·.id)) s.above := by
  induction offers generalizing s with
  | nil => exact ⟨rfl, rfl⟩
  | cons n offers ih =>
    have hrest := ih (s.update (.insert n))
    obtain ⟨horigin, hcapacity⟩ := s.update_parameters (.insert n)
    rw [horigin, hcapacity] at hrest
    rw [show s.offerAll (n :: offers) = (s.update (.insert n)).offerAll offers from rfl,
      hrest.1, hrest.2]
    rcases side_cases s.origin n.id with hid | ⟨hside, hother⟩ | ⟨hside, hother⟩
    · rw [update, offer_self s hid]
      simp [hid, Id.precedes_irrefl]
    · rw [update, offer_below s hside]
      simp [hside, hother, offerAllHalf]
    · rw [update, offer_above s hside]
      simp [hside, hother, offerAllHalf]

theorem Half.offerAllHalf_eq_nearest {capacity : Nat} {side : Id → Bool} {half : List Node}
    (h : Half origin capacity side half) (offers : List Node) :
    offerAllHalf origin capacity offers half =
      Ranked.nearest (nearer origin) capacity (latest half offers) := by
  rw [h.offerAllHalf_eq, h.kept.placeAll_eq_sort, Ranked.nearest]

/-- The identifiers of a half do not depend on the order of the offers, nor on their copies. -/
theorem Half.ids_offerAllHalf_eq {capacity : Nat} {side : Id → Bool} {half : List Node}
    (h : Half origin capacity side half) {offers offers' : List Node}
    (same : ∀ id, id ∈ offers'.map (·.id) ↔ id ∈ offers.map (·.id)) :
    (offerAllHalf origin capacity (offers'.filter (side ·.id)) half).map (·.id) =
      (offerAllHalf origin capacity (offers.filter (side ·.id)) half).map (·.id) := by
  have hsame : ∀ id, id ∈ (offers'.filter (side ·.id)).map (·.id) ↔
      id ∈ (offers.filter (side ·.id)).map (·.id) := by
    intro id
    rw [mem_ids_filter, mem_ids_filter, same id]
  rw [h.offerAllHalf_eq, h.offerAllHalf_eq, List.map_take, List.map_take,
    ids_placeAll_eq h.kept hsame]

/-- The halves have no identifier in common, and neither holds the origin's. -/
theorem Sound.distinct_members {s : LeafSet} (h : s.Sound) :
    (s.members.map (·.id)).Nodup ∧ s.origin ∉ s.members.map (·.id) := by
  have hbelow {id : Id} (hid : id ∈ s.below.map (·.id)) : id.precedes s.origin = true := by
    obtain ⟨m, hm, rfl⟩ := List.mem_map.mp hid
    exact h.below.side_of_mem m hm
  have habove {id : Id} (hid : id ∈ s.above.map (·.id)) : s.origin.precedes id = true := by
    obtain ⟨m, hm, rfl⟩ := List.mem_map.mp hid
    exact h.above.side_of_mem m hm
  rw [members, List.map_append]
  constructor
  · refine List.nodup_append.mpr ⟨h.below.kept.distinct, h.above.kept.distinct, ?_⟩
    rintro a ha b hb rfl
    have hother := Id.not_precedes_of_precedes (hbelow ha)
    rw [habove hb] at hother
    cases hother
  · intro horigin
    have hself : s.origin.precedes s.origin = true := by
      rcases List.mem_append.mp horigin with hid | hid
      · exact hbelow hid
      · exact habove hid
    rw [Id.precedes_irrefl] at hself
    cases hself

/-- An offer brings in nothing but the node offered, and leaves no other copy of it. -/
theorem Sound.mem_offer {s : LeafSet} (h : s.Sound) {n m : Node}
    (hm : m ∈ (s.offer n).1.members) : m = n ∨ m ∈ s.members ∧ m.id ≠ n.id := by
  have hhalf {side : Id → Bool} {half : List Node} (hh : Half s.origin s.capacity side half)
      (hm : m ∈ (offerHalf s.origin s.capacity n half).1) : m = n ∨ m ∈ half ∧ m.id ≠ n.id := by
    rw [offerHalf_eq_take hh.kept hh.length_le] at hm
    exact hh.kept.mem_place.mp (List.mem_of_mem_take hm)
  -- A member of the other half has an identifier on the other side of the origin.
  have hsides {a b : Id} (hab : a.precedes b = true) (hba : a.precedes b = false) : False := by
    rw [hab] at hba
    cases hba
  rcases side_cases s.origin n.id with hid | ⟨hside, hother⟩ | ⟨hside, hother⟩
  · rw [offer_self s hid] at hm
    refine Or.inr ⟨hm, fun heq => h.distinct_members.2 ?_⟩
    exact List.mem_map.mpr ⟨m, hm, heq.trans hid⟩
  · rw [offer_below s hside] at hm
    rcases List.mem_append.mp hm with hm | hm
    · exact (hhalf h.below hm).imp_right fun hold => ⟨List.mem_append_left _ hold.1, hold.2⟩
    · refine Or.inr ⟨List.mem_append_right _ hm, fun heq => ?_⟩
      exact hsides (h.above.side_of_mem m hm) (heq ▸ hother)
  · rw [offer_above s hside] at hm
    rcases List.mem_append.mp hm with hm | hm
    · refine Or.inr ⟨List.mem_append_left _ hm, fun heq => ?_⟩
      exact hsides (h.below.side_of_mem m hm) (heq ▸ hother)
    · exact (hhalf h.above hm).imp_right fun hold => ⟨List.mem_append_right _ hold.1, hold.2⟩

theorem members_erase (s : LeafSet) (id : Id) :
    (s.erase id).members = s.members.eraseP (·.id = id) := by
  rw [members, members, LeafSet.erase, List.eraseP_append]
  split <;> rfl

theorem Sound.mem_erase {s : LeafSet} (h : s.Sound) {id : Id} {m : Node} :
    m ∈ (s.erase id).members ↔ m ∈ s.members ∧ m.id ≠ id := by
  have hdistinct : Distinct s.members := h.distinct_members.1
  rw [members_erase, hdistinct.mem_eraseP]

theorem contains_iff {s : LeafSet} {id : Id} :
    s.contains id = true ↔ (∃ m ∈ s.below, m.id = id) ∨ ∃ m ∈ s.above, m.id = id := by
  simp only [contains, members, List.any_eq_true, List.mem_append, decide_eq_true_eq, or_and_right,
    exists_or]

/-- An offer reports whether the node is a member right after it. -/
theorem Sound.offer_taken {s : LeafSet} (h : s.Sound) (n : Node) :
    (s.offer n).2 = (s.offer n).1.contains n.id := by
  rw [Bool.eq_iff_iff, contains_iff]
  rcases side_cases s.origin n.id with hid | ⟨hside, hother⟩ | ⟨hside, hother⟩
  · rw [offer_self s hid]
    simp only [Bool.false_eq_true, false_iff, hid]
    have hnot := h.distinct_members.2
    rw [members, List.map_append, List.mem_append, List.mem_map, List.mem_map] at hnot
    exact hnot
  · rw [offer_below s hside, offerHalf_taken_iff]
    refine (or_iff_left ?_).symm
    rintro ⟨m, hm, hid⟩
    rw [← hid, h.above.side_of_mem m hm] at hother
    cases hother
  · rw [offer_above s hside, offerHalf_taken_iff]
    refine (or_iff_right ?_).symm
    rintro ⟨m, hm, hid⟩
    rw [← hid, h.below.side_of_mem m hm] at hother
    cases hother

theorem Sound.offerAll_eq_nearest {s : LeafSet} (h : s.Sound) (offers : List Node) :
    (s.offerAll offers).below = Ranked.nearest (nearer s.origin) s.capacity
        (latest s.below (offers.filter (·.id.precedes s.origin))) ∧
      (s.offerAll offers).above = Ranked.nearest (nearer s.origin) s.capacity
        (latest s.above (offers.filter (s.origin.precedes ·.id))) := by
  obtain ⟨hbelow, habove⟩ := offerAll_halves s offers
  exact ⟨hbelow.trans (h.below.offerAllHalf_eq_nearest _),
    habove.trans (h.above.offerAllHalf_eq_nearest _)⟩

theorem Sound.ids_offerAll_eq {s : LeafSet} (h : s.Sound) {offers offers' : List Node}
    (same : ∀ id, id ∈ offers'.map (·.id) ↔ id ∈ offers.map (·.id)) :
    (s.offerAll offers').below.map (·.id) = (s.offerAll offers).below.map (·.id) ∧
      (s.offerAll offers').above.map (·.id) = (s.offerAll offers).above.map (·.id) := by
  obtain ⟨hbelow, habove⟩ := offerAll_halves s offers
  obtain ⟨hbelow', habove'⟩ := offerAll_halves s offers'
  rw [hbelow, habove, hbelow', habove']
  exact ⟨h.below.ids_offerAllHalf_eq same, h.above.ids_offerAllHalf_eq same⟩

/-- Each half of a leaf set is at any time the sorted list of the nearest candidates of its side,
as many as fit. Which identifiers are kept depends on which were offered and not on their order. -/
theorem halves_keep_nearest (origin : Id) (capacity : Nat) (history : List Update)
    (offers : List Node) :
    let s := (empty origin capacity).updateAll history
    let t := s.offerAll offers
    t.below = Ranked.nearest (nearer origin) capacity
        (latest s.below (offers.filter (·.id.precedes origin))) ∧
      t.above = Ranked.nearest (nearer origin) capacity
        (latest s.above (offers.filter (origin.precedes ·.id))) ∧
      t.below.Pairwise (fun a b => closer origin a.id b.id = true) ∧
      t.above.Pairwise (fun a b => closer origin a.id b.id = true) ∧
      t.below.length ≤ capacity ∧ t.above.length ≤ capacity ∧
      (t.members.map (·.id)).Nodup ∧ origin ∉ t.members.map (·.id) ∧
      (∀ n, (t.offer n).2 = (t.offer n).1.contains n.id) ∧
      ∀ offers', (∀ id, id ∈ offers'.map (·.id) ↔ id ∈ offers.map (·.id)) →
        (s.offerAll offers').below.map (·.id) = t.below.map (·.id) ∧
          (s.offerAll offers').above.map (·.id) = t.above.map (·.id) := by
  intro s t
  have hs : s.Sound := (empty_sound origin capacity).updateAll history
  have ht : t.Sound := hs.updateAll (offers.map .insert)
  obtain ⟨hsorigin, hscapacity⟩ := updateAll_parameters (empty origin capacity) history
  obtain ⟨htorigin, htcapacity⟩ := updateAll_parameters s (offers.map .insert)
  have horigin : t.origin = origin := htorigin.trans hsorigin
  have hcapacity : t.capacity = capacity := htcapacity.trans hscapacity
  have hnearest := hs.offerAll_eq_nearest offers
  rw [show s.origin = origin from hsorigin, show s.capacity = capacity from hscapacity] at hnearest
  have hbelow := ht.below
  have habove := ht.above
  rw [horigin, hcapacity] at hbelow habove
  have hmembers := ht.distinct_members
  rw [horigin] at hmembers
  exact ⟨hnearest.1, hnearest.2, hbelow.kept.ascending, habove.kept.ascending, hbelow.length_le,
    habove.length_le, hmembers.1, hmembers.2, ht.offer_taken, fun _ same => hs.ids_offerAll_eq same⟩

end Overlay.LeafSet
