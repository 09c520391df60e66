import Mathlib
import Overlay.Peers.LeafSet
import Overlay.Proofs.Keyspace.Ring

/-!
Which keys the arc of a leaf set holds. The members are visited one by one and each moves one end of
the arc or none, so the two ends are the farthest members ahead of and behind the origin. Neither is
more than half a turn away. The arc therefore never meets itself, and a key is on it if it is no
farther from the origin than the end on its side.
-/

namespace Overlay.LeafSet

open Keyspace (Id)

/-- A member is ahead of the origin unless it is strictly nearer counter-clockwise. -/
def Ahead (origin m : Id) : Prop := origin.clockwise m ≤ m.clockwise origin

instance (origin : Id) : DecidablePred (Ahead origin) :=
  fun m => inferInstanceAs (Decidable (origin.clockwise m ≤ m.clockwise origin))

/-- Steps to the farthest identifier ahead, zero if there is none. -/
def reachAhead (origin : Id) (ids : Finset Id) : Nat :=
  (ids.filter (Ahead origin)).sup origin.clockwise

/-- Steps to the farthest identifier behind, zero if there is none. -/
def reachBehind (origin : Id) (ids : Finset Id) : Nat :=
  (ids.filter (¬Ahead origin ·)).sup (·.clockwise origin)

theorem reachAhead_insert (origin m : Id) (ids : Finset Id) :
    reachAhead origin (insert m ids) =
      max (if Ahead origin m then origin.clockwise m else 0) (reachAhead origin ids) := by
  rw [reachAhead, Finset.filter_insert]
  split
  · rw [Finset.sup_insert]
    rfl
  · exact (Nat.zero_max _).symm

theorem reachBehind_insert (origin m : Id) (ids : Finset Id) :
    reachBehind origin (insert m ids) =
      max (if Ahead origin m then 0 else m.clockwise origin) (reachBehind origin ids) := by
  rw [reachBehind, Finset.filter_insert]
  by_cases hahead : Ahead origin m
  · rw [if_neg (not_not_intro hahead), if_pos hahead]
    exact (Nat.zero_max _).symm
  · rw [if_pos hahead, if_neg hahead, Finset.sup_insert]
    rfl

theorem clockwise_le_reachAhead {origin m : Id} {ids : Finset Id} (hm : m ∈ ids)
    (hahead : Ahead origin m) : origin.clockwise m ≤ reachAhead origin ids :=
  Finset.le_sup (Finset.mem_filter.mpr ⟨hm, hahead⟩)

theorem clockwise_le_reachBehind {origin m : Id} {ids : Finset Id} (hm : m ∈ ids)
    (hbehind : ¬Ahead origin m) : m.clockwise origin ≤ reachBehind origin ids :=
  Finset.le_sup (f := (·.clockwise origin)) (Finset.mem_filter.mpr ⟨hm, hbehind⟩)

namespace Arc

variable {origin : Id}

theorem extend_ahead (arc : Arc) {m : Id} (h : Ahead origin m) :
    extend origin arc m =
      if origin.clockwise arc.stop < origin.clockwise m then { arc with stop := m } else arc :=
  if_pos h

theorem extend_behind (arc : Arc) {m : Id} (h : ¬Ahead origin m) :
    extend origin arc m =
      if arc.start.clockwise origin < m.clockwise origin then { arc with start := m } else arc :=
  if_neg h

/-- A member moves the end on its side out to itself if it is farther than that end. -/
theorem extend_steps (arc : Arc) (m : Id) :
    origin.clockwise (extend origin arc m).stop =
        max (origin.clockwise arc.stop) (if Ahead origin m then origin.clockwise m else 0) ∧
      (extend origin arc m).start.clockwise origin =
        max (arc.start.clockwise origin) (if Ahead origin m then 0 else m.clockwise origin) := by
  by_cases hahead : Ahead origin m
  · rw [extend_ahead arc hahead, if_pos hahead, if_pos hahead, Nat.max_zero]
    split
    case isTrue hfar => exact ⟨(Nat.max_eq_right (Nat.le_of_lt hfar)).symm, rfl⟩
    case isFalse hnear => exact ⟨(Nat.max_eq_left (Nat.le_of_not_lt hnear)).symm, rfl⟩
  · rw [extend_behind arc hahead, if_neg hahead, if_neg hahead, Nat.max_zero]
    split
    case isTrue hfar => exact ⟨rfl, (Nat.max_eq_right (Nat.le_of_lt hfar)).symm⟩
    case isFalse hnear => exact ⟨rfl, (Nat.max_eq_left (Nat.le_of_not_lt hnear)).symm⟩

/-- The two ends lie in the space of the origin, and neither is more than half a turn away from
it. -/
structure Sound (origin : Id) (arc : Arc) : Prop where
  start_space : arc.start.space = origin.space
  stop_space : arc.stop.space = origin.space
  stop_near : 2 * origin.clockwise arc.stop ≤ origin.space.size
  start_near : 2 * arc.start.clockwise origin < origin.space.size

theorem Sound.self (origin : Id) : Sound origin { start := origin, stop := origin } where
  start_space := rfl
  stop_space := rfl
  stop_near := by simp
  start_near := by simp [Keyspace.Space.size]

theorem Sound.extend {arc : Arc} (h : Sound origin arc) {m : Id} (hm : m.space = origin.space) :
    Sound origin (Arc.extend origin arc m) := by
  by_cases hahead : Ahead origin m
  · rw [extend_ahead arc hahead]
    split
    · refine ⟨h.start_space, hm, ?_, h.start_near⟩
      have hle : origin.clockwise m ≤ m.clockwise origin := hahead
      have hturn := Id.clockwise_turn hm.symm
      dsimp only
      omega
    · exact h
  · rw [extend_behind arc hahead]
    split
    · refine ⟨hm, h.stop_space, h.stop_near, ?_⟩
      have hlt : m.clockwise origin < origin.clockwise m := Nat.lt_of_not_le hahead
      have hturn := Id.clockwise_turn hm.symm
      dsimp only
      omega
    · exact h

theorem Sound.extend_all {arc : Arc} (h : Sound origin arc) {ids : List Id}
    (hids : ∀ m ∈ ids, m.space = origin.space) :
    Sound origin (ids.foldl (Arc.extend origin) arc) := by
  induction ids generalizing arc with
  | nil => exact h
  | cons m ids ih =>
    exact ih (h.extend (hids m List.mem_cons_self)) fun a ha => hids a (List.mem_cons_of_mem _ ha)

theorem extend_all_steps (arc : Arc) (ids : List Id) :
    origin.clockwise (ids.foldl (extend origin) arc).stop =
        max (origin.clockwise arc.stop) (reachAhead origin ids.toFinset) ∧
      (ids.foldl (extend origin) arc).start.clockwise origin =
        max (arc.start.clockwise origin) (reachBehind origin ids.toFinset) := by
  induction ids generalizing arc with
  | nil => exact ⟨(Nat.max_zero _).symm, (Nat.max_zero _).symm⟩
  | cons m ids ih =>
    obtain ⟨hstop, hstart⟩ := ih (extend origin arc m)
    obtain ⟨hstop', hstart'⟩ := arc.extend_steps m
    rw [List.foldl_cons, List.toFinset_cons, reachAhead_insert, reachBehind_insert, hstop, hstart,
      hstop', hstart', max_assoc, max_assoc]
    exact ⟨rfl, rfl⟩

/-- The arc runs from its start to the origin and on to its stop. The two ends together make less
than a turn, so it does not meet its start again. -/
theorem Sound.through_origin {arc : Arc} (h : Sound origin arc) :
    arc.start.clockwise origin + origin.clockwise arc.stop = arc.start.clockwise arc.stop ∧
      arc.start.clockwise origin + origin.clockwise arc.stop < origin.space.size := by
  have hsum := Id.clockwise_add h.start_space h.stop_space.symm
  have hstop := h.stop_near
  have hstart := h.start_near
  have hlt := Id.clockwise_lt arc.start arc.stop
  rw [h.start_space] at hsum hlt
  omega

/-- A key is on the arc if it lies between the origin and one of the ends. -/
theorem Sound.contains_iff {arc : Arc} (h : Sound origin arc) {key : Id}
    (hkey : key.space = origin.space) :
    arc.contains key = true ↔
      origin.clockwise key ≤ origin.clockwise arc.stop ∨
        key.clockwise origin ≤ arc.start.clockwise origin := by
  obtain ⟨hthrough, hshort⟩ := h.through_origin
  have hkey' := Id.clockwise_add h.start_space hkey.symm
  have hback := Id.clockwise_add (h.start_space.trans hkey.symm) hkey
  have hturn := Id.clockwise_turn hkey.symm
  have hlt := Id.clockwise_lt arc.start key
  rw [h.start_space] at hkey' hback hlt
  rw [contains, decide_eq_true_eq, ← hthrough]
  omega

theorem Sound.contains_origin {arc : Arc} (h : Sound origin arc) : arc.contains origin = true := by
  rw [h.contains_iff rfl, Id.clockwise_self]
  exact Or.inl (Nat.zero_le _)

end Arc

/-- The identifiers of the members. -/
def ids (s : LeafSet) : Finset Id := (s.members.map (·.id)).toFinset

theorem mem_ids {s : LeafSet} {id : Id} : id ∈ s.ids ↔ ∃ m ∈ s.members, m.id = id := by
  rw [ids, List.mem_toFinset, List.mem_map]

theorem isEmpty_iff {s : LeafSet} : s.isEmpty = true ↔ s.ids = ∅ := by
  rw [isEmpty, Bool.and_eq_true, List.isEmpty_iff, List.isEmpty_iff, ids,
    List.toFinset_eq_empty_iff, List.map_eq_nil_iff, members, List.append_eq_nil_iff]

/-- All members lie in the space of the origin. -/
def Local (s : LeafSet) : Prop := ∀ id ∈ s.ids, id.space = s.origin.space

theorem arc_steps (s : LeafSet) :
    s.origin.clockwise s.arc.stop = reachAhead s.origin s.ids ∧
      s.arc.start.clockwise s.origin = reachBehind s.origin s.ids := by
  have hsteps : s.origin.clockwise s.arc.stop =
        max (s.origin.clockwise s.origin) (reachAhead s.origin s.ids) ∧
      s.arc.start.clockwise s.origin =
        max (s.origin.clockwise s.origin) (reachBehind s.origin s.ids) :=
    Arc.extend_all_steps _ _
  rwa [Id.clockwise_self, Nat.zero_max, Nat.zero_max] at hsteps

theorem Local.arc_sound {s : LeafSet} (h : s.Local) : Arc.Sound s.origin s.arc :=
  (Arc.Sound.self s.origin).extend_all fun m hm => h m (List.mem_toFinset.mpr hm)

theorem covers_eq (s : LeafSet) (key : Id) : s.covers key = (s.isEmpty || s.arc.contains key) := by
  rw [covers, territory]
  cases s.isEmpty <;> rfl

/-- The origin is the final destination for a key if it is alone or if the key is no farther than
the farthest member on one side. -/
theorem Local.covers_iff {s : LeafSet} (h : s.Local) {key : Id}
    (hkey : key.space = s.origin.space) :
    s.covers key = true ↔
      s.isEmpty = true ∨ s.origin.clockwise key ≤ reachAhead s.origin s.ids ∨
        key.clockwise s.origin ≤ reachBehind s.origin s.ids := by
  obtain ⟨hstop, hstart⟩ := s.arc_steps
  rw [covers_eq, Bool.or_eq_true, h.arc_sound.contains_iff hkey, hstop, hstart]

/-- A key lies on the shorter way from the origin to a member, both ends included. Of two ways of
equal length it is the clockwise one. -/
def Between (origin m key : Id) : Prop :=
  if Ahead origin m then origin.clockwise key ≤ origin.clockwise m
  else key.clockwise origin ≤ m.clockwise origin

instance (origin m key : Id) : Decidable (Between origin m key) :=
  inferInstanceAs (Decidable (ite _ _ _))

theorem between_self (origin m : Id) : Between origin m origin := by
  rw [Between, Id.clockwise_self]
  split <;> exact Nat.zero_le _

theorem le_reachAhead_iff {origin : Id} {ids : Finset Id} {steps : Nat} (hpos : 0 < steps) :
    steps ≤ reachAhead origin ids ↔ ∃ m ∈ ids, Ahead origin m ∧ steps ≤ origin.clockwise m := by
  rw [reachAhead, Finset.le_sup_iff hpos]
  simp only [Finset.mem_filter, and_assoc]

theorem le_reachBehind_iff {origin : Id} {ids : Finset Id} {steps : Nat} (hpos : 0 < steps) :
    steps ≤ reachBehind origin ids ↔ ∃ m ∈ ids, ¬Ahead origin m ∧ steps ≤ m.clockwise origin := by
  rw [reachBehind, Finset.le_sup_iff hpos]
  simp only [Finset.mem_filter, and_assoc]

/-- The origin covers what lies between it and one of its members. -/
theorem Local.covers_iff_between {s : LeafSet} (h : s.Local) {key : Id}
    (hkey : key.space = s.origin.space) :
    s.covers key = true ↔
      s.isEmpty = true ∨ ∃ m ∈ s.ids, Between s.origin m key := by
  rw [h.covers_iff hkey]
  -- The origin itself is at no distance, where a reach of zero says nothing about members.
  by_cases hself : s.origin = key
  · refine iff_of_true (Or.inr (Or.inl ?_)) ?_
    · rw [← hself, Id.clockwise_self]
      exact Nat.zero_le _
    · rw [isEmpty_iff]
      refine s.ids.eq_empty_or_nonempty.imp_right fun ⟨m, hm⟩ => ⟨m, hm, ?_⟩
      rw [← hself]
      exact between_self s.origin m
  · have hahead : 0 < s.origin.clockwise key :=
      Nat.pos_of_ne_zero fun hzero => hself ((Id.clockwise_eq_zero hkey.symm).mp hzero)
    have hbehind : 0 < key.clockwise s.origin :=
      Nat.pos_of_ne_zero fun hzero => hself ((Id.clockwise_eq_zero hkey).mp hzero).symm
    rw [le_reachAhead_iff hahead, le_reachBehind_iff hbehind, ← exists_or]
    refine or_congr_right (exists_congr fun m => ?_)
    rw [← and_or_left, Between]
    split <;> simp [*]

end Overlay.LeafSet
