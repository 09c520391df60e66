import Mathlib
import Overlay.Peers.Ranked

/-!
Lists in strictly ascending order of a rank. Such a list is determined by its members, so whatever
keeps one needs to say only which elements it holds. Offering an element to a bounded list gives the
beginning of what the unbounded insertion gives.
-/

namespace Overlay.Ranked

/-- A strict order, with ties at most between elements of the same key. -/
class Ranking {α : Type} {κ : outParam Type} (before : α → α → Bool)
    (key : outParam (α → κ)) : Prop where
  irrefl (a : α) : before a a = false
  trans {a b c : α} : before a b = true → before b c = true → before a c = true
  not_trans {a b c : α} : before b a = false → before c b = false → before c a = false
  comparable {a b : α} : key a ≠ key b → before a b = true ∨ before b a = true

variable {α κ : Type} {before : α → α → Bool} {key : α → κ}

/-- A comparison that tells apart elements with different keys ranks them. -/
theorem Ranking.of_cmp (cmp : α → α → Ordering) [Std.TransCmp cmp]
    (hkey : ∀ a b, cmp a b = .eq → key a = key b) :
    Ranking (fun a b => (cmp a b).isLT) key where
  irrefl a := by
    have hself : cmp a a = .eq := Std.ReflCmp.compare_self
    rw [hself]
    rfl
  trans {a b c} hab hbc := by
    rw [Ordering.isLT_iff_eq_lt] at hab hbc ⊢
    exact Std.TransCmp.lt_trans hab hbc
  not_trans {a b c} hba hcb := by
    rw [← Bool.not_eq_true, Ordering.isLT_iff_eq_lt, ← Std.OrientedCmp.gt_iff_lt,
      ← Ordering.isLE_iff_ne_gt] at hba hcb ⊢
    exact Std.TransCmp.isLE_trans hba hcb
  comparable {a b} hne := by
    rw [Ordering.isLT_iff_eq_lt, Ordering.isLT_iff_eq_lt]
    cases hcmp : cmp a b with
    | lt => exact Or.inl rfl
    | eq => exact absurd (hkey a b hcmp) hne
    | gt => exact Or.inr (Std.OrientedCmp.lt_of_gt hcmp)

/-- Elements ranked by their keys. -/
theorem Ranking.of_key (key : α → κ) (before : κ → κ → Bool) [Ranking before (id : κ → κ)] :
    Ranking (fun a b => before (key a) (key b)) key where
  irrefl a := by
    have hirrefl : before (key a) (key a) = false := Ranking.irrefl (key a)
    exact hirrefl
  trans {a b c} (hab : before (key a) (key b) = true) hbc := Ranking.trans hab hbc
  not_trans {a b c} (hba : before (key b) (key a) = false) hcb := Ranking.not_trans hba hcb
  comparable {a b} hne := by
    have hcomparable : before (key a) (key b) = true ∨ before (key b) (key a) = true :=
      Ranking.comparable hne
    exact hcomparable

theorem Ranking.asymm [Ranking before key] {a b : α} (hab : before a b = true) :
    before b a = false := by
  cases hba : before b a with
  | false => rfl
  | true =>
    have hself : before a a = true := Ranking.trans hab hba
    have hirrefl : before a a = false := Ranking.irrefl a
    rw [hirrefl] at hself
    cases hself

/-- Every element ranks before all later ones. -/
def Ascending (before : α → α → Bool) (ys : List α) : Prop :=
  ys.Pairwise fun a b => before a b = true

theorem Ascending.nodup [Ranking before key] {ys : List α} (h : Ascending before ys) :
    ys.Nodup := by
  apply List.Pairwise.imp _ h
  intro a b hab heq
  have hirrefl : before b b = false := Ranking.irrefl b
  rw [heq, hirrefl] at hab
  cases hab

/-- Ascending lists with the same members are equal. -/
theorem Ascending.ext [Ranking before key] {xs ys : List α} (hxs : Ascending before xs)
    (hys : Ascending before ys) (same : ∀ a, a ∈ xs ↔ a ∈ ys) : xs = ys := by
  have hperm : xs.Perm ys := (List.perm_ext_iff_of_nodup hxs.nodup hys.nodup).mpr same
  refine List.Perm.eq_of_pairwise ?_ hxs hys hperm
  intro a b _ _ hab hba
  rw [Ranking.asymm hab] at hba
  cases hba

/-- Of two elements of an ascending list, the one that ranks before the other stands before it. -/
theorem Ascending.pair_sublist_iff [Ranking before key] {ys : List α} (h : Ascending before ys)
    {a b : α} (ha : a ∈ ys) (hb : b ∈ ys) : [a, b].Sublist ys ↔ before a b = true := by
  constructor
  · intro hsub
    exact List.pairwise_iff_forall_sublist.mp h hsub
  · intro hab
    induction ys with
    | nil => cases ha
    | cons y ys ih =>
      obtain ⟨hy, hys⟩ := List.pairwise_cons.mp h
      rcases List.mem_cons.mp ha with rfl | hays
      · rcases List.mem_cons.mp hb with rfl | hbys
        · have hirrefl : before b b = false := Ranking.irrefl b
          rw [hirrefl] at hab
          cases hab
        · exact List.Sublist.cons_cons a (List.singleton_sublist.mpr hbys)
      · rcases List.mem_cons.mp hb with rfl | hbys
        · have hba : before b a = true := hy a hays
          rw [Ranking.asymm hab] at hba
          cases hba
        · exact List.Sublist.cons y (ih hys hays hbys)

/-- An element is among the first `k` of an ascending list if fewer than `k` rank before it. -/
theorem Ascending.mem_take_iff [Ranking before key] {ys : List α} (h : Ascending before ys) {a : α}
    {k : Nat} : a ∈ ys.take k ↔ a ∈ ys ∧ ys.countP (before · a) < k := by
  induction ys generalizing k with
  | nil => simp
  | cons y ys ih =>
    obtain ⟨hy, hys⟩ := List.pairwise_cons.mp h
    cases k with
    | zero => simp
    | succ k =>
      rw [List.take_succ_cons, List.mem_cons, List.mem_cons, ih hys]
      by_cases heq : a = y
      · subst heq
        have hfirst : (a :: ys).countP (before · a) = 0 := by
          have hirrefl : before a a = false := Ranking.irrefl a
          refine List.countP_eq_zero.mpr fun b hb => ?_
          rcases List.mem_cons.mp hb with rfl | hb
          · simp [hirrefl]
          · simp [Ranking.asymm (hy b hb)]
        simp [hfirst]
      · simp only [heq, false_or]
        refine and_congr_right fun ha => ?_
        have hcount : (y :: ys).countP (before · a) = ys.countP (before · a) + 1 :=
          List.countP_cons_of_pos (hy a ha)
        rw [hcount, Nat.add_lt_add_iff_right]

/-- As many elements of an ascending list rank before one of them as stand before it. -/
theorem Ascending.countP_before [Ranking before key] {ys : List α} (h : Ascending before ys)
    {i : Nat} (hi : i < ys.length) : ys.countP (before · ys[i]) = i := by
  have hupto : ys[i] ∈ ys.take (i + 1) := by
    rw [List.take_add_one, List.getElem?_eq_getElem hi]
    exact List.mem_append_right _ (List.mem_singleton_self _)
  have hfrom : ys[i] ∈ ys.drop i := by
    rw [List.drop_eq_getElem_cons hi]
    exact List.mem_cons_self
  have hnot : ys[i] ∉ ys.take i := fun hbefore =>
    List.disjoint_take_drop h.nodup (Nat.le_refl i) hbefore hfrom
  have hlt := (h.mem_take_iff.mp hupto).2
  have hge := mt h.mem_take_iff.mpr hnot
  rw [not_and] at hge
  have hle := hge (List.getElem_mem hi)
  omega

/-- The elements in ascending order. -/
def sort (before : α → α → Bool) (ys : List α) : List α := ys.mergeSort fun a b => !before b a

/-- The elements that rank first, up to a bound on their number, in ascending order. -/
def nearest (before : α → α → Bool) (capacity : Nat) (ys : List α) : List α :=
  (sort before ys).take capacity

/-- Sorting elements with different keys leaves no ties. -/
theorem sort_ascending [Ranking before key] {ys : List α} (h : (ys.map key).Nodup) :
    Ascending before (sort before ys) := by
  have hle : (sort before ys).Pairwise fun a b => (!before b a) = true := by
    refine List.pairwise_mergeSort ?_ ?_ ys
    · intro a b c hab hbc
      rw [Bool.not_eq_true'] at hab hbc ⊢
      exact Ranking.not_trans hab hbc
    · intro a b
      cases hab : before a b with
      | false => simp
      | true => simp [Ranking.asymm hab]
  have hkeys : (sort before ys).Pairwise fun a b => key a ≠ key b := by
    rw [← List.pairwise_map]
    exact ((List.mergeSort_perm ys _).map key).nodup_iff.mpr h
  refine (hle.and hkeys).imp ?_
  rintro a b ⟨hba, hne⟩
  rw [Bool.not_eq_true'] at hba
  exact (Ranking.comparable hne).resolve_right (by simp [hba])

theorem mem_sort {a : α} {ys : List α} : a ∈ sort before ys ↔ a ∈ ys := List.mem_mergeSort

@[simp]
theorem mem_insert {x a : α} {ys : List α} : a ∈ insert before x ys ↔ a = x ∨ a ∈ ys := by
  induction ys with
  | nil => simp [insert]
  | cons y ys ih =>
    simp only [insert]
    split
    · simp only [List.mem_cons, ih]
      exact or_left_comm
    · simp only [List.mem_cons]

theorem mem_insert_self (x : α) (ys : List α) : x ∈ insert before x ys :=
  mem_insert.mpr (Or.inl rfl)

theorem insert_perm {x : α} {ys : List α} : (insert before x ys).Perm (x :: ys) := by
  induction ys with
  | nil => exact .refl _
  | cons y ys ih =>
    simp only [insert]
    split
    · exact (ih.cons y).trans (.swap x y ys)
    · exact .refl _

@[simp]
theorem length_insert {x : α} {ys : List α} : (insert before x ys).length = ys.length + 1 := by
  induction ys with
  | nil => rfl
  | cons y ys ih =>
    simp only [insert]
    split <;> simp [ih]

/-- An element that does not pass a test does not show among those that do. -/
theorem filter_insert {test : α → Bool} {x : α} (hx : test x = false) (ys : List α) :
    (insert before x ys).filter test = ys.filter test := by
  induction ys with
  | nil => simp [insert, hx]
  | cons y ys ih =>
    simp only [insert]
    split
    · rw [List.filter_cons, ih, List.filter_cons]
    · rw [List.filter_cons_of_neg (by simp [hx])]

theorem index_le_length (x : α) (ys : List α) : index before x ys ≤ ys.length :=
  (List.takeWhile_sublist _).length_le

/-- The index is the one at which `insert` puts the element. -/
theorem insert_eq_insertIdx (x : α) (ys : List α) :
    insert before x ys = ys.insertIdx (index before x ys) x := by
  induction ys with
  | nil => rfl
  | cons y ys ih =>
    cases hyx : before y x with
    | true => simp [insert, index, hyx, ih]
    | false => simp [insert, index, hyx]

/-- No element behind the first one that does not rank before `x` ranks before it either. -/
theorem Ascending.index_eq_countP [Ranking before key] {x : α} {ys : List α}
    (h : Ascending before ys) : index before x ys = ys.countP (before · x) := by
  induction ys with
  | nil => rfl
  | cons y ys ih =>
    obtain ⟨hy, hys⟩ := List.pairwise_cons.mp h
    cases hyx : before y x with
    | true =>
      have htail := ih hys
      rw [index] at htail
      simp [index, hyx, htail]
    | false =>
      have hnone : ys.countP (before · x) = 0 := by
        refine List.countP_eq_zero.mpr fun z hz hzx => ?_
        have hbefore : before y x = true := Ranking.trans (hy z hz) hzx
        rw [hyx] at hbefore
        cases hbefore
      simp [index, hyx, hnone]

theorem Ascending.insert [Ranking before key] {x : α} {ys : List α} (h : Ascending before ys)
    (hx : ∀ y ∈ ys, key y ≠ key x) : Ascending before (insert before x ys) := by
  induction ys with
  | nil => exact List.pairwise_singleton _ _
  | cons y ys ih =>
    obtain ⟨hy, hys⟩ := List.pairwise_cons.mp h
    simp only [Ranked.insert]
    split
    case isTrue hyx =>
      refine List.pairwise_cons.mpr ⟨?_, ih hys fun z hz => hx z (List.mem_cons_of_mem _ hz)⟩
      intro z hz
      rcases mem_insert.mp hz with rfl | hz
      · exact hyx
      · exact hy z hz
    case isFalse hyx =>
      have hxy : before x y = true :=
        (Ranking.comparable (hx y List.mem_cons_self)).resolve_left hyx
      refine List.pairwise_cons.mpr ⟨?_, h⟩
      intro z hz
      rcases List.mem_cons.mp hz with rfl | hz
      · exact hxy
      · exact Ranking.trans hxy (hy z hz)

/-- An insertion behind the first `k` elements does not show in them, and one among them depends on
nothing else. -/
theorem take_insert_take (x : α) (ys : List α) (k : Nat) :
    (insert before x (ys.take k)).take k = (insert before x ys).take k := by
  induction ys generalizing k with
  | nil => simp
  | cons y ys ih =>
    cases k with
    | zero => simp
    | succ k =>
      simp only [List.take_succ_cons, insert]
      split
      · simp only [List.take_succ_cons, ih]
      · simp only [List.take_succ_cons]
        cases k with
        | zero => simp
        | succ k => simp [List.take_take]

theorem length_nearest (k : Nat) (ys : List α) :
    (nearest before k ys).length = min k ys.length := by
  rw [nearest, List.length_take, sort, List.length_mergeSort]

/-- The order in which elements with different keys are given does not show after sorting. -/
theorem sort_eq_of_perm [Ranking before key] {xs ys : List α} (hperm : xs.Perm ys)
    (hkeys : (ys.map key).Nodup) : sort before xs = sort before ys := by
  have hkeys' : (xs.map key).Nodup := (hperm.map key).nodup_iff.mpr hkeys
  apply (sort_ascending hkeys').ext (sort_ascending hkeys)
  intro a
  rw [mem_sort, mem_sort, hperm.mem_iff]

theorem nearest_eq_of_perm [Ranking before key] {xs ys : List α} (hperm : xs.Perm ys)
    (hkeys : (ys.map key).Nodup) (k : Nat) : nearest before k xs = nearest before k ys := by
  rw [nearest, sort_eq_of_perm hperm hkeys, nearest]

theorem Ascending.sort_eq [Ranking before key] {ys : List α} (h : Ascending before ys) :
    sort before ys = ys := by
  apply List.mergeSort_of_pairwise
  apply h.imp
  intro a b hab
  rw [Ranking.asymm hab]
  rfl

theorem Ascending.nearest_eq [Ranking before key] {ys : List α} (h : Ascending before ys) {k : Nat}
    (hlength : ys.length ≤ k) : nearest before k ys = ys := by
  rw [nearest, h.sort_eq, List.take_of_length_le hlength]

/-- One more candidate: inserting it among the first of the others gives the first of all. -/
theorem take_insert_nearest [Ranking before key] {x : α} {ys : List α}
    (hkeys : ((x :: ys).map key).Nodup) (k : Nat) :
    (insert before x (nearest before k ys)).take k = nearest before k (x :: ys) := by
  obtain ⟨hx, hys⟩ := List.nodup_cons.mp hkeys
  have hnew : ∀ y ∈ sort before ys, key y ≠ key x := by
    intro y hy heq
    apply hx
    rw [← heq]
    exact List.mem_map_of_mem (mem_sort.mp hy)
  have hsort : insert before x (sort before ys) = sort before (x :: ys) := by
    apply ((sort_ascending hys).insert hnew).ext (sort_ascending hkeys)
    intro a
    rw [mem_insert, mem_sort, mem_sort, List.mem_cons]
  rw [nearest, take_insert_take, hsort, nearest]

/-- An element that nothing precedes comes last. -/
theorem insert_eq_append {x : α} {ys : List α} (h : ∀ y ∈ ys, before y x = true) :
    insert before x ys = ys ++ [x] := by
  induction ys with
  | nil => rfl
  | cons y ys ih =>
    have htail : insert before x ys = ys ++ [x] :=
      ih fun z hz => h z (List.mem_cons_of_mem _ hz)
    simp only [insert, h y List.mem_cons_self, if_true, htail, List.cons_append]

/-- An element that ranks before the last one leaves it last. -/
theorem insert_append_last {x last : α} (ys : List α) (h : before last x = false) :
    insert before x (ys ++ [last]) = insert before x ys ++ [last] := by
  induction ys with
  | nil => simp [insert, h]
  | cons y ys ih =>
    simp only [List.cons_append, insert, ih]
    split <;> rfl

/-- The last element of an ascending list ranks behind all others. -/
theorem Ascending.before_of_before_last [Ranking before key] {x last : α} {ys : List α}
    (h : Ascending before (ys ++ [last])) (hx : before last x = true) :
    ∀ y ∈ ys ++ [last], before y x = true := by
  intro y hy
  rcases List.mem_append.mp hy with hy | hy
  · have hlast := (List.pairwise_append.mp h).2.2 y hy last (List.mem_singleton_self last)
    exact Ranking.trans hlast hx
  · rw [List.mem_singleton.mp hy]
    exact hx

/-- Testing only the last element of a full list is enough: a bounded list that is offered a new
element keeps the beginning of the list with the element inserted. -/
theorem Ascending.offer_eq [Ranking before key] {capacity : Nat} {x : α} {ys : List α}
    (h : Ascending before ys) (hlength : ys.length ≤ capacity) (hx : ∀ y ∈ ys, key y ≠ key x) :
    (offer before capacity x ys).1 = (Ranked.insert before x ys).take capacity := by
  unfold offer
  split
  case isTrue hroom =>
    exact (List.take_of_length_le (by rw [length_insert]; omega)).symm
  case isFalse hfull =>
    have hcapacity : capacity = ys.length := by omega
    rcases List.eq_nil_or_concat ys with hnil | ⟨init, last, hconcat⟩
    · subst hnil
      simp [hcapacity]
    · rw [List.concat_eq_append] at hconcat
      have hkey : key last ≠ key x := hx last (by simp [hconcat])
      simp only [hconcat, List.getLast?_concat, List.dropLast_concat]
      split
      case isTrue hbefore =>
        rw [insert_append_last init (Ranking.asymm hbefore), List.take_left' (by simp [*])]
      case isFalse hbefore =>
        have hafter : before last x = true := (Ranking.comparable hkey).resolve_right hbefore
        rw [insert_eq_append (Ascending.before_of_before_last (hconcat ▸ h) hafter),
          List.take_left' (by simp [*])]

/-- A new element is reported as taken if it is in the list afterwards. -/
theorem offer_taken_iff {capacity : Nat} {x : α} {ys : List α} (hx : x ∉ ys) :
    (offer before capacity x ys).2 = true ↔ x ∈ (offer before capacity x ys).1 := by
  unfold offer
  split
  · simp
  · split
    · split <;> simp [hx]
    · simp [hx]

/-- An offer brings in nothing but the element offered. -/
theorem mem_of_mem_offer {capacity : Nat} {x a : α} {ys : List α}
    (h : a ∈ (offer before capacity x ys).1) : a = x ∨ a ∈ ys := by
  unfold offer at h
  split at h
  · exact mem_insert.mp h
  · split at h
    · split at h
      · exact (mem_insert.mp h).imp_right List.mem_of_mem_dropLast
      · exact Or.inr h
    · exact Or.inr h

end Overlay.Ranked
