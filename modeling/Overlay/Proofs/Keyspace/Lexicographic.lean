import Mathlib
import Overlay.Proofs.Keyspace.Text

/-!
The order of identifiers is the one that their texts show. Positions of one space compare like the
lists of their digits, first digit first, because what follows a digit weighs less than one more of
it. The characters ascend as the digits do, letters behind figures, so texts compare alike, and
sorted identifiers are written as a sorted list of texts.
-/

namespace Overlay.Keyspace

/-- A digit decides unless it is the same, and then what follows does. -/
theorem compare_weighted {weight p q : Nat} (d e : Nat) (hp : p < weight) (hq : q < weight) :
    compare (d * weight + p) (e * weight + q) = (compare d e).then (compare p q) := by
  rcases Nat.lt_trichotomy d e with hlt | rfl | hgt
  · have hnext : d * weight + weight ≤ e * weight := by
      rw [← Nat.succ_mul]
      exact Nat.mul_le_mul_right weight hlt
    rw [Nat.compare_eq_lt.mpr hlt, Ordering.lt_then]
    exact Nat.compare_eq_lt.mpr (by omega)
  · rw [Nat.compare_eq_eq.mpr rfl, Ordering.eq_then]
    rcases Nat.lt_trichotomy p q with hlt | rfl | hgt
    · rw [Nat.compare_eq_lt.mpr hlt]
      exact Nat.compare_eq_lt.mpr (by omega)
    · rw [Nat.compare_eq_eq.mpr rfl, Nat.compare_eq_eq.mpr rfl]
    · rw [Nat.compare_eq_gt.mpr hgt]
      exact Nat.compare_eq_gt.mpr (by omega)
  · have hnext : e * weight + weight ≤ d * weight := by
      rw [← Nat.succ_mul]
      exact Nat.mul_le_mul_right weight hgt
    rw [Nat.compare_eq_gt.mpr hgt, Ordering.gt_then]
    exact Nat.compare_eq_gt.mpr (by omega)

/-- Lists of digits of one length compare like the numbers that they spell. -/
theorem compare_positional {base : Nat} (hbase : 1 < base) {ds es : List Nat}
    (hlength : ds.length = es.length) (hds : ∀ d ∈ ds, d < base) (hes : ∀ e ∈ es, e < base) :
    compare (positional base ds) (positional base es) = compare ds es := by
  induction ds generalizing es with
  | nil =>
    rw [List.eq_nil_of_length_eq_zero hlength.symm]
    rfl
  | cons d ds ih =>
    cases es with
    | nil => cases hlength
    | cons e es =>
      have hrest : ds.length = es.length := Nat.succ.inj hlength
      obtain ⟨-, hds⟩ := List.forall_mem_cons.mp hds
      obtain ⟨-, hes⟩ := List.forall_mem_cons.mp hes
      have hp := positional_lt hbase hds
      have hq := positional_lt hbase hes
      rw [hrest] at hp
      rw [positional_cons, positional_cons, hrest, compare_weighted d e hp hq, ih hrest hds hes,
        List.compare_cons_cons]

/-- Lists compare like lists of what their elements are replaced by, if these compare alike. -/
theorem compare_map {α β : Type} [Ord α] [Ord β] {f : α → β} {as bs : List α}
    (h : ∀ a ∈ as, ∀ b ∈ bs, compare (f a) (f b) = compare a b) :
    compare (as.map f) (bs.map f) = compare as bs := by
  induction as generalizing bs with
  | nil => cases bs <;> rfl
  | cons a as ih =>
    cases bs with
    | nil => rfl
    | cons b bs =>
      have hhead := h a List.mem_cons_self b List.mem_cons_self
      have htail : compare (as.map f) (bs.map f) = compare as bs :=
        ih fun a ha b hb => h a (List.mem_cons_of_mem _ ha) b (List.mem_cons_of_mem _ hb)
      rw [List.map_cons, List.map_cons, List.compare_cons_cons, List.compare_cons_cons, hhead,
        htail]

theorem compare_characters_eq_lt {cs ds : List Char} : compare cs ds = .lt ↔ cs < ds := by
  induction cs generalizing ds with
  | nil => cases ds <;> simp
  | cons c cs ih =>
    cases ds with
    | nil => simp
    | cons d ds =>
      rw [List.compare_cons_cons, Ordering.then_eq_lt, ih, List.cons_lt_cons_iff,
        Std.LawfulLTCmp.eq_lt_iff_lt, Std.LawfulEqOrd.compare_eq_iff_eq]

/-- Texts compare like the lists of their characters. -/
theorem compare_ofList (cs ds : List Char) :
    compare (String.ofList cs) (String.ofList ds) = compare cs ds := by
  have hlt {cs ds : List Char} (h : compare cs ds = .lt) :
      compare (String.ofList cs) (String.ofList ds) = .lt := by
    rw [Std.LawfulLTCmp.eq_lt_iff_lt, String.lt_iff_toList_lt, String.toList_ofList,
      String.toList_ofList]
    exact compare_characters_eq_lt.mp h
  cases h : compare cs ds with
  | lt => exact hlt h
  | eq => rw [Std.LawfulEqOrd.compare_eq_iff_eq.mp h, Std.ReflOrd.compare_self]
  | gt => exact Std.OrientedCmp.gt_of_lt (hlt (Std.OrientedCmp.lt_of_gt h))

namespace Id

variable {a b : Id}

/-- Within a space only the position is left to compare. -/
theorem order_of_space (hspace : a.space = b.space) :
    a.order b = compare a.value.toNat b.value.toNat := by
  rw [order, length, length, hspace, Nat.compare_eq_eq.mpr rfl, Nat.compare_eq_eq.mpr rfl,
    Ordering.then_eq, Ordering.then_eq]

theorem order_eq_compare_digits (hspace : a.space = b.space) :
    a.order b = compare a.digits b.digits := by
  have hlength : a.digits.length = b.digits.length := by
    rw [length_digits, length_digits, hspace]
  have hcompare := compare_positional a.space.one_lt_base hlength a.digits_lt
    (hspace ▸ b.digits_lt)
  rw [order_of_space hspace, ← hcompare, positional_digits, hspace, positional_digits]

theorem order_eq_compare_text (hspace : a.space = b.space) :
    a.order b = compare a.text b.text := by
  have hcharacter : ∀ d < 16, ∀ e < 16, compare d.digitChar e.digitChar = compare d e := by decide
  have hsmall (c : Id) : ∀ d ∈ c.digits, d < 16 :=
    fun d hd => Nat.lt_of_lt_of_le (c.digits_lt d hd) c.space.base_le
  rw [text, text, compare_ofList, order_eq_compare_digits hspace]
  exact (compare_map fun d hd e he => hcharacter d (hsmall a d hd) e (hsmall b e he)).symm

theorem order_eq_iff :
    a.order b = .eq ↔
      a.value = b.value ∧ a.length = b.length ∧ a.space.base = b.space.base := by
  rw [Std.LawfulEqCmp.compare_eq_iff_eq]
  constructor
  · rintro rfl
    exact ⟨rfl, rfl, rfl⟩
  · rintro ⟨hvalue, hlength, hbase⟩
    exact eq_of_value_space hvalue (Space.eq_of_base_length hbase hlength)

theorem order_total (a b : Id) : (a.order b).isLE = true ∨ (b.order a).isLE = true := by
  rw [order_swap a b]
  cases a.order b <;> simp

theorem sort_perm (ids : List Id) : (sort ids).Perm ids := List.mergeSort_perm ids _

theorem sort_pairwise (ids : List Id) :
    (sort ids).Pairwise fun a b => (a.order b).isLE = true := by
  apply List.pairwise_mergeSort
  · exact fun a b c => Std.TransCmp.isLE_trans
  · intro a b
    rw [Bool.or_eq_true]
    exact order_total a b

/-- The texts of identifiers of one space have one ascending arrangement, that of the sorted
identifiers. -/
theorem ascending_texts_iff {space : Space} {ids : List Id} (hids : ∀ a ∈ ids, a.space = space)
    {texts : List String} :
    texts.Perm (ids.map text) ∧ texts.Pairwise (fun s t => (compare s t).isLE = true) ↔
      texts = (sort ids).map text := by
  have hperm : ((sort ids).map text).Perm (ids.map text) := (sort_perm ids).map text
  have hsorted : ((sort ids).map text).Pairwise fun s t => (compare s t).isLE = true := by
    rw [List.pairwise_map]
    refine (sort_pairwise ids).imp_of_mem fun {a b} ha hb hle => ?_
    have hspace : a.space = b.space :=
      (hids a ((sort_perm ids).mem_iff.mp ha)).trans (hids b ((sort_perm ids).mem_iff.mp hb)).symm
    rwa [← order_eq_compare_text hspace]
  constructor
  · rintro ⟨htexts, hascending⟩
    refine List.Perm.eq_of_pairwise ?_ hascending hsorted (htexts.trans hperm.symm)
    intro s t _ _ hst hts
    exact Std.LawfulEqOrd.compare_eq_iff_eq.mp (Std.OrientedCmp.isLE_antisymm hst hts)
  · rintro rfl
    exact ⟨hperm, hsorted⟩

/-- All identifiers together, of whatever spaces, are totally ordered, and two of them compare as
equal just if they have the same position, length and base, that is, if they are equal. Identifiers
of one space compare like their digits and like their texts, both read from the front. So to sort
identifiers is to sort their texts. -/
theorem order_is_lexicographic :
    (∀ a b : Id, (a.order b).isLE = true ∨ (b.order a).isLE = true) ∧
      (∀ a b : Id, b.order a = (a.order b).swap) ∧
      (∀ a b c : Id, (a.order b).isLE = true → (b.order c).isLE = true →
        (a.order c).isLE = true) ∧
      (∀ a b : Id, (a.order b = .eq ↔ a = b) ∧ (a.order b = .eq ↔
        a.value = b.value ∧ a.length = b.length ∧ a.space.base = b.space.base)) ∧
      (∀ a b : Id, a.space = b.space →
        a.order b = compare a.digits b.digits ∧ a.order b = compare a.text b.text) ∧
      ∀ (space : Space) (ids : List Id), (∀ a ∈ ids, a.space = space) → ∀ texts : List String,
        texts.Perm (ids.map text) ∧ texts.Pairwise (fun s t => (compare s t).isLE = true) ↔
          texts = (sort ids).map text := by
  refine ⟨order_total, order_swap, fun a b c => Std.TransCmp.isLE_trans, ?_, ?_, ?_⟩
  · exact fun a b => ⟨Std.LawfulEqCmp.compare_eq_iff_eq, order_eq_iff⟩
  · exact fun a b hspace => ⟨order_eq_compare_digits hspace, order_eq_compare_text hspace⟩
  · exact fun space ids hids texts => ascending_texts_iff hids

/-- In different spaces even the same text may stand for different identifiers. -/
example :
    let a : Id := ofWord 1 { radix := .binary, length := 2 }
    let b : Id := ofWord 1 { radix := .hexadecimal, length := 2 }
    a.text = b.text ∧ a.order b = .lt := by
  decide +kernel

end Id

end Overlay.Keyspace
