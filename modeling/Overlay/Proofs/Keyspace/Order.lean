import Mathlib
import Overlay.Keyspace.Id

/-!
The order of identifiers is one total order over all spaces together, under which only equal
identifiers compare as equal. Ranks fall back to it, and this is why two nodes with different
identifiers never tie.
-/

namespace Overlay.Keyspace

theorem Radix.base_injective : Function.Injective Radix.base := by
  intro r s hbase
  cases r <;> cases s <;> first | rfl | exact absurd hbase (by decide)

theorem Space.eq_of_base_length {s t : Space} (hbase : s.base = t.base)
    (hlength : s.length = t.length) : s = t := by
  obtain ⟨r, l, _, _⟩ := s
  obtain ⟨r', l', _, _⟩ := t
  have hradix : r = r' := Radix.base_injective hbase
  subst hradix hlength
  rfl

namespace Id

theorem eq_of_value_space {a b : Id} (hvalue : a.value = b.value) (hspace : a.space = b.space) :
    a = b := by
  obtain ⟨s, v, _⟩ := a
  obtain ⟨s', v', _⟩ := b
  subst hvalue hspace
  rfl

instance : Std.TransCmp order :=
  inferInstanceAs (Std.TransCmp (compareLex (compareOn fun a : Id => a.value.toNat)
    (compareLex (compareOn length) (compareOn fun a : Id => a.space.base))))

instance : Std.LawfulEqCmp order where
  eq_of_compare {a b} h := by
    have ⟨hvalue, hlength, hbase⟩ :
        a.value.toNat = b.value.toNat ∧ a.length = b.length ∧ a.space.base = b.space.base := by
      simpa only [order, Ordering.then_eq_eq, Std.LawfulEqOrd.compare_eq_iff_eq] using h
    exact eq_of_value_space (BitVec.eq_of_toNat_eq hvalue) (Space.eq_of_base_length hbase hlength)

theorem order_self (a : Id) : a.order a = .eq := Std.ReflCmp.compare_self

theorem order_swap (a b : Id) : b.order a = (a.order b).swap := Std.OrientedCmp.eq_swap

theorem precedes_irrefl (a : Id) : a.precedes a = false := by
  rw [precedes, order_self]
  rfl

/-- Of two different identifiers exactly one precedes the other. -/
theorem precedes_iff_not_precedes {a b : Id} (hne : a ≠ b) :
    b.precedes a = true ↔ a.precedes b = false := by
  rw [precedes, precedes, order_swap a b]
  cases hcmp : a.order b with
  | lt => simp
  | gt => simp
  | eq => exact absurd (Std.LawfulEqCmp.eq_of_compare hcmp) hne

theorem not_precedes_of_precedes {a b : Id} (h : a.precedes b = true) : b.precedes a = false := by
  rw [precedes, Ordering.isLT_iff_eq_lt] at h
  rw [precedes, order_swap a b, h]
  rfl

end Id

end Overlay.Keyspace
