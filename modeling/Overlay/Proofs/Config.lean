import Mathlib
import Overlay.Config

/-!
What a configuration is judged by. Judgements are chains of guards, and such a chain succeeds just
if every guard lets through; this is said once, for all that is judged.
-/

namespace Overlay

variable {α β : Type}

theorem bind_eq_ok {x : Except Error α} {next : α → Except Error β} {b : β} :
    (x >>= next) = .ok b ↔ ∃ a, x = .ok a ∧ next a = .ok b := by
  cases x <;> simp [bind, Except.bind]

theorem guard_eq_ok {refused : Prop} [Decidable refused] {e : Error}
    {next : Unit → Except Error β} {b : β} :
    (if refused then (throw e : Except Error Unit) >>= next else next ()) = .ok b ↔
      ¬refused ∧ next () = .ok b := by
  by_cases hrefused : refused
  · simp [hrefused, bind, Except.bind, throw, throwThe, MonadExceptOf.throw]
  · simp [hrefused]

theorem pure_eq_ok {a b : β} : (pure a : Except Error β) = .ok b ↔ a = b := by
  simp [pure, Except.pure]

theorem mapError_eq_ok {ε ε' : Type} {x : Except ε α} {wrap : ε → ε'} {a : α} :
    x.mapError wrap = .ok a ↔ x = .ok a := by
  cases x <;> simp [Except.mapError]

section

variable {γ : Type} {fails : γ → Error → Prop} {judgement : γ} {judgements : List γ} {e : Error}

/-- The error of the first judgement that fails. -/
def FirstFailure (fails : γ → Error → Prop) (judgements : List γ) (e : Error) : Prop :=
  ∃ before judgement after, judgements = before ++ judgement :: after ∧
    (∀ earlier ∈ before, ∀ other, ¬fails earlier other) ∧ fails judgement e

theorem firstFailure_nil : ¬FirstFailure fails [] e := by
  rintro ⟨before, judgement, after, hnil, -⟩
  simp at hnil

theorem firstFailure_cons :
    FirstFailure fails (judgement :: judgements) e ↔
      fails judgement e ∨ (∀ other, ¬fails judgement other) ∧ FirstFailure fails judgements e := by
  constructor
  · rintro ⟨before, failing, after, hsplit, hbefore, hfails⟩
    cases before with
    | nil =>
      obtain ⟨rfl, -⟩ := List.cons_eq_cons.mp hsplit
      exact .inl hfails
    | cons earlier before =>
      obtain ⟨rfl, hrest⟩ := List.cons_eq_cons.mp hsplit
      obtain ⟨hpasses, hbefore⟩ := List.forall_mem_cons.mp hbefore
      exact .inr ⟨hpasses, before, failing, after, hrest, hbefore, hfails⟩
  · rintro (hfails | ⟨hpasses, before, failing, after, rfl, hbefore, hfails⟩)
    · exact ⟨[], judgement, judgements, rfl, by simp, hfails⟩
    · exact ⟨judgement :: before, failing, after, rfl, List.forall_mem_cons.mpr ⟨hpasses, hbefore⟩,
        hfails⟩

/-- A chain without judgements fails nowhere. -/
theorem pure_eq_error_iff {b : β} :
    (pure b : Except Error β) = .error e ↔ FirstFailure fails [] e := by
  simp [pure, Except.pure, firstFailure_nil]

/-- A chain fails at its first judgement or, if that passes, as the rest of the chain does. -/
theorem bind_eq_error_iff {x : Except Error α} {next : α → Except Error β}
    (hx : ∀ other, x = .error other ↔ fails judgement other)
    (hnext : ∀ a, x = .ok a → (next a = .error e ↔ FirstFailure fails judgements e)) :
    (x >>= next) = .error e ↔ FirstFailure fails (judgement :: judgements) e := by
  rw [firstFailure_cons]
  simp only [← hx]
  cases x with
  | error cause => simp [bind, Except.bind]
  | ok a => simpa [bind, Except.bind] using hnext a rfl

theorem guard_eq_error_iff {refused : Prop} [Decidable refused] {cause : Error}
    {next : Unit → Except Error β}
    (hrefused : ∀ other, fails judgement other ↔ refused ∧ other = cause)
    (hnext : ¬refused → (next () = .error e ↔ FirstFailure fails judgements e)) :
    (if refused then (throw cause : Except Error Unit) >>= next else next ()) = .error e ↔
      FirstFailure fails (judgement :: judgements) e := by
  rw [firstFailure_cons]
  simp only [hrefused]
  by_cases h : refused
  · simp [h, bind, Except.bind, throw, throwThe, MonadExceptOf.throw, eq_comm]
  · simpa [h] using hnext h

end

namespace Config

/-- A configuration is usable if its penalty is and nothing in it is zero. -/
theorem check_eq_ok {c : Config} {metric : Metric} :
    c.check = .ok metric ↔
      Metric.ofPenalty c.penalty = .ok metric ∧ c.leafCapacity ≠ 0 ∧
        c.neighborhoodCapacity ≠ 0 ∧ c.timeout.nanoseconds ≠ 0 ∧ c.inboxCapacity ≠ 0 := by
  simp only [check, bind_eq_ok, guard_eq_ok, pure_eq_ok]
  constructor
  · rintro ⟨m, hm, hleaf, hneighborhood, htimeout, hinbox, rfl⟩
    exact ⟨hm, hleaf, hneighborhood, htimeout, hinbox⟩
  · rintro ⟨hm, hleaf, hneighborhood, htimeout, hinbox⟩
    exact ⟨metric, hm, hleaf, hneighborhood, htimeout, hinbox, rfl⟩

end Config

end Overlay
