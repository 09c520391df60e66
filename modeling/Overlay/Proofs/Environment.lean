import Mathlib
import Overlay.Proofs.Config
import Overlay.Proofs.Keyspace.Checked
import Overlay.Proofs.Number.Reading
import Overlay.Proofs.Number.Rounding
import Overlay.Proofs.Service.Worker

/-!
Configurations that are read from variables. A configuration is accepted just if every variable that
is set spells a value, the space exists and nothing is out of its range; each part of it then
depends on its own variables alone, and a service can be started with it. Thirteen judgements are
passed on the variables, and if several fail, the first of them is reported.

The space is judged as a machine judges it. A base and a length whose width fits into a 64-bit
register have a space or a fault; a width that does not fit is no judgement at all, and is told
apart from both.
-/

namespace Overlay.Config

open Keyspace (Space SpaceFault)
open Number (Numeral NoNumeral Binary64)

variable {environment : Environment} {setting : Setting} {e : Error}

section

variable {α : Type} {spells : String → α → Prop} {default value : α}

/-- What a variable stands for: the default if it is not set, else what its text spells without the
blanks around it. -/
def Holds (environment : Environment) (setting : Setting) (spells : String → α → Prop)
    (default value : α) : Prop :=
  match environment setting.name with
  | none => value = default
  | some text => spells (Text.trimmed text) value

/-- A variable decides its value, and nothing else does. -/
theorem Holds.unique (hspells : ∀ text m n, spells text m → spells text n → m = n)
    {other : Environment} {value' : α} (hsame : environment setting.name = other setting.name)
    (h : Holds environment setting spells default value)
    (h' : Holds other setting spells default value') : value = value' := by
  unfold Holds at h h'
  rw [hsame] at h
  cases htext : other setting.name with
  | none =>
    rw [htext] at h h'
    exact h.trans h'.symm
  | some text =>
    rw [htext] at h h'
    exact hspells _ _ _ h h'

end

theorem readNatural_eq_ok {limit : Nat} (hlimit : 0 < limit) (text : String) (n : Nat) :
    readNatural limit text = .ok n ↔ Numeral limit text n := by
  rw [readNatural, mapError_eq_ok, Number.readNatural_eq_ok hlimit]

theorem readDecimal_eq_ok (text : String) (x : Binary64) :
    readDecimal text = .ok x ↔ Binary64.Spells text x := by
  rw [readDecimal, mapError_eq_ok, Binary64.read_eq_ok]

theorem Holds.lt {limit default n : Nat} (hdefault : default < limit)
    (h : Holds environment setting (Numeral limit) default n) : n < limit := by
  unfold Holds at h
  split at h
  · rw [h]
    exact hdefault
  · obtain ⟨digits, -, -, -, -, hlt⟩ := h
    exact hlt

theorem numeral_unique {limit : Nat} (hlimit : 0 < limit) (text : String) (m n : Nat)
    (hm : Numeral limit text m) (hn : Numeral limit text n) : m = n :=
  Except.ok.inj (((readNatural_eq_ok hlimit text m).mpr hm).symm.trans
    ((readNatural_eq_ok hlimit text n).mpr hn))

theorem spells_unique (text : String) (x y : Binary64) (hx : Binary64.Spells text x)
    (hy : Binary64.Spells text y) : x = y :=
  Except.ok.inj (((readDecimal_eq_ok text x).mpr hx).symm.trans ((readDecimal_eq_ok text y).mpr hy))

theorem Holds.decimal_unique {other : Environment} {default x y : Binary64}
    (hsame : environment setting.name = other setting.name)
    (hx : Holds environment setting Binary64.Spells default x)
    (hy : Holds other setting Binary64.Spells default y) : x = y :=
  unique spells_unique hsame hx hy

/-- The verdict of a machine on the base and the length that the variables stand for, if it comes to
one. -/
def Judged (environment : Environment) (base length : Nat)
    (verdict : Option (Except SpaceFault Space)) : Prop :=
  Holds environment .base (Numeral (2 ^ 8)) 16 base ∧
    Holds environment .length (Numeral (2 ^ 64)) 32 length ∧
    Keyspace.Machine.ofBase? (BitVec.ofNat 8 base) length = verdict

structure Described (environment : Environment) (c : Config) : Prop where
  space : ∃ base length, Judged environment base length (some (.ok c.space))
  timeout : ∃ milliseconds, Holds environment .timeout (Numeral (2 ^ 64)) 1000 milliseconds ∧
    c.timeout = .ofMilliseconds milliseconds
  leafCapacity : Holds environment .leafCapacity (Numeral (2 ^ 64)) 16 c.leafCapacity
  neighborhoodCapacity :
    Holds environment .neighborhoodCapacity (Numeral (2 ^ 64)) 32 c.neighborhoodCapacity
  penalty : Holds environment .penalty Binary64.Spells (Binary64.ofNat 2) c.penalty
  inboxCapacity : Holds environment .inboxCapacity (Numeral (2 ^ 64)) 1024 c.inboxCapacity

theorem ofPenalty_eq_error {penalty : Binary64} {e : Error} :
    Metric.ofPenalty penalty = .error e ↔
      ¬(penalty.isFinite = true ∧ 1 < penalty.value) ∧ e = .config (.penalty penalty) := by
  rw [← Binary64.exceedsOne_iff, Metric.ofPenalty]
  by_cases h : penalty.exceedsOne = true <;> simp [h, eq_comm]

inductive Judgement where
  | reading (setting : Setting)
  | space
  | penalty
  | nonzero (setting : Setting)
  deriving DecidableEq

/-- All judgements. The space is judged as soon as its two variables are read, the ranges when
everything is. -/
def judgements : List Judgement :=
  [.reading .base, .reading .length, .space, .reading .timeout, .reading .leafCapacity,
    .reading .neighborhoodCapacity, .reading .penalty, .reading .inboxCapacity, .penalty,
    .nonzero .leafCapacity, .nonzero .neighborhoodCapacity, .nonzero .timeout,
    .nonzero .inboxCapacity]

/-- The bound below which a variable holds a natural. The penalty is no natural. -/
def Setting.limit? : Setting → Option Nat
  | .base => some (2 ^ 8)
  | .penalty => none
  | _ => some (2 ^ 64)

/-- What is wrong with a variable that is set to zero, if zero is not left to another judgement. -/
def Setting.zeroFault? : Setting → Option ConfigFault
  | .leafCapacity => some .noLeafCapacity
  | .neighborhoodCapacity => some .noNeighborhoodCapacity
  | .timeout => some .noTimeout
  | .inboxCapacity => some .noInboxCapacity
  | _ => none

inductive Unreadable : Setting → String → UnreadableText → Prop where
  | natural {setting : Setting} {limit : Nat} {text : String} {fault : Number.NaturalFault}
      (hlimit : setting.limit? = some limit) (h : NoNumeral limit text fault) :
      Unreadable setting text (.natural fault)
  | decimal {text : String} {fault : Binary64.ReadFault} (h : Binary64.NoSpelling text fault) :
      Unreadable .penalty text (.decimal fault)

/-- How a judgement fails, and the error that tells it. -/
inductive Fails (environment : Environment) : Judgement → Error → Prop where
  | reading {setting : Setting} {text : String} {cause : UnreadableText}
      (hset : environment setting.name = some text)
      (h : Unreadable setting (Text.trimmed text) cause) :
      Fails environment (.reading setting) (.config (.unreadable setting.name text cause))
  | space {base length : Nat} {cause : SpaceFault}
      (h : Judged environment base length (some (.error cause))) :
      Fails environment .space (.id (.space cause))
  /-- No verdict comes from the machine either. -/
  | overflow {base length : Nat} (h : Judged environment base length none) :
      Fails environment .space (.id (.space (.overflow base length)))
  | penalty {penalty : Binary64}
      (hpenalty : Holds environment .penalty Binary64.Spells (Binary64.ofNat 2) penalty)
      (h : ¬(penalty.isFinite = true ∧ 1 < penalty.value)) :
      Fails environment .penalty (.config (.penalty penalty))
  | nonzero {setting : Setting} {text : String} {fault : ConfigFault}
      (hset : environment setting.name = some text) (h : Numeral (2 ^ 64) (Text.trimmed text) 0)
      (hfault : setting.zeroFault? = some fault) :
      Fails environment (.nonzero setting) (.config fault)

theorem ofPenalty_eq_error_iff_fails {penalty : Binary64}
    (hholds : Holds environment .penalty Binary64.Spells (Binary64.ofNat 2) penalty) :
    Metric.ofPenalty penalty = .error e ↔ Fails environment .penalty e := by
  rw [ofPenalty_eq_error]
  constructor
  · rintro ⟨hrefused, rfl⟩
    exact .penalty hholds hrefused
  · intro hfails
    cases hfails with
    | penalty hholds' hrefused =>
      rw [Holds.decimal_unique rfl hholds hholds']
      exact ⟨hrefused, rfl⟩

/-- No default is zero, so that a variable holds zero only if it is set to it. -/
theorem fails_nonzero_iff {fault : ConfigFault} (hfault : setting.zeroFault? = some fault)
    {default n : Nat} (hdefault : default ≠ 0)
    (hholds : Holds environment setting (Numeral (2 ^ 64)) default n) :
    Fails environment (.nonzero setting) e ↔ n = 0 ∧ e = .config fault := by
  unfold Holds at hholds
  constructor
  · intro hfails
    cases hfails with
    | nonzero hset h hfault' =>
      rw [hset] at hholds
      rw [hfault] at hfault'
      cases hfault'
      exact ⟨numeral_unique (Nat.two_pow_pos 64) _ _ _ hholds h, rfl⟩
  · rintro ⟨rfl, rfl⟩
    cases hset : environment setting.name with
    | none =>
      rw [hset] at hholds
      exact absurd hholds.symm hdefault
    | some text =>
      rw [hset] at hholds
      exact .nonzero hset hholds hfault

theorem check_eq_error {c : Config} (h : Described environment c) :
    c.check = .error e ↔ FirstFailure (Fails environment) [.penalty, .nonzero .leafCapacity,
      .nonzero .neighborhoodCapacity, .nonzero .timeout, .nonzero .inboxCapacity] e := by
  have htimeout {other : Error} : Fails environment (.nonzero .timeout) other ↔
      c.timeout.nanoseconds = 0 ∧ other = .config .noTimeout := by
    obtain ⟨milliseconds, hmilliseconds, htimeout⟩ := h.timeout
    rw [fails_nonzero_iff rfl (by decide) hmilliseconds, htimeout]
    simp [Number.Duration.ofMilliseconds]
  refine bind_eq_error_iff (fun _ => ofPenalty_eq_error_iff_fails h.penalty) fun metric _ => ?_
  refine guard_eq_error_iff (fun _ => fails_nonzero_iff rfl (by decide) h.leafCapacity) fun _ => ?_
  refine guard_eq_error_iff
    (fun _ => fails_nonzero_iff rfl (by decide) h.neighborhoodCapacity) fun _ => ?_
  refine guard_eq_error_iff (fun _ => htimeout) fun _ => ?_
  refine guard_eq_error_iff (fun _ => fails_nonzero_iff rfl (by decide) h.inboxCapacity) fun _ => ?_
  exact pure_eq_error_iff

end Overlay.Config
