import Mathlib
import Overlay.Proofs.Metric
import Overlay.Proofs.Number.Rounding
import Overlay.Proofs.Peers.History

/-!
How latency samples decide which of two nodes is nearer. On either side of the region boundary the
adjusted latency never falls as the sample grows, and where rounding or overflow makes two of them
equal the samples themselves are compared, so the lower sample always wins. Across the boundary the
penalty raises every sample but zero, which no factor changes.
-/

namespace Overlay.Metric

open Number (Binary64)

/-- A sample as it counts inside the region of the origin or outside. -/
def weighed (m : Metric) (inside : Bool) (sample : Nat) : Binary64 :=
  if inside then Binary64.ofNat sample else (Binary64.ofNat sample).mul m.penalty

variable {m : Metric} {origin a b : Node}

theorem weighed_inside (sample : Nat) : m.weighed true sample = Binary64.ofNat sample := by
  rw [weighed, if_pos rfl]

theorem weighed_outside (sample : Nat) :
    m.weighed false sample = (Binary64.ofNat sample).mul m.penalty := by
  rw [weighed, if_neg Bool.false_ne_true]

theorem adjusted_eq_weighed (m : Metric) (origin a : Node) :
    m.adjusted origin a = m.weighed (a.isIn origin.region) a.latency := by
  rw [adjusted, weighed]

theorem rank_weighed (inside : Bool) (sample : Nat) :
    (m.weighed inside sample).rank = (m.weighed inside sample).magnitude := by
  cases inside with
  | true => rw [weighed_inside, Binary64.ofNat_eq, Binary64.rank_nearest]
  | false => rw [weighed_outside, Binary64.mul_eq, Binary64.rank_nearest]

theorem weighed_mono (m : Metric) (inside : Bool) :
    Monotone fun sample => (m.weighed inside sample).rank := by
  intro s t hle
  simp only [rank_weighed, Int.ofNat_le]
  have hsample := Binary64.magnitude_ofNat_mono hle
  cases inside with
  | true =>
    rw [weighed_inside, weighed_inside]
    exact hsample
  | false =>
    rw [weighed_outside, weighed_outside]
    exact Binary64.magnitude_mul_mono m.penalty hsample

/-- Outside the region a positive sample counts more than it does inside. -/
theorem weighed_lt (m : Metric) {s t : Nat} (hle : s ≤ t) (hpos : 0 < t) (hword : t < 2 ^ 64) :
    (m.weighed true s).rank < (m.weighed false t).rank := by
  obtain ⟨hnormal, hfinite⟩ := Binary64.magnitude_ofNat_bounds hpos hword
  rw [rank_weighed, rank_weighed, Int.ofNat_lt, weighed_inside, weighed_outside]
  calc (Binary64.ofNat s).magnitude ≤ (Binary64.ofNat t).magnitude :=
        Binary64.magnitude_ofNat_mono hle
    _ < ((Binary64.ofNat t).mul m.penalty).magnitude :=
        Binary64.magnitude_lt_mul m.penalty_exceedsOne hnormal hfinite

theorem weighed_zero (inside : Bool) : m.weighed inside 0 = Binary64.ofNat 0 := by
  cases inside with
  | true => rw [weighed_inside]
  | false => rw [weighed_outside, Binary64.ofNat_zero_mul]

/-- A key that does not fall as the next one grows decides nothing. -/
theorem compare_then_of_monotone {key : Nat → Int} (hkey : Monotone key) (s t : Nat)
    (rest : Ordering) :
    (compare (key s) (key t)).then ((compare s t).then rest) = (compare s t).then rest := by
  rcases Nat.lt_trichotomy s t with hlt | rfl | hgt
  · have hle := Int.isLE_compare.mpr (hkey hlt.le)
    rw [Nat.compare_eq_lt.mpr hlt]
    cases hkeys : compare (key s) (key t) with
    | lt => rfl
    | eq => rfl
    | gt => simp [hkeys] at hle
  · rw [Int.compare_eq_eq.mpr rfl, Ordering.eq_then]
  · have hge := Int.isGE_compare.mpr (hkey hgt.le)
    rw [Nat.compare_eq_gt.mpr hgt]
    cases hkeys : compare (key s) (key t) with
    | lt => simp [hkeys] at hge
    | eq => rfl
    | gt => rfl

theorem order_eq_weighed (m : Metric) (origin a b : Node) :
    m.order origin a b =
      (compare (m.weighed (a.isIn origin.region) a.latency).rank
        (m.weighed (b.isIn origin.region) b.latency).rank).then
        ((compare a.latency b.latency).then (a.id.order b.id)) := by
  rw [← adjusted_eq_weighed, ← adjusted_eq_weighed]
  rfl

/-- On one side of the region boundary the adjusted latency decides nothing that the sample does
not. -/
theorem order_of_same_side (hside : a.isIn origin.region = b.isIn origin.region) :
    m.order origin a b = (compare a.latency b.latency).then (a.id.order b.id) := by
  rw [order_eq_weighed, hside]
  exact compare_then_of_monotone (m.weighed_mono _) _ _ _

/-- Across the boundary the penalty decides, unless both samples are zero. -/
theorem order_across_sides (ha : a.isIn origin.region = true) (hb : b.isIn origin.region = false)
    (hlatency : a.latency ≤ b.latency) (hword : b.latency < 2 ^ 64) :
    m.order origin a b = .lt ↔ 0 < b.latency ∨ a.id.precedes b.id = true := by
  rw [order_eq_weighed, ha, hb]
  rcases Nat.eq_zero_or_pos b.latency with hzero | hpos
  · have hzero' : a.latency = 0 := by omega
    rw [hzero, hzero', weighed_zero, weighed_zero, Int.compare_eq_eq.mpr rfl,
      Nat.compare_eq_eq.mpr rfl, Ordering.eq_then, Ordering.eq_then, Keyspace.Id.precedes,
      Ordering.isLT_iff_eq_lt]
    simp
  · have hlt := m.weighed_lt hlatency hpos hword
    rw [Int.compare_eq_lt.mpr hlt]
    simp [hpos]

/-- Of two nodes on the same side of the region boundary the one with the lower sample is nearer. It
does not matter whether their adjusted latencies still differ after rounding, nor which identifier
comes first. -/
theorem lower_sample_is_nearer (m : Metric) (origin : Node) {a b : Node}
    (hside : a.isIn origin.region = b.isIn origin.region) (hsample : a.latency < b.latency) :
    m.order origin a b = .lt := by
  rw [order_of_same_side hside, Nat.compare_eq_lt.mpr hsample, Ordering.lt_then]

/-- Two samples that round to the same number, and two that the largest penalty makes infinite. The
identifiers would order both pairs the other way round. -/
theorem samples_beyond_rounding :
    let node (region : String) (value : Keyspace.Word) (latency : Nat) : Node :=
      { Node.sample .canonical value with region, latency }
    let m : Metric := ⟨⟨0x7fefffffffffffff#64⟩, by decide +kernel⟩
    let origin := node "eu" 0 0
    let near := node "eu" 2 (2 ^ 53)
    let near' := node "eu" 1 (2 ^ 53 + 1)
    let far := node "us" 2 (2 ^ 64 - 2)
    let far' := node "us" 1 (2 ^ 64 - 1)
    (near.isIn origin.region = near'.isIn origin.region ∧ near.latency < near'.latency ∧
      m.adjusted origin near = m.adjusted origin near' ∧ m.order origin near near' = .lt) ∧
    (far.isIn origin.region = far'.isIn origin.region ∧ far.latency < far'.latency ∧
      m.adjusted origin far = Binary64.infinity ∧ m.adjusted origin far' = Binary64.infinity ∧
      m.order origin far far' = .lt) := by
  intro node m origin near near' far far'
  have hside : near.isIn origin.region = near'.isIn origin.region := by decide
  have hsample : near.latency < near'.latency := by decide
  have hside' : far.isIn origin.region = far'.isIn origin.region := by decide
  have hsample' : far.latency < far'.latency := by decide
  exact ⟨⟨hside, hsample, by decide +kernel, lower_sample_is_nearer m origin hside hsample⟩,
    ⟨hside', hsample', by decide +kernel, by decide +kernel,
      lower_sample_is_nearer m origin hside' hsample'⟩⟩

end Overlay.Metric
