import Mathlib
import Overlay.Cluster.Run
import Overlay.Proofs.Config
import Overlay.Proofs.Number.Hypotenuse

/-!
What is drawn for a cluster, whatever stream it is drawn from: as many members as are planned, all
of the planned space, and no identifier twice. However their places are rounded, two members are as
far from one another in one direction as in the other.
-/

namespace Overlay.Cluster

open Keyspace (Id Space)
open Number (Binary64)
open Randomness (Stream)

theorem Point.distance_comm (p q : Point) : p.distance q = q.distance p := by
  simp only [distance, Binary64.difference_comm]

/-- Nor are two members ever at no distance. -/
theorem Member.latencyTo_comm (m other : Member) :
    m.latencyTo other = other.latencyTo m ∧ 0 < m.latencyTo other := by
  rw [latencyTo, latencyTo, Point.distance_comm]
  exact ⟨rfl, Nat.one_pos.trans_le (Nat.le_max_left _ _)⟩

variable {w : Stream} {space : Space}

theorem freshId?_spec {taken : List Id} {tries place : Nat} {drawn : Id × Nat}
    (h : freshId? w space taken tries place = some drawn) :
    drawn.1 ∉ taken ∧ drawn.1.space = space := by
  induction tries generalizing place with
  | zero => cases h
  | succ tries ih =>
    rw [freshId?] at h
    split at h
    case isTrue => exact ih h
    case isFalse hfree =>
      cases h
      exact ⟨by simpa using hfree, rfl⟩

theorem drawMember?_spec {regions : List String} {taken : List Id} {number place : Nat}
    {drawn : Member × Nat} (h : drawMember? w space regions taken number place = some drawn) :
    drawn.1.node.id ∉ taken ∧ drawn.1.node.id.space = space := by
  simp only [drawMember?, Option.bind_eq_bind, Option.bind_eq_some_iff] at h
  obtain ⟨fresh, hfresh, _, -, hdrawn⟩ := h
  cases hdrawn
  exact freshId?_spec hfresh

/-- Members of one space with different identifiers. -/
structure Drawn (space : Space) (n : Nat) (members : List Member) : Prop where
  length : members.length = n
  distinct : (members.map (·.node.id)).Nodup
  space : ∀ m ∈ members, m.node.id.space = space

theorem drawMembers?_spec {regions : List String} {n : Nat} {drawn : List Member × Nat}
    (h : drawMembers? w space regions n = some drawn) : Drawn space n drawn.1 := by
  induction n generalizing drawn with
  | zero =>
    cases h
    exact ⟨rfl, List.nodup_nil, by simp⟩
  | succ n ih =>
    simp only [drawMembers?, Option.bind_eq_bind, Option.bind_eq_some_iff] at h
    obtain ⟨earlier, hearlier, last, hlast, hdrawn⟩ := h
    cases hdrawn
    obtain ⟨hfree, hspace⟩ := drawMember?_spec hlast
    have hdrawn := ih hearlier
    refine ⟨?_, ?_, ?_⟩
    · rw [List.length_append, hdrawn.length, List.length_singleton]
    · rw [List.map_append, List.map_singleton, List.nodup_append_comm, List.singleton_append]
      exact List.nodup_cons.mpr ⟨hfree, hdrawn.distinct⟩
    · intro m hm
      rcases List.mem_append.mp hm with hm | hm
      · exact hdrawn.space m hm
      · rw [List.mem_singleton.mp hm]
        exact hspace

theorem Plan.check_eq_ok {p : Plan} {metric : Metric} :
    p.check = .ok metric ↔
      p.routing.check = .ok metric ∧ p.nodes ≠ 0 ∧ p.regions ≠ [] ∧
        p.nodes ≤ p.routing.space.size := by
  simp only [Plan.check, bind_eq_ok, guard_eq_ok, pure_eq_ok, List.isEmpty_iff, Nat.not_lt]
  constructor
  · rintro ⟨m, hm, hnodes, hregions, hroom, rfl⟩
    exact ⟨hm, hnodes, hregions, hroom⟩
  · rintro ⟨hm, hnodes, hregions, hroom⟩
    exact ⟨metric, hm, hnodes, hregions, hroom, rfl⟩

/-- A plan that can be carried out is, unless its stream runs dry. -/
theorem generateFrom_eq_ok {streams : UInt64 → Stream} {plan : Plan} {c : Cluster} :
    generateFrom streams plan = .ok c ↔
      ∃ metric members place, plan.check = .ok metric ∧
        drawMembers? (streams plan.seed) plan.routing.space plan.regions plan.nodes =
          some (members, place) ∧
        c = { plan, metric, members, stream := streams plan.seed, place } := by
  simp only [generateFrom, bind_eq_ok]
  apply exists_congr
  intro metric
  cases drawMembers? (streams plan.seed) plan.routing.space plan.regions plan.nodes with
  | none => simp [throw, throwThe, MonadExceptOf.throw]
  | some drawn =>
    obtain ⟨members, place⟩ := drawn
    simp only [pure_eq_ok]
    constructor
    · rintro ⟨hcheck, rfl⟩
      exact ⟨members, place, hcheck, rfl, rfl⟩
    · rintro ⟨_, _, hcheck, hdrawn, rfl⟩
      cases hdrawn
      exact ⟨hcheck, rfl⟩

/-- What is known of a generated cluster without looking at the stream. -/
theorem drawn_of_generateFrom {streams : UInt64 → Stream} {plan : Plan} {c : Cluster}
    (h : generateFrom streams plan = .ok c) :
    c.plan = plan ∧ plan.check = .ok c.metric ∧
      Drawn plan.routing.space plan.nodes c.members := by
  obtain ⟨metric, members, place, hcheck, hdrawn, rfl⟩ := generateFrom_eq_ok.mp h
  exact ⟨rfl, hcheck, drawMembers?_spec hdrawn⟩

end Overlay.Cluster
