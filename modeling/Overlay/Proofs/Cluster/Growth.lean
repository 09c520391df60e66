import Mathlib
import Overlay.Proofs.Cluster.Members
import Overlay.Proofs.Keyspace.Position
import Overlay.Proofs.Randomness

/-!
How a cluster grows. Members are drawn one after the other from one stream, and what is drawn for a
member depends on the earlier ones alone. So a plan for fewer nodes comes to the same members and
stops earlier. A plan is refused up front only for want of room; after that, drawing ends with a
cluster unless it never ends.
-/

namespace Overlay.Cluster

open Keyspace (Id Space)
open Randomness (Stream PassedOver)
open Function (Periodic)

variable {w : Stream} {space : Space} {regions : List String}

theorem drawMember?_region (hregions : regions ≠ []) {taken : List Id} {number place : Nat}
    {drawn : Member × Nat} (h : drawMember? w space regions taken number place = some drawn) :
    drawn.1.node.region ∈ regions := by
  simp only [drawMember?, Option.bind_eq_bind, Option.bind_eq_some_iff] at h
  obtain ⟨_, -, ⟨choice, _⟩, hchoice, hdrawn⟩ := h
  cases hdrawn
  have hlt : choice < regions.length :=
    Randomness.index?_lt (List.length_pos_of_ne_nil hregions) hchoice
  show regions.getD choice "" ∈ regions
  rw [List.getD_eq_getElem _ _ hlt]
  exact List.getElem_mem hlt

theorem drawMembers?_region (hregions : regions ≠ []) {n : Nat} {drawn : List Member × Nat}
    (h : drawMembers? w space regions n = some drawn) : ∀ m ∈ drawn.1, m.node.region ∈ regions := by
  induction n generalizing drawn with
  | zero =>
    cases h
    simp
  | succ n ih =>
    simp only [drawMembers?, Option.bind_eq_bind, Option.bind_eq_some_iff] at h
    obtain ⟨earlier, hearlier, last, hlast, hdrawn⟩ := h
    cases hdrawn
    intro m hm
    rcases List.mem_append.mp hm with hm | hm
    · exact ih hearlier m hm
    · rw [List.mem_singleton.mp hm]
      exact drawMember?_region hregions hlast

/-- Whoever draws more members has drawn fewer before, and they are the first. -/
theorem drawMembers?_take {fewer n : Nat} (hle : fewer ≤ n) {drawn : List Member × Nat}
    (h : drawMembers? w space regions n = some drawn) :
    ∃ place, drawMembers? w space regions fewer = some (drawn.1.take fewer, place) := by
  induction n, hle using Nat.le_induction generalizing drawn with
  | base =>
    refine ⟨drawn.2, ?_⟩
    rw [List.take_of_length_le (drawMembers?_spec h).length.le]
    exact h
  | succ n hle ih =>
    simp only [drawMembers?, Option.bind_eq_bind, Option.bind_eq_some_iff] at h
    obtain ⟨earlier, hearlier, last, -, hdrawn⟩ := h
    cases hdrawn
    have henough : fewer ≤ earlier.1.length := (drawMembers?_spec hearlier).length ▸ hle
    rw [List.take_append_of_le_length henough]
    exact ih hearlier

theorem freshId?_eq_none_iff {taken : List Id} {tries place : Nat} :
    freshId? w space taken tries place = none ↔
      ∀ k < tries, Id.ofWord (Randomness.quadruple w (place + 4 * k)) space ∈ taken := by
  induction tries generalizing place with
  | zero => simp [freshId?]
  | succ tries ih =>
    rw [Nat.forall_lt_succ_left, freshId?]
    by_cases htaken : Id.ofWord (Randomness.quadruple w place) space ∈ taken
    · have hnext (k : Nat) : place + 4 + 4 * k = place + 4 * (k + 1) := by omega
      simp only [List.contains_iff_mem.mpr htaken, if_true, ih, hnext, Nat.mul_zero, Nat.add_zero,
        htaken, true_and]
    · simp [htaken]

/-- From a stream that repeats a free identifier is drawn unless all that follow are taken. -/
theorem freshId?_period_eq_none_iff (hw : Periodic w Randomness.period) {taken : List Id}
    {place : Nat} :
    freshId? w space taken Randomness.period place = none ↔
      ∀ k, Id.ofWord (Randomness.quadruple w (place + 4 * k)) space ∈ taken := by
  rw [freshId?_eq_none_iff]
  constructor
  · apply Randomness.forall_of_period
    intro k
    have hturns := (Randomness.quadruple_periodic hw).nsmul 4
    simp only [Nat.mul_add, ← Nat.add_assoc, ← smul_eq_mul 4 Randomness.period, hturns _]
  · exact fun h k _ => h k

/-- Drawing a member from this place never ends: every identifier that follows is taken, or every
word that follows a free one is passed over for the region. -/
def Barred (w : Stream) (space : Space) (regions : List String) (taken : List Id) (place : Nat) :
    Prop :=
  (∀ k, Id.ofWord (Randomness.quadruple w (place + 4 * k)) space ∈ taken) ∨
    ∃ id next, freshId? w space taken Randomness.period place = some (id, next) ∧
      ∀ k, PassedOver w regions.length (next + k)

/-- Drawing so many members never ends. -/
def Endless (w : Stream) (space : Space) (regions : List String) (n : Nat) : Prop :=
  ∃ number < n, ∃ earlier place, drawMembers? w space regions number = some (earlier, place) ∧
    Barred w space regions (earlier.map (·.node.id)) place

theorem drawMember?_eq_none_iff (hw : Periodic w Randomness.period) {taken : List Id}
    {number place : Nat} :
    drawMember? w space regions taken number place = none ↔ Barred w space regions taken place := by
  rw [Barred, ← freshId?_period_eq_none_iff hw]
  simp only [drawMember?, Option.bind_eq_bind]
  cases hfresh : freshId? w space taken Randomness.period place with
  | none => simp
  | some fresh =>
    obtain ⟨id, next⟩ := fresh
    simp only [Option.bind_some, reduceCtorEq, false_or, Option.some.injEq, Prod.mk.injEq,
      ← Randomness.index?_period_eq_none_iff hw]
    cases hchoice : Randomness.index? w regions.length Randomness.period next <;> simp [hchoice]

theorem drawMembers?_eq_none_iff (hw : Periodic w Randomness.period) {n : Nat} :
    drawMembers? w space regions n = none ↔ Endless w space regions n := by
  induction n with
  | zero => simp [drawMembers?, Endless]
  | succ n ih =>
    simp only [drawMembers?, Option.bind_eq_bind]
    cases hearlier : drawMembers? w space regions n with
    | none =>
      obtain ⟨number, hnumber, hendless⟩ := ih.mp hearlier
      simp only [Option.bind_none, true_iff]
      exact ⟨number, Nat.lt_succ_of_lt hnumber, hendless⟩
    | some drawn =>
      obtain ⟨earlier, place⟩ := drawn
      simp only [Option.bind_some, Option.bind_eq_none_iff, Option.pure_def, reduceCtorEq,
        ← Option.eq_none_iff_forall_ne_some]
      constructor
      · intro hlast
        exact ⟨n, Nat.lt_succ_self n, earlier, place, hearlier,
          (drawMember?_eq_none_iff hw).mp hlast⟩
      · rintro ⟨number, hnumber, others, start, hothers, hbarred⟩
        rcases Nat.lt_succ_iff_lt_or_eq.mp hnumber with hless | rfl
        · have hnone := ih.mpr ⟨number, hless, others, start, hothers, hbarred⟩
          rw [hearlier] at hnone
          cases hnone
        · cases hearlier.symm.trans hothers
          exact (drawMember?_eq_none_iff hw).mpr hbarred

variable {plan : Plan} {streams : UInt64 → Stream}

/-- The plan of the same cluster with another number of nodes. -/
def Plan.withNodes (plan : Plan) (n : Nat) : Plan := { plan with nodes := n }

theorem Plan.check_withNodes {metric : Metric} (h : plan.check = .ok metric) {n : Nat}
    (hpos : 0 < n) (hle : n ≤ plan.nodes) : (plan.withNodes n).check = .ok metric := by
  obtain ⟨hrouting, -, hregions, hroom⟩ := Plan.check_eq_ok.mp h
  exact Plan.check_eq_ok.mpr ⟨hrouting, hpos.ne', hregions, hle.trans hroom⟩

/-- A plan that is sound in everything else is refused just for want of room. -/
theorem Plan.check_eq_error {metric : Metric} (hrouting : plan.routing.check = .ok metric)
    (hregions : plan.regions ≠ []) (hpos : 1 ≤ plan.nodes) {e : Error} :
    plan.check = .error e ↔
      plan.routing.space.size < plan.nodes ∧
        e = .config (.tooManyNodes plan.nodes plan.routing.space.size) := by
  have hnodes : plan.nodes ≠ 0 := Nat.pos_iff_ne_zero.mp hpos
  by_cases hroom : plan.routing.space.size < plan.nodes
  · have hcheck : plan.check =
        .error (.config (.tooManyNodes plan.nodes plan.routing.space.size)) := by
      simp [Plan.check, hrouting, hnodes, hregions, hroom, bind, Except.bind, throw, throwThe,
        MonadExceptOf.throw]
    rw [hcheck, Except.error.injEq]
    exact ⟨fun h => ⟨hroom, h.symm⟩, fun h => h.2.symm⟩
  · have hcheck := Plan.check_eq_ok.mpr ⟨hrouting, hnodes, hregions, Nat.not_lt.mp hroom⟩
    simp [hcheck, hroom]

theorem generateFrom_withNodes {c : Cluster} (h : generateFrom streams plan = .ok c) {n : Nat}
    (hpos : 0 < n) (hle : n ≤ plan.nodes) :
    ∃ smaller, generateFrom streams (plan.withNodes n) = .ok smaller ∧
      smaller.members = c.members.take n := by
  obtain ⟨metric, members, place, hcheck, hdrawn, rfl⟩ := generateFrom_eq_ok.mp h
  obtain ⟨stop, hfewer⟩ := drawMembers?_take hle hdrawn
  exact ⟨_, generateFrom_eq_ok.mpr
    ⟨metric, _, stop, Plan.check_withNodes hcheck hpos hle, hfewer, rfl⟩, rfl⟩

/-- A plan that is not refused leads to a cluster unless drawing its members never ends. -/
theorem exists_generateFrom_iff (hw : Periodic (streams plan.seed) Randomness.period)
    {metric : Metric} (hcheck : plan.check = .ok metric) :
    (∃ c, generateFrom streams plan = .ok c) ↔
      ¬Endless (streams plan.seed) plan.routing.space plan.regions plan.nodes := by
  rw [← drawMembers?_eq_none_iff hw, ← ne_eq, Option.ne_none_iff_exists']
  constructor
  · rintro ⟨c, hc⟩
    obtain ⟨_, members, place, -, hdrawn, -⟩ := generateFrom_eq_ok.mp hc
    exact ⟨_, hdrawn⟩
  · rintro ⟨⟨members, place⟩, hdrawn⟩
    exact ⟨_, generateFrom_eq_ok.mpr ⟨metric, members, place, hcheck, hdrawn, rfl⟩⟩

/-- The streams of the seeds repeat, so the bound on draws stops none that would have ended. -/
theorem exists_generate_iff {metric : Metric} (hcheck : plan.check = .ok metric) :
    (∃ c, generate plan = .ok c) ↔
      ¬Endless (Randomness.ChaCha.stream plan.seed) plan.routing.space plan.regions plan.nodes :=
  exists_generateFrom_iff (Randomness.ChaCha.stream_periodic plan.seed) hcheck

/-- Whatever streams the seeds have: a generated cluster has as many members as planned, with
different identifiers, all of the planned space and each in a planned region, and the same plan for
fewer nodes leads to the first of the same members. A plan with a sound routing configuration, a
region and a node is refused, before anything is drawn, just if it has more nodes than the space has
identifiers. If it is not, and the stream repeats, it leads to a cluster unless drawing the members
never ends; the streams of the seeds do repeat. -/
theorem larger_cluster_continues_smaller (streams : UInt64 → Stream) (plan : Plan) :
    (∀ c, generateFrom streams plan = .ok c →
        c.members.length = plan.nodes ∧ (c.members.map (·.node.id)).Nodup ∧
          (∀ m ∈ c.members, m.node.id.space = plan.routing.space ∧ m.node.region ∈ plan.regions) ∧
          ∀ n, 0 < n → n ≤ plan.nodes →
            ∃ smaller, generateFrom streams (plan.withNodes n) = .ok smaller ∧
              smaller.members = c.members.take n) ∧
      ∀ metric, plan.routing.check = .ok metric → plan.regions ≠ [] → 1 ≤ plan.nodes →
        let identifiers := Nat.card {a : Id // a.space = plan.routing.space}
        ((∃ e, plan.check = .error e) ↔ identifiers < plan.nodes) ∧
          (identifiers < plan.nodes →
            generateFrom streams plan = .error (.config (.tooManyNodes plan.nodes identifiers))) ∧
          (plan.nodes ≤ identifiers → Periodic (streams plan.seed) Randomness.period →
            ((∃ c, generateFrom streams plan = .ok c) ↔
              ¬Endless (streams plan.seed) plan.routing.space plan.regions plan.nodes)) ∧
          (plan.nodes ≤ identifiers →
            ((∃ c, generate plan = .ok c) ↔
              ¬Endless (Randomness.ChaCha.stream plan.seed) plan.routing.space plan.regions
                plan.nodes)) := by
  constructor
  · intro c hc
    obtain ⟨rfl, hcheck, hdrawn⟩ := drawn_of_generateFrom hc
    obtain ⟨_, members, place, -, hmembers, heq⟩ := generateFrom_eq_ok.mp hc
    have hregions := (Plan.check_eq_ok.mp hcheck).2.2.1
    refine ⟨hdrawn.length, hdrawn.distinct, ?_, fun n => generateFrom_withNodes hc⟩
    intro m hm
    refine ⟨hdrawn.space m hm, drawMembers?_region hregions hmembers m ?_⟩
    rwa [heq] at hm
  · intro metric hrouting hregions hpos identifiers
    have hcard : identifiers = plan.routing.space.size := Id.card_of_space _
    rw [hcard]
    have herror {e : Error} := Plan.check_eq_error hrouting hregions hpos (e := e)
    have hcheck (hroom : plan.nodes ≤ plan.routing.space.size) : plan.check = .ok metric :=
      Plan.check_eq_ok.mpr ⟨hrouting, Nat.pos_iff_ne_zero.mp hpos, hregions, hroom⟩
    refine ⟨?_, ?_, ?_, ?_⟩
    · simp [herror]
    · intro hroom
      rw [generateFrom, herror.mpr ⟨hroom, rfl⟩]
      rfl
    · intro hroom hw
      exact exists_generateFrom_iff hw (hcheck hroom)
    · intro hroom
      exact exists_generate_iff (hcheck hroom)

/-- A word is passed over for the first region, and the first identifier comes up a second time. Two
members are the first two of three, and five have no room among four identifiers. -/
theorem growth_past_collision :
    let plan : Plan :=
      { nodes := 3, regions := ["eu", "us"],
        routing := { space := { radix := .quaternary, length := 1 } } }
    let words : List UInt32 :=
      [0, 0, 0, 0, 0xc0000000, 0x80000000, 0, 0, 0, 0, 0, 0, 0, 0, 1, 0, 0, 0, 0]
    let streams : UInt64 → Stream := fun _ place => words.getD place (UInt32.ofNat place)
    (∃ c, generateFrom streams plan = .ok c ∧
      c.members.map (fun m => (m.node.id.digits, m.node.region)) =
        [([0], "us"), ([1], "eu"), ([3], "eu")] ∧
      ∃ smaller, generateFrom streams (plan.withNodes 2) = .ok smaller ∧
        smaller.members = c.members.take 2) ∧
      generateFrom streams (plan.withNodes 5) = .error (.config (.tooManyNodes 5 4)) := by
  intro plan words streams
  have hrouting : plan.routing.check = .ok .default :=
    Config.check_eq_ok.mpr ⟨dif_pos Metric.default.penalty_exceedsOne, by decide⟩
  have hcheck : plan.check = .ok .default := Plan.check_eq_ok.mpr ⟨hrouting, by decide⟩
  have hseen : (drawMembers? (streams plan.seed) plan.routing.space plan.regions plan.nodes).map
      (fun drawn => drawn.1.map fun m => (m.node.id.digits, m.node.region)) =
        some [([0], "us"), ([1], "eu"), ([3], "eu")] := by
    decide +kernel
  obtain ⟨⟨members, place⟩, hdrawn, hids⟩ := Option.map_eq_some_iff.mp hseen
  let c : Cluster := { plan, metric := .default, members, stream := streams plan.seed, place }
  have hgenerated : generateFrom streams plan = .ok c :=
    generateFrom_eq_ok.mpr ⟨.default, members, place, hcheck, hdrawn, rfl⟩
  obtain ⟨-, -, -, hsmaller⟩ := (larger_cluster_continues_smaller streams plan).1 c hgenerated
  have hcard : Nat.card {a : Id // a.space = (plan.withNodes 5).routing.space} = 4 :=
    Id.card_of_space _
  obtain ⟨-, hrefused, -⟩ := (larger_cluster_continues_smaller streams (plan.withNodes 5)).2
    .default hrouting (by decide) (by decide)
  rw [hcard] at hrefused
  exact ⟨⟨c, hgenerated, hids, hsmaller 2 (by decide) (by decide)⟩, hrefused (by decide)⟩

end Overlay.Cluster
