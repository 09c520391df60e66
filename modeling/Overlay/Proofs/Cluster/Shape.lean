import Mathlib
import Overlay.Proofs.Cluster.Members
import Overlay.Proofs.Peers.Introductions
import Overlay.Proofs.Service.Stalling

/-!
The shape of a cluster in which everybody has been told of everybody. It does not depend on what was
drawn: all tables are as large, and the size of a leaf set depends only on how many members precede
the node in the order of identifiers. Since identifiers differ, every such number occurs once, and
so even the smallest and the largest leaf set are known beforehand.
-/

namespace Overlay

open Keyspace (Id Space)
open Randomness (Stream)
open Ranked (Ranking)
open Roster (Distinct)

instance : Ranking Id.precedes (id : Id → Id) :=
  Ranking.of_cmp Id.order fun _ _ => Std.LawfulEqCmp.eq_of_compare

-- For any latency, so that nothing looks into how one is measured.
theorem Node.id_withLatency (n : Node) (latency : Nat) : (n.withLatency latency).id = n.id := rfl

namespace Cluster

instance : Ranking (fun a b : Member => a.node.id.precedes b.node.id) (·.node.id) :=
  Ranking.of_key (fun m : Member => m.node.id) Id.precedes

@[simp]
theorem Member.sees_id (m other : Member) : (m.sees other).id = other.node.id :=
  Node.id_withLatency _ _

/-- The number of members that precede a member. -/
def preceding (c : Cluster) (m : Member) : Nat :=
  c.members.countP (·.node.id.precedes m.node.id)

/-- What a member is told of: all others, as it sees them. -/
def told (c : Cluster) (m : Member) : List Node :=
  (c.members.filter fun other => other.node.id ≠ m.node.id).map m.sees

theorem settled_eq (c : Cluster) (m : Member) :
    c.settled m = (Peers.empty m.node c.metric c.plan.routing).insertAll (c.told m) := by
  rw [settled, Peers.insertAll, told, List.map_map, Peers.updateAll, List.foldl_map]
  rfl

variable {c : Cluster} {n : Nat}

/-- Different numbers of members precede different members, so every number below their own
occurs. -/
theorem exists_preceding_eq (h : Drawn c.plan.routing.space n c.members) {i : Nat} (hi : i < n) :
    ∃ m ∈ c.members, c.preceding m = i := by
  let sorted := Ranked.sort (fun a b : Member => a.node.id.precedes b.node.id) c.members
  have hascending : Ranked.Ascending _ sorted := Ranked.sort_ascending h.distinct
  have hperm : sorted.Perm c.members := List.mergeSort_perm _ _
  have hlt : i < sorted.length := by
    rw [hperm.length_eq, h.length]
    exact hi
  refine ⟨sorted[i], hperm.mem_iff.mp (List.getElem_mem hlt), ?_⟩
  rw [preceding, ← hperm.countP_eq]
  exact hascending.countP_before hlt

variable {m : Member}

theorem ids_told (c : Cluster) (m : Member) :
    (c.told m).map (·.id) = (c.members.map (·.node.id)).filter (· ≠ m.node.id) := by
  rw [told, List.map_map, List.filter_map]
  exact List.map_congr_left fun other _ => m.sees_id other

theorem strangers_told (h : Drawn c.plan.routing.space n c.members) (hm : m ∈ c.members) :
    Strangers m.node.id (c.told m) where
  distinct := by
    rw [Distinct, ids_told]
    exact h.distinct.filter _
  space := by
    intro stranger hstranger
    obtain ⟨other, hother, rfl⟩ := List.mem_map.mp hstranger
    rw [m.sees_id other]
    exact (h.space other (List.mem_of_mem_filter hother)).trans (h.space m hm).symm
  ne_origin := by
    intro stranger hstranger
    obtain ⟨other, hother, rfl⟩ := List.mem_map.mp hstranger
    simpa using List.of_mem_filter hother

theorem length_told (h : Drawn c.plan.routing.space n c.members) (hm : m ∈ c.members) :
    (c.told m).length = n - 1 := by
  have hid : m.node.id ∈ c.members.map (·.node.id) := List.mem_map_of_mem hm
  have hothers : (c.told m).map (·.id) = (c.members.map (·.node.id)).erase m.node.id := by
    rw [ids_told, h.distinct.erase_eq_filter]
    apply List.filter_congr
    intro id _
    exact Bool.eq_iff_iff.mpr (by simp)
  have hlength := congrArg List.length hothers
  rwa [List.length_map, List.length_erase_of_mem hid, List.length_map, h.length] at hlength

theorem count_told (c : Cluster) (m : Member) (side : Side) :
    (c.told m).countP (side.holds m.node.id ·.id) =
      c.members.countP (side.holds m.node.id ·.node.id) := by
  rw [told, List.countP_map, List.countP_filter]
  apply List.countP_congr
  intro other _
  have hne (hside : side.holds m.node.id other.node.id = true) : other.node.id ≠ m.node.id :=
    Side.exists_holds_iff.mp ⟨side, hside⟩
  simpa using hne

/-- Whoever does not precede a member comes behind it. -/
theorem count_sides (h : Drawn c.plan.routing.space n c.members) (hm : m ∈ c.members) :
    (c.told m).countP (Side.below.holds m.node.id ·.id) +
      (c.told m).countP (Side.above.holds m.node.id ·.id) = n - 1 := by
  rw [← length_told h hm,
    List.length_eq_countP_add_countP fun stranger => Side.below.holds m.node.id stranger.id]
  congr 1
  apply List.countP_congr
  intro stranger hstranger
  have hne := (strangers_told h hm).ne_origin stranger hstranger
  rw [Side.holds, Side.holds, Id.precedes_iff_not_precedes hne]
  simp

theorem size_leaves_settled (h : Drawn c.plan.routing.space n c.members) (hm : m ∈ c.members) :
    (c.settled m).leaves.size =
      min c.plan.routing.leafCapacity (c.preceding m) +
        min c.plan.routing.leafCapacity (n - 1 - c.preceding m) := by
  have hstrangers := strangers_told h hm
  have hbelow := Peers.length_half_insertAll c.metric c.plan.routing hstrangers .below
  have habove := Peers.length_half_insertAll c.metric c.plan.routing hstrangers .above
  have hpreceding : (c.told m).countP (Side.below.holds m.node.id ·.id) = c.preceding m :=
    count_told c m .below
  have hfollowing : (c.told m).countP (Side.above.holds m.node.id ·.id) =
      n - 1 - c.preceding m := by
    have hsides := count_sides h hm
    omega
  rw [hpreceding] at hbelow
  rw [hfollowing] at habove
  rw [settled_eq, LeafSet.size]
  exact congrArg₂ (· + ·) hbelow habove

/-- The first digits of a cluster, each counted once. -/
def firstDigits (c : Cluster) : Nat := (c.members.map (·.node.id.digit 0)).toFinset.card

theorem occupied_settled (h : Drawn c.plan.routing.space n c.members) (hm : m ∈ c.members) :
    (c.settled m).table.occupied.head? = some (c.firstDigits - 1) := by
  have hown : m.node.id.digit 0 ∈ (c.members.map (·.node.id.digit 0)).toFinset :=
    List.mem_toFinset.mpr (List.mem_map_of_mem hm)
  have hothers : ((c.told m).map (·.id.digit 0)).toFinset.erase (m.node.id.digit 0) =
      (c.members.map (·.node.id.digit 0)).toFinset.erase (m.node.id.digit 0) := by
    ext digit
    simp only [told, Finset.mem_erase, List.mem_toFinset, List.mem_map, List.mem_filter]
    apply and_congr_right
    intro hdigit
    constructor
    · rintro ⟨_, ⟨other, ⟨hother, -⟩, rfl⟩, rfl⟩
      exact ⟨other, hother, by rw [m.sees_id other]⟩
    · rintro ⟨other, hother, rfl⟩
      have hne : other.node.id ≠ m.node.id := fun hid => hdigit (by rw [hid])
      exact ⟨_, ⟨other, ⟨hother, by simpa using hne⟩, rfl⟩, by rw [m.sees_id other]⟩
  rw [settled_eq, Peers.occupied_insertAll c.metric c.plan.routing (strangers_told h hm), hothers,
    Finset.card_erase_of_mem hown, firstDigits]

/-- What a member counts, once it has been told of all others. -/
theorem stats_settled (h : Drawn c.plan.routing.space n c.members) (hm : m ∈ c.members) :
    (c.settled m).stats.entries = n - 1 ∧
      (c.settled m).stats.neighbors = min c.plan.routing.neighborhoodCapacity (n - 1) ∧
      (c.settled m).stats.leaves =
        min c.plan.routing.leafCapacity (c.preceding m) +
          min c.plan.routing.leafCapacity (n - 1 - c.preceding m) ∧
      (c.settled m).stats.occupied.head? = some (c.firstDigits - 1) := by
  have hstrangers := strangers_told h hm
  refine ⟨?_, ?_, size_leaves_settled h hm, occupied_settled h hm⟩
  · rw [← length_told h hm, settled_eq]
    exact Peers.size_insertAll c.metric c.plan.routing hstrangers
  · rw [← length_told h hm, settled_eq]
    exact Peers.length_neighborhood_insertAll c.metric c.plan.routing hstrangers

theorem preceding_le (h : Drawn c.plan.routing.space n c.members) (hm : m ∈ c.members) :
    c.preceding m ≤ n - 1 := by
  have hsides := count_sides h hm
  rw [count_told c m .below] at hsides
  exact Nat.le_of_add_right_le hsides.le

/-- The leaves of a cluster as its members count them. -/
def leafCounts (c : Cluster) : List Nat := c.members.map fun m => (c.settled m).stats.leaves

theorem mem_leafCounts (h : Drawn c.plan.routing.space n c.members) {count : Nat} :
    count ∈ c.leafCounts ↔ ∃ i < n, count =
      min c.plan.routing.leafCapacity i + min c.plan.routing.leafCapacity (n - 1 - i) := by
  rw [leafCounts, List.mem_map]
  constructor
  · rintro ⟨m, hm, rfl⟩
    have hpos : 0 < n := h.length ▸ List.length_pos_of_mem hm
    have hle := preceding_le h hm
    exact ⟨c.preceding m, by omega, size_leaves_settled h hm⟩
  · rintro ⟨i, hi, rfl⟩
    obtain ⟨m, hm, rfl⟩ := exists_preceding_eq h hi
    exact ⟨m, hm, size_leaves_settled h hm⟩

/-- The first and the last member in the order of identifiers have the fewest leaves. -/
theorem fewestLeaves_eq (h : Drawn c.plan.routing.space n c.members) (hpos : 0 < n) :
    c.run.1.fewestLeaves = min c.plan.routing.leafCapacity (n - 1) := by
  have hmin : c.leafCounts.min? = some (min c.plan.routing.leafCapacity (n - 1)) := by
    apply List.min?_eq_some_iff.mpr
    constructor
    · exact (mem_leafCounts h).mpr ⟨0, hpos, by simp⟩
    · intro count hcount
      obtain ⟨i, hi, rfl⟩ := (mem_leafCounts h).mp hcount
      omega
  have hreport : c.run.1.fewestLeaves = c.leafCounts.min?.getD 0 := by
    simp [run, leafCounts, Function.comp_def]
  rw [hreport, hmin, Option.getD_some]

/-- A member in the middle has the most leaves. -/
theorem mostLeaves_eq (h : Drawn c.plan.routing.space n c.members) (hpos : 0 < n) :
    c.run.1.mostLeaves =
      min c.plan.routing.leafCapacity ((n - 1) / 2) + min c.plan.routing.leafCapacity (n / 2) := by
  have hmax : c.leafCounts.max? = some (min c.plan.routing.leafCapacity ((n - 1) / 2) +
      min c.plan.routing.leafCapacity (n / 2)) := by
    apply List.max?_eq_some_iff.mpr
    constructor
    · apply (mem_leafCounts h).mpr
      refine ⟨(n - 1) / 2, by omega, ?_⟩
      rw [show n - 1 - (n - 1) / 2 = n / 2 by omega]
    · intro count hcount
      obtain ⟨i, hi, rfl⟩ := (mem_leafCounts h).mp hcount
      omega
  have hreport : c.run.1.mostLeaves = c.leafCounts.max?.getD 0 := by
    simp [run, leafCounts, Function.comp_def]
  rw [hreport, hmax, Option.getD_some]

/-- What all members count alike is in the totals as often as there are members. -/
theorem sum_eq_mul {α : Type} {xs : List α} {f : α → Nat} {count : Nat}
    (hall : ∀ x ∈ xs, f x = count) : (xs.map f).sum = xs.length * count := by
  rw [List.map_congr_left hall, List.map_const', List.sum_replicate, smul_eq_mul]

theorem totals_eq (h : Drawn c.plan.routing.space n c.members) :
    c.run.1.entries = n * (n - 1) ∧
      c.run.1.neighbors = n * min c.plan.routing.neighborhoodCapacity (n - 1) ∧
      c.run.1.firstRow = n * (c.firstDigits - 1) := by
  have hentries : c.run.1.entries = (c.members.map fun m => (c.settled m).stats.entries).sum := by
    simp [run, Function.comp_def]
  have hneighbors :
      c.run.1.neighbors = (c.members.map fun m => (c.settled m).stats.neighbors).sum := by
    simp [run, Function.comp_def]
  have hfirstRow : c.run.1.firstRow =
      (c.members.map fun m => (c.settled m).stats.occupied.headD 0).sum := by
    simp [run, Function.comp_def]
  rw [hentries, hneighbors, hfirstRow, ← h.length]
  refine ⟨sum_eq_mul ?_, sum_eq_mul ?_, sum_eq_mul ?_⟩
  · intro m hm
    rw [h.length]
    exact (stats_settled h hm).1
  · intro m hm
    rw [h.length]
    exact (stats_settled h hm).2.1
  · intro m hm
    rw [List.headD_eq_head?_getD, (stats_settled h hm).2.2.2, Option.getD_some]

open Service in
/-- A service that is started for a member and told of all others accepts every one, and then counts
what the cluster settles on. -/
theorem told_directly (h : Drawn c.plan.routing.space n c.members) (hm : m ∈ c.members)
    (hcheck : c.plan.routing.check = .ok c.metric) :
    ∃ s₀ events, Session.start true m.node c.plan.routing = .ok (s₀, events) ∧
      outcomesOf (s₀.run (directly ((c.told m).map .insert ++ [.stats]))).2 =
        (c.told m).map (fun _ => .ok .done) ++ [.ok (.stats (c.settled m).stats)] := by
  let s₀ : Session :=
    { origin := m.node, capacity := c.plan.routing.inboxCapacity, limit := c.plan.routing.timeout,
      peers := .empty m.node c.metric c.plan.routing }
  have hstart : Session.start true m.node c.plan.routing = .ok (s₀, _) :=
    Session.start_eq_ok.mpr ⟨rfl, c.metric, hcheck, h.space m hm, rfl, rfl⟩
  have hsent : ∀ r ∈ (c.told m).map Request.insert, r.isUpdate = true ∧ s₀.immediate? r = none := by
    intro r hr
    obtain ⟨stranger, hstranger, rfl⟩ := List.mem_map.mp hr
    have hspace : stranger.id.space = s₀.origin.id.space := (strangers_told h hm).space _ hstranger
    have hne : stranger.id ≠ s₀.origin.id := (strangers_told h hm).ne_origin _ hstranger
    refine ⟨rfl, ?_⟩
    simp [Session.immediate?, Session.refusal?, Session.stopped?, Session.foreign?, Session.isOwn,
      hspace, hne, s₀]
  obtain ⟨hstate, houtcomes⟩ := Session.run_directly_updates (s := s₀) rfl rfl hsent
  have hpeers : s₀.peers.applyAll ((c.told m).map .insert) = c.settled m := by
    rw [settled_eq, Peers.applyAll, Peers.insertAll, Peers.updateAll, List.foldl_map,
      List.foldl_map]
    rfl
  refine ⟨s₀, _, hstart, ?_⟩
  rw [directly, List.map_append, Session.run_append, Session.outcomesOf_append, ← directly,
    houtcomes, hstate, hpeers, List.map_map]
  rfl

open Service in
/-- Whatever stream a cluster is drawn from, every member that has been told of all others stores
all of them, has as many neighbors as fit, and in each half as many leaves as fit of the members
that precede or follow it; the first row has a column in use for every first digit but its own. So
the smallest and the largest leaf set that are reported depend on the plan alone. -/
theorem report_shape {streams : UInt64 → Stream} {plan : Plan} {c : Cluster}
    (h : generateFrom streams plan = .ok c) :
    let n := plan.nodes
    let half := plan.routing.leafCapacity
    let neighbors := min plan.routing.neighborhoodCapacity (n - 1)
    let report := c.run.1
    c.members.length = n ∧
      (∀ m ∈ c.members,
        let stats := (c.settled m).stats
        stats.entries = n - 1 ∧ stats.neighbors = neighbors ∧
          stats.leaves = min half (c.preceding m) + min half (n - 1 - c.preceding m) ∧
          stats.occupied.head? = some (c.firstDigits - 1) ∧
          ∃ s₀ events, Session.start true m.node plan.routing = .ok (s₀, events) ∧
            outcomesOf (s₀.run (directly ((c.told m).map .insert ++ [.stats]))).2 =
              (c.told m).map (fun _ => .ok .done) ++ [.ok (.stats stats)]) ∧
      report.nodes = n ∧ report.entries = n * (n - 1) ∧ report.neighbors = n * neighbors ∧
      report.firstRow = n * (c.firstDigits - 1) ∧ report.fewestLeaves = min half (n - 1) ∧
      report.mostLeaves = min half ((n - 1) / 2) + min half (n / 2) := by
  obtain ⟨rfl, hcheck, hdrawn⟩ := drawn_of_generateFrom h
  obtain ⟨hrouting, hnodes, -, -⟩ := Plan.check_eq_ok.mp hcheck
  have hpos : 0 < c.plan.nodes := Nat.pos_of_ne_zero hnodes
  obtain ⟨hentries, hneighbors, hfirstRow⟩ := totals_eq hdrawn
  refine ⟨hdrawn.length, ?_, hdrawn.length, hentries, hneighbors, hfirstRow,
    fewestLeaves_eq hdrawn hpos, mostLeaves_eq hdrawn hpos⟩
  intro m hm
  obtain ⟨hsize, hnear, hleaves, hoccupied⟩ := stats_settled hdrawn hm
  exact ⟨hsize, hnear, hleaves, hoccupied, told_directly hdrawn hm hrouting⟩

/-- Three members with room for one leaf on either side: the one in the middle has two leaves. Two
of them share the first digit. -/
theorem shape_of_three :
    let plan : Plan :=
      { nodes := 3, regions := ["eu"],
        routing := { space := { radix := .quaternary, length := 2 }, leafCapacity := 1,
                     neighborhoodCapacity := 1 } }
    let streams : UInt64 → Stream := fun _ place => UInt32.ofNat place
    ∃ c, generateFrom streams plan = .ok c ∧
      c.members.map (fun m => (m.node.id.digit 0, m.node.id.digit 1)) = [(0, 0), (2, 1), (0, 2)] ∧
      c.run.1.entries = 6 ∧ c.run.1.neighbors = 3 ∧ c.run.1.firstRow = 3 ∧
      c.run.1.fewestLeaves = 1 ∧ c.run.1.mostLeaves = 2 := by
  intro plan streams
  have hrouting : plan.routing.check = .ok .default :=
    Config.check_eq_ok.mpr ⟨dif_pos Metric.default.penalty_exceedsOne, by decide⟩
  have hcheck : plan.check = .ok .default := Plan.check_eq_ok.mpr ⟨hrouting, by decide⟩
  have hdigits : (drawMembers? (streams plan.seed) plan.routing.space plan.regions plan.nodes).map
      (fun drawn => drawn.1.map fun m => (m.node.id.digit 0, m.node.id.digit 1)) =
        some [(0, 0), (2, 1), (0, 2)] := by
    decide +kernel
  obtain ⟨⟨members, place⟩, hdrawn, hids⟩ := Option.map_eq_some_iff.mp hdigits
  let c : Cluster := { plan, metric := .default, members, stream := streams plan.seed, place }
  have hgenerated : generateFrom streams plan = .ok c :=
    generateFrom_eq_ok.mpr ⟨.default, members, place, hcheck, hdrawn, rfl⟩
  have hfirst : c.firstDigits = 2 := by
    have hlist : c.members.map (·.node.id.digit 0) = [0, 2, 0] := by
      have hheads := congrArg (List.map Prod.fst) hids
      rwa [List.map_map] at hheads
    rw [firstDigits, hlist]
    decide
  obtain ⟨-, -, -, hentries, hneighbors, hfirstRow, hfewest, hmost⟩ := report_shape hgenerated
  rw [hfirst] at hfirstRow
  exact ⟨c, hgenerated, hids, hentries, hneighbors, hfirstRow, hfewest, hmost.trans (by decide)⟩

end Cluster

end Overlay
