import Mathlib
import Overlay.Proofs.Config
import Overlay.Proofs.Service.Settling

/-!
What the steps of a session can do. A call takes one of a few forms, listed by `Called` and
`Started`. An invariant of runs is checked against these forms, and against the turns of the worker,
and needs nothing else about the steps.
-/

namespace Overlay.Service.Session

variable {s : Session}

theorem step_released (hreleased : s.released = true) {a : Step} (hhandle : a.needsHandle = true) :
    s.step a = (s, .released, []) := by
  simp [step, hreleased, hhandle]

theorem step_call (hopen : s.released = false) (c : Call) :
    s.step (.call c) = ((s.call c).1, .outcome (s.call c).2.1, (s.call c).2.2) := by
  simp [step, hopen]

theorem step_pend (hopen : s.released = false) (c : Call) :
    s.step (.pend c) = ((s.pend c).1, .done, (s.pend c).2) := by
  simp [step, hopen]

theorem step_stall (s : Session) : s.step .stall = (s.stall, .done, []) := by
  simp [step, Step.needsHandle]

theorem step_resume (s : Session) :
    s.step .resume = (s.resume.1, .outcomes s.resume.2.1, s.resume.2.2) := by
  simp [step, Step.needsHandle]

theorem step_release (s : Session) : s.step .release = (s.release.1, .done, s.release.2) := by
  simp [step, Step.needsHandle]

/-- What holds of all that a step can do holds of the step. Without a handle a caller does
nothing. -/
theorem step_elim {P : Session → List Event → Prop} (a : Step) (hnothing : P s [])
    (hcall : ∀ c, a = .call c → P (s.call c).1 (s.call c).2.2)
    (hpend : ∀ c, a = .pend c → P (s.pend c).1 (s.pend c).2)
    (hstall : a = .stall → P s.stall []) (hresume : a = .resume → P s.resume.1 s.resume.2.2)
    (hrelease : a = .release → P s.release.1 s.release.2) :
    P (s.step a).1 (s.step a).2.2 := by
  cases a with
  | call c =>
    cases hopen : s.released with
    | true =>
      rw [step_released hopen rfl]
      exact hnothing
    | false =>
      rw [step_call hopen]
      exact hcall c rfl
  | pend c =>
    cases hopen : s.released with
    | true =>
      rw [step_released hopen rfl]
      exact hnothing
    | false =>
      rw [step_pend hopen]
      exact hpend c rfl
  | stall =>
    rw [step_stall]
    exact hstall rfl
  | resume =>
    rw [step_resume]
    exact hresume rfl
  | release =>
    rw [step_release]
    exact hrelease rfl

theorem immediate?_eq_none {r : Request} (h : s.immediate? r = none) :
    s.refusal? r = none ∧ s.isOwn r = false := by
  unfold immediate? at h
  cases hrefusal : s.refusal? r with
  | some e => simp [hrefusal] at h
  | none =>
    cases hown : s.isOwn r with
    | true => simp [hrefusal, hown] at h
    | false => exact ⟨rfl, rfl⟩

/-- A request is sent only as long as nobody has stopped the service. -/
theorem running_of_sent {r : Request} (hsent : s.immediate? r = none) : s.stopped = false := by
  have hrefusal := (immediate?_eq_none hsent).1
  cases hstopped : s.stopped with
  | false => rfl
  | true => cases r <;> simp [refusal?, stopped?, hstopped] at hrefusal

/-- What a direct call can do: the state behind it, and its outcome. -/
inductive Called (s : Session) : Call → Session → Outcome → Prop where
  | refused {r : Request} {e : Error} (hrefusal : s.refusal? r = some e) :
    Called s (.request r) s (.error e)
  | own {r : Request} (hrefusal : s.refusal? r = none) (hown : s.isOwn r = true) :
    Called s (.request r) s (.ok .done)
  | served {r : Request} (hsent : s.immediate? r = none) (hactive : s.phase = .active) :
    Called s (.request r) { s with peers := s.peers.apply r } (s.peers.answer r)
  | accepted {r : Request} (hsent : s.immediate? r = none) (hidle : s.phase ≠ .active)
      (hroom : s.hasRoom = true) (hupdate : r.isUpdate = true) :
    Called s (.request r) (s.enqueue r none) (.ok .done)
  | abandoned {r : Request} (hsent : s.immediate? r = none) (hidle : s.phase ≠ .active)
      (hroom : s.hasRoom = true) (hquery : r.isUpdate = false) :
    Called s (.request r) (s.enqueue r none).expire.1 (r.timedOut s.limit)
  | expired {r : Request} (hsent : s.immediate? r = none) (hidle : s.phase ≠ .active)
      (hfull : s.hasRoom = false) :
    Called s (.request r) s.expire.1 (r.timedOut s.limit)
  | shutdown : Called s .shutdown s.shutdown.1 (.ok .done)
  | status : Called s .status s (.ok (.status s.status))

theorem called_askStalled {r : Request} (hsent : s.immediate? r = none)
    (hidle : s.phase ≠ .active) :
    Called s (.request r) (s.askStalled r).1 (s.askStalled r).2.1 := by
  unfold askStalled
  cases hroom : s.hasRoom with
  | true =>
    cases hupdate : r.isUpdate with
    | true => exact .accepted hsent hidle hroom hupdate
    | false => exact .abandoned hsent hidle hroom hupdate
  | false => exact .expired hsent hidle hroom

theorem called (s : Session) (c : Call) : Called s c (s.call c).1 (s.call c).2.1 := by
  cases c with
  | request r =>
    rw [call, ask]
    cases hsent : s.immediate? r with
    | none =>
      by_cases hactive : s.phase = .active
      · simp only [hactive, if_true]
        exact .served hsent hactive
      · simp only [hactive, if_false]
        exact called_askStalled hsent hactive
    | some quick =>
      unfold immediate? at hsent
      split at hsent
      case h_1 e hrefusal =>
        cases hsent
        exact .refused hrefusal
      case h_2 hrefusal =>
        split at hsent
        case isTrue hown =>
          cases hsent
          exact .own hrefusal hown
        case isFalse => cases hsent
  | shutdown => exact .shutdown
  | status => exact .status

/-- A running worker that is stopped ends at once, and one that does not run is only told to. -/
theorem shutdown_cases (s : Session) :
    s.stopped = true ∧ s.shutdown.1 = s ∨
      s.stopped = false ∧ s.phase = .active ∧ s.shutdown.1 = s.finish.1 ∨
      s.stopped = false ∧ s.phase ≠ .active ∧ s.shutdown.1 = { s with stopped := true } := by
  cases hstopped : s.stopped with
  | true => exact Or.inl ⟨rfl, by rw [shutdown, if_pos hstopped]⟩
  | false =>
    by_cases hactive : s.phase = .active
    · refine Or.inr (Or.inl ⟨rfl, hactive, ?_⟩)
      simp only [shutdown, hstopped, hactive, if_true, Bool.false_eq_true, if_false]
      rw [work, if_pos rfl]
      rfl
    · exact Or.inr (Or.inr ⟨rfl, hactive, by simp [shutdown, hstopped, hactive]⟩)

theorem length_tickets_shutdown (s : Session) :
    s.shutdown.1.tickets.length = s.tickets.length := by
  rcases s.shutdown_cases with ⟨-, h⟩ | ⟨-, -, h⟩ | ⟨-, -, h⟩
  · rw [h]
  · rw [h, finish_eq]
    exact length_settleAll _ _
  · rw [h]

/-- Only starting a call adds a ticket. -/
theorem Called.length_tickets {c : Call} {t : Session} {o : Outcome} (h : Called s c t o) :
    t.tickets.length = s.tickets.length := by
  cases h with
  | abandoned => exact List.length_map _
  | expired => exact List.length_map _
  | shutdown => exact s.length_tickets_shutdown
  | _ => rfl

/-- What starting a call can do: the state behind it, with one more ticket. -/
inductive Started (s : Session) : Call → Session → Prop where
  | settled {c : Call} {t : Session} {o : Outcome} (hcalled : Called s c t o)
      (hquick : ∀ r, c = .request r → s.phase = .active ∨ (s.immediate? r).isSome) :
    Started s c (t.issue (.settled o))
  | accepted {r : Request} (hsent : s.immediate? r = none) (hidle : s.phase ≠ .active)
      (hroom : s.hasRoom = true) (hupdate : r.isUpdate = true) :
    Started s (.request r) ((s.enqueue r none).issue (.settled (.ok .done)))
  | sent {r : Request} (hsent : s.immediate? r = none) (hidle : s.phase ≠ .active)
      (hroom : s.hasRoom = true) (hquery : r.isUpdate = false) :
    Started s (.request r) ((s.enqueue r (some s.tickets.length)).issue (.waiting r))
  | lined {r : Request} (hsent : s.immediate? r = none) (hidle : s.phase ≠ .active)
      (hfull : s.hasRoom = false) :
    Started s (.request r) ((s.lineUp r s.tickets.length).issue (.waiting r))

theorem started_pendStalled {r : Request} (hsent : s.immediate? r = none)
    (hidle : s.phase ≠ .active) : Started s (.request r) (s.pendStalled r).1 := by
  unfold pendStalled
  cases hroom : s.hasRoom with
  | true =>
    cases hupdate : r.isUpdate with
    | true => exact .accepted hsent hidle hroom hupdate
    | false => exact .sent hsent hidle hroom hupdate
  | false => exact .lined hsent hidle hroom

theorem started (s : Session) (c : Call) : Started s c (s.pend c).1 := by
  cases c with
  | request r =>
    rw [pend]
    split
    case isTrue hstalled =>
      simp only [Bool.and_eq_true, Option.isNone_iff_eq_none, decide_eq_true_eq] at hstalled
      exact started_pendStalled hstalled.1 hstalled.2
    case isFalse hquick =>
      refine .settled (s.called (.request r)) ?_
      rintro r' hr
      cases hr
      by_contra hneither
      rw [not_or] at hneither
      exact hquick (by simpa [Option.isNone_iff_eq_none] using hneither.symm)
  | shutdown => exact .settled .shutdown (by simp)
  | status => exact .settled .status (by simp)

/-- A service starts with its worker running and nothing to serve. -/
theorem start_eq_ok {hosted : Bool} {origin : Node} {config : Config} {events : List Event} :
    start hosted origin config = .ok (s, events) ↔
      hosted = true ∧ ∃ metric, config.check = .ok metric ∧ origin.id.space = config.space ∧
        s = { origin, capacity := config.inboxCapacity, limit := config.timeout,
              peers := .empty origin metric config } ∧
        events = [.workerStarted origin.id] := by
  simp only [start, bind_eq_ok, guard_eq_ok, pure_eq_ok, Bool.not_eq_true', Bool.not_eq_false,
    ne_eq, not_not, Prod.mk.injEq]
  constructor
  · rintro ⟨hhosted, metric, hcheck, hspace, rfl, rfl⟩
    exact ⟨hhosted, metric, hcheck, hspace, rfl, rfl⟩
  · rintro ⟨hhosted, metric, hcheck, hspace, rfl, rfl⟩
    exact ⟨hhosted, metric, hcheck, hspace, rfl, rfl⟩

/-- A session for examples, around the first position of a space. -/
def sample (space : Keyspace.Space) (capacity : Nat) : Session :=
  let config : Config := { space, inboxCapacity := capacity }
  { origin := .sample space 0, capacity, limit := config.timeout,
    peers := .empty (.sample space 0) .default config }

theorem check_sample (space : Keyspace.Space) {capacity : Nat} (hcapacity : 0 < capacity) :
    Config.check { space, inboxCapacity := capacity } = .ok .default := by
  have hbounds :
      (16 : Nat) ≠ 0 ∧ (32 : Nat) ≠ 0 ∧ (Number.Duration.ofMilliseconds 1000).nanoseconds ≠ 0 := by
    decide
  exact Config.check_eq_ok.mpr ⟨dif_pos Metric.default.penalty_exceedsOne, hbounds.1, hbounds.2.1,
    hbounds.2.2, Nat.ne_of_gt hcapacity⟩

theorem start_sample (space : Keyspace.Space) {capacity : Nat} (hcapacity : 0 < capacity) :
    start true (.sample space 0) { space, inboxCapacity := capacity } =
      .ok (sample space capacity, [.workerStarted (Node.sample space 0).id]) :=
  start_eq_ok.mpr ⟨rfl, .default, check_sample space hcapacity, rfl, rfl, rfl⟩

end Overlay.Service.Session
