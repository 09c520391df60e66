import Mathlib
import Overlay.Proofs.Service.Tickets

/-!
What is told to the callers who start calls and leave. A call that waits is followed through the
steps that come before the worker resumes: the first direct call to reach its deadline takes it
along, a shutdown leaves it unserved, and otherwise the worker serves it behind everything that was
there before it.
-/

namespace Overlay.Service

/-- True of the answer to a direct call that has reached its deadline. -/
def Answer.isTimeout : Answer → Bool
  | .outcome (.error e) => e.isTimeout
  | _ => false

namespace Session

variable {s : Session}

/-- What a call is told that is started here, when the worker resumes behind further steps. -/
def fate (s : Session) (c : Call) (after : List Step) : Outcome :=
  match s.leftWaiting? c with
  | none => s.ownOutcome c
  | some r =>
    if ((s.step (.pend c)).1.run after).2.any (·.1.isTimeout) then r.timedOut s.limit
    else if after.any (·.isShutdown) then .error .stopped
    else s.ownOutcome c

theorem Running.step_ordinary (h : s.Running) {a : Step} (hshutdown : a.isShutdown = false)
    (hrelease : a ≠ .release) : (s.step a).1.Running := by
  have hnot : ¬(a = .call .shutdown ∨ a = .pend .shutdown) := by
    rw [← Step.isShutdown_iff, hshutdown]
    exact Bool.false_ne_true
  obtain ⟨hcall, hpend⟩ := not_or.mp hnot
  exact h.step hcall hpend hrelease

/-- A session that nobody has given up. -/
structure Held (s : Session) : Prop where
  released : s.released = false
  tidy : s.Tidy
  running : s.Running ∨ s.stopped = true

theorem Held.step (h : s.Held) {a : Step} (hrelease : a ≠ .release) : (s.step a).1.Held := by
  have htidy := h.tidy.step a
  rcases h.running with hrunning | hstopped
  · cases hshutdown : a.isShutdown with
    | true =>
      obtain ⟨hfrozen, hreleased, -⟩ :=
        h.tidy.frozen_step_shutdown h.released (Step.isShutdown_iff.mp hshutdown)
      exact ⟨hreleased, htidy, Or.inr hfrozen.stopped⟩
    | false =>
      have hnext := hrunning.step_ordinary hshutdown hrelease
      exact ⟨hnext.released, htidy, Or.inl hnext⟩
  · have hfrozen : s.Frozen s := ⟨h.tidy, rfl, hstopped, rfl⟩
    obtain ⟨hnext, hreleased, -⟩ := hfrozen.step a
    exact ⟨(hreleased hrelease).trans h.released, htidy, Or.inr hnext.stopped⟩

/-- The invariant of a run without a release. -/
theorem Held.run (h : s.Held) {calls : List Call} (hlength : s.tickets.length = calls.length)
    {steps : List Step} (hrelease : .release ∉ steps) :
    (s.run steps).1.Held ∧
      (s.run steps).1.tickets.length = (steps.foldl Step.startedAfter calls).length := by
  induction steps generalizing s calls with
  | nil => exact ⟨h, hlength⟩
  | cons a steps ih =>
    obtain ⟨hne, hrest⟩ := not_or.mp (mt List.mem_cons.mpr hrelease)
    exact ih (h.step (Ne.symm hne)) (h.tidy.length_tickets_step h.released hlength a) hrest

theorem refusal?_isTimeout {r : Request} {e : Error} (h : s.refusal? r = some e) :
    e.isTimeout = false := by
  have hforeign {id : Keyspace.Id} {e : Error} (h : s.foreign? id = some e) :
      e.isTimeout = false := by
    unfold foreign? at h
    split at h
    · cases h
    · cases h
      rfl
  have hstopped {e : Error} (h : s.stopped? = some e) : e.isTimeout = false := by
    unfold stopped? at h
    split at h
    · cases h
      rfl
    · cases h
  have heither {x y : Option Error} (h : (x <|> y) = some e) : x = some e ∨ y = some e := by
    cases x with
    | none => exact Or.inr h
    | some first => exact Or.inl h
  cases r with
  | insert n => exact (heither h).elim hstopped hforeign
  | evict id => exact (heither h).elim hstopped hforeign
  | covers key => exact (heither h).elim hforeign hstopped
  | _ => exact hstopped h

/-- A direct call to a worker that does not run lets every waiting ticket expire, or leaves the
tickets and what they will come to as they are. -/
theorem Running.called_aside (h : s.Running) (hstalled : s.phase = .stalled) {c : Call}
    {t : Session} {o : Outcome} (hcalled : Called s c t o) (hc : c ≠ .shutdown) :
    (Answer.outcome o).isTimeout = true ∧ t.tickets = s.tickets.map (Ticket.expire s.limit) ∨
      (Answer.outcome o).isTimeout = false ∧ t.phase = .stalled ∧ t.tickets = s.tickets ∧
        t.resume.2.1 = s.resume.2.1 := by
  cases hcalled with
  | refused hrefusal => exact Or.inr ⟨refusal?_isTimeout hrefusal, hstalled, rfl, rfl⟩
  | own => exact Or.inr ⟨rfl, hstalled, rfl, rfl⟩
  | served hsent hactive =>
    rw [hstalled] at hactive
    cases hactive
  | accepted hsent hidle hroom hupdate =>
    refine Or.inr ⟨rfl, hstalled, rfl, ?_⟩
    have hrunning := h.called (.accepted hsent hidle hroom hupdate) hc
    rw [hrunning.resume_eq.2, h.resume_eq.2, commands_enqueue (h.line_eq_nil hroom)]
    change (Session.settleAll s.tickets (answersTo s.peers _)).filterMap _ = _
    rw [answersTo_append, settleAll_append]
    rfl
  | abandoned => exact Or.inl ⟨rfl, rfl⟩
  | expired => exact Or.inl ⟨rfl, rfl⟩
  | shutdown => exact absurd rfl hc
  | status => exact Or.inr ⟨rfl, hstalled, rfl, rfl⟩

/-- Starting a call only adds to what the tickets will come to. -/
theorem Running.started_aside (h : s.Running) (hstalled : s.phase = .stalled) {c : Call}
    (hc : c ≠ .shutdown) :
    (s.pend c).1.phase = .stalled ∧ s.resume.2.1 <+: (s.pend c).1.resume.2.1 := by
  cases c with
  | request r =>
    obtain ⟨hphase, -, houtcomes⟩ := h.resume_pend hstalled r
    exact ⟨hphase, houtcomes ▸ List.prefix_append _ _⟩
  | shutdown => exact absurd rfl hc
  | status =>
    refine ⟨hstalled, ?_⟩
    change _ <+: (s.issue (.settled (.ok (.status s.status)))).resume.2.1
    rw [(h.resume_issue_settled _).2]
    exact List.prefix_append _ _

/-- What one step does to those who wait for a worker that does not run. -/
theorem Running.step_aside (h : s.Running) (hstalled : s.phase = .stalled) {a : Step}
    (hshutdown : a.isShutdown = false) (hresume : a ≠ .resume) (hrelease : a ≠ .release) :
    (s.step a).2.1.isTimeout = true ∧
        (s.step a).1.tickets = s.tickets.map (Ticket.expire s.limit) ∨
      (s.step a).2.1.isTimeout = false ∧ (s.step a).1.phase = .stalled ∧
        (s.step a).1.limit = s.limit ∧ s.tickets <+: (s.step a).1.tickets ∧
        s.resume.2.1 <+: (s.step a).1.resume.2.1 := by
  cases a with
  | call c =>
    have hc : c ≠ .shutdown := by
      rintro rfl
      cases hshutdown
    rw [step_call h.released]
    rcases h.called_aside hstalled (s.called c) hc with
      hexpired | ⟨hanswer, hphase, htickets, houtcomes⟩
    · exact Or.inl hexpired
    · exact Or.inr ⟨hanswer, hphase, (s.called c).frame.2.1, htickets ▸ List.prefix_rfl,
        houtcomes ▸ List.prefix_rfl⟩
  | pend c =>
    have hc : c ≠ .shutdown := by
      rintro rfl
      cases hshutdown
    have htickets := tickets_pend h.toTidy h.released c
    rw [step_pend h.released] at htickets ⊢
    obtain ⟨hphase, houtcomes⟩ := h.started_aside hstalled hc
    exact Or.inr
      ⟨rfl, hphase, (s.started c).frame.2.1, htickets ▸ List.prefix_append _ _, houtcomes⟩
  | stall =>
    have hsame : s.stall = s := if_neg (by simp [hstalled])
    rw [step_stall, hsame]
    exact Or.inr ⟨rfl, hstalled, rfl, List.prefix_rfl, List.prefix_rfl⟩
  | resume => exact absurd rfl hresume
  | release => exact absurd rfl hrelease

/-- Nobody reaches a deadline once the service has stopped. -/
theorem Frozen.any_isTimeout {t : Session} (h : s.Frozen t) (steps : List Step) :
    (t.run steps).2.any (·.1.isTimeout) = false := by
  induction steps generalizing t with
  | nil => rfl
  | cons a steps ih =>
    have hanswer : (t.step a).2.1.isTimeout = false := by
      have hword (r : Request) :
          (Answer.outcome (lastWord t.origin (.request r))).isTimeout = false := by
        obtain ⟨e, hrefusal, hword⟩ := refusal?_stopped h.stopped r
        rw [hword]
        exact refusal?_isTimeout hrefusal
      cases hopen : t.released with
      | true => cases a <;> simp [Session.step, hopen, Step.needsHandle, Answer.isTimeout]
      | false =>
        cases a with
        | call c =>
          rw [step_call hopen, call_stopped h.stopped]
          cases c with
          | request r => exact hword r
          | shutdown => rfl
          | status => rfl
        | pend c => rw [step_pend hopen]; rfl
        | stall => rw [step_stall]; rfl
        | resume => rw [step_resume]; rfl
        | release => rw [step_release]; rfl
    rw [Session.run, List.any_cons, hanswer, ih (h.step a).1]
    rfl

/-- The invariant behind a call that waits: the steps up to the resumption decide what it is
told. -/
theorem Running.resume_waiting (h : s.Running) (hstalled : s.phase = .stalled)
    {i : Nat} {r : Request} {o : Outcome} (hwaiting : s.tickets[i]? = some (.waiting r))
    (hserved : s.resume.2.1[i]? = some o) {after : List Step} (hresume : .resume ∉ after)
    (hrelease : .release ∉ after) :
    (s.run after).1.resume.2.1[i]? = some
      (if (s.run after).2.any (·.1.isTimeout) then r.timedOut s.limit
        else if after.any (·.isShutdown) then .error .stopped else o) := by
  induction after generalizing s with
  | nil => exact hserved
  | cons a after ih =>
    obtain ⟨hnotResume, hresume⟩ := not_or.mp (mt List.mem_cons.mpr hresume)
    obtain ⟨hnotRelease, hrelease⟩ := not_or.mp (mt List.mem_cons.mpr hrelease)
    rw [run, List.any_cons, List.any_cons]
    -- A shutdown or a deadline decides, and whatever follows it makes no difference any more.
    cases hshutdown : a.isShutdown with
    | true =>
      obtain ⟨hfrozen, -, htickets⟩ :=
        h.toTidy.frozen_step_shutdown h.released (Step.isShutdown_iff.mp hshutdown)
      obtain ⟨hlater, -, hkept⟩ := hfrozen.run after
      have hanswer : (s.step a).2.1.isTimeout = false := by
        rcases Step.isShutdown_iff.mp hshutdown with rfl | rfl
        · rw [step_call h.released]
          rfl
        · rw [step_pend h.released]
          rfl
      rw [hanswer, hfrozen.any_isTimeout, Bool.or_self, Bool.true_or, if_neg (by simp), if_pos rfl]
      exact hlater.resume (htickets.trans (hkept hresume)) hwaiting
    | false =>
      rcases h.step_aside hstalled hshutdown (Ne.symm hnotResume) (Ne.symm hnotRelease) with
        ⟨hanswer, htickets⟩ | ⟨hanswer, hphase, hlimit, htickets, houtcomes⟩
      · have hexpired : (s.step a).1.tickets[i]? = some (.settled (r.timedOut s.limit)) := by
          rw [htickets, List.getElem?_map, hwaiting]
          rfl
        rw [hanswer, Bool.true_or, if_pos rfl]
        exact ((h.toTidy.step a).run after).resume_settled (run_settled hexpired hresume)
      · have hrunning := h.step_ordinary hshutdown (Ne.symm hnotRelease)
        rw [hanswer, Bool.false_or, Bool.false_or, ← hlimit]
        exact ih hrunning hphase (getElem?_of_begins htickets hwaiting)
          (getElem?_of_begins houtcomes hserved) hresume hrelease

theorem leftWaiting?_eq_some {c : Call} {r : Request} (h : s.leftWaiting? c = some r) :
    c = .request r ∧ s.immediate? r = none ∧ s.phase ≠ .active := by
  cases c with
  | request r' =>
    rw [leftWaiting?] at h
    split at h
    case isTrue hwaits =>
      cases h
      simp only [Bool.and_eq_true, Option.isNone_iff_eq_none, decide_eq_true_eq] at hwaits
      exact ⟨rfl, hwaits.1.1, hwaits.1.2⟩
    case isFalse => cases h
  | shutdown => cases h
  | status => cases h

/-- A call that is left waiting will be served behind everything that was there before it. -/
theorem Running.resume_leftWaiting (h : s.Running) {c : Call} {r : Request}
    (hleft : s.leftWaiting? c = some r) :
    (s.pend c).1.Running ∧ (s.pend c).1.phase = .stalled ∧
      (s.pend c).1.resume.2.1[s.tickets.length]? = some (s.ownOutcome c) := by
  obtain ⟨rfl, hsent, hidle⟩ := leftWaiting?_eq_some hleft
  obtain ⟨hphase, -, houtcomes⟩ := h.resume_pend (h.stalled hidle) r
  have hown : (s.resume.1.call (.request r)).2.1 = s.ownOutcome (.request r) := by
    rw [call, ask, h.immediate?_resume r, ownOutcome, hsent]
    simp only [serve, h.resume_eq.1, if_true]
  refine ⟨h.started (s.started _) (by simp), hphase, ?_⟩
  rw [houtcomes, hown, ← h.length_resume]
  exact List.getElem?_concat_length

/-- What a call that was only started is told when the worker resumes. -/
theorem Held.resume_pend (h : s.Held) (c : Call) {after : List Step} (hresume : .resume ∉ after)
    (hrelease : .release ∉ after) :
    ((s.step (.pend c)).1.run after).1.resume.2.1[s.tickets.length]? = some (s.fate c after) := by
  have htickets := tickets_pend h.tidy h.released c
  have hticket : (s.step (.pend c)).1.tickets[s.tickets.length]? = some (s.ticketFor c) := by
    rw [htickets]
    exact List.getElem?_concat_length
  rw [ticketFor] at hticket
  rw [fate]
  cases hleft : s.leftWaiting? c with
  | none =>
    rw [hleft] at hticket
    exact ((h.tidy.step _).run after).resume_settled (run_settled hticket hresume)
  | some r =>
    rw [hleft] at hticket
    have hrunning : s.Running := by
      refine h.running.resolve_right fun hstopped => ?_
      have hsent := (leftWaiting?_eq_some hleft).2.1
      rw [immediate?_stopped hstopped] at hsent
      cases hsent
    obtain ⟨hnext, hphase, hserved⟩ := hrunning.resume_leftWaiting hleft
    rw [step_pend h.released] at hticket ⊢
    rw [← (s.started c).frame.2.1]
    exact hnext.resume_waiting hphase hticket hserved hresume hrelease

end Session

/-- Start a service, let whatever happen to it as long as a handle is kept, and let the worker
resume. It hands out one outcome for each call that was started since it last resumed, in the order
in which they were started. A call that did not have to wait is told its own outcome. One that had
to is told that it timed out if a later call reached its deadline, that the service has stopped if
it was shut down instead, and otherwise the answer to its own request. Nobody waits any longer, and
nothing is left in the inbox. -/
theorem every_started_call_is_answered {hosted : Bool} {origin : Node} {config : Config}
    {s₀ : Session} {events : List Event}
    (hstart : Session.start hosted origin config = .ok (s₀, events)) {steps : List Step}
    (hrelease : .release ∉ steps) :
    let s := (s₀.run steps).1
    let t := (s.step .resume).1
    ∃ outcomes, (s.step .resume).2.1 = .outcomes outcomes ∧
      outcomes.length = (startedCalls steps).length ∧
      (∀ before c after, steps = before ++ .pend c :: after → .resume ∉ after →
        outcomes[(startedCalls before).length]? = some ((s₀.run before).1.fate c after)) ∧
      t.tickets = [] ∧ t.inbox = [] ∧ t.line = [] := by
  intro s t
  obtain ⟨hrunning, -⟩ := balanced_start hstart
  have htickets : s₀.tickets = [] := by
    obtain ⟨-, metric, -, -, rfl, -⟩ := Session.start_eq_ok.mp hstart
    rfl
  have hstarted : s₀.Held := ⟨hrunning.released, hrunning.toTidy, Or.inl hrunning⟩
  have hlength : s₀.tickets.length = ([] : List Call).length := by rw [htickets]; rfl
  obtain ⟨hheld, hcount⟩ := hstarted.run hlength hrelease
  refine ⟨s.resume.2.1, by rw [Session.step_resume], hheld.tidy.length_resume.trans hcount, ?_, ?_⟩
  · rintro before c after rfl hresume
    rw [List.mem_append, List.mem_cons, not_or, not_or] at hrelease
    obtain ⟨hbefore, hcountBefore⟩ := hstarted.run hlength hrelease.1
    have hrun : s = ((s₀.run before).1.run (.pend c :: after)).1 := by
      change (s₀.run _).1 = _
      rw [Session.run_append]
    rw [hrun, Session.run, startedCalls, ← hcountBefore]
    exact hbefore.resume_pend c hresume hrelease.2.2
  · have ht : t = s.resume.1 := congrArg Prod.fst (Session.step_resume s)
    rw [ht]
    exact hheld.tidy.resume_nothing

/-- An inbox for one command. A lookup is queued and an insertion waits in line when a direct call
reaches its deadline; both time out, each under its own name. A query that is started after this is
answered, unless the service is shut down first. -/
theorem callers_of_busy_worker :
    let space : Keyspace.Space := { radix := .binary, length := 2 }
    let node := Node.sample space
    let config : Config := { space, inboxCapacity := 1 }
    let s₀ := Session.sample space 1
    let lookup : Call := .request (.get 0 1 0)
    let insertion : Call := .request (.insert (node 1))
    let query : Call := .request .neighborhood
    let busy : List Step := [.call (.request (.insert (node 3))), .stall, .pend lookup,
      .pend insertion, .call (.request .stats)]
    let answered := busy ++ [.pend query]
    let stopped := busy ++ [.pend query, .call .shutdown]
    Session.start true (node 0) config = .ok (s₀, [.workerStarted (node 0).id]) ∧
      .release ∉ answered ∧ .release ∉ stopped ∧
      (∃ outcomes, ((s₀.run answered).1.step .resume).2.1 = .outcomes outcomes ∧
        outcomes.length = 3 ∧
        outcomes[0]? = some (.error (.timeout "Node retrieval" config.timeout)) ∧
        outcomes[1]? = some (.error (.timeout "Node insertion" config.timeout)) ∧
        outcomes[2]? = some (.ok (.nodes [node 3]))) ∧
      ∃ outcomes, ((s₀.run stopped).1.step .resume).2.1 = .outcomes outcomes ∧
        outcomes.length = 3 ∧ outcomes[2]? = some (.error .stopped) := by
  intro space node config s₀ lookup insertion query busy answered stopped
  have hstart := Session.start_sample space Nat.one_pos
  have hanswered : .release ∉ answered := by decide
  have hstopped : .release ∉ stopped := by decide
  obtain ⟨outcomes, hresume, hlength, hfate, -⟩ := every_started_call_is_answered hstart hanswered
  obtain ⟨outcomes', hresume', hlength', hfate', -⟩ :=
    every_started_call_is_answered hstart hstopped
  have hlookup := hfate (busy.take 2) lookup (answered.drop 3) rfl (by decide)
  have hinsertion := hfate (busy.take 3) insertion (answered.drop 4) rfl (by decide)
  have hquery := hfate busy query [] rfl (by decide)
  have hshut := hfate' busy query [.call .shutdown] rfl (by decide)
  rw [show (s₀.run (busy.take 2)).1.fate lookup (answered.drop 3) =
    .error (.timeout "Node retrieval" config.timeout) by decide +kernel] at hlookup
  rw [show (s₀.run (busy.take 3)).1.fate insertion (answered.drop 4) =
    .error (.timeout "Node insertion" config.timeout) by decide +kernel] at hinsertion
  rw [show (s₀.run busy).1.fate query [] = .ok (.nodes [node 3]) by decide +kernel] at hquery
  rw [show (s₀.run busy).1.fate query [.call .shutdown] = .error .stopped
    by decide +kernel] at hshut
  exact ⟨hstart, hanswered, hstopped, ⟨outcomes, hresume, hlength, hlookup, hinsertion, hquery⟩,
    outcomes', hresume', hlength', hshut⟩

end Overlay.Service
