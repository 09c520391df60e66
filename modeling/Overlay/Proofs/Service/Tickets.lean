import Mathlib
import Overlay.Proofs.Service.Shutdown
import Overlay.Proofs.Service.Stalling

/-!
The tickets of the calls that are started and left. Starting a call adds one ticket, which has its
outcome or waits, and a ticket that has its outcome keeps it. Until the worker resumes and hands all
outcomes out, there are as many tickets as calls were started.
-/

namespace Overlay.Service

/-- The calls started since the worker last resumed, after one more step. -/
def Step.startedAfter (calls : List Call) : Step → List Call
  | .pend c => calls ++ [c]
  | .resume => []
  | .call _ | .stall | .release => calls

/-- The calls that a run has started since the worker last resumed, in order. -/
def startedCalls (steps : List Step) : List Call := steps.foldl Step.startedAfter []

namespace Session

variable {s : Session}

/-- The request that a call leaves waiting, if it does: one for a worker that does not run, unless
it is an update that finds room. -/
def leftWaiting? (s : Session) : Call → Option Request
  | .request r =>
    if (s.immediate? r).isNone && s.phase ≠ .active && !(s.hasRoom && r.isUpdate) then some r
    else none
  | .shutdown | .status => none

/-- What a call comes to by itself: what it is told without the worker, or the answer to its request
once all requests before it have been served. -/
def ownOutcome (s : Session) : Call → Outcome
  | .request r =>
    match s.immediate? r with
    | some (outcome, _) => outcome
    | none => (s.peers.applyAll (s.commands.map (·.request))).answer r
  | .shutdown => .ok .done
  | .status => .ok (.status s.status)

/-- The ticket that a call is given. -/
def ticketFor (s : Session) (c : Call) : Ticket :=
  match s.leftWaiting? c with
  | none => .settled (s.ownOutcome c)
  | some r => .waiting r

/-- A call that needs no waiting leaves all tickets alone and has its own outcome. -/
theorem Called.outcome_of_quick (htidy : s.Tidy) {c : Call} {t : Session} {o : Outcome}
    (h : Called s c t o)
    (hquick : ∀ r, c = .request r → s.phase = .active ∨ (s.immediate? r).isSome) :
    t.tickets = s.tickets ∧ s.ownOutcome c = o := by
  have hwaits {r : Request} (hsent : s.immediate? r = none) (hidle : s.phase ≠ .active)
      (hc : c = .request r) : False := by
    rcases hquick r hc with hactive | hsome
    · exact hidle hactive
    · simp [hsent] at hsome
  cases h with
  | refused hrefusal => exact ⟨rfl, by simp [ownOutcome, immediate?, hrefusal]⟩
  | own hrefusal hown => exact ⟨rfl, by simp [ownOutcome, immediate?, hrefusal, hown]⟩
  | served hsent hactive =>
    refine ⟨rfl, ?_⟩
    rw [ownOutcome, hsent, htidy.idle (by simp [hactive])]
    rfl
  | accepted hsent hidle => exact (hwaits hsent hidle rfl).elim
  | abandoned hsent hidle => exact (hwaits hsent hidle rfl).elim
  | expired hsent hidle => exact (hwaits hsent hidle rfl).elim
  | shutdown => exact ⟨htidy.frozen_shutdown.2.2, rfl⟩
  | status => exact ⟨rfl, rfl⟩

theorem leftWaiting?_eq_none {c : Call}
    (hquick : ∀ r, c = .request r → s.phase = .active ∨ (s.immediate? r).isSome) :
    s.leftWaiting? c = none := by
  cases c with
  | request r =>
    rcases hquick r rfl with hactive | hsome
    · simp [leftWaiting?, hactive]
    · simp [leftWaiting?, Option.isNone_eq_false_iff.mpr hsome]
  | shutdown => rfl
  | status => rfl

theorem leftWaiting?_sent {r : Request} (hsent : s.immediate? r = none)
    (hidle : s.phase ≠ .active) :
    s.leftWaiting? (.request r) = if s.hasRoom && r.isUpdate then none else some r := by
  rw [leftWaiting?, hsent]
  cases s.hasRoom && r.isUpdate <;> simp [hidle]

/-- Starting a call adds its ticket. -/
theorem Started.tickets (htidy : s.Tidy) {c : Call} {t : Session} (h : Started s c t) :
    t.tickets = s.tickets ++ [s.ticketFor c] := by
  cases h with
  | settled hcalled hquick =>
    obtain ⟨htickets, hown⟩ := hcalled.outcome_of_quick htidy hquick
    rw [issue, htickets, ticketFor, leftWaiting?_eq_none hquick, hown]
  | accepted hsent hidle hroom hupdate =>
    rw [ticketFor, leftWaiting?_sent hsent hidle, hroom, hupdate, ownOutcome, hsent]
    rw [Peers.answer_update _ hupdate]
    rfl
  | sent hsent hidle hroom hquery =>
    rw [ticketFor, leftWaiting?_sent hsent hidle, hroom, hquery]
    rfl
  | lined hsent hidle hfull =>
    rw [ticketFor, leftWaiting?_sent hsent hidle, hfull]
    rfl

theorem tickets_pend (htidy : s.Tidy) (hopen : s.released = false) (c : Call) :
    (s.step (.pend c)).1.tickets = s.tickets ++ [s.ticketFor c] := by
  rw [step_pend hopen]
  exact (s.started c).tickets htidy

theorem Called.keeps_settled {c : Call} {t : Session} {o : Outcome} (h : Called s c t o) {i : Nat}
    {earlier : Outcome} (hsettled : s.tickets[i]? = some (.settled earlier)) :
    t.tickets[i]? = some (.settled earlier) := by
  have hexpired : (s.tickets.map (Ticket.expire s.limit))[i]? = some (.settled earlier) := by
    rw [List.getElem?_map, hsettled]
    rfl
  cases h with
  | abandoned => exact hexpired
  | expired => exact hexpired
  | shutdown =>
    rcases s.shutdown_cases with ⟨-, h⟩ | ⟨-, -, h⟩ | ⟨-, -, h⟩
    · rw [h, hsettled]
    · rw [h, finish_eq]
      exact settleAll_settled _ hsettled
    · rw [h]
      exact hsettled
  | _ => exact hsettled

theorem Started.keeps_settled {c : Call} {t : Session} (h : Started s c t) {i : Nat}
    {earlier : Outcome} (hsettled : s.tickets[i]? = some (.settled earlier)) :
    t.tickets[i]? = some (.settled earlier) := by
  cases h with
  | settled hcalled => exact getElem?_concat_iff.mpr (Or.inl (hcalled.keeps_settled hsettled))
  | _ => exact getElem?_concat_iff.mpr (Or.inl hsettled)

/-- A ticket with an outcome keeps it as long as the worker does not resume. -/
theorem step_settled {i : Nat} {o : Outcome} (hsettled : s.tickets[i]? = some (.settled o))
    {a : Step} (hresume : a ≠ .resume) : (s.step a).1.tickets[i]? = some (.settled o) := by
  refine step_elim (P := fun t _ => t.tickets[i]? = some (.settled o)) a hsettled ?_ ?_ ?_ ?_ ?_
  · exact fun c _ => (s.called c).keeps_settled hsettled
  · exact fun c _ => (s.started c).keeps_settled hsettled
  · intro _
    rw [Session.stall]
    split <;> exact hsettled
  · exact fun ha => absurd ha hresume
  · intro _
    rw [release]
    by_cases hactive : s.phase = .active
    · obtain ⟨answers, hwork⟩ := ({ s with released := true } : Session).exists_tickets_work
      rw [if_pos hactive, hwork]
      exact settleAll_settled answers hsettled
    · rw [if_neg hactive]
      exact hsettled

theorem run_settled {i : Nat} {o : Outcome} (hsettled : s.tickets[i]? = some (.settled o))
    {steps : List Step} (hresume : .resume ∉ steps) :
    (s.run steps).1.tickets[i]? = some (.settled o) := by
  induction steps generalizing s with
  | nil => exact hsettled
  | cons a steps ih =>
    obtain ⟨hne, hrest⟩ := not_or.mp (mt List.mem_cons.mpr hresume)
    exact ih (step_settled hsettled (Ne.symm hne)) hrest

theorem Tidy.resume_nothing (h : s.Tidy) :
    s.resume.1.tickets = [] ∧ s.resume.1.inbox = [] ∧ s.resume.1.line = [] :=
  ⟨rfl, nil_of_commands (h.wake.idle h.wake_phase)⟩

theorem Tidy.length_tickets_step (h : s.Tidy) (hopen : s.released = false) {calls : List Call}
    (hlength : s.tickets.length = calls.length) (a : Step) :
    (s.step a).1.tickets.length = (a.startedAfter calls).length := by
  cases a with
  | call c =>
    rw [step_call hopen]
    exact (s.called c).length_tickets.trans hlength
  | pend c =>
    rw [tickets_pend h hopen, List.length_append, hlength, Step.startedAfter, List.length_append]
    rfl
  | stall =>
    rw [step_stall, Session.stall]
    split <;> exact hlength
  | resume =>
    rw [step_resume]
    rfl
  | release =>
    rw [step_release, Session.release]
    by_cases hactive : s.phase = .active
    · obtain ⟨answers, hwork⟩ := ({ s with released := true } : Session).exists_tickets_work
      rw [if_pos hactive, hwork, length_settleAll]
      exact hlength
    · rw [if_neg hactive]
      exact hlength

end Session

end Overlay.Service
