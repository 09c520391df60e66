import Mathlib
import Overlay.Proofs.Service.Tidy

/-!
A session that nobody has stopped or given up. Whatever is done to it, short of a shutdown and a
release, the worker serves every command in the end and gives every caller who waits the answer to
the own request.
-/

namespace Overlay.Service.Session

variable {s : Session}

structure Running (s : Session) : Prop extends Tidy s where
  stopped : s.stopped = false
  released : s.released = false

theorem Running.stalled (h : s.Running) (hidle : s.phase ≠ .active) : s.phase = .stalled :=
  h.stalled_of_running h.stopped hidle

/-- Calls change neither parameters nor handles, and only a shutdown stops the service. -/
theorem Called.frame {c : Call} {t : Session} {o : Outcome} (h : Called s c t o) :
    t.origin = s.origin ∧ t.limit = s.limit ∧ t.released = s.released ∧
      (c ≠ .shutdown → t.stopped = s.stopped) := by
  cases h with
  | shutdown =>
    rcases s.shutdown_cases with ⟨-, h⟩ | ⟨-, -, h⟩ | ⟨-, -, h⟩ <;> rw [h] <;>
      exact ⟨rfl, rfl, rfl, fun hc => absurd rfl hc⟩
  | _ => exact ⟨rfl, rfl, rfl, fun _ => rfl⟩

theorem Started.frame {c : Call} {t : Session} (h : Started s c t) :
    t.origin = s.origin ∧ t.limit = s.limit ∧ t.released = s.released ∧
      (c ≠ .shutdown → t.stopped = s.stopped) := by
  cases h with
  | settled hcalled => exact hcalled.frame
  | _ => exact ⟨rfl, rfl, rfl, fun _ => rfl⟩

theorem Running.called {c : Call} {t : Session} {o : Outcome} (h : s.Running)
    (hcalled : Called s c t o) (hc : c ≠ .shutdown) : t.Running := by
  obtain ⟨-, -, hreleased, hstopped⟩ := hcalled.frame
  exact ⟨h.toTidy.called hcalled, (hstopped hc).trans h.stopped, hreleased.trans h.released⟩

theorem Running.started {c : Call} {t : Session} (h : s.Running) (hstarted : Started s c t)
    (hc : c ≠ .shutdown) : t.Running := by
  obtain ⟨-, -, hreleased, hstopped⟩ := hstarted.frame
  exact ⟨h.toTidy.started hstarted, (hstopped hc).trans h.stopped, hreleased.trans h.released⟩

theorem Running.issue_settled (h : s.Running) (o : Outcome) : (s.issue (.settled o)).Running :=
  ⟨h.toTidy.issue_settled o, h.stopped, h.released⟩

theorem Running.stall (h : s.Running) : s.stall.Running := by
  have hframe : s.stall.stopped = s.stopped ∧ s.stall.released = s.released := by
    rw [Session.stall]
    split <;> exact ⟨rfl, rfl⟩
  exact ⟨h.toTidy.stall, hframe.1.trans h.stopped, hframe.2.trans h.released⟩

/-- A worker that runs again serves what there is to serve, and one that was running already has
nothing to serve. -/
theorem Running.wake_eq (h : s.Running) : s.wake.1 = { s.drained with phase := .active } := by
  by_cases hactive : s.phase = .active
  · have hnothing := h.idle (by simp [hactive])
    obtain ⟨hinbox, hline⟩ := nil_of_commands hnothing
    rw [wake, if_neg (by simp [hactive]), drained, hnothing]
    obtain ⟨origin, capacity, limit, peers, phase, stopped, released, inbox, line, tickets⟩ := s
    cases hactive
    cases hinbox
    cases hline
    rfl
  · obtain ⟨events, -, hwork⟩ := h.exists_turns_work h.stopped
    rw [wake, if_pos (h.stalled hactive), hwork, h.released]
    rfl

theorem Running.resume_eq (h : s.Running) :
    s.resume.1 =
        { s with peers := s.peers.applyAll (s.commands.map (·.request))
                 inbox := [], line := [], phase := .active, tickets := [] } ∧
      s.resume.2.1 =
        (Session.settleAll s.tickets (answersTo s.peers s.commands)).filterMap
          Ticket.outcome? := by
  have hwake := h.wake_eq
  constructor
  · change ({ s.wake.1 with tickets := [] } : Session) = _
    rw [hwake]
    rfl
  · change s.wake.1.tickets.filterMap Ticket.outcome? = _
    rw [hwake]
    rfl

theorem Running.resume (h : s.Running) : s.resume.1.Running := by
  refine ⟨h.toTidy.resume, ?_, ?_⟩
  · rw [h.resume_eq.1]
    exact h.stopped
  · rw [h.resume_eq.1]
    exact h.released

/-- What a resumption hands out for a ticket. -/
theorem Running.resume_ticket (h : s.Running) {i : Nat} {t : Ticket}
    (ht : s.tickets[i]? = some t) :
    ∃ o, s.resume.2.1[i]? = some o ∧
      match t with
      | .waiting r => ∃ q : Peers, o = q.answer r
      | .settled earlier => o = earlier := by
  obtain ⟨o, ho, hanswer⟩ := h.settleAll (map_fst_answersTo s.peers s.commands) ht
  refine ⟨o, ?_, ?_⟩
  · apply h.resume_of_wake
    rw [h.wake_eq]
    exact ho
  · cases t with
    | waiting r => exact (mem_answersTo hanswer).2
    | settled earlier => exact hanswer

theorem Running.step (h : s.Running) {a : Step} (hcall : a ≠ .call .shutdown)
    (hpend : a ≠ .pend .shutdown) (hrelease : a ≠ .release) : (s.step a).1.Running := by
  cases a with
  | call c =>
    rw [step_call h.released]
    exact h.called (s.called c) fun hc => hcall (by rw [hc])
  | pend c =>
    rw [step_pend h.released]
    exact h.started (s.started c) fun hc => hpend (by rw [hc])
  | stall =>
    rw [step_stall]
    exact h.stall
  | resume =>
    rw [step_resume]
    exact h.resume
  | release => exact absurd rfl hrelease

end Overlay.Service.Session
