import Mathlib
import Overlay.Proofs.Service.Worker

/-!
The worker takes one turn after the other. Each turn serves the first command and lets the first
request in line take the room that has become free; what many turns come to follows by induction.
Between two turns a session is in a state that no step of a caller leads to, and that callers find
it in nevertheless.
-/

namespace Overlay.Service.Session

/-- What a turn that serves a command can do. -/
inductive Turned (s : Session) (c : Command) : Session → List Event → Prop where
  | last {inbox : List Command} (hinbox : s.inbox = c :: inbox) (hline : s.line = []) :
    Turned s c
      { s with inbox, peers := s.peers.apply c.request
               tickets := settle s.tickets (s.peers.answer c.request) c }
      [.handling s.peers c.ticket.isSome c.request]
  | advancing {inbox : List Command} {l : InLine} {line : List InLine}
      (hinbox : s.inbox = c :: inbox) (hline : s.line = l :: line) :
    Turned s c
      { s with inbox := inbox ++ [admitted l], line, peers := s.peers.apply c.request
               tickets := settle s.tickets (s.peers.answer c.request) c }
      [.handling s.peers c.ticket.isSome c.request, .accepted l.request]

theorem turned {s t : Session} {events : List Event} (h : s.turn? = some (t, events)) :
    ∃ c, Turned s c t events := by
  cases hinbox : s.inbox with
  | nil => simp [turn?, hinbox] at h
  | cons c inbox =>
    refine ⟨c, ?_⟩
    cases hline : s.line with
    | nil =>
      simp only [turn?, hinbox, advance, handle, serve, hline] at h
      cases h
      rw [← hline]
      exact .last hinbox hline
    | cons l line =>
      simp only [turn?, hinbox, advance, handle, serve, hline] at h
      cases h
      exact .advancing hinbox hline

variable {s t : Session} {c : Command} {events : List Event}

theorem inbox_of_idle (h : s.turn? = none) : s.inbox = [] := by
  cases hinbox : s.inbox with
  | nil => rfl
  | cons c inbox => simp [turn?, hinbox] at h

theorem Turned.commands_eq (h : Turned s c t events) : s.commands = c :: t.commands := by
  cases h with
  | last hinbox => simp [commands, hinbox]
  | advancing hinbox hline => simp [commands, hinbox, hline]

/-- Turns one after the other, with their events. -/
inductive Turns : Session → List Event → Session → Prop where
  | refl (s : Session) : Turns s [] s
  | turn {s t u : Session} {c : Command} {events later : List Event}
      (hturned : Turned s c t events) (hturns : Turns t later u) : Turns s (events ++ later) u

/-- Nothing but the commands, their tickets and the peers changes, and commands are served in order
from the first one on. -/
theorem Turns.exists_served (h : Turns s events t) :
    ∃ cs, s.commands = cs ++ t.commands ∧
      t = { s with peers := s.peers.applyAll (cs.map (·.request))
                   tickets := settleAll s.tickets (answersTo s.peers cs)
                   inbox := t.inbox, line := t.line } := by
  induction h with
  | refl s => exact ⟨[], rfl, rfl⟩
  | @turn s t u c events later hturned _ ih =>
    obtain ⟨cs, hcommands, hu⟩ := ih
    refine ⟨c :: cs, by rw [hturned.commands_eq, hcommands, List.cons_append], hu.trans ?_⟩
    cases hturned <;> rfl

theorem work_stopped (hstopped : s.stopped = true) : s.work = s.finish := by
  rw [work, if_pos hstopped]

theorem work_turn (hrunning : s.stopped = false) (hturn : s.turn? = some (t, events)) :
    s.work = (t.work.1, events ++ t.work.2) := by
  rw [work, if_neg (by simp [hrunning]), hturn]

theorem work_idle (hrunning : s.stopped = false) (hturn : s.turn? = none) :
    s.work = if s.released then s.finish else ({ s with phase := .active }, []) := by
  rw [work, if_neg (by simp [hrunning]), hturn]

/-- A worker that nobody has stopped takes turns until its inbox is empty. It ends behind them if no
caller is left. -/
theorem exists_turns_work (hrunning : s.stopped = false) :
    ∃ events t, Turns s events t ∧ t.inbox = [] ∧
      s.work = if s.released then (t.finish.1, events ++ t.finish.2)
        else ({ t with phase := .active }, events) := by
  induction s using work.induct with
  | case1 s hstopped =>
    rw [hrunning] at hstopped
    cases hstopped
  | case2 s _ t events hturn _ _ _ ih =>
    obtain ⟨c, hturned⟩ := turned hturn
    have hframe : t.stopped = s.stopped ∧ t.released = s.released := by
      cases hturned <;> exact ⟨rfl, rfl⟩
    obtain ⟨later, u, hturns, hempty, hwork⟩ := ih (hframe.1.trans hrunning)
    refine ⟨events ++ later, u, .turn hturned hturns, hempty, ?_⟩
    rw [work_turn hrunning hturn, hwork, hframe.2]
    split <;> simp
  | case3 s _ hturn hreleased =>
    refine ⟨[], s, .refl s, inbox_of_idle hturn, ?_⟩
    rw [work_idle hrunning hturn]
    rfl
  | case4 s _ hturn hopen =>
    refine ⟨[], s, .refl s, inbox_of_idle hturn, ?_⟩
    rw [work_idle hrunning hturn]
    rfl

/-- A worker that works does no more to tickets than to settle them. -/
theorem exists_tickets_work (s : Session) :
    ∃ answers, s.work.1.tickets = settleAll s.tickets answers := by
  cases hrunning : s.stopped with
  | true => exact ⟨discarded s.commands, by rw [work_stopped hrunning, finish_eq]⟩
  | false =>
    obtain ⟨events, t, hturns, -, hwork⟩ := exists_turns_work hrunning
    obtain ⟨cs, -, ht⟩ := hturns.exists_served
    have htickets : t.tickets = settleAll s.tickets (answersTo s.peers cs) := by rw [ht]
    rw [hwork]
    split
    · exact ⟨_, by rw [finish_eq, htickets, ← settleAll_append]⟩
    · exact ⟨_, htickets⟩

theorem exists_tickets_wake (s : Session) :
    ∃ answers, s.wake.1.tickets = settleAll s.tickets answers := by
  rw [wake]
  split
  · exact s.exists_tickets_work
  · exact ⟨[], rfl⟩

/-- The events of a run, in order. -/
def journalOf (answers : List (Answer × List Event)) : List Event := answers.flatMap (·.2)

/-- The states that a session gets into, with the journal up to then: behind each step, and behind
each turn of a worker that has not been stopped. -/
inductive Reaches (s₀ : Session) : List Event → Session → Prop where
  | start : Reaches s₀ [] s₀
  | step {journal : List Event} {s : Session} (h : Reaches s₀ journal s) (a : Step) :
    Reaches s₀ (journal ++ (s.step a).2.2) (s.step a).1
  | turn {journal events : List Event} {s t : Session} (h : Reaches s₀ journal s)
      (hrunning : s.stopped = false) (hturn : s.turn? = some (t, events)) :
    Reaches s₀ (journal ++ events) t

theorem Reaches.run {s₀ : Session} {journal : List Event} (h : s₀.Reaches journal s)
    (steps : List Step) : s₀.Reaches (journal ++ journalOf (s.run steps).2) (s.run steps).1 := by
  induction steps generalizing s journal with
  | nil =>
    rw [journalOf, Session.run, List.flatMap_nil, List.append_nil]
    exact h
  | cons a steps ih =>
    have hrest := ih (h.step a)
    rw [List.append_assoc] at hrest
    exact hrest

end Overlay.Service.Session
