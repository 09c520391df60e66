import Mathlib
import Overlay.Proofs.Service.Turns

/-!
What holds of a session in every state that it gets into, between two steps and between two turns of
the worker. The inbox is within its bound, callers wait in line only in front of a full inbox, a
worker that does not run any more has left nothing behind, and each ticket that still waits belongs
to one command.
-/

namespace Overlay.Service.Session

variable {s : Session}

structure Tidy (s : Session) : Prop where
  capacity_pos : 0 < s.capacity
  within : s.inbox.length ≤ s.capacity
  full : s.line ≠ [] → s.hasRoom = false
  idle : s.phase ≠ .stalled → s.commands = []
  serving : s.phase = .active → s.stopped = false
  ended : s.phase = .finished → s.stopped = true
  waiting_iff : ∀ i r, s.tickets[i]? = some (.waiting r) ↔ ⟨r, some i⟩ ∈ s.commands
  /-- No two commands answer to the same ticket. -/
  unshared : (s.commands.filterMap (·.ticket)).Nodup

theorem Tidy.line_eq_nil (h : s.Tidy) (hroom : s.hasRoom = true) : s.line = [] := by
  by_contra hline
  rw [h.full hline] at hroom
  cases hroom

/-- Only in front of a full inbox anybody stands in line, and no inbox is full without a command. -/
theorem Tidy.commands_eq_nil (h : s.Tidy) (hinbox : s.inbox = []) : s.commands = [] := by
  have hroom : s.hasRoom = true := by
    have hpos := h.capacity_pos
    simpa [hasRoom, hinbox] using hpos
  simp [commands, hinbox, h.line_eq_nil hroom]

theorem nil_of_commands (h : s.commands = []) : s.inbox = [] ∧ s.line = [] := by
  obtain ⟨hinbox, hline⟩ := List.append_eq_nil_iff.mp h
  exact ⟨hinbox, List.map_eq_nil_iff.mp hline⟩

/-- A worker that nobody has stopped has not ended. -/
theorem Tidy.open_of_running (h : s.Tidy) (hrunning : s.stopped = false) :
    s.phase ≠ .finished := by
  intro hfinished
  have hstopped := h.ended hfinished
  rw [hrunning] at hstopped
  cases hstopped

theorem Tidy.stalled_of_running (h : s.Tidy) (hrunning : s.stopped = false)
    (hidle : s.phase ≠ .active) : s.phase = .stalled := by
  have hopen := h.open_of_running hrunning
  cases hphase : s.phase with
  | active => exact absurd hphase hidle
  | stalled => rfl
  | finished => exact absurd hphase hopen

theorem Tidy.stalled_of_sent (h : s.Tidy) {r : Request} (hsent : s.immediate? r = none)
    (hidle : s.phase ≠ .active) : s.phase = .stalled :=
  h.stalled_of_running (running_of_sent hsent) hidle

theorem commands_enqueue (h : s.line = []) (r : Request) (ticket : Option Nat) :
    (s.enqueue r ticket).commands = s.commands ++ [⟨r, ticket⟩] := by
  simp [commands, enqueue, h]

theorem commands_lineUp (s : Session) (r : Request) (number : Nat) :
    (s.lineUp r number).commands = s.commands ++ [⟨r, some number⟩] := by
  simp [commands, lineUp, admitted]

theorem commands_expire (s : Session) :
    s.expire.1.commands = s.inbox.map fun c => { c with ticket := none } := by
  simp [commands, expire]

theorem getElem?_concat_iff {tickets : List Ticket} {t u : Ticket} {i : Nat} :
    (tickets ++ [t])[i]? = some u ↔ tickets[i]? = some u ∨ i = tickets.length ∧ t = u := by
  rcases Nat.lt_trichotomy i tickets.length with hlt | heq | hgt
  · rw [List.getElem?_append_left hlt]
    simp [Nat.ne_of_lt hlt]
  · subst heq
    simp
  · have hnone : (tickets ++ [t])[i]? = none := by
      rw [List.getElem?_eq_none_iff, List.length_append, List.length_singleton]
      omega
    have hnone' : tickets[i]? = none := List.getElem?_eq_none_iff.mpr (by omega)
    rw [hnone, hnone']
    simp [Nat.ne_of_gt hgt]

/-- No command waits for the ticket that the next call will get. -/
theorem Tidy.ticket_ne (h : s.Tidy) : ∀ c ∈ s.commands, c.ticket ≠ some s.tickets.length := by
  rintro ⟨r, ticket⟩ hc hticket
  change ticket = some s.tickets.length at hticket
  subst hticket
  have hwaiting := (h.waiting_iff _ r).mpr hc
  simp at hwaiting

/-- What the tickets come to when all commands are answered: those that wait get the answer to their
own request. -/
theorem Tidy.settleAll (h : s.Tidy) {answers : List (Command × Outcome)}
    (hanswers : answers.map (·.1) = s.commands) {i : Nat} {t : Ticket}
    (ht : s.tickets[i]? = some t) :
    ∃ o, (settleAll s.tickets answers)[i]? = some (.settled o) ∧
      match t with
      | .waiting r => (⟨r, some i⟩, o) ∈ answers
      | .settled earlier => o = earlier := by
  cases t with
  | settled earlier => exact ⟨earlier, settleAll_settled _ ht, rfl⟩
  | waiting r =>
    have hcommand : ⟨r, some i⟩ ∈ answers.map (·.1) := hanswers ▸ (h.waiting_iff i r).mp ht
    obtain ⟨a, ha, hticket⟩ := List.mem_map.mp hcommand
    obtain ⟨⟨⟨r', ticket⟩, o⟩, hb, hnamed, hsettled⟩ :=
      settleAll_waiting ht ⟨a, ha, congrArg Command.ticket hticket⟩
    cases hnamed
    have hrequest := (h.waiting_iff i r').mpr (hanswers ▸ List.mem_map_of_mem hb)
    rw [ht] at hrequest
    cases hrequest
    exact ⟨o, hsettled, hb⟩

/-- So nobody waits any longer. -/
theorem Tidy.settleAll_ne_waiting (h : s.Tidy) {answers : List (Command × Outcome)}
    (hanswers : answers.map (·.1) = s.commands) (i : Nat) (r : Request) :
    (Session.settleAll s.tickets answers)[i]? ≠ some (.waiting r) := by
  cases ht : s.tickets[i]? with
  | none =>
    rw [List.getElem?_eq_none_iff, ← length_settleAll s.tickets answers,
      ← List.getElem?_eq_none_iff] at ht
    simp [ht]
  | some t =>
    obtain ⟨o, ho, -⟩ := h.settleAll hanswers ht
    simp [ho]

/-- Without commands only the bounds and the phase have to be right. -/
theorem tidy_of_nothing (hcapacity : 0 < s.capacity) (hinbox : s.inbox = []) (hline : s.line = [])
    (hserving : s.phase = .active → s.stopped = false)
    (hended : s.phase = .finished → s.stopped = true)
    (hsettled : ∀ (i : Nat) (r : Request), s.tickets[i]? ≠ some (.waiting r)) : s.Tidy := by
  have hnothing : s.commands = [] := by simp [commands, hinbox, hline]
  refine ⟨hcapacity, by simp [hinbox], fun h => absurd hline h, fun _ => hnothing, hserving, hended,
    ?_, by simp [hnothing]⟩
  intro i r
  simp [hnothing, hsettled i r]

theorem tidy_start {hosted : Bool} {origin : Node} {config : Config} {events : List Event}
    (hstart : Session.start hosted origin config = .ok (s, events)) : s.Tidy := by
  obtain ⟨-, metric, hcheck, -, rfl, -⟩ := start_eq_ok.mp hstart
  have hcapacity : 0 < config.inboxCapacity :=
    Nat.pos_of_ne_zero (Config.check_eq_ok.mp hcheck).2.2.2.2
  exact tidy_of_nothing hcapacity rfl rfl (fun _ => rfl) (by simp) (by simp)

theorem Tidy.finish (h : s.Tidy) : s.finish.1.Tidy := by
  rw [finish_eq]
  refine tidy_of_nothing h.capacity_pos rfl rfl (by simp) (fun _ => rfl) ?_
  exact h.settleAll_ne_waiting (map_fst_discarded _)

theorem Tidy.enqueue (h : s.Tidy) (hstalled : s.phase = .stalled) (hroom : s.hasRoom = true)
    (r : Request) : (s.enqueue r none).Tidy := by
  have hline := h.line_eq_nil hroom
  have hcommands := commands_enqueue hline r none
  refine ⟨h.capacity_pos, ?_, fun hne => absurd hline hne, fun hnot => absurd hstalled hnot,
    h.serving, h.ended, ?_, ?_⟩
  · simpa [Session.enqueue, hasRoom] using hroom
  · intro i r'
    rw [hcommands, List.mem_append, ← h.waiting_iff]
    simp [Session.enqueue]
  · rw [hcommands, List.filterMap_append]
    simpa using h.unshared

theorem Tidy.expire (h : s.Tidy) (hstalled : s.phase = .stalled) : s.expire.1.Tidy := by
  have hcommands := s.commands_expire
  refine ⟨h.capacity_pos, ?_, fun hne => absurd rfl hne, fun hnot => absurd hstalled hnot,
    h.serving, h.ended, ?_, ?_⟩
  · exact (List.length_map _).trans_le h.within
  · intro i r
    have hnone : (s.tickets.map (Ticket.expire s.limit))[i]? ≠ some (.waiting r) := by
      rw [List.getElem?_map]
      cases s.tickets[i]? with
      | none => simp
      | some t => cases t <;> simp [Ticket.expire]
    refine iff_of_false hnone ?_
    rw [hcommands]
    simp
  · rw [hcommands]
    simp [List.filterMap_map]

theorem Tidy.issue_settled (h : s.Tidy) (o : Outcome) : (s.issue (.settled o)).Tidy := by
  refine ⟨h.capacity_pos, h.within, h.full, h.idle, h.serving, h.ended, ?_, h.unshared⟩
  intro i r
  rw [issue, getElem?_concat_iff]
  simp only [reduceCtorEq, and_false, or_false]
  exact h.waiting_iff i r

/-- A ticket for a command that was put behind all others. -/
theorem Tidy.issue_waiting {t : Session} {r : Request} (h : s.Tidy) (hstalled : s.phase = .stalled)
    (hframe : t = { s with inbox := t.inbox, line := t.line })
    (hwithin : t.inbox.length ≤ t.capacity) (hfull : t.line ≠ [] → t.hasRoom = false)
    (hcommands : t.commands = s.commands ++ [⟨r, some s.tickets.length⟩]) :
    (t.issue (.waiting r)).Tidy := by
  have hphase : t.phase = .stalled := by rw [hframe, hstalled]
  have htickets : t.tickets = s.tickets := by rw [hframe]
  refine ⟨?_, hwithin, hfull, fun hnot => absurd hphase hnot, ?_, ?_, ?_, ?_⟩
  · have hpos := h.capacity_pos
    rwa [hframe]
  · intro hactive
    rw [issue, hphase] at hactive
    cases hactive
  · intro hfinished
    rw [issue, hphase] at hfinished
    cases hfinished
  · intro i r'
    change (t.tickets ++ [_])[i]? = _ ↔ _ ∈ t.commands
    rw [htickets, hcommands, getElem?_concat_iff, h.waiting_iff, List.mem_append]
    simp [eq_comm, and_comm]
  · change (t.commands.filterMap (·.ticket)).Nodup
    rw [hcommands, List.filterMap_append, List.nodup_append]
    refine ⟨h.unshared, by simp, ?_⟩
    intro i hi j hj
    obtain ⟨c, hc, hticket⟩ := List.mem_filterMap.mp hi
    obtain rfl : s.tickets.length = j := by simpa [eq_comm] using hj
    rintro rfl
    exact h.ticket_ne c hc hticket

theorem Tidy.shutdown (h : s.Tidy) : s.shutdown.1.Tidy := by
  rcases s.shutdown_cases with ⟨-, hsame⟩ | ⟨-, -, hfinish⟩ | ⟨-, hidle, hstopping⟩
  · rw [hsame]
    exact h
  · rw [hfinish]
    exact h.finish
  · rw [hstopping]
    exact ⟨h.capacity_pos, h.within, h.full, h.idle, fun hactive => absurd hactive hidle,
      fun _ => rfl, h.waiting_iff, h.unshared⟩

theorem Tidy.called {c : Call} {t : Session} {o : Outcome} (h : s.Tidy)
    (hcalled : Called s c t o) : t.Tidy := by
  cases hcalled with
  | served =>
    exact ⟨h.capacity_pos, h.within, h.full, h.idle, h.serving, h.ended, h.waiting_iff, h.unshared⟩
  | accepted hsent hidle hroom => exact h.enqueue (h.stalled_of_sent hsent hidle) hroom _
  | abandoned hsent hidle hroom =>
    have hstalled := h.stalled_of_sent hsent hidle
    exact (h.enqueue hstalled hroom _).expire hstalled
  | expired hsent hidle => exact h.expire (h.stalled_of_sent hsent hidle)
  | shutdown => exact h.shutdown
  | _ => exact h

theorem Tidy.started {c : Call} {t : Session} (h : s.Tidy) (hstarted : Started s c t) :
    t.Tidy := by
  cases hstarted with
  | settled hcalled => exact (h.called hcalled).issue_settled _
  | accepted hsent hidle hroom =>
    exact (h.enqueue (h.stalled_of_sent hsent hidle) hroom _).issue_settled _
  | sent hsent hidle hroom =>
    have hline := h.line_eq_nil hroom
    refine h.issue_waiting (h.stalled_of_sent hsent hidle) rfl ?_ (fun hne => absurd hline hne)
      (commands_enqueue hline _ _)
    simpa [Session.enqueue, hasRoom] using hroom
  | lined hsent hidle hfull =>
    exact h.issue_waiting (h.stalled_of_sent hsent hidle) rfl h.within (fun _ => hfull)
      (commands_lineUp _ _ _)

theorem Tidy.stalled_of_turned {c : Command} {t : Session} {events : List Event} (h : s.Tidy)
    (hturned : Turned s c t events) : s.phase = .stalled := by
  by_contra hnot
  have hcommands := hturned.commands_eq
  rw [h.idle hnot] at hcommands
  cases hcommands

theorem Tidy.turned {c : Command} {t : Session} {events : List Event} (h : s.Tidy)
    (hturned : Turned s c t events) : t.Tidy := by
  have hcommands := hturned.commands_eq
  have hunshared := h.unshared
  have hstalled := h.stalled_of_turned hturned
  have hwaiting : ∀ i r,
      (settle s.tickets (s.peers.answer c.request) c)[i]? = some (.waiting r) ↔
        ⟨r, some i⟩ ∈ t.commands := by
    intro i r
    rw [getElem?_settle]
    split
    case isTrue hticket =>
      refine iff_of_false ?_ ?_
      · cases s.tickets[i]? with
        | none => simp
        | some t => cases t <;> simp [Ticket.settle]
      · intro hmem
        rw [hcommands, List.filterMap_cons_some hticket] at hunshared
        exact (List.nodup_cons.mp hunshared).1 (List.mem_filterMap.mpr ⟨_, hmem, rfl⟩)
    case isFalse hticket =>
      rw [h.waiting_iff, hcommands, List.mem_cons]
      refine or_iff_right ?_
      rintro rfl
      exact hticket rfl
  have hrest : (t.commands.filterMap (·.ticket)).Nodup := by
    rw [hcommands] at hunshared
    exact hunshared.sublist ((List.sublist_cons_self _ _).filterMap _)
  cases hturned with
  | last hinbox hline =>
    have hwithin := h.within
    rw [hinbox] at hwithin
    exact ⟨h.capacity_pos, Nat.le_of_succ_le hwithin, fun hne => absurd hline hne,
      fun hnot => absurd hstalled hnot, h.serving, h.ended, hwaiting, hrest⟩
  | advancing hinbox hline =>
    have hwithin := h.within
    have hfull := h.full (by simp [hline])
    simp only [hasRoom, hinbox] at hwithin hfull
    refine ⟨h.capacity_pos, by simpa using hwithin, fun _ => by simpa [hasRoom] using hfull,
      fun hnot => absurd hstalled hnot, h.serving, h.ended, hwaiting, hrest⟩

theorem Tidy.turns {t : Session} {events : List Event} (h : s.Tidy) (hturns : Turns s events t) :
    t.Tidy := by
  induction hturns with
  | refl => exact h
  | turn hturned _ ih => exact ih (h.turned hturned)

/-- The session behind all that is queued and all that stands in line. -/
def drained (s : Session) : Session :=
  { s with peers := s.peers.applyAll (s.commands.map (·.request))
           tickets := settleAll s.tickets (answersTo s.peers s.commands)
           inbox := [], line := [] }

/-- A worker that nobody stops serves everything. -/
theorem Tidy.exists_turns_work (h : s.Tidy) (hrunning : s.stopped = false) :
    ∃ events, Turns s events s.drained ∧
      s.work = if s.released then (s.drained.finish.1, events ++ s.drained.finish.2)
        else ({ s.drained with phase := .active }, events) := by
  obtain ⟨events, t, hturns, hempty, hwork⟩ := Session.exists_turns_work hrunning
  have hnothing := (h.turns hturns).commands_eq_nil hempty
  obtain ⟨cs, hcommands, ht⟩ := hturns.exists_served
  rw [hnothing, List.append_nil] at hcommands
  subst hcommands
  rw [(nil_of_commands hnothing).1, (nil_of_commands hnothing).2] at ht
  have hdrained : t = s.drained := ht
  subst hdrained
  exact ⟨events, hturns, hwork⟩

theorem Tidy.work (h : s.Tidy) : s.work.1.Tidy := by
  cases hrunning : s.stopped with
  | true =>
    rw [work_stopped hrunning]
    exact h.finish
  | false =>
    obtain ⟨events, hturns, hwork⟩ := h.exists_turns_work hrunning
    have hdrained := h.turns hturns
    rw [hwork]
    split
    · exact hdrained.finish
    · refine tidy_of_nothing h.capacity_pos rfl rfl (fun _ => hrunning) (by simp) ?_
      exact h.settleAll_ne_waiting (map_fst_answersTo _ _)

theorem Tidy.wake (h : s.Tidy) : s.wake.1.Tidy := by
  rw [Session.wake]
  split
  · exact h.work
  · exact h

theorem Tidy.wake_phase (h : s.Tidy) : s.wake.1.phase ≠ .stalled := by
  rw [Session.wake]
  split
  case isFalse hnot => exact hnot
  case isTrue =>
    cases hrunning : s.stopped with
    | true =>
      rw [work_stopped hrunning]
      simp [Session.finish]
    | false =>
      obtain ⟨events, -, hwork⟩ := h.exists_turns_work hrunning
      rw [hwork]
      split <;> simp [Session.finish]

theorem Tidy.resume (h : s.Tidy) : s.resume.1.Tidy := by
  have hnothing := h.wake.idle h.wake_phase
  obtain ⟨hinbox, hline⟩ := nil_of_commands hnothing
  exact tidy_of_nothing h.wake.capacity_pos hinbox hline h.wake.serving h.wake.ended
    (by simp [Session.resume])

theorem exists_eq_settled {tickets : List Ticket}
    (hsettled : ∀ (i : Nat) (r : Request), tickets[i]? ≠ some (.waiting r)) :
    tickets = (tickets.filterMap Ticket.outcome?).map .settled := by
  induction tickets with
  | nil => rfl
  | cons t tickets ih =>
    have hrest := ih fun i r => hsettled (i + 1) r
    cases t with
    | waiting r => exact absurd rfl (hsettled 0 r)
    | settled o => exact congrArg (Ticket.settled o :: ·) hrest

/-- A resumption hands out one outcome for each ticket. -/
theorem Tidy.tickets_wake (h : s.Tidy) : s.wake.1.tickets = s.resume.2.1.map .settled := by
  refine exists_eq_settled fun i r => ?_
  rw [ne_eq, h.wake.waiting_iff, h.wake.idle h.wake_phase]
  exact List.not_mem_nil

theorem Tidy.length_resume (h : s.Tidy) : s.resume.2.1.length = s.tickets.length := by
  obtain ⟨answers, hwake⟩ := s.exists_tickets_wake
  rw [h.tickets_wake] at hwake
  have hlength := congrArg List.length hwake
  rwa [List.length_map, length_settleAll] at hlength

/-- A ticket with an outcome behind the worker's turns hands out this outcome. -/
theorem Tidy.resume_of_wake (h : s.Tidy) {i : Nat} {o : Outcome}
    (hsettled : s.wake.1.tickets[i]? = some (.settled o)) : s.resume.2.1[i]? = some o := by
  rw [h.tickets_wake, List.getElem?_map] at hsettled
  obtain ⟨o', ho, heq⟩ := Option.map_eq_some_iff.mp hsettled
  cases heq
  exact ho

theorem Tidy.resume_settled (h : s.Tidy) {i : Nat} {o : Outcome}
    (hsettled : s.tickets[i]? = some (.settled o)) : s.resume.2.1[i]? = some o := by
  obtain ⟨answers, hwake⟩ := s.exists_tickets_wake
  apply h.resume_of_wake
  rw [hwake]
  exact settleAll_settled answers hsettled

theorem Tidy.stall (h : s.Tidy) : s.stall.Tidy := by
  rw [Session.stall]
  split
  case isTrue hactive =>
    refine ⟨h.capacity_pos, h.within, h.full, by simp, by simp, by simp, h.waiting_iff, h.unshared⟩
  case isFalse => exact h

theorem Tidy.without_handle (h : s.Tidy) : ({ s with released := true } : Session).Tidy :=
  ⟨h.capacity_pos, h.within, h.full, h.idle, h.serving, h.ended, h.waiting_iff, h.unshared⟩

theorem Tidy.release (h : s.Tidy) : s.release.1.Tidy := by
  rw [Session.release]
  by_cases hactive : s.phase = .active
  · rw [if_pos hactive]
    exact h.without_handle.work
  · rw [if_neg hactive]
    exact h.without_handle

theorem Tidy.step (h : s.Tidy) (a : Step) : (s.step a).1.Tidy := by
  apply step_elim (P := fun t _ => t.Tidy) a h
  · intro c _
    exact h.called (s.called c)
  · intro c _
    exact h.started (s.started c)
  · intro _
    exact h.stall
  · intro _
    exact h.resume
  · intro _
    exact h.release

/-- The invariant of everything that can happen to a session. -/
theorem Tidy.reaches {t : Session} {journal : List Event} (h : s.Tidy)
    (hreaches : s.Reaches journal t) : t.Tidy := by
  induction hreaches with
  | start => exact h
  | step _ a ih => exact ih.step a
  | turn _ _ hturn ih =>
    obtain ⟨c, hturned⟩ := Session.turned hturn
    exact ih.turned hturned

theorem Tidy.run (h : s.Tidy) (steps : List Step) : (s.run steps).1.Tidy :=
  h.reaches (Reaches.start.run steps)

end Overlay.Service.Session
