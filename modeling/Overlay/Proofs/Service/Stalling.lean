import Mathlib
import Overlay.Proofs.Service.Balance

/-!
Callers who do not time out cannot tell whether the worker was stalled. Starting a request in front
of a stalled worker and letting the worker run comes to the same as letting it run first and making
the request then; a batch of requests is handled by applying this to one after the other.
-/

namespace Overlay.Service

/-- Stalls the worker, starts requests one after the other and lets the worker run again. -/
def stalledBatch (requests : List Request) : List Step :=
  .stall :: requests.map (fun r => .pend (.request r)) ++ [.resume]

/-- Makes requests one after the other and waits for each outcome. -/
def directly (requests : List Request) : List Step := requests.map fun r => .call (.request r)

/-- The outcomes that an answer hands out. -/
def Answer.handedOut : Answer → List Outcome
  | .outcome o => [o]
  | .outcomes os => os
  | .done | .released => []

/-- The outcomes that the answers of a run hand out, in order. -/
def outcomesOf (answers : List (Answer × List Event)) : List Outcome :=
  answers.flatMap fun answer => answer.1.handedOut

namespace Session

variable {s : Session}

theorem run_append (s : Session) (steps later : List Step) :
    s.run (steps ++ later) =
      (((s.run steps).1.run later).1, (s.run steps).2 ++ ((s.run steps).1.run later).2) := by
  induction steps generalizing s with
  | nil => rfl
  | cons a steps ih => simp only [List.cons_append, run, ih]

/-- The state behind a resumption refuses, and drops, what the state before it does. -/
theorem Running.immediate?_resume (h : s.Running) (r : Request) :
    s.resume.1.immediate? r = s.immediate? r := by
  rw [h.resume_eq.1]
  cases r <;> rfl

/-- A request whose command was put behind all others has the outcome that it would have had from a
worker with nothing else to serve. -/
theorem Running.settleAll_concat (h : s.Running) {r : Request} {ticket : Option Nat}
    {issued : Ticket}
    (hissued : ticket = none ∧ r.isUpdate = true ∧ issued = .settled (.ok .done) ∨
      ticket = some s.tickets.length ∧ issued = .waiting r) :
    Session.settleAll (s.tickets ++ [issued]) (answersTo s.peers (s.commands ++ [⟨r, ticket⟩])) =
      Session.settleAll s.tickets (answersTo s.peers s.commands) ++
        [.settled ((s.peers.applyAll (s.commands.map (·.request))).answer r)] := by
  have hothers := h.ticket_ne
  rw [← map_fst_answersTo s.peers s.commands] at hothers
  rw [answersTo_append, settleAll_append, Session.settleAll_concat issued hothers]
  rcases hissued with ⟨rfl, hupdate, rfl⟩ | ⟨rfl, rfl⟩
  · rw [Peers.answer_update _ hupdate]
    rfl
  · have hlast := length_settleAll s.tickets (answersTo s.peers s.commands)
    simp [Session.settleAll, answersTo, settle, modify_concat, ← hlast, Ticket.settle]

/-- A request that was sent or took its place in line is served behind all others. -/
theorem Running.resume_sent (h : s.Running) {r : Request} (hsent : s.immediate? r = none)
    {inbox : List Command} {line : List InLine} {ticket : Option Nat} {issued : Ticket}
    (ht : Running { s with inbox, line, tickets := s.tickets ++ [issued] })
    (hcommands : inbox ++ line.map admitted = s.commands ++ [⟨r, ticket⟩])
    (hissued : ticket = none ∧ r.isUpdate = true ∧ issued = .settled (.ok .done) ∨
      ticket = some s.tickets.length ∧ issued = .waiting r) :
    let t : Session := { s with inbox, line, tickets := s.tickets ++ [issued] }
    t.resume.1 = (s.resume.1.call (.request r)).1 ∧
      t.resume.2.1 = s.resume.2.1 ++ [(s.resume.1.call (.request r)).2.1] := by
  intro t
  have hcall : s.resume.1.call (.request r) =
      ({ s.resume.1 with peers := s.resume.1.peers.apply r }, s.resume.1.peers.answer r,
        [.accepted r, .handling s.resume.1.peers true r]) := by
    have hactive : s.resume.1.phase = .active := by rw [h.resume_eq.1]
    rw [call, ask, h.immediate?_resume r, hsent]
    simp only [hactive, if_true, serve]
  have htcommands : t.commands = s.commands ++ [⟨r, ticket⟩] := hcommands
  obtain ⟨hresume, houtcomes⟩ := h.resume_eq
  obtain ⟨htresume, htoutcomes⟩ := ht.resume_eq
  constructor
  · rw [hcall, htresume, hresume, htcommands, List.map_append, Peers.applyAll_append]
    rfl
  · rw [hcall, htoutcomes, houtcomes, hresume, htcommands, h.settleAll_concat hissued,
      List.filterMap_append]
    rfl

/-- A ticket that is issued with its outcome shows in the collected outcomes, and nowhere else. -/
theorem Running.resume_issue_settled (h : s.Running) (o : Outcome) :
    (s.issue (.settled o)).resume.1 = s.resume.1 ∧
      (s.issue (.settled o)).resume.2.1 = s.resume.2.1 ++ [o] := by
  obtain ⟨hresume, houtcomes⟩ := h.resume_eq
  obtain ⟨htresume, htoutcomes⟩ := (h.issue_settled o).resume_eq
  constructor
  · rw [htresume, hresume]
    rfl
  · have hothers := h.ticket_ne
    rw [← map_fst_answersTo s.peers s.commands] at hothers
    rw [htoutcomes, houtcomes]
    change (Session.settleAll (s.tickets ++ [.settled o])
      (answersTo s.peers s.commands)).filterMap _ = _
    rw [Session.settleAll_concat (.settled o) hothers, List.filterMap_append]
    rfl

/-- A request that needs no worker has the same outcome before and behind a resumption. -/
theorem Running.resume_quick (h : s.Running) {r : Request} {o : Outcome} {events : List Event}
    (hquick : s.immediate? r = some (o, events)) :
    (s.issue (.settled o)).resume.1 = (s.resume.1.call (.request r)).1 ∧
      (s.issue (.settled o)).resume.2.1 =
        s.resume.2.1 ++ [(s.resume.1.call (.request r)).2.1] := by
  have hcall : s.resume.1.call (.request r) = (s.resume.1, o, events) := by
    rw [call, ask, h.immediate?_resume r, hquick]
  rw [hcall]
  exact h.resume_issue_settled o

/-- Starting a request in front of a stalled worker and letting the worker run comes to the same as
letting it run and making the request. -/
theorem Running.resume_pend (h : s.Running) (hstalled : s.phase = .stalled) (r : Request) :
    (s.pend (.request r)).1.phase = .stalled ∧
      (s.pend (.request r)).1.resume.1 = (s.resume.1.call (.request r)).1 ∧
      (s.pend (.request r)).1.resume.2.1 =
        s.resume.2.1 ++ [(s.resume.1.call (.request r)).2.1] := by
  have hidle : s.phase ≠ .active := by simp [hstalled]
  have hrunning : (s.pend (.request r)).1.Running :=
    h.started (s.started (.request r)) (by simp)
  cases hsent : s.immediate? r with
  | some quick =>
    obtain ⟨o, events⟩ := quick
    have hpend : s.pend (.request r) = (s.issue (.settled o), events) := by
      simp [pend, hsent, pendSettled, call, ask]
    rw [hpend]
    exact ⟨hstalled, h.resume_quick hsent⟩
  | none =>
    have hpend : s.pend (.request r) = s.pendStalled r := by simp [pend, hsent, hidle]
    rw [hpend] at hrunning ⊢
    cases hroom : s.hasRoom with
    | false =>
      have hlined : (s.pendStalled r).1 = (s.lineUp r s.tickets.length).issue (.waiting r) := by
        simp [pendStalled, hroom]
      rw [hlined] at hrunning ⊢
      exact ⟨hstalled, h.resume_sent hsent hrunning (commands_lineUp s r _) (Or.inr ⟨rfl, rfl⟩)⟩
    | true =>
      have hline := h.line_eq_nil hroom
      cases hupdate : r.isUpdate with
      | true =>
        have hupdated : (s.pendStalled r).1 = (s.enqueue r none).issue (.settled (.ok .done)) := by
          simp [pendStalled, hroom, hupdate]
        rw [hupdated] at hrunning ⊢
        exact ⟨hstalled, h.resume_sent hsent hrunning (commands_enqueue hline r _)
          (Or.inl ⟨rfl, hupdate, rfl⟩)⟩
      | false =>
        have hasked : (s.pendStalled r).1 =
            (s.enqueue r (some s.tickets.length)).issue (.waiting r) := by
          simp [pendStalled, hroom, hupdate]
        rw [hasked] at hrunning ⊢
        exact ⟨hstalled, h.resume_sent hsent hrunning (commands_enqueue hline r _)
          (Or.inr ⟨rfl, rfl⟩)⟩

theorem outcomesOf_cons (answer : Answer) (events : List Event)
    (answers : List (Answer × List Event)) :
    outcomesOf ((answer, events) :: answers) = answer.handedOut ++ outcomesOf answers :=
  List.flatMap_cons

theorem outcomesOf_append (answers later : List (Answer × List Event)) :
    outcomesOf (answers ++ later) = outcomesOf answers ++ outcomesOf later :=
  List.flatMap_append

/-- A worker that runs serves updates at once, and whoever makes them waits for nothing else. -/
theorem run_directly_updates (hopen : s.released = false) (hactive : s.phase = .active)
    {requests : List Request}
    (hsent : ∀ r ∈ requests, r.isUpdate = true ∧ s.immediate? r = none) :
    (s.run (directly requests)).1 = { s with peers := s.peers.applyAll requests } ∧
      outcomesOf (s.run (directly requests)).2 = requests.map fun _ => .ok .done := by
  induction requests generalizing s with
  | nil => exact ⟨rfl, rfl⟩
  | cons r requests ih =>
    obtain ⟨hupdate, hfirst⟩ := hsent r List.mem_cons_self
    let t : Session := { s with peers := s.peers.apply r }
    have hcall : s.call (.request r) =
        (t, .ok .done, [.accepted r, .handling s.peers true r]) := by
      rw [call, ask, hfirst]
      simp only [hactive, if_true, serve, Peers.answer_update _ hupdate, t]
    have hrest : ∀ r' ∈ requests, r'.isUpdate = true ∧ t.immediate? r' = none :=
      fun r' hr' => hsent r' (List.mem_cons_of_mem r hr')
    obtain ⟨hstate, houtcomes⟩ := ih (s := t) hopen hactive hrest
    rw [directly, List.map_cons, run, step_call hopen, hcall]
    refine ⟨hstate, ?_⟩
    rw [outcomesOf_cons]
    exact congrArg (_ :: ·) houtcomes

theorem Running.resume_run_pend (h : s.Running) (hstalled : s.phase = .stalled)
    (requests : List Request) :
    let started := s.run (requests.map fun r => .pend (.request r))
    let made := s.resume.1.run (directly requests)
    started.1.Running ∧ outcomesOf started.2 = [] ∧ started.1.resume.1 = made.1 ∧
      started.1.resume.2.1 = s.resume.2.1 ++ outcomesOf made.2 := by
  induction requests generalizing s with
  | nil => exact ⟨h, rfl, rfl, (List.append_nil _).symm⟩
  | cons r requests ih =>
    obtain ⟨hphase, hresume, houtcomes⟩ := h.resume_pend hstalled r
    have hrunning : (s.pend (.request r)).1.Running :=
      h.started (s.started (.request r)) (by simp)
    obtain ⟨hstarted, hnone, hmade, hall⟩ := ih hrunning hphase
    have hopen : s.resume.1.released = false := h.resume.released
    simp only [List.map_cons, directly, run, step_pend h.released, step_call hopen]
    rw [hresume] at hmade hall
    refine ⟨hstarted, hnone, hmade, ?_⟩
    rw [outcomesOf_cons]
    refine hall.trans ?_
    rw [houtcomes, List.append_assoc]
    rfl

/-- A session whose worker is running and which has handed out all outcomes. -/
structure Resting (s : Session) : Prop where
  running : s.Running
  active : s.phase = .active
  tickets : s.tickets = []

theorem Running.resting_resume (h : s.Running) : s.resume.1.Resting :=
  ⟨h.resume, by rw [h.resume_eq.1], rfl⟩

/-- A worker that has nothing to serve may as well have been stalled. -/
theorem Resting.resume_stall (h : s.Resting) :
    s.stall.phase = .stalled ∧ s.stall.resume.1 = s ∧ s.stall.resume.2.1 = [] := by
  have hstall : s.stall = { s with phase := .stalled } := if_pos h.active
  have hidle : s.commands = [] := h.running.idle (by simp [h.active])
  have hnothing : s.stall.commands = [] := by
    rw [hstall]
    exact hidle
  obtain ⟨hinbox, hline⟩ := nil_of_commands hidle
  obtain ⟨hresume, houtcomes⟩ := h.running.stall.resume_eq
  have htickets := h.tickets
  have hactive := h.active
  rw [hnothing, hstall] at hresume houtcomes
  obtain ⟨origin, capacity, limit, peers, phase, stopped, released, inbox, line, tickets⟩ := s
  cases hactive
  cases hinbox
  cases hline
  cases htickets
  exact ⟨by rw [hstall], hresume.trans rfl, houtcomes⟩

/-- Stalling the worker for one batch of requests changes neither what the callers are told nor the
state behind the batch. -/
theorem Resting.run_stalledBatch (h : s.Resting) (requests : List Request) :
    let stalled := s.run (stalledBatch requests)
    let direct := s.run (directly requests)
    stalled.1 = direct.1 ∧ outcomesOf stalled.2 = outcomesOf direct.2 ∧ direct.1.Resting := by
  intro stalled direct
  obtain ⟨hphase, hresume, houtcomes⟩ := h.resume_stall
  obtain ⟨hrunning, hnone, hmade, hall⟩ := h.running.stall.resume_run_pend hphase requests
  rw [hresume] at hmade hall
  rw [houtcomes] at hall
  have hstalled : stalled = _ := run_append s (.stall :: _) [.resume]
  simp only [run, step_stall, step_resume] at hstalled
  refine ⟨?_, ?_, ?_⟩
  · rw [hstalled]
    exact hmade
  · rw [hstalled, outcomesOf_append, outcomesOf_cons, hnone]
    exact (List.append_nil _).trans hall
  · rw [show direct.1 = _ from hmade.symm]
    exact hrunning.resting_resume

theorem Resting.run_stalledBatches (h : s.Resting) (batches : List (List Request)) :
    let stalled := s.run (batches.flatMap stalledBatch)
    let direct := s.run (directly batches.flatten)
    stalled.1 = direct.1 ∧ outcomesOf stalled.2 = outcomesOf direct.2 := by
  induction batches generalizing s with
  | nil => exact ⟨rfl, rfl⟩
  | cons requests batches ih =>
    obtain ⟨hstate, houtcomes, hresting⟩ := h.run_stalledBatch requests
    obtain ⟨hstate', houtcomes'⟩ := ih hresting
    have hdirectly : directly (requests :: batches).flatten =
        directly requests ++ directly batches.flatten := by
      rw [List.flatten_cons, directly, List.map_append]
      rfl
    intro stalled direct
    have hstalled : stalled = _ :=
      run_append s (stalledBatch requests) (batches.flatMap stalledBatch)
    have hdirect : direct = _ := (congrArg s.run hdirectly).trans (run_append s _ _)
    rw [hstalled, hdirect]
    rw [hstate]
    refine ⟨hstate', ?_⟩
    rw [outcomesOf_append, outcomesOf_append, houtcomes, houtcomes']

end Session

open Session

/-- Cut a list of requests into batches, wherever it may be cut: a caller who starts each batch in
front of a stalled worker, even one that does not fit into the inbox, collects the same outcomes in
the same order as one who makes the requests one by one, and leaves the same state behind. -/
theorem stalling_is_invisible {hosted : Bool} {origin : Node} {config : Config} {s₀ : Session}
    {events : List Event} (hstart : Session.start hosted origin config = .ok (s₀, events))
    (earlier : List Step) (hearlier : ∀ a ∈ earlier, a.isOrdinary = true)
    (batches : List (List Request)) :
    let s := (s₀.run (earlier ++ [.resume])).1
    let stalled := s.run (batches.flatMap stalledBatch)
    let direct := s.run (directly batches.flatten)
    outcomesOf stalled.2 = outcomesOf direct.2 ∧ stalled.1 = direct.1 := by
  intro s
  obtain ⟨hrunning, hbalanced⟩ := balanced_start hstart
  have hresting : s.Resting := by
    have hearlier := (hbalanced.run hrunning hearlier).1.resting_resume
    have hrun : s = _ := congrArg Prod.fst (run_append s₀ earlier [.resume])
    rw [hrun, run, step_resume]
    exact hearlier
  exact (hresting.run_stalledBatches batches).symm

/-- An inbox for one command, and a batch of three: the last query waits in line, and still sees
both insertions. -/
theorem batch_larger_than_inbox :
    let space : Keyspace.Space := { radix := .binary, length := 2 }
    let node := Node.sample space
    let s₀ := sample space 1
    let batches : List (List Request) :=
      [[.insert (node 1), .insert (node 2), .leaves], [.evict (node 1).id, .leaves]]
    let stalled := (s₀.run [.resume]).1.run (batches.flatMap stalledBatch)
    let direct := (s₀.run [.resume]).1.run (directly batches.flatten)
    start true (node 0) { space, inboxCapacity := 1 } =
        .ok (s₀, [.workerStarted (node 0).id]) ∧
      outcomesOf direct.2 = [.ok .done, .ok .done, .ok (.nodes [node 1, node 2]), .ok .done,
        .ok (.nodes [node 2])] ∧
      outcomesOf stalled.2 = outcomesOf direct.2 ∧ stalled.1 = direct.1 := by
  intro space node s₀ batches stalled direct
  have hstart := start_sample space Nat.one_pos
  exact ⟨hstart, by decide +kernel, stalling_is_invisible hstart [] (by simp) batches⟩

end Overlay.Service
