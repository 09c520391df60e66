import Mathlib
import Overlay.Proofs.Config
import Overlay.Proofs.Service.Ledger

/-!
The books of a run balance at every moment. Updates that were answered `ok` are those already served
followed by those in the inbox, and the ones still in line come behind them. So what was accepted is
served once and in order, and nothing else is.
-/

namespace Overlay.Service

/-- The updates that commands make. -/
def updatesOf (cs : List Command) : List Update := cs.filterMap fun c => Peers.change? c.request

@[simp]
theorem updatesOf_append (cs later : List Command) :
    updatesOf (cs ++ later) = updatesOf cs ++ updatesOf later := by
  simp [updatesOf]

theorem updatesOf_singleton (r : Request) (ticket : Option Nat) :
    updatesOf [⟨r, ticket⟩] = (Peers.change? r).toList := by
  cases r <;> rfl

theorem updatesOf_query {r : Request} (hquery : r.isUpdate = false) (ticket : Option Nat) :
    updatesOf [⟨r, ticket⟩] = [] := by
  rw [updatesOf_singleton, Peers.change?_query hquery]
  rfl

theorem applyAll_requests (p : Peers) (cs : List Command) :
    p.applyAll (cs.map (·.request)) = p.updateAll (updatesOf cs) := by
  rw [Peers.applyAll_eq, List.filterMap_map]
  rfl

/-- The books balance: peers, inbox and line account for every update of the ledger that was not
refused. -/
structure Balanced (base : Peers) (entries : List Entry) (s : Session) : Prop where
  ticketed : Ticketed entries s.tickets
  served : ∃ served, s.peers = base.updateAll served ∧
    accepted entries s = served ++ updatesOf s.inbox ∧
    prospects entries s = served ++ updatesOf s.commands

/-- True of all steps but shutdowns and releases. -/
def Step.isOrdinary : Step → Bool
  | .call c | .pend c => c ≠ .shutdown
  | .stall | .resume => true
  | .release => false

variable {base : Peers} {entries : List Entry} {s : Session}

theorem filterMap_concat (f : Entry → Option Update) (entries : List Entry) (e : Entry) :
    (entries ++ [e]).filterMap f = entries.filterMap f ++ (f e).toList := by
  rw [List.filterMap_append]
  cases he : f e <;> simp [he]

theorem accepted_concat (entries : List Entry) (s : Session) (e : Entry) :
    accepted (entries ++ [e]) s = accepted entries s ++ (e.accepted? s.origin s.tickets).toList :=
  filterMap_concat _ entries e

theorem prospects_concat (entries : List Entry) (s : Session) (e : Entry) :
    prospects (entries ++ [e]) s =
      prospects entries s ++ (e.prospect? s.origin s.tickets).toList :=
  filterMap_concat _ entries e

theorem prospect?_answered (origin : Node) (tickets : List Ticket) (c : Call) (o : Outcome) :
    Entry.prospect? origin tickets ⟨c, .answered o⟩ =
      Entry.accepted? origin tickets ⟨c, .answered o⟩ := by
  cases o <;> rfl

/-- A call is answered, and what it contributes goes to the end of the inbox. -/
theorem Balanced.answered {t : Session} {c : Call} {o : Outcome} {added : List Update}
    (h : Balanced base entries s) (hpeers : t.peers = s.peers) (horigin : t.origin = s.origin)
    (htickets : t.tickets = s.tickets)
    (hadded : (Entry.accepted? s.origin s.tickets ⟨c, .answered o⟩).toList = added)
    (hinbox : updatesOf t.inbox = updatesOf s.inbox ++ added)
    (hcommands : updatesOf t.commands = updatesOf s.commands ++ added) :
    Balanced base (entries ++ [⟨c, .answered o⟩]) t := by
  obtain ⟨served, hserved, haccepted, hprospects⟩ := h.served
  refine ⟨htickets ▸ ticketed_answered_iff.mpr h.ticketed, served, hpeers.trans hserved, ?_, ?_⟩
  · rw [accepted, horigin, htickets]
    change accepted (entries ++ [⟨c, .answered o⟩]) s = _
    rw [accepted_concat, hadded, haccepted, hinbox, List.append_assoc]
  · rw [prospects, horigin, htickets]
    change prospects (entries ++ [⟨c, .answered o⟩]) s = _
    rw [prospects_concat, prospect?_answered, hadded, hprospects, hcommands, List.append_assoc]

/-- A worker that has nothing to serve serves a call at once. -/
theorem Balanced.answered_at_once {r : Request} (h : Balanced base entries s)
    (hidle : s.commands = []) (hown : s.isOwn r = false) :
    Balanced base (entries ++ [⟨.request r, .answered (s.peers.answer r)⟩])
      { s with peers := s.peers.apply r } := by
  obtain ⟨served, hserved, haccepted, hprospects⟩ := h.served
  obtain ⟨hinbox, -⟩ := List.append_eq_nil_iff.mp hidle
  have hadded : Entry.accepted? s.origin s.tickets ⟨.request r, .answered (s.peers.answer r)⟩ =
      Peers.change? r := Entry.accepted?_of_sent hown (Peers.answer_update _)
  have hpeers : s.peers.apply r = base.updateAll (served ++ (Peers.change? r).toList) := by
    rw [Peers.updateAll_append, ← hserved, Peers.apply_eq]
  rw [hidle] at hprospects
  rw [hinbox] at haccepted
  refine ⟨ticketed_answered_iff.mpr h.ticketed, _, hpeers, ?_, ?_⟩
  · change accepted (entries ++ [⟨.request r, .answered (s.peers.answer r)⟩]) s =
      _ ++ updatesOf s.inbox
    rw [accepted_concat, hadded, haccepted, hinbox, updatesOf]
    simp
  · change prospects (entries ++ [⟨.request r, .answered (s.peers.answer r)⟩]) s =
      _ ++ updatesOf s.commands
    rw [prospects_concat, prospect?_answered, hadded, hprospects, hidle, updatesOf]
    simp

theorem updatesOf_map_ticket (cs : List Command) :
    updatesOf (cs.map fun c => { c with ticket := none }) = updatesOf cs := by
  simp [updatesOf]

/-- The deadline of all who wait passes: what was in line is dropped, and nobody was told `ok`. -/
theorem Balanced.expire (h : Balanced base entries s) : Balanced base entries s.expire.1 := by
  obtain ⟨served, hserved, haccepted, hprospects⟩ := h.served
  have hsame : accepted entries s.expire.1 = accepted entries s :=
    List.filterMap_congr fun e he => (Entry.accepted?_expire (h.ticketed.exists e he) s.limit).1
  have hdecided : prospects entries s.expire.1 = accepted entries s :=
    List.filterMap_congr fun e he => (Entry.accepted?_expire (h.ticketed.exists e he) s.limit).2
  refine ⟨h.ticketed.expire s.limit, served, hserved, ?_, ?_⟩
  · rw [hsame, haccepted]
    exact congrArg _ (updatesOf_map_ticket s.inbox).symm
  · rw [hdecided, haccepted, Session.commands_expire, updatesOf_map_ticket]

/-- A new ticket decides nothing about the calls that were started before. -/
theorem Ticketed.outcomes_issue (h : Ticketed entries s.tickets) (u : Ticket) :
    accepted entries (s.issue u) = accepted entries s ∧
      prospects entries (s.issue u) = prospects entries s := by
  have hsame : ∀ e ∈ entries, e.outcome? (s.tickets ++ [u]) = e.outcome? s.tickets :=
    fun e he => Entry.outcome?_concat (h.exists e he) u
  constructor
  · refine List.filterMap_congr fun e he => ?_
    simp only [Entry.accepted?, Session.issue, hsame e he]
  · refine List.filterMap_congr fun e he => ?_
    simp only [Entry.prospect?, Session.issue, hsame e he]

/-- An outcome under a new ticket counts like an answer. -/
theorem Balanced.issue_settled {c : Call} {o : Outcome}
    (h : Balanced base (entries ++ [⟨c, .answered o⟩]) s) :
    Balanced base (entries ++ [⟨c, .ticket s.tickets.length⟩]) (s.issue (.settled o)) := by
  have hticketed : Ticketed entries s.tickets := ticketed_answered_iff.mp h.ticketed
  obtain ⟨hsame, hsame'⟩ := hticketed.outcomes_issue (.settled o)
  obtain ⟨served, hserved, haccepted, hprospects⟩ := h.served
  refine ⟨hticketed.issue (by simp), served, hserved, ?_, ?_⟩
  · rw [accepted_concat] at haccepted ⊢
    rw [hsame]
    refine Eq.trans (congrArg _ (congrArg _ ?_)) haccepted
    exact (Entry.accepted?_last s.origin s.tickets c (.settled o)).1
  · rw [prospects_concat] at hprospects ⊢
    rw [hsame']
    refine Eq.trans (congrArg _ (congrArg _ ?_)) hprospects
    exact (Entry.accepted?_last s.origin s.tickets c (.settled o)).2

/-- A call that is left waiting for a command behind all others. -/
theorem Balanced.issue_waiting {t : Session} {r : Request} (h : Balanced base entries s)
    (hown : s.isOwn r = false) (hpeers : t.peers = s.peers) (horigin : t.origin = s.origin)
    (htickets : t.tickets = s.tickets) (hinbox : updatesOf t.inbox = updatesOf s.inbox)
    (hcommands : updatesOf t.commands = updatesOf s.commands ++ (Peers.change? r).toList) :
    Balanced base (entries ++ [⟨.request r, .ticket s.tickets.length⟩])
      (t.issue (.waiting r)) := by
  obtain ⟨hsame, hsame'⟩ := h.ticketed.outcomes_issue (.waiting r)
  obtain ⟨hlast, hlast'⟩ := Entry.accepted?_last s.origin s.tickets (.request r) (.waiting r)
  obtain ⟨served, hserved, haccepted, hprospects⟩ := h.served
  have hissue : Ticketed (entries ++ [⟨.request r, .ticket s.tickets.length⟩])
      (t.issue (.waiting r)).tickets := by
    rw [Session.issue, htickets]
    exact h.ticketed.issue fun r' hr => by cases hr; rfl
  refine ⟨hissue, served, hpeers.trans hserved, ?_, ?_⟩
  · change (entries ++ [_]).filterMap (Entry.accepted? t.origin (t.tickets ++ [_])) =
      _ ++ updatesOf t.inbox
    rw [horigin, htickets, filterMap_concat, hlast, hinbox, ← haccepted]
    refine Eq.trans (List.append_nil _) hsame
  · change (entries ++ [_]).filterMap (Entry.prospect? t.origin (t.tickets ++ [_])) =
      _ ++ updatesOf t.commands
    rw [horigin, htickets, filterMap_concat, hlast', hcommands, ← List.append_assoc, ← hprospects,
      Entry.update?_of_sent _ hown]
    exact congrArg (· ++ _) hsame'

theorem Balanced.called {c : Call} {t : Session} {o : Outcome} (h : Balanced base entries s)
    (hs : s.Running) (hcalled : s.Called c t o) (hc : c ≠ .shutdown) :
    Balanced base (entries ++ [⟨c, .answered o⟩]) t := by
  -- A call that leaves the queues and the peers as they are, and contributes nothing.
  have hunchanged {c : Call} {o : Outcome}
      (hnone : (Entry.accepted? s.origin s.tickets ⟨c, .answered o⟩).toList = []) :
      Balanced base (entries ++ [⟨c, .answered o⟩]) s :=
    h.answered rfl rfl rfl hnone (List.append_nil _).symm (List.append_nil _).symm
  cases hcalled with
  | refused => exact hunchanged rfl
  | own hrefusal hown =>
    refine hunchanged ?_
    change (Entry.update? s.origin _).toList = []
    rw [Entry.update?_of_own _ hown]
    rfl
  | served hsent hactive =>
    exact h.answered_at_once (hs.idle (by simp [hactive])) (Session.immediate?_eq_none hsent).2
  | accepted hsent hidle hroom =>
    refine h.answered rfl rfl rfl (congrArg Option.toList
      (Entry.accepted?_of_sent (Session.immediate?_eq_none hsent).2 fun _ => rfl)) ?_ ?_
    · rw [Session.enqueue, updatesOf_append, updatesOf_singleton]
    · rw [Session.commands_enqueue (hs.line_eq_nil hroom), updatesOf_append, updatesOf_singleton]
  | @abandoned r hsent hidle hroom hquery =>
    have hnone : (Entry.accepted? s.origin s.tickets
        ⟨.request r, .answered (r.timedOut s.limit)⟩).toList = [] := rfl
    refine Balanced.expire (h.answered (t := s.enqueue r none) rfl rfl rfl hnone ?_ ?_)
    · rw [Session.enqueue, updatesOf_append, updatesOf_query hquery]
    · rw [Session.commands_enqueue (hs.line_eq_nil hroom), updatesOf_append,
        updatesOf_query hquery]
  | expired => exact (hunchanged rfl).expire
  | shutdown => exact absurd rfl hc
  | status => exact hunchanged rfl

theorem Balanced.started {c : Call} {t : Session} (h : Balanced base entries s)
    (hs : s.Running) (hstarted : s.Started c t) (hc : c ≠ .shutdown) :
    Balanced base (record entries (.pend c) .done) t := by
  rw [record, h.ticketed.count_open]
  cases hstarted with
  | settled hcalled =>
    have hsettled := (h.called hs hcalled hc).issue_settled
    rwa [hcalled.length_tickets] at hsettled
  | accepted hsent hidle hroom hupdate =>
    exact (h.called hs (.accepted hsent hidle hroom hupdate) hc).issue_settled
  | sent hsent hidle hroom hquery =>
    refine h.issue_waiting (Session.immediate?_eq_none hsent).2 rfl rfl rfl ?_ ?_
    · rw [Session.enqueue, updatesOf_append, updatesOf_query hquery, List.append_nil]
    · rw [Session.commands_enqueue (hs.line_eq_nil hroom), updatesOf_append, updatesOf_singleton]
  | lined hsent hidle hfull =>
    refine h.issue_waiting (Session.immediate?_eq_none hsent).2 rfl rfl rfl rfl ?_
    rw [Session.commands_lineUp, updatesOf_append, updatesOf_singleton]

theorem Balanced.stall (h : Balanced base entries s) : Balanced base entries s.stall := by
  rw [Session.stall]
  split
  · exact ⟨h.ticketed, h.served⟩
  · exact h

/-- When the worker runs again it serves what was accepted, and accepts what was in line. -/
theorem Balanced.resume (h : Balanced base entries s) (hs : s.Running) :
    Balanced base (record entries .resume (.outcomes s.resume.2.1)) s.resume.1 := by
  obtain ⟨served, hserved, -, hprospects⟩ := h.served
  rw [record, hs.resume_eq.1]
  have hcollect (e : Entry) (he : e ∈ entries) :=
    @Entry.accepted?_collect e s.origin s hs (h.ticketed.find e he)
  refine ⟨⟨?_, ?_⟩, served ++ updatesOf s.commands, ?_, ?_, ?_⟩
  · rw [List.countP_map, List.length_nil, List.countP_eq_zero]
    intro e he
    simp [(hcollect e he).1]
  · intro e he i hi
    obtain ⟨e', he', rfl⟩ := List.mem_map.mp he
    have hclosed := (hcollect e' he').1
    rw [Entry.isOpen, hi] at hclosed
    cases hclosed
  · rw [Peers.updateAll_append, ← hserved, applyAll_requests]
  · rw [accepted, List.filterMap_map, ← hprospects]
    refine (List.filterMap_congr fun e he => (hcollect e he).2.1).trans (List.append_nil _).symm
  · rw [prospects, List.filterMap_map, ← hprospects]
    refine (List.filterMap_congr fun e he => (hcollect e he).2.2).trans (List.append_nil _).symm

theorem Balanced.step (h : Balanced base entries s) (hs : s.Running) {a : Step}
    (ha : a.isOrdinary = true) :
    (s.step a).1.Running ∧ Balanced base (record entries a (s.step a).2.1) (s.step a).1 := by
  have hhandle : (s.released && a.needsHandle) = false := by rw [hs.released, Bool.false_and]
  unfold Session.step
  rw [if_neg (by simp [hhandle])]
  cases a with
  | call c =>
    have hc : c ≠ .shutdown := by simpa [Step.isOrdinary] using ha
    exact ⟨hs.called (s.called c) hc, h.called hs (s.called c) hc⟩
  | pend c =>
    have hc : c ≠ .shutdown := by simpa [Step.isOrdinary] using ha
    exact ⟨hs.started (s.started c) hc, h.started hs (s.started c) hc⟩
  | stall => exact ⟨hs.stall, h.stall⟩
  | resume => exact ⟨hs.resume, h.resume hs⟩
  | release => cases ha

/-- The books of a run balance at its end. -/
theorem Balanced.run (h : Balanced base entries s) (hs : s.Running) {steps : List Step}
    (hsteps : ∀ a ∈ steps, a.isOrdinary = true) :
    (s.run steps).1.Running ∧
      Balanced base (recordAll entries steps (s.run steps).2) (s.run steps).1 := by
  induction steps generalizing entries s with
  | nil => exact ⟨hs, h⟩
  | cons a steps ih =>
    obtain ⟨hrunning, hbalanced⟩ := h.step hs (hsteps a List.mem_cons_self)
    exact ih hbalanced hrunning fun b hb => hsteps b (List.mem_cons_of_mem a hb)

/-- Before the first step nothing is recorded. -/
theorem balanced_start {hosted : Bool} {origin : Node} {config : Config} {events : List Event}
    (hstart : Session.start hosted origin config = .ok (s, events)) :
    s.Running ∧ Balanced s.peers [] s := by
  have htidy := Session.tidy_start hstart
  obtain ⟨-, metric, -, -, rfl, -⟩ := Session.start_eq_ok.mp hstart
  constructor
  · exact ⟨htidy, rfl, rfl⟩
  · refine ⟨⟨rfl, ?_⟩, [], rfl, rfl, rfl⟩
    intro e he
    cases he

/-- A worker that has emptied its inbox has left no call without an outcome. -/
theorem Balanced.decided (h : Balanced base entries s) (hs : s.Running) (hinbox : s.inbox = []) :
    ∀ e ∈ entries, (e.outcome? s.tickets).isSome := by
  rintro ⟨c, receipt⟩ he
  cases receipt with
  | answered o => rfl
  | ticket i =>
    obtain ⟨t, ht, -⟩ := h.ticketed.find _ he i rfl
    cases t with
    | settled o => simp only [Entry.outcome?, ht, Option.isSome_some]
    | waiting r =>
      have hmem := (hs.waiting_iff i r).mp ht
      rw [hs.commands_eq_nil hinbox] at hmem
      cases hmem

/-- At every moment of a run the peers are those that the accepted updates give when they are served
one by one in the order in which they were started, except for the last ones, which stand in the
inbox in that order. Once the inbox is empty, every call has its outcome and no update is
missing. -/
theorem accepted_updates_are_served {hosted : Bool} {origin : Node} {config : Config}
    {s₀ : Session} {events : List Event}
    (hstart : Session.start hosted origin config = .ok (s₀, events)) {steps : List Step}
    (hsteps : ∀ a ∈ steps, a.isOrdinary = true) :
    ∃ metric, config.check = .ok metric ∧
      let base := Peers.empty origin metric config
      let s := (s₀.run steps).1
      let ledger := recordAll [] steps (s₀.run steps).2
      (∃ served, s.peers = base.updateAll served ∧
        accepted ledger s = served ++ updatesOf s.inbox) ∧
      (s.inbox = [] → s.peers = base.updateAll (accepted ledger s) ∧
        ∀ e ∈ ledger, (e.outcome? s.tickets).isSome) := by
  obtain ⟨hrunning, hbalanced⟩ := balanced_start hstart
  obtain ⟨-, metric, hcheck, -, rfl, -⟩ := Session.start_eq_ok.mp hstart
  refine ⟨metric, hcheck, ?_⟩
  intro base s ledger
  obtain ⟨hrunning, hbalanced⟩ := hbalanced.run hrunning hsteps
  obtain ⟨served, hserved, haccepted, -⟩ := hbalanced.served
  refine ⟨⟨served, hserved, haccepted⟩, ?_⟩
  intro hinbox
  refine ⟨?_, hbalanced.decided hrunning hinbox⟩
  rw [hinbox] at haccepted
  rw [haccepted]
  exact hserved.trans (congrArg _ (List.append_nil served).symm)

/-- An update that was accepted is served although the next call in line reaches its deadline: the
table stores the one node that was accepted. -/
theorem accepted_update_outlives_timeout :
    let node := Node.sample .canonical
    let s₀ := Session.sample .canonical 1
    let steps : List Step :=
      [.stall, .pend (.request (.insert (node 1))), .pend (.request (.insert (node 2))),
       .call (.request .stats), .resume]
    Session.start true (node 0) { inboxCapacity := 1 } =
        .ok (s₀, [.workerStarted (node 0).id]) ∧
      (∀ a ∈ steps, a.isOrdinary = true) ∧
      accepted (recordAll [] steps (s₀.run steps).2) (s₀.run steps).1 = [.insert (node 1)] ∧
      (s₀.run steps).1.peers = s₀.peers.updateAll [.insert (node 1)] ∧
      (s₀.run steps).1.peers.table.entries = [node 1] := by
  intro node s₀ steps
  have hstart := Session.start_sample .canonical Nat.one_pos
  have hsteps : ∀ a ∈ steps, a.isOrdinary = true := by decide
  obtain ⟨metric, hmetric, -, hserved⟩ := accepted_updates_are_served hstart hsteps
  have hinbox : (s₀.run steps).1.inbox = [] := by decide +kernel
  have haccepted : accepted (recordAll [] steps (s₀.run steps).2) (s₀.run steps).1 =
      [.insert (node 1)] := by decide +kernel
  cases (Session.check_sample .canonical Nat.one_pos).symm.trans hmetric
  rw [haccepted] at hserved
  have hpeers := (hserved hinbox).1
  refine ⟨hstart, hsteps, haccepted, hpeers, ?_⟩
  rw [hpeers]
  decide +kernel

end Overlay.Service
