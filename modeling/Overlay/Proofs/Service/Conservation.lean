import Mathlib
import Overlay.Proofs.Peers.Coherence
import Overlay.Proofs.Service.Inbox
import Overlay.Proofs.Service.Shutdown

/-!
No command is lost without being counted. Every step of a session, and every turn of its worker, is
a course of moves on the inbox, or it ends the worker: after a shutdown with whatever is queued at
that moment, and when no caller is left only behind all that was queued and all that stood in line.
-/

namespace Overlay.Service

/-- What a step can do to the inbox. -/
inductive Booked (s : Session) (a : Step) : Tally → Stock → Prop where
  /-- The worker does not end. -/
  | kept {k : Tally} {t : Stock} (hcourse : Course s.stock k t) (hnone : k.endings = []) :
    Booked s a k t
  /-- The worker ends because it was stopped. -/
  | discarded (hwhy : s.stopped = true ∨ a.isShutdown = true) (hopen : s.stock.ended = false) :
    Booked s a ⟨[], 0, [(s.stock.peers.table.size, s.stock.queue.length)]⟩
      { s.stock with queue := [], ended := true }
  /-- The worker ends because no caller is left. -/
  | left {k : Tally} {t : Stock} (hrunning : s.stopped = false ∧ a.isShutdown = false)
      (hwhy : s.released = true ∨ a = .release) (hcourse : Course s.stock k t)
      (hnone : k.endings = []) (hopen : t.ended = false) (hempty : t.queue = []) :
    Booked s a (k ++ ⟨[], 0, [(t.peers.table.size, t.queue.length)]⟩)
      { t with queue := [], ended := true }

theorem Booked.course {s : Session} {a : Step} {k : Tally} {t : Stock} (h : Booked s a k t) :
    Course s.stock k t := by
  cases h with
  | kept hcourse => exact hcourse
  | discarded _ hopen => exact .single (.finish hopen)
  | left _ _ hcourse _ hopen => exact hcourse.move (.finish hopen)

namespace Session

variable {s : Session} {a : Step}

/-- A turn handles the first command and may accept another one. -/
theorem Tidy.course_turned (h : s.Tidy) {c : Command} {t : Session} {events : List Event}
    (hturned : Turned s c t events) :
    Course s.stock (tally events) t.stock ∧ (tally events).endings = [] := by
  have hopen : s.stock.ended = false := by simp [stock, h.stalled_of_turned hturned]
  have hwithin := h.within
  cases hturned with
  | @last inbox hinbox hline =>
    have hqueue : s.stock.queue = c.request :: inbox.map (·.request) := by simp [stock, hinbox]
    rw [tally_handling]
    exact ⟨.single (.handle hopen hqueue), rfl⟩
  | @advancing inbox l line hinbox hline =>
    have hqueue : s.stock.queue = c.request :: inbox.map (·.request) := by simp [stock, hinbox]
    have hhandle := Course.single (Move.handle hopen hqueue)
    have hroom : (inbox.map (·.request)).length < s.stock.capacity := by
      simpa [stock, hinbox] using hwithin
    have hboth : Course s.stock (⟨[], 1, []⟩ ++ ⟨[l.request], 0, []⟩)
        { s.stock with queue := (inbox ++ [admitted l]).map (·.request)
                       peers := s.peers.apply c.request } := by
      rw [List.map_append]
      exact hhandle.move (.accept l.request hopen hroom)
    rw [← List.singleton_append, tally_append, tally_handling]
    exact ⟨hboth, rfl⟩

theorem Tidy.course_turns (h : s.Tidy) {t : Session} {events : List Event}
    (hturns : Turns s events t) :
    Course s.stock (tally events) t.stock ∧ (tally events).endings = [] := by
  induction hturns with
  | refl => exact ⟨.refl _, rfl⟩
  | turn hturned _ ih =>
    obtain ⟨hfirst, hnone⟩ := h.course_turned hturned
    obtain ⟨hlater, hnone'⟩ := ih (h.turned hturned)
    rw [tally_append]
    refine ⟨hfirst.trans hlater, ?_⟩
    rw [Tally.append_def, hnone, hnone', List.append_nil]

theorem length_queue (s : Session) : s.stock.queue.length = s.inbox.length := List.length_map _

/-- A step that says nothing about the inbox and leaves it as it is. -/
theorem booked_aside {t : Session} {events : List Event} (hevents : tally events = .nothing)
    (hstock : t.stock = s.stock) : Booked s a (tally events) t.stock := by
  rw [hevents, hstock]
  exact .kept (.refl _) rfl

theorem tally_finish (s : Session) :
    tally s.finish.2 = ⟨[], 0, [(s.stock.peers.table.size, s.stock.queue.length)]⟩ := by
  rw [length_queue]
  rfl

theorem stock_finish (s : Session) :
    s.finish.1.stock = { s.stock with queue := [], ended := true } := rfl

theorem tally_immediate {r : Request} {o : Outcome} {events : List Event}
    (h : s.immediate? r = some (o, events)) : tally events = .nothing := by
  unfold immediate? at h
  split at h
  · cases h
    rfl
  · split at h
    · cases h
      rfl
    · cases h

theorem tally_expire (s : Session) : tally s.expire.2 = .nothing := by
  apply tally_eq_nothing
  intro e he
  obtain ⟨r, -, rfl⟩ := List.mem_map.mp he
  exact tally_givingUp s.limit r

theorem stock_expire (s : Session) : s.expire.1.stock = s.stock := by
  have hqueue : (s.inbox.map fun c => { c with ticket := none }).map (·.request) =
      s.inbox.map (·.request) := by
    simp [Function.comp_def]
  exact congrArg (fun queue => { s.stock with queue }) hqueue

theorem stock_enqueue (s : Session) (r : Request) (ticket : Option Nat) :
    (s.enqueue r ticket).stock = { s.stock with queue := s.stock.queue ++ [r] } :=
  congrArg (fun queue => { s.stock with queue }) List.map_append

/-- A request that is sent to a worker which does not run is accepted if there is room. -/
theorem Tidy.booked_accepted (h : s.Tidy) {r : Request} (hsent : s.immediate? r = none)
    (hroom : s.hasRoom = true) (ticket : Option Nat) {t : Session} {events : List Event}
    (hevents : tally events = .nothing) (hstock : t.stock = (s.enqueue r ticket).stock) :
    Booked s a (tally (.accepted r :: events)) t.stock := by
  have hopen : s.stock.ended = false := by
    simpa [stock] using h.open_of_running (running_of_sent hsent)
  have hlength : s.stock.queue.length < s.stock.capacity := by
    simpa [stock, hasRoom] using hroom
  have htally : tally (.accepted r :: events) = ⟨[r], 0, []⟩ := by
    rw [← List.singleton_append, tally_append, hevents, Tally.append_nothing]
    rfl
  rw [htally, hstock, stock_enqueue]
  exact .kept (.single (.accept r hopen hlength)) rfl

theorem Tidy.booked_served (h : s.Tidy) (hactive : s.phase = .active) (r : Request) :
    Booked s a (tally [.accepted r, .handling s.peers true r])
      { s with peers := s.peers.apply r : Session }.stock := by
  have hopen : s.stock.ended = false := by simp [stock, hactive]
  have hqueue : s.stock.queue = [] := by simp [stock, nil_of_commands (h.idle (by simp [hactive]))]
  have haccept : Move s.stock ⟨[r], 0, []⟩ { s.stock with queue := s.stock.queue ++ [r] } :=
    .accept r hopen (by rw [hqueue]; exact h.capacity_pos)
  have hhandle : Move { s.stock with queue := s.stock.queue ++ [r] } ⟨[], 1, []⟩
      { s.stock with queue := [], peers := s.peers.apply r } :=
    .handle hopen (by rw [hqueue]; rfl)
  have hevents : tally [.accepted r, .handling s.peers true r] = ⟨[r], 0, []⟩ ++ ⟨[], 1, []⟩ := by
    rw [← List.singleton_append, tally_append, tally_handling]
    rfl
  have hstock : { s with peers := s.peers.apply r : Session }.stock =
      { s.stock with queue := [], peers := s.peers.apply r } := by
    rw [← hqueue]
    rfl
  rw [hevents, hstock]
  exact .kept ((Course.single haccept).move hhandle) rfl

theorem Tidy.booked_askStalled (h : s.Tidy) {r : Request} (hsent : s.immediate? r = none) :
    Booked s a (tally (s.askStalled r).2.2) (s.askStalled r).1.stock := by
  unfold askStalled
  cases hroom : s.hasRoom with
  | true =>
    cases hupdate : r.isUpdate with
    | true => exact h.booked_accepted hsent hroom none rfl rfl
    | false =>
      have hevents : tally (.givingUp s.limit r :: (s.enqueue r none).expire.2) = .nothing := by
        rw [← List.singleton_append, tally_append, tally_givingUp, tally_expire]
        rfl
      exact h.booked_accepted hsent hroom none hevents (stock_expire _)
  | false =>
    have hevents : tally (.givingUp s.limit r :: s.expire.2) = .nothing := by
      rw [← List.singleton_append, tally_append, tally_givingUp, tally_expire]
      rfl
    exact booked_aside hevents (stock_expire s)

theorem Tidy.booked_call (h : s.Tidy) (c : Call) (ha : c = .shutdown → a.isShutdown = true) :
    Booked s a (tally (s.call c).2.2) (s.call c).1.stock := by
  cases c with
  | request r =>
    rw [call, ask]
    cases hsent : s.immediate? r with
    | some quick => exact booked_aside (tally_immediate hsent) rfl
    | none =>
      by_cases hactive : s.phase = .active
      · simp only [if_pos hactive]
        exact h.booked_served hactive r
      · simp only [if_neg hactive]
        exact h.booked_askStalled hsent
  | shutdown =>
    rw [call, Session.shutdown]
    by_cases hstopped : s.stopped = true
    · simp only [if_pos hstopped]
      exact booked_aside rfl rfl
    · by_cases hactive : s.phase = .active
      · have hopen : s.stock.ended = false := by simp [stock, hactive]
        simp only [if_neg hstopped, if_pos hactive]
        rw [work_stopped rfl, ← List.singleton_append, tally_append, tally_finish, stock_finish]
        exact .discarded (Or.inr (ha rfl)) hopen
      · simp only [if_neg hstopped, if_neg hactive]
        exact booked_aside rfl rfl
  | status => exact booked_aside rfl rfl

theorem Tidy.booked_pend (h : s.Tidy) (c : Call) (ha : c = .shutdown → a.isShutdown = true) :
    Booked s a (tally (s.pend c).2) (s.pend c).1.stock := by
  cases c with
  | request r =>
    rw [pend]
    split
    case isTrue hstalled =>
      rw [Bool.and_eq_true, Option.isNone_iff_eq_none] at hstalled
      unfold pendStalled
      cases hroom : s.hasRoom with
      | true =>
        cases hupdate : r.isUpdate with
        | true => exact h.booked_accepted hstalled.1 hroom none rfl rfl
        | false => exact h.booked_accepted hstalled.1 hroom (some s.tickets.length) rfl rfl
      | false => exact booked_aside rfl rfl
    case isFalse => exact h.booked_call (.request r) ha
  | shutdown => exact h.booked_call .shutdown ha
  | status => exact h.booked_call .status ha

/-- A worker that works discards what is queued if it was stopped. Otherwise it serves everything,
and ends behind this if no caller is left. -/
theorem Tidy.booked_work {t : Session} (h : t.Tidy) (hopen : t.phase ≠ .finished)
    (hstock : t.stock = s.stock) (hstopped : t.stopped = s.stopped)
    (hreleased : t.released = true → s.released = true ∨ a = .release)
    (ha : a.isShutdown = false) : Booked s a (tally t.work.2) t.work.1.stock := by
  have hended : t.stock.ended = false := by simp [stock, hopen]
  cases hrunning : t.stopped with
  | true =>
    rw [work_stopped hrunning, tally_finish, stock_finish, hstock]
    exact .discarded (Or.inl (hstopped ▸ hrunning)) (hstock ▸ hended)
  | false =>
    obtain ⟨events, hturns, hwork⟩ := h.exists_turns_work hrunning
    obtain ⟨hcourse, hnone⟩ := h.course_turns hturns
    rw [hstock] at hcourse
    rw [hwork]
    split
    case isTrue hleft =>
      rw [tally_append, tally_finish, stock_finish]
      exact .left ⟨hstopped ▸ hrunning, ha⟩ (hreleased hleft) hcourse hnone hended rfl
    case isFalse =>
      have hsame : ({ t.drained with phase := .active } : Session).stock = t.drained.stock := by
        rw [stock, stock, show t.drained.phase = t.phase from rfl]
        simp [hopen]
      rw [hsame]
      exact .kept hcourse hnone

theorem Tidy.booked_wake (h : s.Tidy) (ha : a.isShutdown = false) :
    Booked s a (tally s.wake.2) s.wake.1.stock := by
  rw [Session.wake]
  split
  case isTrue hstalled => exact h.booked_work (by simp [hstalled]) rfl rfl Or.inl ha
  case isFalse => exact booked_aside rfl rfl

theorem stock_stall (s : Session) : s.stall.stock = s.stock := by
  rw [Session.stall]
  split
  case isTrue hactive => simp [stock, hactive]
  case isFalse => rfl

theorem Tidy.booked_release (h : s.Tidy) :
    Booked s .release (tally s.release.2) s.release.1.stock := by
  rw [Session.release]
  by_cases hactive : s.phase = .active
  · simp only [if_pos hactive]
    exact h.without_handle.booked_work (by simp [hactive]) rfl rfl (fun _ => Or.inr rfl) rfl
  · simp only [if_neg hactive]
    exact booked_aside rfl rfl

theorem Tidy.booked_step (h : s.Tidy) (a : Step) :
    Booked s a (tally (s.step a).2.2) (s.step a).1.stock := by
  apply step_elim (P := fun t events => Booked s a (tally events) t.stock) a
  · exact booked_aside rfl rfl
  · rintro c rfl
    apply h.booked_call c
    rintro rfl
    rfl
  · rintro c rfl
    apply h.booked_pend c
    rintro rfl
    rfl
  · intro _
    exact booked_aside rfl s.stock_stall
  · rintro rfl
    exact h.booked_wake rfl
  · rintro rfl
    exact h.booked_release

/-- Whatever happens to a session is a course of moves on its inbox, with the tally of the
journal. -/
theorem Tidy.course_reaches (h : s.Tidy) {t : Session} {journal : List Event}
    (hreaches : s.Reaches journal t) : Course s.stock (tally journal) t.stock := by
  induction hreaches with
  | start => exact .refl _
  | step hreaches a ih =>
    rw [tally_append]
    exact ih.trans ((h.reaches hreaches).booked_step a).course
  | turn hreaches _ hturn ih =>
    obtain ⟨c, hturned⟩ := Session.turned hturn
    rw [tally_append]
    exact ih.trans ((h.reaches hreaches).course_turned hturned).1

theorem account_start {hosted : Bool} {origin : Node} {config : Config} {events : List Event}
    (hstart : Session.start hosted origin config = .ok (s, events)) :
    ∃ metric, config.check = .ok metric ∧ s.stock.capacity = config.inboxCapacity ∧
      Account (.empty origin metric config) (tally events) s.stock := by
  obtain ⟨-, metric, hcheck, -, rfl, rfl⟩ := start_eq_ok.mp hstart
  exact ⟨metric, hcheck, rfl, Nat.zero_le _, [], [], rfl, rfl, rfl, Or.inl ⟨rfl, rfl, rfl⟩⟩

end Session

open Session

/-- What a step reports that ends the worker. -/
theorem Booked.ending {s : Session} {a : Step} {k : Tally} {t : Stock} {entries rejected : Nat}
    (h : Booked s a k t) (hend : (entries, rejected) ∈ k.endings) :
    ((s.stopped = true ∨ a.isShutdown = true) →
        k.accepted = [] ∧ rejected = s.stock.queue.length) ∧
      (¬ (s.stopped = true ∨ a.isShutdown = true) →
        (s.released = true ∨ a = .release) ∧ rejected = 0) := by
  cases h with
  | kept _ hnone =>
    rw [hnone] at hend
    cases hend
  | discarded hwhy =>
    rw [List.mem_singleton, Prod.mk.injEq] at hend
    exact ⟨fun _ => ⟨rfl, hend.2⟩, fun hrunning => absurd hwhy hrunning⟩
  | left hrunning hwhy _ hnone _ hempty =>
    have hrejected : rejected = 0 := by
      simp only [Tally.append_def, hnone, hempty, List.nil_append, List.mem_singleton,
        Prod.mk.injEq] at hend
      exact hend.2
    refine ⟨fun hstopped => ?_, fun _ => ⟨hwhy, hrejected⟩⟩
    simp [hrunning] at hstopped

/-- No command is lost without being counted. Whenever one looks, between two steps or between two
turns of the worker, the inbox is within its bound, and every command that it accepted has been
handled or still stands in it, unless the worker has ended: then it has reported once, and the rest
is what it reported as rejected. A worker that ends because it was stopped rejects what stands in
the inbox at that moment; one that ends because no caller is left rejects nothing. In both cases it
reports as many entries as nodes are known after the updates that it served, in order. -/
theorem commands_are_conserved {hosted : Bool} {origin : Node} {config : Config} {s₀ s : Session}
    {events journal : List Event}
    (hstart : Session.start hosted origin config = .ok (s₀, events))
    (hreaches : s₀.Reaches journal s) (a : Step) :
    ∃ metric, config.check = .ok metric ∧
      let t := (s.step a).1
      let before := tally (events ++ journal)
      let after := before ++ tally (s.step a).2.2
      s.inbox.length ≤ config.inboxCapacity ∧
        (s.phase ≠ .finished →
          before.endings = [] ∧ before.accepted.length = before.handled + s.inbox.length) ∧
        (s.phase = .finished → s.inbox = [] ∧
          ∃ entries rejected, before.endings = [(entries, rejected)] ∧
            before.accepted.length = before.handled + rejected) ∧
        ∀ id entries rejected, .workerStopped id entries rejected ∈ (s.step a).2.2 →
          after.accepted.length = after.handled + rejected ∧
            ∃ served, after.handled = served.length ∧
              ((s.stopped = true ∨ a.isShutdown = true) →
                after.accepted = served ++ s.inbox.map (·.request) ∧
                  rejected = s.inbox.length) ∧
              (¬ (s.stopped = true ∨ a.isShutdown = true) →
                (s.released = true ∨ a = .release) ∧ after.accepted = served ∧ rejected = 0) ∧
              let updates := served.filterMap Peers.change?
              t.peers = (Peers.empty origin metric config).updateAll updates ∧
                entries = t.peers.table.entries.length ∧
                entries = (Known.after origin.id updates).keys.card := by
  obtain ⟨metric, hcheck, hcapacity, haccount₀⟩ := Session.account_start hstart
  refine ⟨metric, hcheck, ?_⟩
  intro t before after
  have htidy₀ := Session.tidy_start hstart
  have htidy := htidy₀.reaches hreaches
  have hcourse := htidy₀.course_reaches hreaches
  have haccount : Account (.empty origin metric config) before s.stock := by
    have hrun := haccount₀.course hcourse
    rwa [← tally_append] at hrun
  have hbooked : Booked s a (tally (s.step a).2.2) t.stock := htidy.booked_step a
  have hafter : Account (.empty origin metric config) after t.stock :=
    haccount.course hbooked.course
  refine ⟨?_, ?_, ?_, ?_⟩
  · have hwithin := haccount.within
    rwa [Session.length_queue, hcourse.capacity_eq, hcapacity] at hwithin
  · intro hphase
    have hopen : s.stock.ended = false := by simpa [Session.stock] using hphase
    have hunended := haccount.unended hopen
    rwa [Session.length_queue] at hunended
  · intro hphase
    have hended : s.stock.ended = true := by simpa [Session.stock] using hphase
    obtain ⟨hqueue, entries, rejected, hendings⟩ := haccount.ended hended
    obtain ⟨served, lost, haccepted, hhandled, -, -, hlost⟩ :=
      haccount.ending (hendings ▸ List.mem_singleton_self _)
    refine ⟨List.map_eq_nil_iff.mp hqueue, entries, rejected, hendings, ?_⟩
    rw [haccepted, hhandled, hlost, List.length_append]
  · intro id entries rejected hmem
    have hend : (entries, rejected) ∈ (tally (s.step a).2.2).endings :=
      List.mem_filterMap.mpr ⟨_, hmem, rfl⟩
    obtain ⟨hstopped, hleft⟩ := hbooked.ending hend
    obtain ⟨served, lost, haccepted, hhandled, hpeers, hentries, hlost⟩ :=
      hafter.ending (List.mem_append_right _ hend)
    have hcoherent := (Peers.updateAll_empty origin metric config
      (served.filterMap Peers.change?)).2
    refine ⟨?_, served, hhandled, ?_, ?_, hpeers, ?_, ?_⟩
    · rw [haccepted, hhandled, hlost, List.length_append]
    · intro hwhy
      obtain ⟨hnothing, hrejected⟩ := hstopped hwhy
      have hbefore : before.accepted = served ++ lost := by
        rw [← haccepted, show after = before ++ _ from rfl, Tally.append_def, hnothing,
          List.append_nil]
      have hlast := haccount.lost_eq_queue hbefore (hlost.symm.trans hrejected)
      refine ⟨?_, ?_⟩
      · rw [haccepted, hlast]
        rfl
      · rw [hrejected, Session.length_queue]
    · intro hrunning
      obtain ⟨hwhy, hnothing⟩ := hleft hrunning
      have hnone : lost = [] := List.length_eq_zero_iff.mp (hlost.symm.trans hnothing)
      refine ⟨hwhy, ?_, hnothing⟩
      rw [haccepted, hnone, List.append_nil]
    · rw [hentries, PrefixTable.size_eq_length]
      rfl
    · rw [hentries, ← hcoherent.stores.size_eq_card]
      exact congrArg _ (congrArg _ hpeers)

/-- An inbox for two commands holds a lookup whose caller has given up and an insertion, and one
more query waits in line. A shutdown that overtakes the worker behind the lookup discards the
insertion and the query, which has got into the inbox by then, and the table has one entry. If the
last handle is given up instead, all four commands are served, and the table has two entries. -/
theorem queue_discarded_or_served :
    let space : Keyspace.Space := { radix := .binary, length := 2 }
    let node := Node.sample space
    let started : List Event := [.workerStarted (node 0).id]
    let s₀ := sample space 2
    let busy : List Step := [.call (.request (.insert (node 3))), .stall,
      .call (.request (.get 0 0 0)), .pend (.request (.insert (node 1))), .pend (.request .stats)]
    let turn := ((s₀.run busy).1.turn?).getD (s₀, [])
    let stopped := turn.1.step (.call .shutdown)
    let discarded := stopped.1.step .resume
    let stoppedTally := tally (started ++ (journalOf (s₀.run busy).2 ++ turn.2 ++ stopped.2.2)) ++
      tally discarded.2.2
    let left := s₀.run (busy ++ [.release])
    let served := left.1.step .resume
    let leftTally := tally (started ++ journalOf left.2) ++ tally served.2.2
    start true (node 0) { space, inboxCapacity := 2 } = .ok (s₀, started) ∧
      (s₀.run busy).1.turn? = some turn ∧
      stopped.1.inbox.map (·.request) = [.insert (node 1), .stats] ∧
      discarded.2.2 = [.workerStopped (node 0).id 1 2] ∧
      stoppedTally.accepted.length = stoppedTally.handled + 2 ∧ stoppedTally.handled = 2 ∧
      discarded.1.peers = s₀.peers.updateAll [.insert (node 3)] ∧
      discarded.1.peers.table.entries.length = 1 ∧
      served.2.2.getLast? = some (.workerStopped (node 0).id 2 0) ∧
      leftTally.accepted.length = leftTally.handled ∧ leftTally.handled = 4 ∧
      served.1.peers = s₀.peers.updateAll [.insert (node 3), .insert (node 1)] ∧
      served.1.peers.table.entries.length = 2 := by
  intro space node started s₀ busy turn stopped discarded stoppedTally left served leftTally
  have hstart := start_sample space Nat.two_pos
  have hturn : (s₀.run busy).1.turn? = some turn := by
    have hcommand : ((s₀.run busy).1.turn?).isSome = true := by decide +kernel
    obtain ⟨t, ht⟩ := Option.isSome_iff_exists.mp hcommand
    rw [ht, show turn = t from congrArg (Option.getD · _) ht]
  have hbusy : s₀.Reaches _ (s₀.run busy).1 := Reaches.start.run busy
  have hstopped : s₀.Reaches _ stopped.1 :=
    (hbusy.turn (by decide +kernel) hturn).step (.call .shutdown)
  have hleft : s₀.Reaches _ left.1 := Reaches.start.run (busy ++ [.release])
  obtain ⟨metric, hcheck, -, -, -, hends⟩ := commands_are_conserved hstart hstopped .resume
  obtain ⟨metric', hcheck', -, -, -, hends'⟩ := commands_are_conserved hstart hleft .resume
  cases (check_sample space Nat.two_pos).symm.trans hcheck
  cases (check_sample space Nat.two_pos).symm.trans hcheck'
  have hend : discarded.2.2 = [.workerStopped (node 0).id 1 2] := by decide +kernel
  have hend' : served.2.2.getLast? = some (.workerStopped (node 0).id 2 0) := by decide +kernel
  have haccepted : stoppedTally.accepted = [.insert (node 3), .get 0 0 0] ++
      stopped.1.inbox.map (·.request) := by decide +kernel
  have haccepted' : leftTally.accepted =
      [.insert (node 3), .get 0 0 0, .insert (node 1), .stats] := by decide +kernel
  obtain ⟨hcount, first, hhandled, hqueue, -, hpeers, hentries, -⟩ :=
    hends _ _ _ (hend ▸ List.mem_singleton_self _)
  obtain ⟨hcount', all, hhandled', -, hall, hpeers', hentries', -⟩ :=
    hends' _ _ _ (List.mem_of_getLast? hend')
  have hfirst : [.insert (node 3), .get 0 0 0] = first :=
    List.append_cancel_right (haccepted.symm.trans (hqueue (Or.inl (by decide +kernel))).1)
  have hall : [.insert (node 3), .get 0 0 0, .insert (node 1), .stats] = all :=
    haccepted'.symm.trans (hall (by decide +kernel)).2.1
  subst hfirst hall
  exact ⟨hstart, hturn, by decide +kernel, hend, hcount, hhandled, hpeers, hentries.symm, hend',
    hcount', hhandled', hpeers', hentries'.symm⟩

end Overlay.Service
