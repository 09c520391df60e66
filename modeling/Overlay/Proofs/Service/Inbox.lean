import Mathlib
import Overlay.Proofs.Service.Tidy

/-!
What becomes of the commands in the inbox. A journal is reduced to a tally of what was accepted, how
much was handled and what the worker reported when it ended, and a session to the queue that the
tally is about. Whatever a step does to this queue is then a course of single moves: a command is
accepted into free room, the first one is handled, or the worker ends and discards the rest. The
tally balances after every move.
-/

namespace Overlay.Service

def Event.accepted? : Event → Option Request
  | .accepted r => some r
  | _ => none

/-- What the end of a worker reports: the entries of the table and the commands discarded. -/
def Event.ending? : Event → Option (Nat × Nat)
  | .workerStopped _ entries rejected => some (entries, rejected)
  | _ => none

structure Tally where
  /-- The requests that the inbox accepted, in order. -/
  accepted : List Request
  /-- The number of commands that the worker handled. -/
  handled : Nat
  endings : List (Nat × Nat)

namespace Tally

def nothing : Tally := ⟨[], 0, []⟩

instance : Append Tally where
  append j k := ⟨j.accepted ++ k.accepted, j.handled + k.handled, j.endings ++ k.endings⟩

theorem append_def (j k : Tally) :
    j ++ k = ⟨j.accepted ++ k.accepted, j.handled + k.handled, j.endings ++ k.endings⟩ := rfl

theorem append_nothing (k : Tally) : k ++ nothing = k := by
  simp [append_def, nothing]

theorem nothing_append (k : Tally) : nothing ++ k = k := by
  simp [append_def, nothing]

theorem append_assoc (i j k : Tally) : i ++ j ++ k = i ++ (j ++ k) := by
  simp [append_def, Nat.add_assoc]

end Tally

def tally (journal : List Event) : Tally :=
  ⟨journal.filterMap Event.accepted?, journal.countP Event.isHandling,
    journal.filterMap Event.ending?⟩

theorem tally_append (journal later : List Event) :
    tally (journal ++ later) = tally journal ++ tally later := by
  simp [tally, Tally.append_def]

/-- Events that say nothing about the inbox. -/
theorem tally_eq_nothing {journal : List Event}
    (h : ∀ e ∈ journal, tally [e] = .nothing) : tally journal = .nothing := by
  induction journal with
  | nil => rfl
  | cons e journal ih =>
    have hrest := ih fun e' he' => h e' (List.mem_cons_of_mem e he')
    rw [← List.singleton_append, tally_append, h e List.mem_cons_self, hrest]
    rfl

theorem tally_handling (p : Peers) (waiting : Bool) (r : Request) :
    tally [Event.handling p waiting r] = ⟨[], 1, []⟩ := by
  cases r with
  | get row column entry => cases waiting <;> rfl
  | _ => rfl

theorem tally_givingUp (limit : Number.Duration) (r : Request) :
    tally [Event.givingUp limit r] = .nothing := by
  cases r <;> rfl

structure Stock where
  capacity : Nat
  peers : Peers
  queue : List Request
  ended : Bool

def Session.stock (s : Session) : Stock :=
  { capacity := s.capacity, peers := s.peers, queue := s.inbox.map (·.request),
    ended := decide (s.phase = .finished) }

inductive Move (s : Stock) : Tally → Stock → Prop where
  | accept (r : Request) (hopen : s.ended = false) (hroom : s.queue.length < s.capacity) :
    Move s ⟨[r], 0, []⟩ { s with queue := s.queue ++ [r] }
  | handle {r : Request} {rest : List Request} (hopen : s.ended = false)
      (hqueue : s.queue = r :: rest) :
    Move s ⟨[], 1, []⟩ { s with queue := rest, peers := s.peers.apply r }
  | finish (hopen : s.ended = false) :
    Move s ⟨[], 0, [(s.peers.table.size, s.queue.length)]⟩ { s with queue := [], ended := true }

/-- Moves one after the other, with their tally. -/
inductive Course : Stock → Tally → Stock → Prop where
  | refl (s : Stock) : Course s .nothing s
  | move {s t u : Stock} {j k : Tally} (hcourse : Course s j t) (hmove : Move t k u) :
    Course s (j ++ k) u

theorem Course.trans {s t u : Stock} {j k : Tally} (h : Course s j t) (h' : Course t k u) :
    Course s (j ++ k) u := by
  induction h' with
  | refl =>
    rw [Tally.append_nothing]
    exact h
  | move hcourse hmove ih =>
    rw [← Tally.append_assoc]
    exact ih.move hmove

theorem Course.single {s t : Stock} {k : Tally} (hmove : Move s k t) : Course s k t := by
  have hcourse := (Course.refl s).move hmove
  rwa [Tally.nothing_append] at hcourse

theorem Course.capacity_eq {s t : Stock} {k : Tally} (h : Course s k t) :
    t.capacity = s.capacity := by
  induction h with
  | refl => rfl
  | move _ hmove ih =>
    rw [← ih]
    cases hmove <;> rfl

/-- The tally balances: every request that was accepted has been served, or was discarded when the
worker ended, or still stands in the queue, in this order. -/
structure Account (base : Peers) (k : Tally) (s : Stock) : Prop where
  within : s.queue.length ≤ s.capacity
  balance : ∃ served lost, k.accepted = served ++ lost ++ s.queue ∧ k.handled = served.length ∧
    s.peers = base.updateAll (served.filterMap Peers.change?) ∧
      (s.ended = false ∧ lost = [] ∧ k.endings = [] ∨
        s.ended = true ∧ s.queue = [] ∧ k.endings = [(s.peers.table.size, lost.length)])

theorem Account.move {base : Peers} {j k : Tally} {s t : Stock} (h : Account base j s)
    (hmove : Move s k t) : Account base (j ++ k) t := by
  obtain ⟨hwithin, served, lost, haccepted, hhandled, hpeers, hend⟩ := h
  -- After its end a worker makes no move.
  obtain ⟨hopen, hlost, hendings⟩ : s.ended = false ∧ lost = [] ∧ j.endings = [] := by
    rcases hend with hrunning | ⟨hended, -, -⟩
    · exact hrunning
    · cases hmove <;> simp_all
  subst hlost
  rw [List.append_nil] at haccepted
  cases hmove with
  | accept r _ hroom =>
    refine ⟨?_, served, [], ?_, hhandled, hpeers, Or.inl ⟨hopen, rfl, ?_⟩⟩
    · simpa using hroom
    · simp [Tally.append_def, haccepted]
    · simp [Tally.append_def, hendings]
  | @handle r rest _ hqueue =>
    rw [hqueue] at haccepted hwithin
    refine ⟨?_, served ++ [r], [], ?_, ?_, ?_, Or.inl ⟨hopen, rfl, ?_⟩⟩
    · exact Nat.le_of_succ_le hwithin
    · simp [Tally.append_def, haccepted]
    · simp [Tally.append_def, hhandled]
    · rw [List.filterMap_append, Peers.updateAll_append, ← hpeers, Peers.apply_eq]
      cases r <;> rfl
    · simp [Tally.append_def, hendings]
  | finish _ =>
    refine ⟨Nat.zero_le _, served, s.queue, ?_, hhandled, hpeers, Or.inr ⟨rfl, rfl, ?_⟩⟩
    · simp [Tally.append_def, haccepted]
    · simp [Tally.append_def, hendings]

theorem Account.course {base : Peers} {j k : Tally} {s t : Stock} (h : Account base j s)
    (hcourse : Course s k t) : Account base (j ++ k) t := by
  induction hcourse with
  | refl =>
    rw [Tally.append_nothing]
    exact h
  | move _ hmove ih =>
    rw [← Tally.append_assoc]
    exact ih.move hmove

/-- What still stands in the queue is what was accepted last. -/
theorem Account.queue_suffix {base : Peers} {k : Tally} {s : Stock} (h : Account base k s) :
    s.queue <:+ k.accepted := by
  obtain ⟨-, served, lost, haccepted, -⟩ := h
  exact ⟨served ++ lost, haccepted.symm⟩

/-- What the worker has left unserved in the end is what stood in the queue, if it is as much. -/
theorem Account.lost_eq_queue {base : Peers} {k : Tally} {s : Stock} (h : Account base k s)
    {served lost : List Request} (haccepted : k.accepted = served ++ lost)
    (hlength : lost.length = s.queue.length) : lost = s.queue := by
  have hsuffix : lost <:+ k.accepted := ⟨served, haccepted.symm⟩
  have hinner := List.suffix_of_suffix_length_le hsuffix h.queue_suffix hlength.le
  exact hinner.eq_of_length hlength

/-- Until the worker ends it owes an answer to what stands in the queue, and to nothing else. -/
theorem Account.unended {base : Peers} {k : Tally} {s : Stock} (h : Account base k s)
    (hopen : s.ended = false) :
    k.endings = [] ∧ k.accepted.length = k.handled + s.queue.length := by
  obtain ⟨-, served, lost, haccepted, hhandled, -, hend⟩ := h
  rcases hend with ⟨-, rfl, hendings⟩ | ⟨hended, -⟩
  · refine ⟨hendings, ?_⟩
    rw [haccepted, hhandled, List.append_nil, List.length_append]
  · rw [hopen] at hended
    cases hended

theorem Account.ended {base : Peers} {k : Tally} {s : Stock} (h : Account base k s)
    (hended : s.ended = true) :
    s.queue = [] ∧ ∃ entries rejected, k.endings = [(entries, rejected)] := by
  obtain ⟨-, _, lost, -, -, -, ⟨hopen, -⟩ | ⟨-, hqueue, hendings⟩⟩ := h
  · rw [hopen] at hended
    cases hended
  · exact ⟨hqueue, _, _, hendings⟩

/-- After its end a worker has reported how many of the requests it has not served. -/
theorem Account.ending {base : Peers} {k : Tally} {s : Stock} {entries rejected : Nat}
    (h : Account base k s) (hend : (entries, rejected) ∈ k.endings) :
    ∃ served lost, k.accepted = served ++ lost ∧ k.handled = served.length ∧
      s.peers = base.updateAll (served.filterMap Peers.change?) ∧
      entries = s.peers.table.size ∧ rejected = lost.length := by
  obtain ⟨-, served, lost, haccepted, hhandled, hpeers, hopen | ⟨-, hqueue, hendings⟩⟩ := h
  · rw [hopen.2.2] at hend
    cases hend
  · rw [hendings, List.mem_singleton, Prod.mk.injEq] at hend
    rw [hqueue, List.append_nil] at haccepted
    exact ⟨served, lost, haccepted, hhandled, hpeers, hend.1, hend.2⟩

end Overlay.Service
