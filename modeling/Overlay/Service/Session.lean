import Overlay.Service.Event

/-!
A routing service as a machine on a virtual clock. One worker owns the peers of a node and serves
commands from a bounded inbox in the order in which they were accepted. Callers that find the inbox
full wait in line for room, those of queries wait for the answer, and no one waits longer than the
deadline. A caller may also start a call and leave; its outcome is kept under a ticket until the
worker resumes.

The worker handles one command after the other and looks before each of them whether the service has
been stopped. Unless it is stalled it has nothing left to handle before the next step is taken. Time
passes only while a stalled worker keeps a direct call waiting: then that call reaches its deadline,
and with it every call that was already waiting. A command whose caller gave up stays in the inbox;
a call still waiting for room leaves the line and never becomes a command.
-/

namespace Overlay.Service

open Number (Duration)

inductive Phase where
  | active
  | stalled
  /-- The worker has ended and will not run again. -/
  | finished
  deriving DecidableEq

/-- A command in the inbox, with the number of the ticket that waits for its answer, if one does. -/
structure Command where
  request : Request
  ticket : Option Nat
  deriving DecidableEq

structure InLine where
  request : Request
  ticket : Nat
  deriving DecidableEq

def Request.timedOut (r : Request) (limit : Duration) : Outcome := .error (.timeout r.action limit)

/-- What became of a call that was started without waiting for its outcome. -/
inductive Ticket where
  | waiting (request : Request)
  | settled (outcome : Outcome)

namespace Ticket

def request? : Ticket → Option Request
  | .waiting r => some r
  | .settled _ => none

def settle (outcome : Outcome) : Ticket → Ticket
  | .waiting _ => .settled outcome
  | .settled earlier => .settled earlier

def expire (limit : Duration) : Ticket → Ticket
  | .waiting r => .settled (r.timedOut limit)
  | .settled earlier => .settled earlier

def outcome? : Ticket → Option Outcome
  | .waiting _ => none
  | .settled outcome => some outcome

end Ticket

structure Session where
  origin : Node
  /-- Bound on the length of the inbox. -/
  capacity : Nat
  /-- How long a caller waits. -/
  limit : Duration
  peers : Peers
  phase : Phase := .active
  /-- True from shutdown on; no request is accepted any more. -/
  stopped : Bool := false
  /-- True once no caller is left who could make a call. -/
  released : Bool := false
  inbox : List Command := []
  line : List InLine := []
  /-- Calls started since the worker last resumed, in order; a ticket is numbered by its place. -/
  tickets : List Ticket := []

/-- A step of a session: something a caller does, or something that is done to the worker. -/
inductive Step where
  | call (c : Call)
  /-- Starts a call and leaves its outcome to be collected. -/
  | pend (c : Call)
  | stall
  /-- Lets the worker run again and collects the outcomes of all calls that were only started. -/
  | resume
  | release
  deriving DecidableEq

def Step.needsHandle : Step → Bool
  | .call _ | .pend _ => true
  | .stall | .resume | .release => false

inductive Answer where
  | done
  | outcome (o : Outcome)
  | outcomes (os : List Outcome)
  /-- There is no handle left to call through. -/
  | released

namespace Session

def noReactor : String :=
  "there is no reactor running, must be called from the context of a Tokio 1.x runtime"

/-- Starts a service. A missing runtime is reported before the configuration, and that before the
space of the origin. -/
def start (hosted : Bool) (origin : Node) (config : Config) :
    Except Error (Session × List Event) := do
  if !hosted then throw (.noRuntime noReactor)
  let metric ← config.check
  if origin.id.space ≠ config.space then
    throw (.config (.originSpace origin.id.space config.space))
  return ({ origin, capacity := config.inboxCapacity, limit := config.timeout,
            peers := .empty origin metric config },
          [.workerStarted origin.id])

def status (s : Session) : Status := { origin := s.origin, stopped := s.stopped }

def foreign? (s : Session) (id : Keyspace.Id) : Option Error :=
  if id.space = s.origin.id.space then none
  else some (.id (.otherSpace s.origin.id.space id.space))

def stopped? (s : Session) : Option Error := if s.stopped then some .stopped else none

/-- Why a request is refused at once, if it is. Of two reasons a stopped service comes first, except
for the question who is responsible. -/
def refusal? (s : Session) : Request → Option Error
  | .insert n => s.stopped? <|> s.foreign? n.id
  | .evict id => s.stopped? <|> s.foreign? id
  | .covers key => s.foreign? key <|> s.stopped?
  | _ => s.stopped?

/-- True of the insertion of the origin itself, which is dropped without being sent. -/
def isOwn (s : Session) : Request → Bool
  | .insert n => n.id = s.origin.id
  | _ => false

def immediate? (s : Session) (r : Request) : Option (Outcome × List Event) :=
  match s.refusal? r with
  | some e => some (.error e, [])
  | none => if s.isOwn r then some (.ok .done, [.ownIdDropped s.origin.id]) else none

def hasRoom (s : Session) : Bool := s.inbox.length < s.capacity

def enqueue (s : Session) (r : Request) (ticket : Option Nat) : Session :=
  { s with inbox := s.inbox ++ [⟨r, ticket⟩] }

def lineUp (s : Session) (r : Request) (ticket : Nat) : Session :=
  { s with line := s.line ++ [⟨r, ticket⟩] }

def serve (s : Session) (r : Request) (waiting : Bool) : Session × Outcome × Event :=
  ({ s with peers := s.peers.apply r }, s.peers.answer r, .handling s.peers waiting r)

def expire (s : Session) : Session × List Event :=
  ({ s with
      inbox := s.inbox.map fun c => { c with ticket := none }
      line := []
      tickets := s.tickets.map (Ticket.expire s.limit) },
    (s.tickets.filterMap Ticket.request?).map (.givingUp s.limit))

/-- A direct request to a worker that does not run. An update that finds room is accepted;
everything else waits until the deadline. -/
def askStalled (s : Session) (r : Request) : Session × Outcome × List Event :=
  if s.hasRoom && r.isUpdate then (s.enqueue r none, .ok .done, [.accepted r])
  else
    let (sent, events) := if s.hasRoom then (s.enqueue r none, [.accepted r]) else (s, [])
    let (s, expired) := sent.expire
    (s, r.timedOut s.limit, events ++ .givingUp s.limit r :: expired)

def ask (s : Session) (r : Request) : Session × Outcome × List Event :=
  match s.immediate? r with
  | some (outcome, events) => (s, outcome, events)
  | none =>
    if s.phase = .active then
      let (s, outcome, event) := s.serve r true
      (s, outcome, [.accepted r, event])
    else s.askStalled r

def admitted (l : InLine) : Command := { request := l.request, ticket := some l.ticket }

/-- All commands that the worker would find one after the other, those in the inbox first. -/
def commands (s : Session) : List Command := s.inbox ++ s.line.map admitted

def settle (tickets : List Ticket) (outcome : Outcome) (c : Command) : List Ticket :=
  match c.ticket with
  | some number => tickets.modify number (Ticket.settle outcome)
  | none => tickets

/-- Ends the worker. The inbox is discarded and nothing is accepted from the line; whoever waits for
one of these commands is told that the service has stopped. -/
def finish (s : Session) : Session × List Event :=
  ({ s with
      phase := .finished, stopped := true, inbox := [], line := []
      tickets := s.commands.foldl (settle · (.error .stopped)) s.tickets },
    [.workerStopped s.origin.id s.peers.table.size s.inbox.length])

def handle (s : Session) (c : Command) : Session × Event :=
  let (s, outcome, event) := s.serve c.request c.ticket.isSome
  ({ s with tickets := settle s.tickets outcome c }, event)

/-- Gives room that has become free to the first request in line. -/
def advance (s : Session) : Session × List Event :=
  match s.line with
  | [] => (s, [])
  | l :: line => ({ s with inbox := s.inbox ++ [admitted l], line }, [.accepted l.request])

/-- One turn of the worker, if there is a command for it. -/
def turn? (s : Session) : Option (Session × List Event) :=
  match s.inbox with
  | [] => none
  | c :: inbox =>
    let (s, event) := { s with inbox }.handle c
    let (s, admissions) := s.advance
    some (s, event :: admissions)

theorem commands_advance (s : Session) : s.advance.1.commands = s.commands := by
  cases hline : s.line <;> simp [advance, commands, hline]

/-- A turn takes the first command away and brings none that was not there before. -/
theorem commands_turn? {s t : Session} {events : List Event} (h : s.turn? = some (t, events)) :
    ∃ c, s.commands = c :: t.commands := by
  cases hinbox : s.inbox with
  | nil => simp [turn?, hinbox] at h
  | cons c inbox =>
    have ht : t = ({ s with inbox }.handle c).1.advance.1 := by
      simp only [turn?, hinbox, Option.some.injEq, Prod.mk.injEq] at h
      exact h.1.symm
    refine ⟨c, ?_⟩
    rw [ht, commands_advance, commands, hinbox]
    rfl

/-- Lets the worker run. Before each command it looks whether the service has been stopped. When
nothing is left to handle, it waits for more or, if no caller is left, ends. -/
def work (s : Session) : Session × List Event :=
  if s.stopped then s.finish
  else
    match _hturn : s.turn? with
    | some (t, events) =>
      let (u, later) := t.work
      (u, events ++ later)
    | none => if s.released then s.finish else ({ s with phase := .active }, [])
  termination_by s.commands.length
  decreasing_by
    obtain ⟨c, hcommands⟩ := commands_turn? _hturn
    rw [hcommands]
    exact Nat.lt_succ_self _

/-- Stops the service. A worker that is running notices at once, a stalled one when it runs
again. -/
def shutdown (s : Session) : Session × List Event :=
  if s.stopped then (s, [])
  else
    let stopping := { s with stopped := true }
    let notice := .shuttingDown s.origin.id
    if s.phase = .active then
      let (s, events) := stopping.work
      (s, notice :: events)
    else (stopping, [notice])

def call (s : Session) : Call → Session × Outcome × List Event
  | .request r => s.ask r
  | .shutdown =>
    let (s, events) := s.shutdown
    (s, .ok .done, events)
  | .status => (s, .ok (.status s.status), [])

def issue (s : Session) (t : Ticket) : Session := { s with tickets := s.tickets ++ [t] }

/-- Starts a request to a worker that does not run. It is sent if there is room and takes its place
in line otherwise; an update that is sent needs no further waiting. -/
def pendStalled (s : Session) (r : Request) : Session × List Event :=
  let number := s.tickets.length
  if s.hasRoom then
    let s := if r.isUpdate then (s.enqueue r none).issue (.settled (.ok .done))
      else (s.enqueue r (some number)).issue (.waiting r)
    (s, [.accepted r])
  else ((s.lineUp r number).issue (.waiting r), [])

def pendSettled (s : Session) (c : Call) : Session × List Event :=
  let (s, outcome, events) := s.call c
  (s.issue (.settled outcome), events)

/-- Starts a call. Only requests that a worker which does not run has to serve are left waiting. -/
def pend (s : Session) : Call → Session × List Event
  | .request r =>
    if (s.immediate? r).isNone && s.phase ≠ .active then s.pendStalled r
    else s.pendSettled (.request r)
  | c => s.pendSettled c

def wake (s : Session) : Session × List Event := if s.phase = .stalled then s.work else (s, [])

def resume (s : Session) : Session × List Outcome × List Event :=
  let (s, events) := s.wake
  ({ s with tickets := [] }, s.tickets.filterMap Ticket.outcome?, events)

/-- Gives up every handle. A worker that is running has nothing left to wait for. -/
def release (s : Session) : Session × List Event :=
  let s := { s with released := true }
  if s.phase = .active then s.work else (s, [])

/-- Keeps the worker from running; one that has ended cannot be stalled. -/
def stall (s : Session) : Session :=
  if s.phase = .active then { s with phase := .stalled } else s

def step (s : Session) (a : Step) : Session × Answer × List Event :=
  if s.released && a.needsHandle then (s, .released, [])
  else
    match a with
    | .call c =>
      let (s, outcome, events) := s.call c
      (s, .outcome outcome, events)
    | .pend c =>
      let (s, events) := s.pend c
      (s, .done, events)
    | .stall => (s.stall, .done, [])
    | .resume =>
      let (s, outcomes, events) := s.resume
      (s, .outcomes outcomes, events)
    | .release =>
      let (s, events) := s.release
      (s, .done, events)

def run (s : Session) : List Step → Session × List (Answer × List Event)
  | [] => (s, [])
  | a :: rest =>
    let (s, answer, events) := s.step a
    let (s, later) := s.run rest
    (s, (answer, events) :: later)

end Session

end Overlay.Service
