import Mathlib
import Overlay.Proofs.Service.Running

/-!
The ledger of a run: the calls in the order in which they were started, with their outcomes. A call
that was only started has a ticket there until the worker resumes.
-/

namespace Overlay.Service

inductive Receipt where
  | answered (o : Outcome)
  /-- Under the ticket of that number. -/
  | ticket (number : Nat)

structure Entry where
  call : Call
  receipt : Receipt

namespace Entry

def isOpen (e : Entry) : Bool :=
  match e.receipt with
  | .answered _ => false
  | .ticket _ => true

/-- Exchanges a ticket for its outcome. -/
def collect (outcomes : List Outcome) (e : Entry) : Entry :=
  match e.receipt with
  | .answered _ => e
  | .ticket number =>
    match outcomes[number]? with
    | some o => { e with receipt := .answered o }
    | none => e

def outcome? (tickets : List Ticket) (e : Entry) : Option Outcome :=
  match e.receipt with
  | .answered o => some o
  | .ticket number =>
    match tickets[number]? with
    | some (.settled o) => some o
    | _ => none

/-- The update that a call asks for. Nobody inserts the origin into its own peers. -/
def update? (origin : Node) (e : Entry) : Option Update :=
  match e.call with
  | .request (.insert n) => if n.id = origin.id then none else some (.insert n)
  | .request (.evict id) => some (.evict id)
  | _ => none

def accepted? (origin : Node) (tickets : List Ticket) (e : Entry) : Option Update :=
  match e.outcome? tickets with
  | some (.ok _) => e.update? origin
  | _ => none

/-- The update, unless it was answered with an error. -/
def prospect? (origin : Node) (tickets : List Ticket) (e : Entry) : Option Update :=
  match e.outcome? tickets with
  | some (.error _) => none
  | _ => e.update? origin

end Entry

/-- Records a step and its answer. Tickets are numbered by their place, and a resumption hands out
the outcomes of all of them. -/
def record (entries : List Entry) : Step → Answer → List Entry
  | .call c, .outcome o => entries ++ [⟨c, .answered o⟩]
  | .pend c, .done => entries ++ [⟨c, .ticket (entries.countP (·.isOpen))⟩]
  | .resume, .outcomes os => entries.map (·.collect os)
  | _, _ => entries

def recordAll (entries : List Entry) : List Step → List (Answer × List Event) → List Entry
  | a :: steps, (answer, _) :: answers => recordAll (record entries a answer) steps answers
  | _, _ => entries

/-- The updates that were answered `ok`, in the order in which they were started. -/
def accepted (entries : List Entry) (s : Session) : List Update :=
  entries.filterMap (·.accepted? s.origin s.tickets)

def prospects (entries : List Entry) (s : Session) : List Update :=
  entries.filterMap (·.prospect? s.origin s.tickets)

/-- Every open entry has its ticket, and one that still waits waits for the call of the entry. -/
structure Ticketed (entries : List Entry) (tickets : List Ticket) : Prop where
  count_open : entries.countP (·.isOpen) = tickets.length
  find : ∀ e ∈ entries, ∀ i, e.receipt = .ticket i →
    ∃ t, tickets[i]? = some t ∧ ∀ r, t = .waiting r → e.call = .request r

namespace Entry

variable {e : Entry} {origin : Node} {tickets : List Ticket}

theorem update?_of_own {s : Session} {r : Request} (receipt : Receipt) (hown : s.isOwn r = true) :
    update? s.origin ⟨.request r, receipt⟩ = none := by
  cases r with
  | insert n => simpa [Session.isOwn, update?] using hown
  | _ => cases hown

theorem update?_of_sent {s : Session} {r : Request} (receipt : Receipt)
    (hown : s.isOwn r = false) :
    update? s.origin ⟨.request r, receipt⟩ = Peers.change? r := by
  cases r with
  | insert n => simpa [Session.isOwn, update?, Peers.change?] using hown
  | _ => rfl

theorem update?_of_query {r : Request} (hcall : e.call = .request r)
    (hquery : r.isUpdate = false) : e.update? origin = none := by
  rw [update?, hcall]
  cases r with
  | insert n => cases hquery
  | evict id => cases hquery
  | _ => rfl

/-- A request that is neither refused nor dropped counts if it is an update, which is always
answered `ok`. -/
theorem accepted?_of_sent {s : Session} {r : Request} {o : Outcome} (hown : s.isOwn r = false)
    (hok : r.isUpdate = true → o = .ok .done) :
    accepted? s.origin tickets ⟨.request r, .answered o⟩ = Peers.change? r := by
  cases hupdate : r.isUpdate with
  | true =>
    rw [hok hupdate]
    exact update?_of_sent _ hown
  | false =>
    rw [accepted?, Peers.change?_query hupdate]
    split
    · exact update?_of_query rfl hupdate
    · rfl

/-- A ticket that was there keeps its place when another one is added. -/
theorem outcome?_concat (hticket : ∀ i, e.receipt = .ticket i → ∃ t, tickets[i]? = some t)
    (u : Ticket) : e.outcome? (tickets ++ [u]) = e.outcome? tickets := by
  obtain ⟨c, receipt⟩ := e
  cases receipt with
  | answered o => rfl
  | ticket i =>
    obtain ⟨t, ht⟩ := hticket i rfl
    have hconcat : (tickets ++ [u])[i]? = some t := Session.getElem?_concat_iff.mpr (Or.inl ht)
    simp only [outcome?, ht, hconcat]

/-- What an entry with the last ticket counts for. -/
theorem accepted?_last (origin : Node) (tickets : List Ticket) (c : Call) (u : Ticket) :
    accepted? origin (tickets ++ [u]) ⟨c, .ticket tickets.length⟩ =
        (match u with
        | .settled o => accepted? origin tickets ⟨c, .answered o⟩
        | .waiting _ => none) ∧
      prospect? origin (tickets ++ [u]) ⟨c, .ticket tickets.length⟩ =
        (match u with
        | .settled o => prospect? origin tickets ⟨c, .answered o⟩
        | .waiting _ => update? origin ⟨c, .ticket tickets.length⟩) := by
  simp only [accepted?, prospect?, outcome?, List.getElem?_concat_length]
  cases u with
  | waiting r => exact ⟨rfl, rfl⟩
  | settled o => exact ⟨rfl, rfl⟩

/-- Once the deadline has passed, what is not accepted yet never will be. -/
theorem accepted?_expire (hticket : ∀ i, e.receipt = .ticket i → ∃ t, tickets[i]? = some t)
    (limit : Number.Duration) :
    e.accepted? origin (tickets.map (Ticket.expire limit)) = e.accepted? origin tickets ∧
      e.prospect? origin (tickets.map (Ticket.expire limit)) = e.accepted? origin tickets := by
  obtain ⟨c, receipt⟩ := e
  cases receipt with
  | answered o => cases o <;> exact ⟨rfl, rfl⟩
  | ticket i =>
    obtain ⟨t, ht⟩ := hticket i rfl
    simp only [accepted?, prospect?, outcome?, List.getElem?_map, ht, Option.map_some]
    cases t with
    | waiting r => exact ⟨rfl, rfl⟩
    | settled o => cases o <;> exact ⟨rfl, rfl⟩

/-- A resumption decides every open entry, and accepts the updates among those that still waited. -/
theorem accepted?_collect {s : Session} (hs : s.Running)
    (hticket : ∀ i, e.receipt = .ticket i →
      ∃ t, s.tickets[i]? = some t ∧ ∀ r, t = .waiting r → e.call = .request r) :
    (e.collect s.resume.2.1).isOpen = false ∧
      (e.collect s.resume.2.1).accepted? origin [] = e.prospect? origin s.tickets ∧
      (e.collect s.resume.2.1).prospect? origin [] = e.prospect? origin s.tickets := by
  obtain ⟨c, receipt⟩ := e
  cases receipt with
  | answered o => cases o <;> exact ⟨rfl, rfl, rfl⟩
  | ticket i =>
    obtain ⟨t, ht, hcall⟩ := hticket i rfl
    obtain ⟨o, ho, hserved⟩ := hs.resume_ticket ht
    have hcollect : collect s.resume.2.1 ⟨c, .ticket i⟩ = ⟨c, .answered o⟩ := by
      simp only [collect, ho]
    rw [hcollect]
    refine ⟨rfl, ?_⟩
    cases t with
    | settled earlier =>
      rw [hserved]
      simp only [accepted?, prospect?, outcome?, ht]
      cases earlier <;> exact ⟨rfl, rfl⟩
    | waiting r =>
      obtain ⟨q, rfl⟩ := hserved
      have hprospect : prospect? origin s.tickets ⟨c, .ticket i⟩ =
          update? origin ⟨c, .ticket i⟩ := by
        simp only [prospect?, outcome?, ht]
      rw [hprospect]
      cases hupdate : r.isUpdate with
      | true =>
        rw [Peers.answer_update q hupdate]
        exact ⟨rfl, rfl⟩
      | false =>
        have hnone (receipt : Receipt) : update? origin ⟨c, receipt⟩ = none :=
          update?_of_query (hcall r rfl) hupdate
        rw [hnone]
        simp only [accepted?, prospect?, outcome?]
        cases q.answer r <;> simp only [hnone, and_self]

end Entry

section Ticketed

variable {entries : List Entry} {tickets : List Ticket}

theorem Ticketed.exists (h : Ticketed entries tickets) :
    ∀ e ∈ entries, ∀ i, e.receipt = .ticket i → ∃ t, tickets[i]? = some t := by
  intro e he i hi
  obtain ⟨t, ht, -⟩ := h.find e he i hi
  exact ⟨t, ht⟩

/-- An answered call needs no ticket. -/
theorem ticketed_answered_iff {c : Call} {o : Outcome} :
    Ticketed (entries ++ [⟨c, .answered o⟩]) tickets ↔ Ticketed entries tickets := by
  have hcount : List.countP Entry.isOpen (entries ++ [⟨c, .answered o⟩]) =
      List.countP Entry.isOpen entries := by
    rw [List.countP_append]
    rfl
  constructor
  · intro h
    exact ⟨hcount ▸ h.count_open, fun e he => h.find e (List.mem_append_left _ he)⟩
  · intro h
    refine ⟨hcount ▸ h.count_open, ?_⟩
    intro e he i hi
    rcases List.mem_append.mp he with he | he
    · exact h.find e he i hi
    · rw [List.mem_singleton.mp he] at hi
      cases hi

/-- The ticket of a call that is started is the last one. -/
theorem Ticketed.issue (h : Ticketed entries tickets) {c : Call} {u : Ticket}
    (hcall : ∀ r, u = .waiting r → c = .request r) :
    Ticketed (entries ++ [⟨c, .ticket tickets.length⟩]) (tickets ++ [u]) := by
  constructor
  · rw [List.countP_append, h.count_open, List.length_append]
    rfl
  · intro e he i hi
    rcases List.mem_append.mp he with he | he
    · obtain ⟨t, ht, hrequest⟩ := h.find e he i hi
      exact ⟨t, Session.getElem?_concat_iff.mpr (Or.inl ht), hrequest⟩
    · rw [List.mem_singleton.mp he] at hi ⊢
      cases hi
      exact ⟨u, Session.getElem?_concat_iff.mpr (Or.inr ⟨rfl, rfl⟩), hcall⟩

theorem Ticketed.expire (h : Ticketed entries tickets) (limit : Number.Duration) :
    Ticketed entries (tickets.map (Ticket.expire limit)) := by
  constructor
  · rw [h.count_open, List.length_map]
  · intro e he i hi
    obtain ⟨t, ht, -⟩ := h.find e he i hi
    refine ⟨t.expire limit, by rw [List.getElem?_map, ht]; rfl, ?_⟩
    intro r hr
    cases t <;> cases hr

end Ticketed

end Overlay.Service
