import Mathlib
import Overlay.Service.Session
import Overlay.Proofs.Service.Request

/-!
How the callers who wait are told their outcomes. Commands are answered one after the other, by
being served or by being discarded, and each answer settles the ticket of its command. A ticket that
has an outcome keeps it.
-/

namespace Overlay.Service.Session

/-- The tickets after commands were answered one by one. -/
def settleAll (tickets : List Ticket) (answers : List (Command × Outcome)) : List Ticket :=
  answers.foldl (fun tickets a => settle tickets a.2 a.1) tickets

/-- Commands with the answers that they get if they are served one by one. -/
def answersTo (p : Peers) : List Command → List (Command × Outcome)
  | [] => []
  | c :: cs => (c, p.answer c.request) :: answersTo (p.apply c.request) cs

def discarded (cs : List Command) : List (Command × Outcome) := cs.map (·, .error .stopped)

theorem finish_eq (s : Session) :
    s.finish.1 =
      { s with phase := .finished, stopped := true, inbox := [], line := []
               tickets := settleAll s.tickets (discarded s.commands) } := by
  rw [finish, settleAll, discarded, List.foldl_map]

theorem mem_answersTo {p : Peers} {cs : List Command} {a : Command × Outcome}
    (ha : a ∈ answersTo p cs) : a.1 ∈ cs ∧ ∃ q : Peers, a.2 = q.answer a.1.request := by
  induction cs generalizing p with
  | nil => cases ha
  | cons c cs ih =>
    rcases List.mem_cons.mp ha with rfl | ha
    · exact ⟨List.mem_cons_self, p, rfl⟩
    · obtain ⟨hmem, hanswer⟩ := ih ha
      exact ⟨List.mem_cons_of_mem _ hmem, hanswer⟩

theorem map_fst_answersTo (p : Peers) (cs : List Command) : (answersTo p cs).map (·.1) = cs := by
  induction cs generalizing p with
  | nil => rfl
  | cons c cs ih => rw [answersTo, List.map_cons, ih]

theorem map_fst_discarded (cs : List Command) : (discarded cs).map (·.1) = cs := by
  simp [discarded, Function.comp_def]

theorem answersTo_append (p : Peers) (cs later : List Command) :
    answersTo p (cs ++ later) =
      answersTo p cs ++ answersTo (p.applyAll (cs.map (·.request))) later := by
  induction cs generalizing p with
  | nil => rfl
  | cons c cs ih =>
    rw [List.cons_append, answersTo, ih]
    rfl

variable {tickets : List Ticket} {answers : List (Command × Outcome)} {i : Nat}

theorem settleAll_append (tickets : List Ticket) (answers later : List (Command × Outcome)) :
    settleAll tickets (answers ++ later) = settleAll (settleAll tickets answers) later :=
  List.foldl_append

theorem length_settle (tickets : List Ticket) (o : Outcome) (c : Command) :
    (settle tickets o c).length = tickets.length := by
  rw [settle]
  split
  · exact List.length_modify _ _ _
  · rfl

theorem length_settleAll (tickets : List Ticket) (answers : List (Command × Outcome)) :
    (settleAll tickets answers).length = tickets.length := by
  induction answers generalizing tickets with
  | nil => rfl
  | cons a answers ih => exact (ih _).trans (length_settle _ _ _)

theorem getElem?_settle (tickets : List Ticket) (o : Outcome) (c : Command) (i : Nat) :
    (settle tickets o c)[i]? =
      if c.ticket = some i then tickets[i]?.map (Ticket.settle o) else tickets[i]? := by
  rw [settle]
  split
  case h_1 number hticket =>
    rw [hticket, List.getElem?_modify]
    by_cases hnumber : number = i <;> simp [hnumber]
  case h_2 hticket => rw [hticket, if_neg (by simp)]

theorem settleAll_settled {o : Outcome} (answers : List (Command × Outcome))
    (hsettled : tickets[i]? = some (.settled o)) :
    (settleAll tickets answers)[i]? = some (.settled o) := by
  induction answers generalizing tickets with
  | nil => exact hsettled
  | cons a answers ih =>
    refine ih ?_
    rw [getElem?_settle, hsettled]
    split <;> rfl

/-- A ticket gets the outcome of a command that names it, if there is one. -/
theorem settleAll_waiting {r : Request} (hwaiting : tickets[i]? = some (.waiting r))
    (hnamed : ∃ a ∈ answers, a.1.ticket = some i) :
    ∃ a ∈ answers, a.1.ticket = some i ∧
      (settleAll tickets answers)[i]? = some (.settled a.2) := by
  induction answers generalizing tickets with
  | nil =>
    obtain ⟨a, ha, -⟩ := hnamed
    cases ha
  | cons a answers ih =>
    by_cases hticket : a.1.ticket = some i
    · refine ⟨a, List.mem_cons_self, hticket, settleAll_settled answers ?_⟩
      rw [getElem?_settle, if_pos hticket, hwaiting]
      rfl
    · obtain ⟨b, hb, hbticket⟩ := hnamed
      have hlater : b ∈ answers :=
        (List.mem_cons.mp hb).resolve_left fun heq => hticket (heq ▸ hbticket)
      have hkept : (settle tickets a.2 a.1)[i]? = some (.waiting r) := by
        rw [getElem?_settle, if_neg hticket, hwaiting]
      obtain ⟨c, hc, hcticket, hsettled⟩ := ih hkept ⟨b, hlater, hbticket⟩
      exact ⟨c, List.mem_cons_of_mem _ hc, hcticket, hsettled⟩

theorem modify_concat {α : Type} (f : α → α) (i : Nat) (xs : List α) (x : α) :
    (xs ++ [x]).modify i f = if i = xs.length then xs ++ [f x] else xs.modify i f ++ [x] := by
  induction xs generalizing i with
  | nil => cases i <;> simp
  | cons y ys ih =>
    cases i with
    | zero => simp
    | succ i =>
      simp only [List.cons_append, List.modify_succ_cons, ih, List.length_cons,
        Nat.add_right_cancel_iff]
      split <;> rfl

/-- A ticket behind all others is left alone by commands that do not name it. -/
theorem settleAll_concat (t : Ticket)
    (hothers : ∀ c ∈ answers.map (·.1), c.ticket ≠ some tickets.length) :
    settleAll (tickets ++ [t]) answers = settleAll tickets answers ++ [t] := by
  induction answers generalizing tickets with
  | nil => rfl
  | cons a answers ih =>
    obtain ⟨hfirst, hrest⟩ := List.forall_mem_cons.mp hothers
    have hsettle : settle (tickets ++ [t]) a.2 a.1 = settle tickets a.2 a.1 ++ [t] := by
      rw [settle, settle]
      split
      case h_1 number hnumber =>
        rw [modify_concat, if_neg fun h => hfirst (by rw [hnumber, h])]
      case h_2 => rfl
    change settleAll (settle (tickets ++ [t]) a.2 a.1) answers = _
    rw [hsettle]
    exact ih (by rwa [length_settle])

end Overlay.Service.Session
