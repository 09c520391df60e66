import Mathlib
import Overlay.Service.Request
import Overlay.Proofs.Peers.History

/-!
What requests do to the peers. The order in which updates are served matters; queries may be left
out, since they change nothing.
-/

namespace Overlay.Peers

open Service (Request)

/-- An update of all three structures. -/
def update (p : Peers) : Update → Peers
  | .insert n => (p.insert n).1
  | .evict id => (p.evict id).1

/-- The peers after a history. -/
def updateAll (p : Peers) (history : List Update) : Peers := history.foldl update p

theorem updateAll_append (p : Peers) (history later : List Update) :
    p.updateAll (history ++ later) = (p.updateAll history).updateAll later :=
  List.foldl_append

/-- The change that a request makes, if it is none of the queries. -/
def change? : Request → Option Update
  | .insert n => some (.insert n)
  | .evict id => some (.evict id)
  | _ => none

theorem change?_query {r : Request} (hquery : r.isUpdate = false) : change? r = none := by
  cases r with
  | insert n => cases hquery
  | evict id => cases hquery
  | _ => rfl

theorem apply_eq (p : Peers) (r : Request) : p.apply r = p.updateAll (change? r).toList := by
  cases r <;> rfl

/-- The peers after requests served one by one. -/
def applyAll (p : Peers) (requests : List Request) : Peers := requests.foldl apply p

theorem applyAll_append (p : Peers) (requests later : List Request) :
    p.applyAll (requests ++ later) = (p.applyAll requests).applyAll later :=
  List.foldl_append

theorem answer_update (p : Peers) {r : Request} (hupdate : r.isUpdate = true) :
    p.answer r = .ok .done := by
  cases r with
  | insert n => rfl
  | evict id => rfl
  | _ => cases hupdate

theorem applyAll_eq (p : Peers) (requests : List Request) :
    p.applyAll requests = p.updateAll (requests.filterMap change?) := by
  induction requests generalizing p with
  | nil => rfl
  | cons r requests ih =>
    change (p.apply r).applyAll requests = _
    rw [ih, apply_eq, ← updateAll_append]
    cases r <;> rfl

end Overlay.Peers
