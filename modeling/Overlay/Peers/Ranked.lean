/-!
Lists kept in ascending order of a rank, and such lists with a bound on their length. Columns of the
prefix table, halves of the leaf set and the neighborhood are all kept by these two operations and
differ only in the rank.
-/

namespace Overlay.Ranked

variable {α : Type}

/-- Puts `x` in front of the first element that does not come before it. -/
def insert (before : α → α → Bool) (x : α) : List α → List α
  | [] => [x]
  | y :: ys => if before y x then y :: insert before x ys else x :: y :: ys

/-- Where `insert` puts `x`: the number of elements passed over. -/
def index (before : α → α → Bool) (x : α) (ys : List α) : Nat :=
  (ys.takeWhile fun y => before y x).length

/-- Offers `x` to a list of at most `capacity` elements and tells whether it was taken. A full list
takes it only in place of its last element, and only if `x` comes before that. -/
def offer (before : α → α → Bool) (capacity : Nat) (x : α) (ys : List α) : List α × Bool :=
  if ys.length < capacity then (insert before x ys, true)
  else
    match ys.getLast? with
    | some last =>
      if before x last then (insert before x ys.dropLast, true) else (ys, false)
    | none => (ys, false)

end Overlay.Ranked
