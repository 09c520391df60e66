/-!
Rectangles of values with a fixed number of rows and columns, read and changed one cell at a time.
-/

namespace Overlay

/-- `rows` rows of `cols` cells. -/
structure Grid (α : Type) (rows cols : Nat) where
  cells : Vector (Vector α cols) rows

namespace Grid

variable {α : Type} {rows cols : Nat}

def replicate (rows cols : Nat) (a : α) : Grid α rows cols :=
  ⟨Vector.replicate rows (Vector.replicate cols a)⟩

def get (g : Grid α rows cols) (row : Fin rows) (col : Fin cols) : α := g.cells[row][col]

def set (g : Grid α rows cols) (row : Fin rows) (col : Fin cols) (a : α) : Grid α rows cols :=
  ⟨g.cells.set row (g.cells[row].set col a)⟩

/-- All rows, each as the list of its cells. -/
def toLists (g : Grid α rows cols) : List (List α) := g.cells.toList.map (·.toList)

/-- The value of a cell given by plain numbers, which may lie outside. -/
def get? (g : Grid α rows cols) (row col : Nat) : Option α :=
  if hrow : row < rows then
    if hcol : col < cols then some (g.get ⟨row, hrow⟩ ⟨col, hcol⟩) else none
  else none

@[ext]
theorem ext {g h : Grid α rows cols} (same : ∀ row col, g.get row col = h.get row col) : g = h := by
  obtain ⟨g⟩ := g
  obtain ⟨h⟩ := h
  congr 1
  refine Vector.ext fun row hrow => Vector.ext fun col hcol => ?_
  exact same ⟨row, hrow⟩ ⟨col, hcol⟩

@[simp]
theorem get_replicate (a : α) (row : Fin rows) (col : Fin cols) :
    (replicate rows cols a).get row col = a := by
  simp [replicate, get]

theorem get_set (g : Grid α rows cols) (row row' : Fin rows) (col col' : Fin cols) (a : α) :
    (g.set row col a).get row' col' = if row = row' ∧ col = col' then a else g.get row' col' := by
  by_cases hrow : row = row'
  · subst hrow
    by_cases hcol : col = col'
    · subst hcol
      simp [set, get]
    · have hne : col.val ≠ col'.val := fun h => hcol (Fin.ext h)
      simp [set, get, hcol, Vector.getElem_set_ne _ _ hne]
  · have hne : row.val ≠ row'.val := fun h => hrow (Fin.ext h)
    simp [set, get, hrow, Vector.getElem_set_ne _ _ hne]

theorem get?_set (g : Grid α rows cols) (row : Fin rows) (col : Fin cols) (row' col' : Nat)
    (a : α) :
    (g.set row col a).get? row' col' =
      if row.val = row' ∧ col.val = col' then some a else g.get? row' col' := by
  unfold get?
  split
  case isTrue hrow =>
    split
    case isTrue hcol =>
      rw [get_set]
      simp only [Fin.ext_iff]
      split <;> rfl
    case isFalse hcol =>
      have hne : ¬(row.val = row' ∧ col.val = col') := fun h => hcol (h.2 ▸ col.isLt)
      rw [if_neg hne]
  case isFalse hrow =>
    have hne : ¬(row.val = row' ∧ col.val = col') := fun h => hrow (h.1 ▸ row.isLt)
    rw [if_neg hne]

end Grid

end Overlay
