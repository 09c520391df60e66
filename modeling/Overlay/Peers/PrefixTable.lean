import Overlay.Peers.Grid
import Overlay.Peers.Ranked
import Overlay.Metric

/-!
The prefix table of a node. It has one row for each number of leading digits that another identifier
can share with the node's own, and in a row one column for each digit that may come next. A column
is unbounded and keeps its nodes nearest first by the node's metric. The cell of an identifier
depends on the identifier alone, so no node is ever stored twice.
-/

namespace Overlay

open Keyspace (Id)

-- Sums start at the zero of the core library, whatever else is imported.
attribute [local instance (high)] Zero.ofOfNat0

inductive Placement where
  | inserted (row column entry : Nat)
  | updated (row column entry : Nat)
  /-- The identifier is the table's own or belongs to another space. -/
  | ignored
  deriving DecidableEq

def Placement.inspect : Placement → String
  | .inserted row column entry =>
    s!"Inserted \x7b row: {row}, col: {column}, entry: {entry} \x7d"
  | .updated row column entry =>
    s!"Updated \x7b row: {row}, col: {column}, entry: {entry} \x7d"
  | .ignored => "Ignored"

structure PrefixTable where
  origin : Node
  metric : Metric
  columns : Grid (List Node) origin.id.space.length origin.id.space.base

namespace PrefixTable

def empty (origin : Node) (metric : Metric) : PrefixTable :=
  { origin, metric, columns := Grid.replicate _ _ [] }

def rows (t : PrefixTable) : Nat := t.origin.id.space.length

def cols (t : PrefixTable) : Nat := t.origin.id.space.base

/-- The cell of an identifier as seen from another one of the same space: the shared prefix and the
digit behind it. An identifier has no cell in its own table. -/
def cell? (origin id : Id) : Option (Fin origin.space.length × Fin origin.space.base) :=
  if same : id.space = origin.space then
    if h : origin.sharedPrefix id < origin.space.length then
      let digit := id.digit (origin.sharedPrefix id)
      some (⟨origin.sharedPrefix id, h⟩, ⟨digit, same ▸ id.digit_lt _⟩)
    else none
  else none

def coordinates? (t : PrefixTable) (id : Id) : Option (Nat × Nat) :=
  (cell? t.origin.id id).map fun (row, col) => (row, col)

def before (t : PrefixTable) (a b : Node) : Bool := t.metric.nearer t.origin a b

/-- Stores a node in its column, in place of an earlier copy if there is one. -/
def insert (t : PrefixTable) (n : Node) : PrefixTable × Placement :=
  match cell? t.origin.id n.id with
  | none => (t, .ignored)
  | some (row, col) =>
    let column := t.columns.get row col
    let others := column.eraseP (·.id = n.id)
    let entry := Ranked.index t.before n others
    let columns := t.columns.set row col (Ranked.insert t.before n others)
    ({ t with columns },
      if column.any (·.id = n.id) then .updated row col entry else .inserted row col entry)

def find? (t : PrefixTable) (id : Id) : Option Node :=
  match cell? t.origin.id id with
  | none => none
  | some (row, col) => (t.columns.get row col).find? (·.id = id)

def erase (t : PrefixTable) (id : Id) : PrefixTable :=
  match cell? t.origin.id id with
  | none => t
  | some (row, col) =>
    { t with columns := t.columns.set row col ((t.columns.get row col).eraseP (·.id = id)) }

/-- The nodes of a column, nearest first, if there is such a column. -/
def column? (t : PrefixTable) (row column : Nat) : Option (List Node) :=
  t.columns.get? row column

def get (t : PrefixTable) (row column entry : Nat) : Except Error Node :=
  match (t.column? row column).bind (·[entry]?) with
  | some n => .ok n
  | none => .error (.noEntry row column entry)

def position? (t : PrefixTable) (id : Id) : Option (Nat × Nat × Nat) :=
  match cell? t.origin.id id with
  | none => none
  | some (row, col) =>
    ((t.columns.get row col).findIdx? (·.id = id)).map fun entry => (row.val, col.val, entry)

/-- All stored nodes, row by row and column by column. -/
def entries (t : PrefixTable) : List Node := t.columns.toLists.flatten.flatten

def size (t : PrefixTable) : Nat := (t.columns.toLists.map fun row => (row.map List.length).sum).sum

/-- Number of columns in use, row by row. -/
def occupied (t : PrefixTable) : List Nat :=
  t.columns.toLists.map fun row => row.countP (!·.isEmpty)

end PrefixTable

end Overlay
