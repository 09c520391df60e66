import Mathlib
import Overlay.Node
import Overlay.Keyspace.Id

/-!
Histories of updates, and what an origin should know after one: for each identifier the last node
that was inserted under it, unless it was evicted since.
-/

namespace Overlay

open Keyspace (Id Space Word)

/-- A node for examples: at some position, with nothing special about it. -/
def Node.sample (space : Space) (value : Word) : Node :=
  { id := .ofWord value space, localAddress := ⟨"10.0.0.1"⟩, globalAddress := ⟨"192.0.2.1"⟩,
    listenPort := 4000, region := "eu" }

/-- A change in what is known of the peers. -/
inductive Update where
  | insert (n : Node)
  | evict (id : Id)
  deriving DecidableEq

/-- The nodes an origin knows, by identifier. -/
abbrev Known := Finmap fun _ : Id => Node

namespace Known

/-- The last write wins. The origin itself and identifiers of other spaces are never written. -/
def update (origin : Id) (known : Known) : Update → Known
  | .insert n =>
    if n.id.space = origin.space ∧ n.id ≠ origin then known.insert n.id n else known
  | .evict id => known.erase id

/-- What is known after a history. -/
def after (origin : Id) (history : List Update) : Known := history.foldl (update origin) ∅

end Known

end Overlay
