import Mathlib
import Overlay.Proofs.Keyspace.Distance
import Overlay.Proofs.Peers.NextHop

/-!
Rows of a prefix table as blocks of the ring. The identifiers that begin with the same digits fill
one block, a stretch of positions as long as a power of the base, and identifiers of one block are
closer than it is long. From row to row the block around the origin shrinks by the base, so nodes
that are stored deeper are nearer on the ring.
-/

namespace Overlay

open Keyspace (Id Space)

namespace Keyspace.Id

variable {a b : Id}

theorem le_sharedPrefix_iff_div_eq (hspace : a.space = b.space) {count : Nat}
    (hcount : count ≤ a.length) :
    count ≤ a.sharedPrefix b ↔
      a.value.toNat / a.space.base ^ (a.length - count) =
        b.value.toNat / a.space.base ^ (a.length - count) := by
  have hlength : b.length = a.length := congrArg Space.length hspace.symm
  rw [le_sharedPrefix_iff hspace hcount, leading_eq_div, leading_eq_div, hlength, ← hspace]

theorem distance_le_of_sharedPrefix (hspace : a.space = b.space) {count : Nat}
    (hcount : count ≤ a.length) (hshared : count ≤ a.sharedPrefix b) :
    a.distance b ≤ a.space.base ^ (a.length - count) - 1 := by
  have hblock : 0 < a.space.base ^ (a.length - count) :=
    Nat.pow_pos (Nat.zero_lt_of_lt a.space.one_lt_base)
  have hsame := (le_sharedPrefix_iff_div_eq hspace hcount).mp hshared
  exact Nat.le_sub_one_of_lt (distance_lt_of_div_eq hspace hblock hsame)

end Keyspace.Id

namespace PrefixTable

variable {t : PrefixTable} {known : Known}

/-- A stored node shares as many digits with the origin as the number of its row says. -/
theorem Stores.sharedPrefix_of_column (h : t.Stores known) {row col : Nat} {column : List Node}
    (hcolumn : t.column? row col = some column) {n : Node} (hn : n ∈ column) :
    n.id.space = t.origin.id.space ∧ t.origin.id.sharedPrefix n.id = row := by
  obtain ⟨hrow, hcol, rfl⟩ := column?_eq_some.mp hcolumn
  obtain ⟨hstored, hshared, -⟩ := h.mem_cell_iff.mp hn
  exact ⟨h.space_of_mem hstored, hshared⟩

/-- Identifiers begin with the same `count` digits just if they lie in one block of the length that
the other digits leave, and then they are closer than that. In every table this bounds the row
`count` and all deeper ones. -/
theorem deeper_rows_are_nearer (space : Space) {count : Nat} (hcount : count ≤ space.length) :
    let block := space.base ^ (space.length - count)
    (∀ a b : Id, a.space = space → b.space = space →
      (count ≤ a.sharedPrefix b ↔ a.value.toNat / block = b.value.toNat / block) ∧
        (count ≤ a.sharedPrefix b → a.distance b ≤ block - 1)) ∧
      ∀ (origin : Node) (metric : Metric) (history : List Update), origin.id.space = space →
        ∀ row col column, count ≤ row →
          ((empty origin metric).updateAll history).column? row col = some column →
            ∀ n ∈ column, origin.id.distance n.id ≤ block - 1 := by
  intro block
  constructor
  · intro a b ha hb
    subst ha
    exact ⟨Id.le_sharedPrefix_iff_div_eq hb.symm hcount,
      Id.distance_le_of_sharedPrefix hb.symm hcount⟩
  · intro origin metric history hspace row col column hrow hcolumn n hn
    obtain ⟨horigin, -, h⟩ := updateAll_empty origin metric history
    obtain ⟨hlocal, hshared⟩ := h.sharedPrefix_of_column hcolumn hn
    rw [horigin] at hlocal hshared
    subst hspace
    exact Id.distance_le_of_sharedPrefix hlocal.symm hcount (hrow.trans hshared.ge)

/-- The first and the last position of a block of the full ring: the bound is reached. The position
before the first one is next to it, and yet they share no digit. -/
theorem ends_of_block :
    let node := Node.sample .canonical
    let first : Keyspace.Word := 7#128 <<< 124
    let last : Keyspace.Word := first + (1#128 <<< 124) - 1#128
    let t := (empty (node first) .default).updateAll [.insert (node last)]
    1 ≤ Space.canonical.length ∧
      1 ≤ (node first).id.sharedPrefix (node last).id ∧
      (node first).id.distance (node last).id = 16 ^ 31 - 1 ∧
      ¬1 ≤ (node first).id.sharedPrefix (node (first - 1#128)).id ∧
      (node first).id.distance (node (first - 1#128)).id = 1 ∧
      t.column? 1 15 = some [node last] ∧
      ∀ n ∈ [node last], (node first).id.distance n.id ≤ 16 ^ 31 - 1 := by
  intro node first last t
  have hcount : 1 ≤ Space.canonical.length := by decide
  obtain ⟨hids, htables⟩ := deeper_rows_are_nearer .canonical hcount
  have hinside := (hids (node first).id (node last).id rfl rfl).1.mpr (by decide +kernel)
  have houtside := mt (hids (node first).id (node (first - 1#128)).id rfl rfl).1.mp
    (by decide +kernel)
  have hcolumn : t.column? 1 15 = some [node last] := by decide +kernel
  have hnear :=
    htables (node first) .default [.insert (node last)] rfl 1 15 _ (Nat.le_refl 1) hcolumn
  exact ⟨hcount, hinside, by decide +kernel, houtside, by decide +kernel, hcolumn, hnear⟩

end PrefixTable

end Overlay
