import Mathlib
import Overlay.Proofs.Peers.PrefixTable

/-!
Routing by prefix. The cell of a key holds just the stored nodes that share more digits with the key
than the origin does, so a node of that cell is always a step forward, and an empty cell means that
the table knows of none.
-/

namespace Overlay.PrefixTable

open Keyspace (Id)

/-- The cell of a key lies where the key leaves the digits of the origin. -/
theorem exists_cell {origin key : Id} (hspace : key.space = origin.space) (hne : key ≠ origin) :
    ∃ row col, cell? origin key = some (row, col) ∧ origin.sharedPrefix key = row ∧
      key.digit row = col ∧ origin.digit row ≠ col := by
  obtain ⟨⟨row, col⟩, hcell⟩ := Option.isSome_iff_exists.mp (cell?_isSome.mpr ⟨hspace, hne⟩)
  obtain ⟨-, hshared, hdigit⟩ := cell?_eq_some.mp hcell
  have hrow : row.val < key.length := by
    rw [Id.length, hspace]
    exact row.isLt
  rw [Id.digit?_of_lt hrow, Option.some.injEq] at hdigit
  have hleaves := Id.digit_sharedPrefix_ne hspace.symm hne.symm
  rw [hshared, hdigit] at hleaves
  exact ⟨row, col, hcell, hshared, hdigit, hleaves⟩

variable {t : PrefixTable} {known : Known}

/-- Stored nodes lie in the space of the origin. -/
theorem Stores.space_of_mem (h : t.Stores known) {n : Node} (hn : n ∈ t.entries) :
    n.id.space = t.origin.id.space :=
  (cell?_isSome.mp (h.located n.id n ((h.mem_entries n).mp hn)).2).1

theorem Stores.mem_cell_iff (h : t.Stores known) {row : Fin t.origin.id.space.length}
    {col : Fin t.origin.id.space.base} {n : Node} :
    n ∈ t.columns.get row col ↔
      n ∈ t.entries ∧ t.origin.id.sharedPrefix n.id = row ∧ n.id.digit row = col := by
  rw [h.mem_iff, ← h.mem_entries, cell?_eq_some]
  refine and_congr_right fun hn => ?_
  have hspace := h.space_of_mem hn
  have hrow : row.val < n.id.length := by
    rw [Id.length, hspace]
    exact row.isLt
  rw [Id.digit?_of_lt hrow, Option.some.injEq]
  exact and_iff_right hspace

/-- A stored node shares more digits with a key than the origin does just if it is stored in the
cell of the key. -/
theorem Stores.mem_cell_of_key (h : t.Stores known) {key : Id}
    (hspace : key.space = t.origin.id.space) (hne : key ≠ t.origin.id)
    {row : Fin t.origin.id.space.length} {col : Fin t.origin.id.space.base}
    (hshared : t.origin.id.sharedPrefix key = row) (hdigit : key.digit row = col) (n : Node) :
    n ∈ t.columns.get row col ↔ n ∈ t.entries ∧ row < n.id.sharedPrefix key := by
  rw [h.mem_cell_iff]
  refine and_congr_right fun hn => ?_
  have hbranch := Id.sharedPrefix_lt_iff_branch hspace.symm (h.space_of_mem hn).symm hne.symm
  rw [hshared, hdigit] at hbranch
  exact hbranch.symm

/-- No node goes on with the digit of the origin behind the digits that it shares with it. -/
theorem Stores.own_cell_eq_nil (h : t.Stores known) {row : Fin t.origin.id.space.length}
    {col : Fin t.origin.id.space.base} (hdigit : t.origin.id.digit row = col) :
    t.columns.get row col = [] := by
  refine List.eq_nil_iff_forall_not_mem.mpr fun n hn => ?_
  obtain ⟨⟨row', col'⟩, hcell⟩ := Option.isSome_iff_exists.mp
    (h.located n.id n ((h.mem_iff row col n).mp hn).1).2
  have hlocated := cell?_isSome.mp (Option.isSome_of_eq_some hcell)
  obtain ⟨-, hshared, hcol⟩ := h.mem_cell_iff.mp hn
  have hleaves := Id.digit_sharedPrefix_ne hlocated.1.symm hlocated.2.symm
  rw [hshared, hdigit, hcol] at hleaves
  exact hleaves rfl

/-- After any history every key but the origin's own has a cell, in the row of the digits that it
shares with the origin and in a column other than the origin's there. This column holds just the
stored nodes that share more digits with the key than the origin does. The columns of the origin's
own digits are empty. -/
theorem cell_offers_next_hop (origin : Node) (metric : Metric) (history : List Update) :
    let t := (empty origin metric).updateAll history
    (∀ key : Id, key.space = origin.id.space → key ≠ origin.id →
      ∃ row col column, t.coordinates? key = some (row, col) ∧ row < origin.id.space.length ∧
        col < origin.id.space.base ∧ origin.id.sharedPrefix key = row ∧
        origin.id.digit? row ≠ some col ∧ t.column? row col = some column ∧
        ∀ n, n ∈ column ↔ n ∈ t.entries ∧ row < n.id.sharedPrefix key) ∧
      ∀ row col, origin.id.digit? row = some col → t.column? row col = some [] := by
  intro t
  obtain ⟨horigin, -, h⟩ := updateAll_empty origin metric history
  rw [← horigin]
  constructor
  · intro key hspace hne
    obtain ⟨row, col, hcell, hshared, hdigit, hleaves⟩ := exists_cell hspace hne
    refine ⟨row, col, t.columns.get row col, ?_, row.isLt, col.isLt, hshared, ?_,
      column?_eq t row.isLt col.isLt, h.mem_cell_of_key hspace hne hshared hdigit⟩
    · rw [coordinates?, hcell]
      rfl
    · rwa [Id.digit?, if_pos (show row.val < t.origin.id.length from row.isLt), Ne,
        Option.some.injEq]
  · intro row col hdigit
    rw [Id.digit?] at hdigit
    split at hdigit
    case isTrue hrow =>
      rw [Option.some.injEq] at hdigit
      have hcol : col < t.origin.id.space.base := hdigit ▸ t.origin.id.digit_lt row
      have hempty : t.columns.get ⟨row, hrow⟩ ⟨col, hcol⟩ = [] := h.own_cell_eq_nil hdigit
      rw [column?_eq t hrow hcol, hempty]
    case isFalse => cases hdigit

/-- A table around 000 in octal digits, after insertions and an eviction. The key 123 belongs to row
0, column 1, where two of the stored nodes are; the key 055 belongs to row 1, column 5, which is
empty, and no stored node shares two digits with it. -/
theorem octal_keys_next_hops :
    let space : Keyspace.Space := { radix := .octal, length := 3 }
    let node := Node.sample space
    let t := (empty (node 0) .default).updateAll
      [.insert (node 0o122), .insert (node 0o171), .insert (node 0o055), .insert (node 0o003),
       .evict (node 0o055).id]
    (∃ column, t.coordinates? (node 0o123).id = some (0, 1) ∧ t.column? 0 1 = some column ∧
      column = [node 0o122, node 0o171] ∧
      ∀ n, n ∈ column ↔ n ∈ t.entries ∧ 0 < n.id.sharedPrefix (node 0o123).id) ∧
    (t.coordinates? (node 0o055).id = some (1, 5) ∧
      ∀ n ∈ t.entries, n.id.sharedPrefix (node 0o055).id ≤ 1) ∧
    t.column? 2 0 = some [] := by
  intro space node t
  obtain ⟨hkeys, hown⟩ := cell_offers_next_hop (node 0) .default
    [.insert (node 0o122), .insert (node 0o171), .insert (node 0o055), .insert (node 0o003),
     .evict (node 0o055).id]
  obtain ⟨row, col, column, hcell, -, -, -, -, hcolumn, hmem⟩ :=
    hkeys (node 0o123).id rfl (by decide)
  obtain ⟨row', col', column', hcell', -, -, -, -, hcolumn', hmem'⟩ :=
    hkeys (node 0o055).id rfl (by decide)
  have hplace : t.coordinates? (node 0o123).id = some (0, 1) := by decide +kernel
  have hplace' : t.coordinates? (node 0o055).id = some (1, 5) := by decide +kernel
  cases hplace.symm.trans hcell
  cases hplace'.symm.trans hcell'
  have hfilled : t.column? 0 1 = some [node 0o122, node 0o171] := by decide +kernel
  have hempty : t.column? 1 5 = some [] := by decide +kernel
  cases hfilled.symm.trans hcolumn
  cases hempty.symm.trans hcolumn'
  refine ⟨⟨_, hplace, hcolumn, rfl, hmem⟩, ⟨hplace', ?_⟩, hown 2 0 (by decide +kernel)⟩
  intro n hn
  by_contra hmore
  have hnone := (hmem' n).mpr ⟨hn, by omega⟩
  cases hnone

end Overlay.PrefixTable
