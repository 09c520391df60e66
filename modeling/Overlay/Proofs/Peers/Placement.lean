import Mathlib
import Overlay.Proofs.Peers.PrefixTable

/-!
Where a prefix table stores a node. An insertion reports the place that a later search for the node
finds and at which a later reading returns it: the index is determined after the old copy is
dropped, so it counts the other nodes of the column that rank before the new copy. Positions and
readings are inverse to each other, since a column holds one copy of each of its nodes and no other
column does.
-/

namespace Overlay.PrefixTable

open Keyspace (Id)
open Roster (place)

theorem get_eq_ok {t : PrefixTable} {row col entry : Nat} {n : Node} :
    t.get row col entry = .ok n ↔
      ∃ column, t.column? row col = some column ∧ column[entry]? = some n := by
  rw [get, ← Option.bind_eq_some_iff]
  cases (t.column? row col).bind (·[entry]?) with
  | none => simp
  | some m => simp

/-- A reading fails only outside of the columns, and the failure names the place. -/
theorem get_eq_error {t : PrefixTable} {row col entry : Nat} {e : Error} :
    t.get row col entry = .error e ↔
      e = .noEntry row col entry ∧
        ∀ column, t.column? row col = some column → column.length ≤ entry := by
  have hnone : (t.column? row col).bind (·[entry]?) = none ↔
      ∀ column, t.column? row col = some column → column.length ≤ entry := by
    rw [Option.bind_eq_none_iff]
    simp only [List.getElem?_eq_none_iff]
  rw [← hnone, get]
  cases (t.column? row col).bind (·[entry]?) with
  | none => simp [eq_comm]
  | some m => simp

variable {t : PrefixTable} {known : Known}

/-- A search for an identifier ends at the place from which a node with it is read. -/
theorem Stores.position?_eq_some (h : t.Stores known) {id : Id} {row col entry : Nat} :
    t.position? id = some (row, col, entry) ↔ ∃ n, t.get row col entry = .ok n ∧ n.id = id := by
  constructor
  · intro hposition
    unfold position? at hposition
    split at hposition
    case h_1 => cases hposition
    case h_2 row' col' hcell =>
      obtain ⟨entry', hfound, heq⟩ := Option.map_eq_some_iff.mp hposition
      obtain ⟨n, hn, hid⟩ := (h.kept row' col').distinct.findIdx?_eq_some.mp hfound
      cases heq
      exact ⟨n, get_eq_ok.mpr ⟨_, column?_eq t row'.isLt col'.isLt, hn⟩, hid⟩
  · rintro ⟨n, hget, rfl⟩
    obtain ⟨column, hcolumn, hn⟩ := get_eq_ok.mp hget
    obtain ⟨hrow, hcol, rfl⟩ := column?_eq_some.mp hcolumn
    have hcell := ((h.mem_iff _ _ n).mp (List.mem_of_getElem? hn)).2
    have hfound := (h.kept _ _).distinct.findIdx?_eq_some.mpr ⟨n, hn, rfl⟩
    simp only [position?, hcell, hfound, Option.map_some]

/-- A node is read from a place just if its identifier is found there and it is the stored copy. -/
theorem Stores.get_eq_ok_iff (h : t.Stores known) {row col entry : Nat} {n : Node} :
    t.get row col entry = .ok n ↔ t.position? n.id = some (row, col, entry) ∧ n ∈ t.entries := by
  have hstored {m : Node} (hget : t.get row col entry = .ok m) : m ∈ t.entries := by
    obtain ⟨column, hcolumn, hm⟩ := get_eq_ok.mp hget
    obtain ⟨hrow, hcol, rfl⟩ := column?_eq_some.mp hcolumn
    exact (t.mem_entries m).mpr ⟨_, _, List.mem_of_getElem? hm⟩
  constructor
  · intro hget
    exact ⟨h.position?_eq_some.mpr ⟨n, hget, rfl⟩, hstored hget⟩
  · rintro ⟨hposition, hn⟩
    obtain ⟨m, hget, hid⟩ := h.position?_eq_some.mp hposition
    rwa [← h.distinct_entries.eq_of_id (hstored hget) hn hid]

/-- What storing a node at a place makes of a table. -/
structure Placed (t t' : PrefixTable) (n : Node) (row col entry : Nat) : Prop where
  position : t'.position? n.id = some (row, col, entry)
  get : t'.get row col entry = .ok n
  /-- The other nodes of the column keep their copies and their order, and the node stands behind
  those that rank before it. -/
  column : ∃ old others, t.column? row col = some old ∧ others = old.filter (·.id ≠ n.id) ∧
    entry = others.countP (t.metric.nearer t.origin · n) ∧
    t'.column? row col = some (others.insertIdx entry n)
  elsewhere : ∀ row' col', ¬(row' = row ∧ col' = col) → t'.column? row' col' = t.column? row' col'

theorem insert_of_cell {n : Node} {row : Fin t.origin.id.space.length}
    {col : Fin t.origin.id.space.base} (hcell : cell? t.origin.id n.id = some (row, col)) :
    t.insert n =
      ({ t with columns := t.columns.set row col (place t.before n (t.columns.get row col)) },
        let entry := Ranked.index t.before n ((t.columns.get row col).eraseP (·.id = n.id))
        if (t.columns.get row col).any (·.id = n.id) then .updated row col entry
        else .inserted row col entry) := by
  unfold insert
  rw [hcell]
  rfl

theorem Stores.insert_placed (h : t.Stores known) {n : Node} {row : Fin t.origin.id.space.length}
    {col : Fin t.origin.id.space.base} (hcell : cell? t.origin.id n.id = some (row, col)) :
    Placed t (t.insert n).1 n row col
      (Ranked.index t.before n ((t.columns.get row col).eraseP (·.id = n.id))) := by
  have hstores := h.insert n
  have hkept := h.kept row col
  let others := (t.columns.get row col).filter (·.id ≠ n.id)
  let entry := Ranked.index t.before n others
  have hothers : (t.columns.get row col).eraseP (·.id = n.id) = others :=
    hkept.distinct.eraseP_eq_filter n.id
  have hcolumns (row' col' : Nat) : (t.insert n).1.column? row' col' =
      if row.val = row' ∧ col.val = col' then some (others.insertIdx entry n)
      else t.column? row' col' := by
    rw [insert_of_cell hcell, place, hothers, Ranked.insert_eq_insertIdx]
    exact Grid.get?_set t.columns row col row' col' _
  have hcolumn := hcolumns row col
  rw [if_pos ⟨rfl, rfl⟩] at hcolumn
  have hget : (t.insert n).1.get row col entry = .ok n := by
    refine get_eq_ok.mpr ⟨_, hcolumn, ?_⟩
    rw [List.getElem?_insertIdx_self, if_pos (Ranked.index_le_length n others)]
  rw [hothers]
  refine ⟨hstores.position?_eq_some.mpr ⟨n, hget, rfl⟩, hget, ?_, ?_⟩
  · refine ⟨_, others, column?_eq t row.isLt col.isLt, rfl, ?_, hcolumn⟩
    exact (hkept.of_sublist List.filter_sublist).ascending.index_eq_countP
  · intro row' col' hother
    rw [hcolumns, if_neg (mt (And.imp Eq.symm Eq.symm) hother)]

theorem Stores.any_column_iff (h : t.Stores known) {n : Node} {row : Fin t.origin.id.space.length}
    {col : Fin t.origin.id.space.base} (hcell : cell? t.origin.id n.id = some (row, col)) :
    (t.columns.get row col).any (·.id = n.id) = true ↔ ∃ m ∈ t.entries, m.id = n.id := by
  simp only [List.any_eq_true, decide_eq_true_eq]
  refine exists_congr fun m => and_congr_left fun hid => ?_
  rw [h.mem_iff, h.mem_entries, hid]
  exact and_iff_left hcell

/-- What an insertion reports and does, by cases. -/
inductive Inserting (t : PrefixTable) (n : Node) : PrefixTable × Placement → Prop
  | ignored (hforeign : ¬(n.id.space = t.origin.id.space ∧ n.id ≠ t.origin.id))
    (hnew : ∀ m ∈ t.entries, m.id ≠ n.id) : Inserting t n (t, .ignored)
  | updated {t' : PrefixTable} {row col entry : Nat}
    (hlocal : n.id.space = t.origin.id.space ∧ n.id ≠ t.origin.id)
    (hstored : ∃ m ∈ t.entries, m.id = n.id) (hplaced : Placed t t' n row col entry) :
    Inserting t n (t', .updated row col entry)
  | inserted {t' : PrefixTable} {row col entry : Nat}
    (hlocal : n.id.space = t.origin.id.space ∧ n.id ≠ t.origin.id)
    (hnew : ∀ m ∈ t.entries, m.id ≠ n.id) (hplaced : Placed t t' n row col entry) :
    Inserting t n (t', .inserted row col entry)

theorem Stores.inserting (h : t.Stores known) (n : Node) : Inserting t n (t.insert n) := by
  cases hcell : cell? t.origin.id n.id with
  | none =>
    have hinsert : t.insert n = (t, .ignored) := by
      unfold PrefixTable.insert
      rw [hcell]
    have hforeign := mt cell?_isSome.mpr (by rw [hcell]; exact Bool.false_ne_true)
    rw [hinsert]
    refine .ignored hforeign fun m hm hid => hforeign ?_
    exact cell?_isSome.mp (hid ▸ (h.located m.id m ((h.mem_entries m).mp hm)).2)
  | some cell =>
    have hlocal := cell?_isSome.mp (Option.isSome_of_eq_some hcell)
    have hplaced := h.insert_placed hcell
    have hany := h.any_column_iff hcell
    rw [insert_of_cell hcell] at hplaced ⊢
    simp only
    split
    case isTrue hstored => exact .updated hlocal (hany.mp hstored) hplaced
    case isFalse hnew =>
      refine .inserted hlocal (fun m hm hid => hnew ?_) hplaced
      exact hany.mpr ⟨m, hm, hid⟩

section

variable {n : Node} {result : PrefixTable × Placement}

theorem Inserting.ignored_iff (h : Inserting t n result) :
    result.2 = .ignored ↔ ¬(n.id.space = t.origin.id.space ∧ n.id ≠ t.origin.id) := by
  cases h with
  | ignored hforeign => exact iff_of_true rfl hforeign
  | updated hlocal => exact iff_of_false (by simp) (not_not.mpr hlocal)
  | inserted hlocal => exact iff_of_false (by simp) (not_not.mpr hlocal)

theorem Inserting.eq_of_ignored (h : Inserting t n result) (hignored : result.2 = .ignored) :
    result.1 = t := by
  cases h with
  | ignored => rfl
  | updated => cases hignored
  | inserted => cases hignored

theorem Inserting.updated_iff (h : Inserting t n result) :
    (∃ row col entry, result.2 = .updated row col entry) ↔ ∃ m ∈ t.entries, m.id = n.id := by
  cases h with
  | ignored _ hnew => exact iff_of_false (by simp) (by simpa using hnew)
  | updated _ hstored => exact iff_of_true ⟨_, _, _, rfl⟩ hstored
  | inserted _ hnew => exact iff_of_false (by simp) (by simpa using hnew)

theorem Inserting.inserted_iff (h : Inserting t n result) :
    (∃ row col entry, result.2 = .inserted row col entry) ↔
      (n.id.space = t.origin.id.space ∧ n.id ≠ t.origin.id) ∧ ∀ m ∈ t.entries, m.id ≠ n.id := by
  cases h with
  | ignored hforeign => exact iff_of_false (by simp) fun hadded => hforeign hadded.1
  | updated _ hstored =>
    obtain ⟨m, hm, hid⟩ := hstored
    exact iff_of_false (by simp) fun hadded => hadded.2 m hm hid
  | inserted hlocal hnew => exact iff_of_true ⟨_, _, _, rfl⟩ ⟨hlocal, hnew⟩

/-- A place that is reported is the place of the node, whether or not a copy was replaced. -/
theorem Inserting.placed (h : Inserting t n result) {row col entry : Nat}
    (hreport : result.2 = .updated row col entry ∨ result.2 = .inserted row col entry) :
    Placed t result.1 n row col entry := by
  cases h with
  | ignored => rcases hreport with hreport | hreport <;> cases hreport
  | updated _ _ hplaced =>
    rcases hreport with hreport | hreport
    · cases hreport
      exact hplaced
    · cases hreport
  | inserted _ _ hplaced =>
    rcases hreport with hreport | hreport
    · cases hreport
    · cases hreport
      exact hplaced

end

/-- After any history an insertion ignores the identifier of the origin and those of other spaces,
and nothing changes. Else it says whether it replaced a copy, and the place that it reports is where
the node is found and read afterwards, as many places down its column as other nodes there rank
before it. Nothing else moves. A node is read from a place just if it is found there and stored in
this copy, and a reading fails only outside of the columns. -/
theorem placement_is_position (origin : Node) (metric : Metric) (history : List Update) :
    let t := (empty origin metric).updateAll history
    (∀ n, ((t.insert n).2 = .ignored ↔ n.id = origin.id ∨ n.id.space ≠ origin.id.space) ∧
      ((t.insert n).2 = .ignored → (t.insert n).1 = t) ∧
      ((∃ row col entry, (t.insert n).2 = .updated row col entry) ↔
        ∃ m ∈ t.entries, m.id = n.id) ∧
      ((∃ row col entry, (t.insert n).2 = .inserted row col entry) ↔
        (n.id ≠ origin.id ∧ n.id.space = origin.id.space) ∧ ∀ m ∈ t.entries, m.id ≠ n.id) ∧
      ∀ row col entry,
        (t.insert n).2 = .updated row col entry ∨ (t.insert n).2 = .inserted row col entry →
          Placed t (t.insert n).1 n row col entry) ∧
      (∀ row col entry n, t.get row col entry = .ok n ↔
        t.position? n.id = some (row, col, entry) ∧ n ∈ t.entries) ∧
      ∀ row col entry e, t.get row col entry = .error e ↔
        e = .noEntry row col entry ∧
          (t.column? row col = none ∨
            ∃ column, t.column? row col = some column ∧ column.length < entry + 1) := by
  intro t
  obtain ⟨horigin, -, h⟩ := updateAll_empty origin metric history
  refine ⟨?_, fun row col entry n => h.get_eq_ok_iff, ?_⟩
  · intro n
    rw [← horigin]
    have hinserting := h.inserting n
    refine ⟨?_, hinserting.eq_of_ignored, hinserting.updated_iff, ?_,
      fun row col entry => hinserting.placed⟩
    · rw [hinserting.ignored_iff, not_and_or, not_not]
      exact or_comm
    · rw [hinserting.inserted_iff]
      exact and_congr_left fun _ => and_comm
  · intro row col entry e
    rw [get_eq_error]
    refine and_congr_right fun _ => ?_
    cases t.column? row col with
    | none => simp
    | some column => simp

/-- A new copy that ranks behind the other node of its column is reported one place further down. -/
example :
    let node (value : Keyspace.Word) (latency : Nat) : Node :=
      (Node.sample .canonical value).withLatency latency
    let far : Keyspace.Word := 10#128 <<< 124
    let t := (empty (node 0 0) .default).updateAll
      [.insert (node far 10), .insert (node (far + 1) 20)]
    t.position? (node far 0).id = some (0, 10, 0) ∧
      (t.insert (node far 30)).2 = .updated 0 10 1 := by
  decide +kernel

end Overlay.PrefixTable
