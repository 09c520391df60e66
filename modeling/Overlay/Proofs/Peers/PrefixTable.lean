import Mathlib
import Overlay.Peers.PrefixTable
import Overlay.Proofs.Keyspace.Prefix
import Overlay.Proofs.Metric
import Overlay.Proofs.Peers.History
import Overlay.Proofs.Peers.Roster

/-!
What a prefix table holds after a history of updates. The invariant ties each column to the map of
what is known: a column holds the known nodes of its cell in ascending order of their scores. Since
such a list is determined by its members, the table is a function of that map.
-/

namespace Overlay.PrefixTable

open Keyspace (Id)
open Ranked (Ranking)
open Roster (Kept)

theorem cell?_eq_some {origin id : Id} {row : Fin origin.space.length}
    {col : Fin origin.space.base} :
    cell? origin id = some (row, col) ↔
      id.space = origin.space ∧ origin.sharedPrefix id = row ∧ id.digit? row = some col.val := by
  unfold cell?
  by_cases hspace : id.space = origin.space
  · by_cases hrow : origin.sharedPrefix id < origin.space.length
    · have hlength : origin.sharedPrefix id < id.length := by rwa [Id.length, hspace]
      simp only [hspace, hrow, dif_pos, Option.some.injEq, Prod.mk.injEq, true_and, Fin.ext_iff]
      refine and_congr_right fun hshared => ?_
      rw [← hshared, Id.digit?_of_lt hlength, Option.some.injEq]
    · simp only [hspace, hrow, dif_pos, dif_neg, not_false_eq_true, true_and]
      constructor
      · intro h
        cases h
      · rintro ⟨hshared, -⟩
        exact absurd (hshared ▸ row.isLt) hrow
  · simp [hspace]

/-- Only the origin itself and identifiers of other spaces have no cell. -/
theorem cell?_isSome {origin id : Id} :
    (cell? origin id).isSome ↔ id.space = origin.space ∧ id ≠ origin := by
  unfold cell?
  by_cases hspace : id.space = origin.space
  · by_cases hid : id = origin
    · subst hid
      simp [Id.sharedPrefix_self, Id.length]
    · have hrow : origin.sharedPrefix id < origin.space.length :=
        Id.sharedPrefix_lt hspace.symm (Ne.symm hid)
      simp [hspace, hrow, hid]
  · simp [hspace]

/-- The table ignores what has no cell. -/
theorem insert_ignored_iff (t : PrefixTable) (n : Node) :
    (t.insert n).2 = .ignored ↔ ¬(n.id.space = t.origin.id.space ∧ n.id ≠ t.origin.id) := by
  rw [← cell?_isSome]
  unfold insert
  split
  case h_1 hcell => simp [hcell]
  case h_2 row col hcell =>
    simp only [hcell, Option.isSome_some, not_true_eq_false, iff_false]
    split <;> simp

instance (t : PrefixTable) : Ranking t.before Node.id :=
  inferInstanceAs (Ranking (t.metric.nearer t.origin) Node.id)

/-- An update of the table. -/
def update (t : PrefixTable) : Update → PrefixTable
  | .insert n => (t.insert n).1
  | .evict id => t.erase id

/-- The table after a history. -/
def updateAll (t : PrefixTable) (history : List Update) : PrefixTable := history.foldl update t

/-- The table stores exactly what is known, each node in its cell and in order. -/
structure Stores (t : PrefixTable) (known : Known) : Prop where
  kept : ∀ row col, Kept t.before (t.columns.get row col)
  mem_iff : ∀ row col n, n ∈ t.columns.get row col ↔
    known.lookup n.id = some n ∧ cell? t.origin.id n.id = some (row, col)
  located : ∀ id n, known.lookup id = some n → n.id = id ∧ (cell? t.origin.id id).isSome

theorem empty_column (origin : Node) (metric : Metric)
    (row : Fin (empty origin metric).origin.id.space.length)
    (col : Fin (empty origin metric).origin.id.space.base) :
    (empty origin metric).columns.get row col = [] :=
  Grid.get_replicate [] row col

theorem empty_stores (origin : Node) (metric : Metric) : (empty origin metric).Stores ∅ where
  kept row col := by
    rw [empty_column]
    exact Kept.nil
  mem_iff row col n := by
    rw [empty_column]
    simp
  located id n h := by simp at h

/-- Changing one column keeps the invariant, if the column follows the map and the map changes only
under identifiers of that column. -/
theorem Stores.set {t : PrefixTable} {known known' : Known} (h : t.Stores known)
    {id : Id} {row : Fin t.origin.id.space.length} {col : Fin t.origin.id.space.base}
    (hcell : cell? t.origin.id id = some (row, col)) {column : List Node}
    (hkept : Kept t.before column)
    (hcolumn : ∀ n, n ∈ column ↔
      known'.lookup n.id = some n ∧ cell? t.origin.id n.id = some (row, col))
    (hothers : ∀ id', id' ≠ id → known'.lookup id' = known.lookup id')
    (hid : ∀ n, known'.lookup id = some n → n.id = id) :
    Stores { t with columns := t.columns.set row col column } known' where
  kept row' col' := by
    rw [Grid.get_set]
    split
    · exact hkept
    · exact h.kept row' col'
  mem_iff row' col' n := by
    rw [Grid.get_set]
    split
    case isTrue hsame =>
      obtain ⟨rfl, rfl⟩ := hsame
      exact hcolumn n
    case isFalse hother =>
      rw [h.mem_iff row' col' n]
      refine and_congr_left fun hn => ?_
      have hne : n.id ≠ id := by
        intro heq
        rw [heq, hcell, Option.some.injEq, Prod.mk.injEq] at hn
        exact hother hn
      rw [hothers n.id hne]
  located id' n hn := by
    by_cases heq : id' = id
    · subst heq
      exact ⟨hid n hn, by rw [hcell]; rfl⟩
    · exact h.located id' n (hothers id' heq ▸ hn)

theorem Stores.insert {t : PrefixTable} {known : Known} (h : t.Stores known) (n : Node) :
    (t.insert n).1.Stores (known.update t.origin.id (.insert n)) := by
  unfold PrefixTable.insert
  split
  case h_1 hcell =>
    have hnone : ¬(n.id.space = t.origin.id.space ∧ n.id ≠ t.origin.id) := by
      rw [← cell?_isSome, hcell]
      simp
    rw [Known.update, if_neg hnone]
    exact h
  case h_2 row col hcell =>
    have hsome : n.id.space = t.origin.id.space ∧ n.id ≠ t.origin.id := by
      rw [← cell?_isSome, hcell]
      rfl
    rw [Known.update, if_pos hsome]
    refine h.set hcell ((h.kept row col).place n) ?_ ?_ ?_
    · intro a
      change a ∈ Roster.place t.before n (t.columns.get row col) ↔ _
      rw [(h.kept row col).mem_place, h.mem_iff]
      by_cases hid : a.id = n.id
      · rw [hid, Finmap.lookup_insert, hcell]
        simp [eq_comm]
      · rw [Finmap.lookup_insert_of_ne _ hid]
        have hne : a ≠ n := fun heq => hid (congrArg Node.id heq)
        simp [hid, hne]
    · intro id' hne
      exact Finmap.lookup_insert_of_ne _ hne
    · intro a ha
      rw [Finmap.lookup_insert, Option.some.injEq] at ha
      rw [ha]

theorem Stores.erase {t : PrefixTable} {known : Known} (h : t.Stores known) (id : Id) :
    (t.erase id).Stores (known.update t.origin.id (.evict id)) := by
  unfold PrefixTable.erase
  rw [Known.update]
  split
  case h_1 hcell =>
    have hunknown : known.lookup id = none := by
      by_contra hsome
      obtain ⟨n, hn⟩ := Option.ne_none_iff_exists'.mp hsome
      have hlocated := (h.located id n hn).2
      rw [hcell] at hlocated
      cases hlocated
    have hsame : known.erase id = known := by
      refine Finmap.ext_lookup fun id' => ?_
      by_cases hid : id' = id
      · rw [hid, Finmap.lookup_erase, hunknown]
      · rw [Finmap.lookup_erase_ne hid]
    rw [hsame]
    exact h
  case h_2 row col hcell =>
    refine h.set hcell ((h.kept row col).of_sublist List.eraseP_sublist) ?_ ?_ ?_
    · intro a
      rw [(h.kept row col).distinct.mem_eraseP, h.mem_iff]
      by_cases hid : a.id = id
      · rw [hid, Finmap.lookup_erase]
        simp
      · rw [Finmap.lookup_erase_ne hid]
        simp [hid]
    · intro id' hne
      exact Finmap.lookup_erase_ne hne
    · intro a ha
      rw [Finmap.lookup_erase] at ha
      cases ha

/-- What an update leaves alone. -/
theorem update_parameters (t : PrefixTable) (u : Update) :
    (t.update u).origin = t.origin ∧ (t.update u).metric = t.metric := by
  cases u with
  | insert n =>
    simp only [update, PrefixTable.insert]
    split <;> exact ⟨rfl, rfl⟩
  | evict id =>
    simp only [update, PrefixTable.erase]
    split <;> exact ⟨rfl, rfl⟩

theorem Stores.update {t : PrefixTable} {known : Known} (h : t.Stores known) (u : Update) :
    (t.update u).Stores (known.update t.origin.id u) := by
  cases u with
  | insert n => exact h.insert n
  | evict id => exact h.erase id

/-- The invariant of a run: the table of a history stores what is known after it. -/
theorem Stores.updateAll {t : PrefixTable} {known : Known} (h : t.Stores known)
    (history : List Update) :
    (t.updateAll history).origin = t.origin ∧ (t.updateAll history).metric = t.metric ∧
      (t.updateAll history).Stores (history.foldl (Known.update t.origin.id) known) := by
  induction history generalizing t known with
  | nil => exact ⟨rfl, rfl, h⟩
  | cons u history ih =>
    obtain ⟨horigin, hmetric, hstores⟩ := ih (h.update u)
    obtain ⟨horigin', hmetric'⟩ := t.update_parameters u
    rw [horigin'] at horigin hstores
    exact ⟨horigin, hmetric.trans hmetric', hstores⟩

theorem Stores.find?_eq_lookup {t : PrefixTable} {known : Known} (h : t.Stores known) (id : Id) :
    t.find? id = known.lookup id := by
  refine Option.ext fun n => ?_
  unfold PrefixTable.find?
  split
  case h_1 hcell =>
    constructor
    · intro hn
      cases hn
    · intro hn
      have hlocated := (h.located id n hn).2
      rw [hcell] at hlocated
      cases hlocated
  case h_2 row col hcell =>
    rw [(h.kept row col).distinct.find?_eq_some, h.mem_iff]
    constructor
    · rintro ⟨⟨hn, -⟩, rfl⟩
      exact hn
    · intro hn
      obtain ⟨rfl, -⟩ := h.located id n hn
      exact ⟨⟨hn, hcell⟩, rfl⟩

theorem column?_eq (t : PrefixTable) {row col : Nat} (hrow : row < t.origin.id.space.length)
    (hcol : col < t.origin.id.space.base) :
    t.column? row col = some (t.columns.get ⟨row, hrow⟩ ⟨col, hcol⟩) := by
  rw [column?, Grid.get?, dif_pos hrow, dif_pos hcol]

theorem column?_eq_some {t : PrefixTable} {row col : Nat} {column : List Node} :
    t.column? row col = some column ↔
      ∃ (hrow : row < t.origin.id.space.length) (hcol : col < t.origin.id.space.base),
        t.columns.get ⟨row, hrow⟩ ⟨col, hcol⟩ = column := by
  unfold column? Grid.get?
  split
  case isTrue hrow =>
    split
    case isTrue hcol => simp [hrow, hcol]
    case isFalse hcol => simp [hcol]
  case isFalse hrow => simp [hrow]

theorem toLists_eq {α : Type} {rows cols : Nat} (g : Grid α rows cols) :
    g.toLists = (List.finRange rows).map fun row => (List.finRange cols).map (g.get row) := by
  refine List.ext_getElem (by simp [Grid.toLists]) fun row hrow _ => ?_
  refine List.ext_getElem (by simp [Grid.toLists]) fun col hcol _ => ?_
  simp [Grid.toLists, Grid.get]

theorem entries_eq (t : PrefixTable) :
    t.entries =
      (List.finRange _).flatMap fun row => (List.finRange _).flatMap (t.columns.get row) := by
  rw [entries, toLists_eq, List.flatMap_def]
  simp only [List.flatMap_def, List.flatten_flatten, List.map_map]
  rfl

theorem mem_entries (t : PrefixTable) (n : Node) :
    n ∈ t.entries ↔ ∃ row col, n ∈ t.columns.get row col := by
  simp [entries_eq]

theorem size_eq_length (t : PrefixTable) : t.size = t.entries.length := by
  simp [size, entries, List.length_flatten, List.map_flatten, List.sum_flatten, Function.comp_def]

theorem Stores.mem_entries {t : PrefixTable} {known : Known} (h : t.Stores known) (n : Node) :
    n ∈ t.entries ↔ known.lookup n.id = some n := by
  rw [PrefixTable.mem_entries]
  constructor
  · rintro ⟨row, col, hn⟩
    exact ((h.mem_iff row col n).mp hn).1
  · intro hn
    obtain ⟨⟨row, col⟩, hcell⟩ := Option.isSome_iff_exists.mp (h.located n.id n hn).2
    exact ⟨row, col, (h.mem_iff row col n).mpr ⟨hn, hcell⟩⟩

/-- Nodes of different columns have different cells, and so different identifiers. -/
theorem Stores.distinct_entries {t : PrefixTable} {known : Known} (h : t.Stores known) :
    Roster.Distinct t.entries := by
  have hcell {row col n} (hn : n ∈ t.columns.get row col) :
      cell? t.origin.id n.id = some (row, col) := ((h.mem_iff row col n).mp hn).2
  rw [Roster.Distinct, List.Nodup, List.pairwise_map, entries_eq, List.pairwise_flatMap]
  constructor
  · intro row _
    rw [List.pairwise_flatMap]
    constructor
    · intro col _
      exact List.pairwise_map.mp (h.kept row col).distinct
    · refine (List.nodup_finRange _).imp fun {col col'} hne a ha b hb hid => hne ?_
      have hsame := (hcell ha).symm.trans (hid ▸ hcell hb)
      exact (Prod.mk.inj (Option.some.inj hsame)).2
  · refine (List.nodup_finRange _).imp fun {row row'} hne a ha b hb hid => hne ?_
    obtain ⟨col, -, ha⟩ := List.mem_flatMap.mp ha
    obtain ⟨col', -, hb⟩ := List.mem_flatMap.mp hb
    have hsame := (hcell ha).symm.trans (hid ▸ hcell hb)
    exact (Prod.mk.inj (Option.some.inj hsame)).1

theorem Stores.size_eq_card {t : PrefixTable} {known : Known} (h : t.Stores known) :
    t.size = known.keys.card := by
  have hkeys : known.keys = (t.entries.map (·.id)).toFinset := by
    ext id
    rw [Finmap.mem_keys, Finmap.mem_iff, List.mem_toFinset, List.mem_map]
    constructor
    · rintro ⟨n, hn⟩
      obtain ⟨rfl, -⟩ := h.located id n hn
      exact ⟨n, (h.mem_entries n).mpr hn, rfl⟩
    · rintro ⟨n, hn, rfl⟩
      exact ⟨n, (h.mem_entries n).mp hn⟩
  rw [hkeys, List.toFinset_card_of_nodup h.distinct_entries, List.length_map, size_eq_length]

/-- A table is determined by its origin, its metric and what it stores. -/
theorem Stores.unique {t t' : PrefixTable} {known : Known} (h : t.Stores known)
    (h' : t'.Stores known) (horigin : t.origin = t'.origin) (hmetric : t.metric = t'.metric) :
    t = t' := by
  obtain ⟨origin, metric, columns⟩ := t
  obtain ⟨origin', metric', columns'⟩ := t'
  subst horigin hmetric
  have hcolumns : columns = columns' := by
    ext1 row col
    refine (h.kept row col).ascending.ext (h'.kept row col).ascending fun n => ?_
    rw [h.mem_iff row col n, h'.mem_iff row col n]
  rw [hcolumns]

/-- A column lists the known nodes of its cell, nearest first. -/
theorem Stores.column {t : PrefixTable} {known : Known} (h : t.Stores known) {row col : Nat}
    (hrow : row < t.rows) (hcol : col < t.cols) :
    ∃ column, t.column? row col = some column ∧
      column.Pairwise (fun a b => t.metric.nearer t.origin a b = true) ∧
      ∀ n, n ∈ column ↔ known.lookup n.id = some n ∧
        t.origin.id.sharedPrefix n.id = row ∧ n.id.digit? row = some col := by
  refine ⟨_, column?_eq t hrow hcol, (h.kept ⟨row, hrow⟩ ⟨col, hcol⟩).ascending, ?_⟩
  intro n
  rw [h.mem_iff, cell?_eq_some]
  constructor
  · rintro ⟨hn, -, hshared, hdigit⟩
    exact ⟨hn, hshared, hdigit⟩
  · rintro ⟨hn, hshared, hdigit⟩
    exact ⟨hn, (cell?_isSome.mp (h.located n.id n hn).2).1, hshared, hdigit⟩

theorem updateAll_empty (origin : Node) (metric : Metric) (history : List Update) :
    ((empty origin metric).updateAll history).origin = origin ∧
      ((empty origin metric).updateAll history).metric = metric ∧
      ((empty origin metric).updateAll history).Stores (Known.after origin.id history) :=
  (empty_stores origin metric).updateAll history

/-- After any history each column lists the known nodes of its cell in strictly ascending order of
their scores. Nothing else is stored and nothing twice, so histories after which the same is known
give the same table, whatever their order. -/
theorem canonical_form (origin : Node) (metric : Metric) (history : List Update) :
    let t := (empty origin metric).updateAll history
    let known := Known.after origin.id history
    (∀ row col, row < origin.id.space.length → col < origin.id.space.base →
      ∃ column, t.column? row col = some column ∧
        column.Pairwise (fun a b => metric.nearer origin a b = true) ∧
        ∀ n, n ∈ column ↔ known.lookup n.id = some n ∧
          origin.id.sharedPrefix n.id = row ∧ n.id.digit? row = some col) ∧
      (∀ n, n ∈ t.entries ↔ known.lookup n.id = some n) ∧
      (t.entries.map (·.id)).Nodup ∧
      t.size = known.keys.card ∧
      ∀ history', Known.after origin.id history' = known →
        (empty origin metric).updateAll history' = t := by
  intro t known
  obtain ⟨horigin, hmetric, hstores⟩ := updateAll_empty origin metric history
  refine ⟨?_, hstores.mem_entries, hstores.distinct_entries, hstores.size_eq_card, ?_⟩
  · intro row col hrow hcol
    have hcolumn := hstores.column (by rwa [rows, horigin])
      (by rwa [cols, horigin])
    rwa [horigin, hmetric] at hcolumn
  · intro history' hsame
    obtain ⟨horigin', hmetric', hstores'⟩ := updateAll_empty origin metric history'
    rw [hsame] at hstores'
    exact hstores'.unique hstores (horigin'.trans horigin.symm) (hmetric'.trans hmetric.symm)

end Overlay.PrefixTable
