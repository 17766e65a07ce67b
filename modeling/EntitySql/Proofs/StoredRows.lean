import EntitySql.Proofs.StoredValues

/-!
# Columns of stored values

A result row is made of the columns that the database gives, one after another (`Row.ofStored`).
If their names differ, the name of a column has an entry in the row exactly if the column has a
value (`Row.mem_names_ofStored_iff`), and the keys of a row are strictly sorted, so no name has two
of them.

The main statement, `rows_show_columns`, says which columns are shown and as what. Nulls and only
nulls are shown as null. A real that is not finite, such as `9e999`, is not shown at all: no number
stands for it, and unlike a value of no known type, which would be shown as null, it is left out
(`query_infinity`). So a row lists all of its columns exactly if none of them holds such a real.
-/

namespace EntitySql

/-! ### Values without an entry -/

namespace Stored

/-- The value is a real that is not finite. -/
def isNonfinite : Stored → Bool
  | .real x => !x.isFinite
  | _ => false

theorem toValue?_isSome (s : Stored) : s.toValue?.isSome = !s.isNonfinite := by
  cases s with
  | real x =>
    cases h : x.isFinite <;> simp [toValue?, isNonfinite, Number.ofDouble?, h]
  | _ => rfl

theorem toValue?_eq_none_iff {s : Stored} : s.toValue? = none ↔ s.isNonfinite = true := by
  rw [← Option.isNone_iff_eq_none, ← Option.not_isSome, toValue?_isSome, Bool.not_not]

/-- Only a null is read as one. -/
theorem toValue?_eq_null_iff {s : Stored} : s.toValue? = some .null ↔ s = .null := by
  cases s with
  | real x =>
    cases h : Number.ofDouble? x <;> simp [toValue?, h]
  | _ => simp [toValue?]

end Stored

/-! ### Names in a row -/

namespace Row

variable {columns : List (String × Stored)}

theorem mem_names_iff {r : Row} {name : String} :
    name ∈ r.columns.map Prod.fst ↔ (r.value? name).isSome = true :=
  isSome_lookup_iff.symm

/-- Each column keeps the keys of the row sorted. -/
theorem sorted_withStored {r : Row} (h : r.columns.Sorted) (column : String × Stored) :
    (r.withStored column).columns.Sorted := by
  rw [withStored]
  split
  · exact h.insert _ _
  · exact h.erase _

theorem sorted_ofStored (columns : List (String × Stored)) : (ofStored columns).columns.Sorted := by
  rw [ofStored_eq_foldl]
  suffices ∀ r : Row, r.columns.Sorted → (columns.foldl withStored r).columns.Sorted from
    this {} List.Pairwise.nil
  induction columns with
  | nil => exact fun _ h => h
  | cons column rest ih => exact fun r h => ih _ (sorted_withStored h column)

theorem nodup_names_ofStored (columns : List (String × Stored)) :
    ((ofStored columns).columns.map Prod.fst).Nodup :=
  List.pairwise_map.mpr ((sorted_ofStored columns).imp fun hlt => String.ne_of_lt hlt)

/-- No other names get into the row. -/
theorem mem_names_of_mem_names_ofStored {name : String}
    (h : name ∈ (ofStored columns).columns.map Prod.fst) : name ∈ columns.map Prod.fst := by
  by_contra hname
  rw [mem_names_iff, ofStored_eq_foldl, value?_foldl_of_notMem hname] at h
  cases h

/-- The name of a column is in the row if the column has a value. -/
theorem mem_names_ofStored_iff (h : (columns.map Prod.fst).Nodup) {column : String × Stored}
    (hmem : column ∈ columns) :
    column.1 ∈ (ofStored columns).columns.map Prod.fst ↔ column.2.isNonfinite = false := by
  rw [mem_names_iff, value?_ofStored h hmem, Stored.toValue?_isSome, Bool.not_eq_true']

/-- The names in the row are those of the columns that have a value. -/
theorem names_ofStored_perm (h : (columns.map Prod.fst).Nodup) :
    ((ofStored columns).columns.map Prod.fst).Perm
      ((columns.filter fun column => !column.2.isNonfinite).map Prod.fst) := by
  have hkept : ((columns.filter fun column => !column.2.isNonfinite).map Prod.fst).Nodup :=
    (List.filter_sublist.map Prod.fst).nodup h
  refine (List.perm_ext_iff_of_nodup (nodup_names_ofStored columns) hkept).mpr fun name => ?_
  constructor
  · intro hname
    obtain ⟨column, hmem, rfl⟩ := List.mem_map.mp (mem_names_of_mem_names_ofStored hname)
    have hfinite := (mem_names_ofStored_iff h hmem).mp hname
    exact List.mem_map_of_mem (List.mem_filter.mpr ⟨hmem, by rw [hfinite]; rfl⟩)
  · intro hname
    obtain ⟨column, hkept, rfl⟩ := List.mem_map.mp hname
    obtain ⟨hmem, hfinite⟩ := List.mem_filter.mp hkept
    exact (mem_names_ofStored_iff h hmem).mpr ((Bool.not_eq_true' _).mp hfinite)

/-- All columns are in the row exactly if all of them have a value. -/
theorem names_ofStored_perm_iff (h : (columns.map Prod.fst).Nodup) :
    ((ofStored columns).columns.map Prod.fst).Perm (columns.map Prod.fst) ↔
      ∀ column ∈ columns, column.2.isNonfinite = false := by
  constructor
  · intro hperm column hmem
    exact (mem_names_ofStored_iff h hmem).mp (hperm.mem_iff.mpr (List.mem_map_of_mem hmem))
  · intro hfinite
    have hall : (columns.filter fun column => !column.2.isNonfinite) = columns :=
      List.filter_eq_self.mpr fun column hmem => by rw [hfinite column hmem]; rfl
    have hperm := names_ofStored_perm h
    rwa [hall] at hperm

end Row

/-! ### What rows show -/

/-- What a row shows of columns with different names. A column has an entry unless it holds a real
that is not finite; the entry is what the value is decoded as, and it is null exactly if the value
is. -/
theorem rows_show_columns {columns : List (String × Stored)} (h : (columns.map Prod.fst).Nodup) :
    let row := Row.ofStored columns
    (row.columns.map Prod.fst).Perm
      ((columns.filter fun column => !column.2.isNonfinite).map Prod.fst) ∧
    ((row.columns.map Prod.fst).Perm (columns.map Prod.fst) ↔
      ∀ column ∈ columns, column.2.isNonfinite = false) ∧
    ∀ column ∈ columns, row.value? column.1 = column.2.decoded ∧
      (row.value? column.1 = some .null ↔ column.2 = .null) ∧
      (row.value? column.1 = none ↔ column.2.isNonfinite = true) := by
  refine ⟨Row.names_ofStored_perm h, Row.names_ofStored_perm_iff h, fun column hmem => ?_⟩
  rw [Row.value?_ofStored h hmem]
  exact ⟨column.2.toValue?_eq_decoded, Stored.toValue?_eq_null_iff, Stored.toValue?_eq_none_iff⟩

/-- A finite real, a null, and an infinite real. -/
def measurement : List (String × Stored) :=
  [("at", .real ⟨0x3FF8000000000000⟩), ("note", .null), ("error", .real ⟨0x7FF0000000000000⟩)]

theorem rows_show_columns_measurement :
    (measurement.map Prod.fst).Nodup ∧
    ((Row.ofStored measurement).columns.map Prod.fst).Perm ["at", "note"] ∧
    (Row.ofStored measurement).value? "note" = some .null ∧
    (Row.ofStored measurement).value? "error" = none := by
  have hnames : (measurement.map Prod.fst).Nodup := by decide
  obtain ⟨hshown, -, hcolumns⟩ := rows_show_columns hnames
  have hnote := hcolumns ("note", .null) (by decide)
  have herror := hcolumns ("error", .real ⟨0x7FF0000000000000⟩) (by decide)
  exact ⟨hnames, hshown, hnote.2.1.mpr rfl, herror.2.2.mpr rfl⟩

/-- Selects an integer and a real that is above all doubles. -/
def oneAndInfinity : Statement where
  sql := "SELECT 1 AS a, 9e999 AS b"
  binds := []

/-- The row has no entry for the infinite real. -/
theorem query_infinity :
    ∃ row, Engine.query oneAndInfinity ({} : Connection) = (.ok [row], {}) ∧
      row = Row.ofStored [("a", .integer 1), ("b", .real ⟨0x7FF0000000000000⟩)] ∧
      row.columns.map Prod.fst = ["a"] ∧ ¬ (row.columns.map Prod.fst).Perm ["a", "b"] := by
  have hcommand : Command.ofText oneAndInfinity.sql = [some (.select
      [("a", .constant (.integer 1)), ("b", .constant (.real ⟨0x7FF0000000000000⟩))])] := by
    decide +kernel
  have hnames : (Row.ofStored [("a", .integer 1),
      ("b", .real ⟨0x7FF0000000000000⟩)]).columns.map Prod.fst = ["a"] := by
    decide +kernel
  have hshort : ¬ ["a"].Perm ["a", "b"] := by decide
  have hrun := Connection.run_of_reads (s := oneAndInfinity.toStored) {} hcommand rfl rfl
  have hquery : Engine.query oneAndInfinity ({} : Connection) =
      (.ok [Row.ofStored [("a", .integer 1), ("b", .real ⟨0x7FF0000000000000⟩)]], {}) := by
    simp only [Engine.query, hrun]
    rfl
  exact ⟨_, hquery, rfl, hnames,
    fun hperm => hshort ((List.Perm.of_eq hnames).symm.trans hperm)⟩

end EntitySql
