import EntitySql.Select
import Mathlib.Data.List.Sort
import Mathlib.Data.List.DropRight

/-!
# The rows of a select

The list meaning of a select. The rows of the source are filtered, collapsed if the select is
distinct, and sorted; the offset is dropped, and of the rest as many rows are kept as the bound
allows; the select list is evaluated last. A derived table is the list of its rows.

An `Evaluator` says what the texts of a select are on a row: an expression that is the name of a
column is the value of that column, and any other expression is some function of the row. `DESC`
compares as `ASC` does, with its sides exchanged.

Aggregates have no meaning here.
-/

namespace EntitySql

/-! ### Tables -/

/-- A row of a result: its columns in order, by name. -/
abbrev Tuple (V : Type) := List (String × V)

/-- A table: its columns, which have different names, and rows of just these columns. -/
structure Table (V : Type) where
  columns : List String
  rows : List (Tuple V)
  nodup : columns.Nodup
  shape : ∀ row ∈ rows, row.map Prod.fst = columns

/-- What the texts of a select are on a row. -/
structure Evaluator (V : Type) where
  /-- The value of an expression that is not the name of a column. -/
  computed : String → Tuple V → V
  /-- The row satisfies a condition. -/
  accepts : String → Tuple V → Bool
  /-- The order of values. -/
  compare : V → V → Ordering
  [trans : Std.TransCmp compare]

attribute [instance] Evaluator.trans

variable {V : Type}

namespace Evaluator

variable (E : Evaluator V)

/-- The value of an expression on a row. -/
def value (row : Tuple V) (text : String) : V :=
  (row.lookup text).getD (E.computed text row)

/-! ### Orderings -/

/-- The order of rows by one item. -/
def compareBy (i : OrderItem) : Tuple V → Tuple V → Ordering :=
  if i.ascending then fun r r' => E.compare (E.value r i.expr) (E.value r' i.expr)
  else fun r r' => E.compare (E.value r' i.expr) (E.value r i.expr)

/-- The order of rows by the items of an ordering, the first one first. -/
def compareRows : List OrderItem → Tuple V → Tuple V → Ordering
  | [] => fun _ _ => .eq
  | i :: is => compareLex (E.compareBy i) (compareRows is)

instance transCmp_compareBy (i : OrderItem) : Std.TransCmp (E.compareBy i) := by
  have hasc : Std.TransCmp fun r r' : Tuple V => E.compare (E.value r i.expr) (E.value r' i.expr) :=
    { eq_swap := by
        intro r r'
        exact Std.OrientedCmp.eq_swap
      isLE_trans := by
        intro r r' r''
        exact Std.TransCmp.isLE_trans }
  rw [compareBy]
  split
  · exact hasc
  · exact Std.TransCmp.opposite

instance transCmp_compareRows (order : List OrderItem) : Std.TransCmp (E.compareRows order) := by
  induction order with
  | nil => exact { eq_swap := rfl, isLE_trans := fun _ _ => rfl }
  | cons i is ih => exact inferInstanceAs (Std.TransCmp (compareLex _ _))

/-- Rows are equal in an ordering when they are equal in each of its items. -/
theorem compareRows_eq_eq {order : List OrderItem} {r r' : Tuple V} :
    E.compareRows order r r' = .eq ↔
      ∀ i ∈ order, E.compare (E.value r i.expr) (E.value r' i.expr) = .eq := by
  induction order with
  | nil => exact iff_of_true rfl nofun
  | cons i is ih =>
    have hitem : E.compareBy i r r' = .eq ↔
        E.compare (E.value r i.expr) (E.value r' i.expr) = .eq := by
      rw [compareBy]
      split
      · exact Iff.rfl
      · exact Std.OrientedCmp.eq_comm
    rw [compareRows, compareLex, Ordering.then_eq_eq, hitem, ih, List.forall_mem_cons]

/-- Flipped items order the rows the other way round. -/
theorem compareRows_flipped (order : List OrderItem) (r r' : Tuple V) :
    E.compareRows (order.map (·.flipped)) r r' = E.compareRows order r' r := by
  induction order with
  | nil => rfl
  | cons i is ih =>
    -- descending is ascending with the rows exchanged, so flipping exchanges them in both cases
    have hitem : E.compareBy i.flipped r r' = E.compareBy i r' r := by
      cases h : i.ascending <;> simp [compareBy, OrderItem.flipped, h]
    rw [List.map_cons, compareRows, compareRows, compareLex, compareLex, hitem, ih]

/-- Rows with the same values of the items are in the same order. -/
theorem compareRows_congr {order order' : List OrderItem} {q q' r r' : Tuple V}
    (h : List.Forall₂ (fun i j => i.ascending = j.ascending ∧
      E.value q i.expr = E.value r j.expr ∧ E.value q' i.expr = E.value r' j.expr) order order') :
    E.compareRows order q q' = E.compareRows order' r r' := by
  induction h with
  | nil => rfl
  | cons hi _ ih =>
    obtain ⟨hasc, hq, hq'⟩ := hi
    rw [compareRows, compareRows, compareLex, compareLex, ih, compareBy, compareBy, hasc]
    split <;> simp only [hq, hq']

/-- The first row may stand before the second. -/
def Before (order : List OrderItem) (r r' : Tuple V) : Prop :=
  (E.compareRows order r r').isLE = true

instance (order : List OrderItem) : DecidableRel (E.Before order) :=
  fun r r' => inferInstanceAs (Decidable ((E.compareRows order r r').isLE = true))

instance (order : List OrderItem) : IsTrans (Tuple V) (E.Before order) :=
  ⟨fun _ _ _ => Std.TransCmp.isLE_trans⟩

instance (order : List OrderItem) : Std.Total (E.Before order) where
  total r r' := by
    have hswap : E.compareRows order r' r = (E.compareRows order r r').swap :=
      Std.OrientedCmp.eq_swap
    rw [Before, Before, hswap]
    cases E.compareRows order r r' <;> simp

/-- In the order of flipped items the rows stand the other way round. -/
theorem before_flipped {order : List OrderItem} {r r' : Tuple V} :
    E.Before (order.map (·.flipped)) r r' ↔ E.Before order r' r := by
  rw [Before, compareRows_flipped, Before]

/-- Rows that may stand either way are equal in the ordering. -/
theorem Before.antisymm {order : List OrderItem} {r r' : Tuple V} (h : E.Before order r r')
    (h' : E.Before order r' r) : E.compareRows order r r' = .eq :=
  Std.OrientedCmp.isLE_antisymm h h'

end Evaluator

/-! ### Select lists -/

/-- The columns that a column of a select list stands for. -/
def SelectColumn.cells (E : Evaluator V) (row : Tuple V) : SelectColumn → Tuple V
  | .every => row
  | .expr text label => [(label.getD text, E.value row text)]

/-- The names of the columns that a column of a select list stands for, each with its
expression. -/
def SelectColumn.exports (columns : List String) : SelectColumn → List (String × String)
  -- a column of the table is exported under its own name
  | .every => columns.map fun name => (name, name)
  | .expr text label => [(label.getD text, text)]

/-- The select list evaluated on a row. -/
def projectBy (E : Evaluator V) (list : List SelectColumn) (row : Tuple V) : Tuple V :=
  if list.isEmpty then row else list.flatMap (·.cells E row)

/-- The names and expressions of the columns of a select list over a table of some columns. -/
def exportsOf (columns : List String) (list : List SelectColumn) : List (String × String) :=
  if list.isEmpty then columns.map fun name => (name, name)
  else list.flatMap (·.exports columns)

section Exports

variable {E : Evaluator V} {columns : List String} {row : Tuple V} {list : List SelectColumn}

/-- A column has its value, if no other column has its name. -/
theorem lookup_of_mem {row : Tuple V} (hnodup : (row.map Prod.fst).Nodup) {name : String} {v : V}
    (h : (name, v) ∈ row) : row.lookup name = some v := by
  induction row with
  | nil => cases h
  | cons cell rest ih =>
    rw [List.map_cons, List.nodup_cons] at hnodup
    obtain heq | hrest := List.mem_cons.mp h
    · rw [← heq, List.lookup_cons, beq_self_eq_true]
    · have hne : (name == cell.1) = false := by
        rw [beq_eq_false_iff_ne]
        rintro rfl
        have hname := List.mem_map_of_mem (f := Prod.fst) hrest
        exact hnodup.1 hname
      rw [List.lookup_cons, hne]
      exact ih hnodup.2 hrest

/-- A row is given by the values of its columns. -/
theorem map_value_columns (hnodup : columns.Nodup) (hshape : row.map Prod.fst = columns) :
    columns.map (fun name => (name, E.value row name)) = row := by
  subst hshape
  rw [List.map_map]
  refine (List.map_congr_left fun cell hcell => ?_).trans (List.map_id row)
  rw [Function.comp_apply, Evaluator.value, lookup_of_mem hnodup hcell]
  rfl

/-- The columns of a select list have the values of the expressions that they export. -/
theorem projectBy_eq_exports (hnodup : columns.Nodup) (hshape : row.map Prod.fst = columns) :
    projectBy E list row
      = (exportsOf columns list).map fun e => (e.1, E.value row e.2) := by
  have hevery : (columns.map fun name => (name, name)).map (fun e => (e.1, E.value row e.2)) = row := by
    rw [List.map_map]
    exact map_value_columns hnodup hshape
  rw [projectBy, exportsOf]
  split
  · exact hevery.symm
  · rw [List.map_flatMap]
    refine List.flatMap_congr fun column _ => ?_
    cases column with
    | every => exact hevery.symm
    | expr text label => rfl

/-- An exported expression has its value under its name. -/
theorem value_projectBy (hnodup : columns.Nodup) (hshape : row.map Prod.fst = columns)
    (hnames : ((exportsOf columns list).map Prod.fst).Nodup) {name text : String}
    (h : (name, text) ∈ exportsOf columns list) :
    E.value (projectBy E list row) name = E.value row text := by
  have hmem : (name, E.value row text) ∈ projectBy E list row := by
    rw [projectBy_eq_exports hnodup hshape]
    exact List.mem_map_of_mem h
  have hcells : ((projectBy E list row).map Prod.fst).Nodup := by
    rw [projectBy_eq_exports hnodup hshape, List.map_map]
    exact hnames
  rw [Evaluator.value, lookup_of_mem hcells hmem]
  rfl

/-- A select list of expressions. -/
theorem projectBy_map_expr {α : Type} {items : List α} (hitems : items ≠ []) (text : α → String)
    (label : α → Option String) :
    projectBy E (items.map fun i => .expr (text i) (label i)) row
      = items.map fun i => ((label i).getD (text i), E.value row (text i)) := by
  have hne : ¬ (items.map fun i => SelectColumn.expr (text i) (label i)).isEmpty = true := by
    simpa using hitems
  rw [projectBy, if_neg hne, List.flatMap_map, List.map_eq_flatMap]
  rfl

end Exports

/-! ### Distinct rows -/

/-- The first item for each key. -/
def firstOfEach {α κ : Type} [DecidableEq κ] (key : α → κ) : List α → List α
  | [] => []
  | a :: l => a :: (firstOfEach key l).filter fun b => key b ≠ key a

section FirstOfEach

variable {α κ κ' : Type} [DecidableEq κ] [DecidableEq κ']

theorem firstOfEach_sublist (key : α → κ) (l : List α) : (firstOfEach key l).Sublist l := by
  induction l with
  | nil => exact .slnil
  | cons a l ih => exact .cons_cons a (List.filter_sublist.trans ih)

/-- The items that are kept are determined by which items have equal keys. -/
theorem firstOfEach_congr {key : α → κ} {key' : α → κ'} {l : List α}
    (h : ∀ a ∈ l, ∀ b ∈ l, key a = key b ↔ key' a = key' b) :
    firstOfEach key l = firstOfEach key' l := by
  induction l with
  | nil => rfl
  | cons a l ih =>
    have htail : ∀ x ∈ l, ∀ y ∈ l, key x = key y ↔ key' x = key' y := fun x hx y hy =>
      h x (List.mem_cons_of_mem a hx) y (List.mem_cons_of_mem a hy)
    rw [firstOfEach, firstOfEach, ih htail]
    congr 1
    refine List.filter_congr fun b hb => ?_
    have hmem := (firstOfEach_sublist key' l).subset hb
    have hkey := h b (List.mem_cons_of_mem a hmem) a List.mem_cons_self
    simp only [ne_eq, hkey]

end FirstOfEach

/-! ### Rows -/

variable [DecidableEq V] (E : Evaluator V)

namespace SelectBody

/-- The rows of the source that the filter accepts, collapsed if the select is distinct. -/
def kept (b : SelectBody) (rows : List (Tuple V)) : List (Tuple V) :=
  let accepted := match b.filter with
    | some condition => rows.filter (E.accepts condition)
    | none => rows
  -- of the rows that the select list does not tell apart, the first one is kept
  if b.distinct then firstOfEach (projectBy E b.columns) accepted else accepted

/-- The rows of the source that are kept, in order. -/
def sorted (b : SelectBody) (rows : List (Tuple V)) : List (Tuple V) :=
  (b.kept E rows).insertionSort (E.Before b.order)

/-- The window of sorted rows that the bounds leave. -/
def window (b : SelectBody) (sorted : List (Tuple V)) : List (Tuple V) :=
  let rest := sorted.drop (b.offset.getD 0)
  match b.limit with
  | some n => rest.take n
  | none => rest

/-- The rows of a select over the rows of its source. -/
def rows (b : SelectBody) (source : List (Tuple V)) : List (Tuple V) :=
  (b.window (b.sorted E source)).map (projectBy E b.columns)

variable {E} {b : SelectBody} {source : List (Tuple V)}

theorem kept_sublist : (b.kept E source).Sublist source := by
  have haccepted : (match b.filter with
      | some condition => source.filter (E.accepts condition)
      | none => source).Sublist source := by
    split
    · exact List.filter_sublist
    · exact List.Sublist.refl source
  rw [kept]
  split
  · exact (firstOfEach_sublist _ _).trans haccepted
  · exact haccepted

theorem mem_of_mem_sorted {row : Tuple V} (h : row ∈ b.sorted E source) : row ∈ source :=
  kept_sublist.subset ((List.perm_insertionSort _ _).subset h)

theorem pairwise_sorted : (b.sorted E source).Pairwise (E.Before b.order) :=
  List.pairwise_insertionSort _ _

/-- Selects that differ in their select lists keep the same rows, if these look alike in both or
in none. -/
theorem kept_columns_congr {list : List SelectColumn}
    (h : b.distinct = true → ∀ r ∈ source, ∀ r' ∈ source,
      projectBy E list r = projectBy E list r' ↔
        projectBy E b.columns r = projectBy E b.columns r') :
    ({ b with columns := list } : SelectBody).kept E source = b.kept E source := by
  rw [kept, kept]
  by_cases hd : b.distinct = true
  · simp only [hd, if_true]
    refine firstOfEach_congr fun r hr r' hr' => h hd r ?_ r' ?_
    · split at hr
      · exact (List.mem_filter.mp hr).1
      · exact hr
    · split at hr'
      · exact (List.mem_filter.mp hr').1
      · exact hr'
  · simp only [hd]
    rfl

end SelectBody

/-- The rows of a select. -/
def Select.rows (tables : String → Table V) : Select → List (Tuple V)
  | .table source body => body.rows E (tables source).rows
  | .derived inner _ body => body.rows E (inner.rows tables)

end EntitySql
