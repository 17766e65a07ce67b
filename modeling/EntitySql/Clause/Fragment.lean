/-!
# Fragments of a statement

Clauses are made of fragments: texts of conditions, items of a select list, items of an ordering,
and the two lists of an insert. Fragments wait on a `Stack` until they are combined or handed
over; `Stack.toList` is the stack as a list in the order of emission.
-/

namespace EntitySql

/-! ### Stacks -/

/-- A stack of fragments, the latest first. -/
structure Stack (α : Type) where
  latestFirst : List α := []
deriving DecidableEq, Repr

namespace Stack

variable {α : Type}

/-- The empty stack. -/
def empty : Stack α := ⟨[]⟩

/-- Emits a fragment. -/
def push (s : Stack α) (x : α) : Stack α :=
  ⟨x :: s.latestFirst⟩

/-- Takes the latest fragment, if there is one. -/
def pop (s : Stack α) : Option α × Stack α :=
  match s.latestFirst with
  | [] => (none, s)
  | x :: rest => (some x, ⟨rest⟩)

/-- The fragments in the order of emission. -/
def toList (s : Stack α) : List α :=
  s.latestFirst.reverse

/-- Takes all fragments, in the order of emission. -/
def takeAll (s : Stack α) : List α × Stack α :=
  (s.toList, empty)

/-- The number of fragments. -/
def size (s : Stack α) : Nat :=
  s.latestFirst.length

/-- There is no fragment. -/
def isEmpty (s : Stack α) : Bool :=
  s.latestFirst.isEmpty

@[simp]
theorem toList_empty : (empty : Stack α).toList = [] := rfl

@[simp]
theorem toList_push (s : Stack α) (x : α) : (s.push x).toList = s.toList ++ [x] := by
  simp [toList, push]

@[simp]
theorem pop_push (s : Stack α) (x : α) : (s.push x).pop = (some x, s) := rfl

@[simp]
theorem pop_empty : (empty : Stack α).pop = (none, empty) := rfl

@[simp]
theorem takeAll_fst (s : Stack α) : s.takeAll.1 = s.toList := rfl

@[simp]
theorem takeAll_snd (s : Stack α) : s.takeAll.2 = empty := rfl

@[simp]
theorem length_toList (s : Stack α) : s.toList.length = s.size := by
  simp [toList, size]

theorem isEmpty_iff (s : Stack α) : s.isEmpty = true ↔ s = empty := by
  cases s
  simp [isEmpty, empty]

end Stack

/-! ### Columns of a select list -/

/-- A column of a select list. -/
inductive SelectColumn where
  /-- Every column of the source. -/
  | every
  /-- An expression over the source, under a label if there is one. -/
  | expr (text : String) (label : Option String)
deriving DecidableEq, Repr

/-- The column in SQL. -/
def SelectColumn.toSql : SelectColumn → String
  | .every => "*"
  | .expr text none => text
  | .expr text (some label) => text ++ " AS " ++ label

/-- Texts as the columns of a select list. -/
instance : Coe (List String) (List SelectColumn) where
  coe texts := texts.map fun text => .expr text none

/-! ### Items of a select list -/

/-- One item of a select list: the column of a member. -/
structure SelectItem where
  /-- The column as it stands in the source table. -/
  expr : String
  /-- The name given to a computed column. -/
  label : Option String
  member : String
  /-- The column has a plain name. -/
  plain : Bool
deriving DecidableEq, Repr

namespace SelectItem

/-- The item as a column of a select list. -/
def column (i : SelectItem) : SelectColumn :=
  .expr i.expr i.label

/-- The item in SQL. -/
def toSql (i : SelectItem) : String :=
  i.column.toSql

/-- The name under which the column is seen once it is selected. -/
def output (i : SelectItem) : String :=
  i.label.getD i.expr

end SelectItem

/-! ### Items of an ordering -/

/-- One item of an ordering. -/
structure OrderItem where
  expr : String
  /-- The name of the column once it is carried through a derived table. -/
  output : String
  ascending : Bool
deriving DecidableEq, Repr

namespace OrderItem

/-- The item in SQL. -/
def toSql (i : OrderItem) : String :=
  i.expr ++ if i.ascending then " ASC" else " DESC"

/-- The item in the other direction. -/
def flipped (i : OrderItem) : OrderItem :=
  { i with ascending := !i.ascending }

/-- The item on the column of a derived table. -/
def onOutput (i : OrderItem) : OrderItem :=
  { i with expr := i.output }

/-- The column that carries the item through a derived table. -/
def carriedColumn (i : OrderItem) : SelectColumn :=
  .expr i.expr (if i.expr = i.output then none else some i.output)

/-- The column that carries the item, in SQL. -/
def carriedItem (i : OrderItem) : String :=
  i.carriedColumn.toSql

@[simp]
theorem flipped_flipped (i : OrderItem) : i.flipped.flipped = i := by
  simp [flipped]

@[simp]
theorem onOutput_onOutput (i : OrderItem) : i.onOutput.onOutput = i.onOutput := rfl

theorem flipped_onOutput (i : OrderItem) : i.onOutput.flipped = i.flipped.onOutput := rfl

end OrderItem

/-! ### Inserts -/

/-- The columns of an insert and the texts of their values. -/
structure InsertLists where
  columns : List String := []
  values : List String := []
deriving DecidableEq, Repr

namespace InsertLists

/-- Nothing is inserted. -/
def isEmpty (l : InsertLists) : Bool :=
  l.columns.isEmpty

/-- Both lists in SQL. -/
def toSql (l : InsertLists) : String :=
  "(" ++ String.intercalate ", " l.columns ++ ") VALUES (" ++ String.intercalate ", " l.values
    ++ ")"

end InsertLists

end EntitySql
