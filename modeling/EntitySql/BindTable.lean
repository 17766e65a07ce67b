import EntitySql.Dialect

/-!
# Bind tables

The bind table of a statement holds its bind values in the order in which they were first asked
for. A request for a column and a value that the table holds already gives the slot it holds;
every other request appends a slot. Names are `p` with the index of the statement and the column,
in which each character that is not an ASCII letter, a digit or an underscore is replaced by an
underscore; a name that is taken is numbered.

At most as many names are taken as the table has slots, so among one more consecutive numbers
than that there is a free one, and `freshNumber` looks at just these.
-/

namespace EntitySql

/-- What a bind value belongs to: the index of the statement and the column. -/
structure SlotKey where
  index : Nat
  column : String
deriving DecidableEq, Repr

/-- One bind slot of a statement. -/
structure BindSlot where
  key : SlotKey
  value : Value
  /-- The name of the slot, which no other slot of the table has. -/
  name : String
  /-- The text of the slot in the SQL. -/
  text : String
  /-- The position of the slot, from 1. -/
  ordinal : Nat
deriving Repr

/-- The bind slots of one statement. -/
structure BindTable where
  index : Nat
  slots : List BindSlot := []
deriving Repr

/-! ### Names -/

/-- The column with every character that a name cannot hold replaced by an underscore. -/
def asName (column : String) : String :=
  String.ofList (column.toList.map fun c => if isNameRest c then c else '_')

/-- The name of a number: the base itself for 0, else the base with the number after it. -/
def numberedName (base : String) (n : Nat) : String :=
  if n = 0 then base else base ++ "_" ++ toString n

/-- The first number from `start` on whose name is not taken. -/
def freshNumber (base : String) (taken : List String) (start : Nat) : Nat :=
  ((List.range' start (taken.length + 1)).find? fun n =>
    !taken.contains (numberedName base n)).getD start

namespace BindTable

/-- The name of a column before numbering. -/
def baseName (t : BindTable) (column : String) : String :=
  "p" ++ toString t.index ++ "_" ++ asName column

/-- The slot that binds a value for a column, if there is one. -/
def find? (t : BindTable) (column : String) (value : Value) : Option BindSlot :=
  t.slots.find? fun s => s.key == ⟨t.index, column⟩ && s.value.same value

/-- The slot that a new column and value would get. Numbering starts at the number of slots that
the column has already. -/
def freshSlot (t : BindTable) (d : Dialect) (column : String) (value : Value) : BindSlot :=
  let base := t.baseName column
  let sameKey := t.slots.countP fun s => s.key == ⟨t.index, column⟩
  let name := numberedName base (freshNumber base (t.slots.map (·.name)) sameKey)
  let ordinal := t.slots.length + 1
  { key := ⟨t.index, column⟩, value, name, text := d.slotText name ordinal, ordinal }

/-- The slot for a column and a value, which is appended if the table has none. -/
def bind (t : BindTable) (d : Dialect) (column : String) (value : Value) :
    BindSlot × BindTable :=
  match t.find? column value with
  | some s => (s, t)
  | none =>
    let s := t.freshSlot d column value
    (s, { t with slots := t.slots ++ [s] })

/-- The number of bind slots. -/
def size (t : BindTable) : Nat :=
  t.slots.length

end BindTable

end EntitySql
