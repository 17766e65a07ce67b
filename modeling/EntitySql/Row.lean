import EntitySql.Value.Basic

/-!
# Result rows

A `Row` holds the columns of one result row by name. `Row.get?` reads a column as a value of a
chosen type through `OfValue`: an integer must fit its type and is never read from a double, a
double may be read from an integer, and there is no other coercion.
-/

namespace EntitySql

/-- One row of a query result. -/
structure Row where
  columns : Record := []
deriving Repr

/-! ### Reading values -/

/-- Types that a value can be read as. -/
class OfValue (α : Type) where
  ofValue? : Value → Option α

/-- The integer of a value within inclusive bounds. -/
def Value.intWithin? (low high : Int) : Value → Option Int
  | .number (.int i _) => if low ≤ i ∧ i ≤ high then some i else none
  | _ => none

/-- A value as a signed 64-bit integer. -/
def Value.int64? : Value → Option Int :=
  Value.intWithin? leastSigned greatestSigned

/-- A value as an unsigned 64-bit integer. -/
def Value.uint64? : Value → Option Int :=
  Value.intWithin? 0 greatestUnsigned

/-- A value as a text. -/
def Value.text? : Value → Option String
  | .text s => some s
  | _ => none

/-- A value as a boolean. -/
def Value.bool? : Value → Option Bool
  | .bool b => some b
  | _ => none

/-- A value as a double; integers are rounded. -/
def Value.double? : Value → Option Double
  | .number n => some n.toDouble
  | _ => none

instance : OfValue Int64 := ⟨fun v => v.int64?.map Int64.ofInt⟩
instance : OfValue UInt64 := ⟨fun v => v.uint64?.map fun i => UInt64.ofNat i.toNat⟩
instance : OfValue UInt8 := ⟨fun v => (v.intWithin? 0 255).map fun i => UInt8.ofNat i.toNat⟩
instance : OfValue Double := ⟨Value.double?⟩
instance : OfValue Bool := ⟨Value.bool?⟩
instance : OfValue String := ⟨Value.text?⟩
instance : OfValue Value := ⟨some⟩

/-- An array is read item by item. -/
instance {α : Type} [OfValue α] : OfValue (List α) where
  ofValue?
    | .array items => items.mapM OfValue.ofValue?
    | _ => none

/-- An optional value may be null. -/
instance {α : Type} [OfValue α] : OfValue (Option α) where
  ofValue?
    | .null => some none
    | v => (OfValue.ofValue? v).map some

namespace Row

/-- The value of a column. -/
def value? (r : Row) (column : String) : Option Value :=
  r.columns.find? column

/-- Sets a column. -/
def insert (r : Row) (column : String) (value : Value) : Row :=
  ⟨r.columns.insert column value⟩

/-- Removes a column. -/
def erase (r : Row) (column : String) : Row :=
  ⟨r.columns.erase column⟩

theorem value?_insert_self (r : Row) (column : String) (value : Value) :
    (r.insert column value).value? column = some value :=
  Record.find?_insert_self r.columns column value

theorem value?_insert_of_ne (r : Row) {column other : String} (value : Value)
    (h : other ≠ column) : (r.insert column value).value? other = r.value? other :=
  Record.find?_insert_of_ne r.columns value h

/-- The value of a column, read as a chosen type. -/
def get? (r : Row) (α : Type) [OfValue α] (column : String) : Option α :=
  (r.value? column).bind OfValue.ofValue?

/-- The number of columns. -/
def size (r : Row) : Nat :=
  r.columns.length

end Row

end EntitySql
