import EntitySql.Json.Compact
import EntitySql.Row
import EntitySql.Text.Base64

/-!
# Storage classes

The embedded database keeps a value in one of five storage classes. `Stored.ofValue` chooses the
class in which a bind value is stored, and `Stored.toValue?` the value as which a stored one is
read. A text that is not valid UTF-8 is read as the Base64 of its bytes, like a blob; an
infinite real has no value, and its column is missing from the row.

Stored values are ordered by `Stored.compare`: nulls, then numbers by their exact value, whether
integer or real, then texts and then blobs by their bytes. Two values are equal
(`Stored.equals`) when neither comes first, and a null is equal to nothing.
-/

namespace EntitySql

-- whichever libraries are there, bytes are compared in the same way
local instance (priority := high) decidableEqBytes : DecidableEq ByteArray :=
  ByteArray.instDecidableEq

/-- A value in one of the five storage classes. -/
inductive Stored where
  | null
  | integer (i : Int64)
  | real (x : Double)
  | text (bytes : ByteArray)
  | blob (bytes : ByteArray)
deriving DecidableEq, Inhabited

/-- A signed 64-bit integer as a number. -/
def Number.ofInt64 (i : Int64) : Number :=
  .int i.toInt <| by
    have low := Int64.le_toInt i
    have high := Int64.toInt_lt i
    rw [fitsWord_iff, leastSigned, greatestUnsigned]
    omega

namespace Stored

/-- A text in its UTF-8 bytes. -/
def ofText (s : String) : Stored :=
  .text s.toUTF8

/-- A number is stored as an integer if it is one in the signed range, and else as a real. -/
def ofNumber : Number → Stored
  | .int i h =>
    if fitsSigned i then .integer (Int64.ofInt i) else .real (Number.int i h).toDouble
  | .float x _ => .real x

/-- How a bind value is stored. Booleans are stored as the integers 1 and 0, arrays and objects
as their compact text. -/
def ofValue : Value → Stored
  | .null => .null
  | .bool b => .integer (if b then 1 else 0)
  | .number n => ofNumber n
  | .text s => ofText s
  | .array items => ofText (Value.array items).compact
  | .object entries => ofText (Value.object entries).compact

/-- How a stored value is read. An infinite real has no value. -/
def toValue? : Stored → Option Value
  | .null => some .null
  | .integer i => some (.number (.ofInt64 i))
  | .real x => (Number.ofDouble? x).map .number
  | .text bytes => some (.text ((String.fromUTF8? bytes).getD (Base64.encode bytes)))
  | .blob bytes => some (.text (Base64.encode bytes))

/-! ### Order -/

/-- The place of the storage class in the order. Integers and reals share one. -/
def rank : Stored → Nat
  | .null => 0
  | .integer _ => 1
  | .real _ => 1
  | .text _ => 2
  | .blob _ => 3

/-- A stored number as an integer over a positive denominator. -/
def ratio? : Stored → Option (Int × Nat)
  | .integer i => some (i.toInt, 1)
  | .real x => some x.ratio
  | _ => none

/-- The bytes of a text or a blob. -/
def bytes : Stored → List UInt8
  | .text bytes => bytes.toList
  | .blob bytes => bytes.toList
  | _ => []

/-- The order of stored values. -/
def compare (x y : Stored) : Ordering :=
  match x.ratio?, y.ratio? with
  | some (a, m), some (b, n) => Ord.compare (a * n) (b * m)
  | _, _ => (Ord.compare x.rank y.rank).then (Ord.compare x.bytes y.bytes)

/-- The values are equal, and not null. -/
def equals (x y : Stored) : Bool :=
  match x with
  | .null => false
  | x => x.compare y == .eq

end Stored

/-- A row as the database gives it: its columns in order, with their names. -/
abbrev StoredRow := List (String × Stored)

/-- The row of a list of columns. Of several columns of one name the last one counts, also when
it has no value. -/
def Row.ofStored (columns : StoredRow) : Row :=
  columns.foldl
    (fun row column =>
      match column.2.toValue? with
      | some v => row.insert column.1 v
      | none => row.erase column.1)
    {}

end EntitySql
