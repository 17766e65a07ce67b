import EntitySql.Double.Shortest
import EntitySql.Value.Basic

/-!
# Number and string literals of JSON

The parts of a JSON text that carry more than one reading are kept as they were written:

* a `NumberLiteral` holds the digits of a number. Without a fraction and an exponent it is an
  integer if it fits; a literal that does not fit, a negative zero, and every literal with a
  fraction or an exponent is a double (`NumberLiteral.toNumber?`);
* a string body is a list of `TextUnit`s, of which an escaped code unit may be half of a
  surrogate pair; `TextUnit.decode?` joins the halves and refuses a half that stands alone.

As a value of a document the double of a literal is its significand, cut to the digits that fit
64 bits and rounded to a double, then multiplied or divided by the rounded power of ten; each step
rounds by itself (`NumberLiteral.toDouble?`).
-/

namespace EntitySql

/-! ### Number literals -/

/-- A number as it is written: its sign, its digits before and after the point, and its
exponent, if it has one. -/
structure NumberLiteral where
  negative : Bool
  whole : List Nat
  fraction : Option (List Nat)
  exponent : Option Int
deriving Repr

namespace NumberLiteral

/-- The natural number of a list of digits. -/
def natOfDigits (ds : List Nat) : Nat :=
  ds.foldl (fun n d => n * 10 + d) 0

/-- Appends whole digits to a significand as long as it fits, and counts the digits left. -/
def absorbWhole : List Nat → Nat → Nat × Nat
  | [], s => (s, 0)
  | d :: ds, s =>
    if s * 10 + d < wordCount then absorbWhole ds (s * 10 + d) else (s, ds.length + 1)

/-- Appends fraction digits to a significand as long as it fits, and counts the digits used. -/
def absorbFraction : List Nat → Nat → Nat × Nat
  | [], s => (s, 0)
  | d :: ds, s =>
    if s * 10 + d < wordCount then
      let (s', used) := absorbFraction ds (s * 10 + d)
      (s', used + 1)
    else (s, 0)

/-- The double nearest to `10 ^ e`. -/
def powerOfTen (e : Nat) : Double :=
  Double.ofRatio false (Nat.pow 10 e) 1

/-- Divides by `10 ^ e` in steps of at most `10 ^ 308`, until the value is zero. -/
def scaleDown (x : Double) (e : Nat) : Double :=
  if x.isZero then x
  else if e ≤ 308 then x.divAbs (powerOfTen e)
  else scaleDown (x.divAbs (powerOfTen 308)) (e - 308)
termination_by e

/-- The magnitude `significand · 10 ^ e`, unless it is above the largest finite double. -/
def scaled? (significand : Nat) (e : Int) : Option Double :=
  let x := Double.ofRatio false significand 1
  if e < 0 then some (scaleDown x e.natAbs)
  else if x.isZero then some x
  else if e ≤ 308 then
    let y := x.mulAbs (powerOfTen e.toNat)
    if y.isFinite then some y else none
  else none

/-- The literal as a double. -/
def toDouble? (l : NumberLiteral) : Option Double :=
  let (s, left) := absorbWhole l.whole 0
  let (s, used) := absorbFraction (l.fraction.getD []) s
  (scaled? s (left - used + l.exponent.getD 0)).map (·.withSign l.negative)

/-- The literal as an integer, if it is written as one and fits. A negative zero does not. -/
def toInt? (l : NumberLiteral) : Option Number :=
  match l.fraction, l.exponent, absorbWhole l.whole 0 with
  | none, none, (s, 0) =>
    if l.negative then (if s = 0 then none else Number.ofInt? (-(s : Int)))
    else Number.ofInt? s
  | _, _, _ => none

/-- The number a literal stands for; there is none above the largest finite double. -/
def toNumber? (l : NumberLiteral) : Option Number :=
  match l.toInt? with
  | some n => some n
  | none => l.toDouble?.bind Number.ofDouble?

/-- The decimal digits of a natural number. -/
def digitsOf (n : Nat) : List Nat :=
  (Nat.toDigits 10 n).map fun c => c.toNat - '0'.toNat

/-- A literal of a given number. -/
def ofNumber : Number → NumberLiteral
  | .int i _ => ⟨decide (i < 0), digitsOf i.natAbs, none, none⟩
  | .float x _ =>
    let d := x.shortest
    ⟨x.isNegative, if x.isZero then [0] else digitsOf d.digits, none,
      some (if x.isZero then 0 else d.exponent)⟩

end NumberLiteral

/-! ### String bodies -/

/-- One item of a string body: a character, or an escaped 16-bit code unit. -/
inductive TextUnit where
  | char (c : Char)
  | code (unit : Nat)
deriving Repr

namespace TextUnit

/-- The first halves of surrogate pairs. -/
def isHigh (u : Nat) : Bool :=
  decide (0xD800 ≤ u) && decide (u < 0xDC00)

/-- The second halves of surrogate pairs. -/
def isLow (u : Nat) : Bool :=
  decide (0xDC00 ≤ u) && decide (u < 0xE000)

/-- The characters of a string body, unless half of a surrogate pair stands alone. -/
def decodeChars? : List TextUnit → Option (List Char)
  | [] => some []
  | .char c :: rest => (decodeChars? rest).map (c :: ·)
  | .code u :: .code v :: rest =>
    if isHigh u then
      if isLow v then
        (decodeChars? rest).map (Char.ofNat (0x10000 + (u - 0xD800) * 0x400 + (v - 0xDC00)) :: ·)
      else none
    else if isLow u then none
    else (decodeChars? (.code v :: rest)).map (Char.ofNat u :: ·)
  | .code u :: rest =>
    if isHigh u || isLow u then none else (decodeChars? rest).map (Char.ofNat u :: ·)

/-- The text of a string body. -/
def decode? (body : List TextUnit) : Option String :=
  (decodeChars? body).map String.ofList

/-- The body of a text without escapes. -/
def ofText (s : String) : List TextUnit :=
  s.toList.map .char

end TextUnit

end EntitySql
