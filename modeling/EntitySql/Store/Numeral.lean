import EntitySql.Double.Extended
import EntitySql.Json.Document
import EntitySql.Store.Stored

/-!
# Numerals of SQL texts

A numeral is a number in a SQL text without its sign: decimal digits with an optional fraction and
an optional exponent, of which the digits before or after the point may be missing, or a
hexadecimal integer after `0x`. Single underscores may stand between two digits.

`Numeral.stored?` gives the stored value. A decimal integer in the signed 64-bit range is an
integer, and a hexadecimal one gives the 64 bits of an integer. Every other numeral is a real, which
is found in this way: of the digits as many are taken as fit a word (`takeDigits`), the power of
ten is brought as near to one as the word allows (`raise`, `lower`), and what is left of it is
multiplied in with sixty-four significant bits.
-/

namespace EntitySql

/-- A number of a SQL text without its sign. -/
inductive Numeral where
  | decimal (whole : List Nat) (fraction : Option (List Nat)) (exponent : Option Int)
  | hexadecimal (digits : List Nat)
deriving Repr

namespace Numeral

/-! ### Reading -/

/-- A character of a word. All characters outside ASCII are. -/
def isWordChar (c : Char) : Bool :=
  c.isAlphanum || c == '_' || c == '$' || decide (0x80 ≤ c.toNat)

/-- The digits at the start of the input, and the input after them. A single underscore between
two digits is passed over. -/
def digits (value? : Char → Option Nat) : List Char → List Nat × List Char
  | [] => ([], [])
  | c :: rest =>
    match value? c with
    | none => ([], c :: rest)
    | some n =>
      let (ds, after) := match rest with
        | '_' :: d :: more =>
          if (value? d).isSome then digits value? (d :: more) else ([], rest)
        | rest => digits value? rest
      (n :: ds, after)

/-- Decimal digits at the start of the input. -/
def decimalDigits : List Char → List Nat × List Char :=
  digits Document.digit?

/-- The greatest exponent that takes a further digit. -/
def exponentRoom : Nat := 9999

/-- The exponent of its digits. A digit after one that makes it exceed `exponentRoom` leaves
`exponentRoom + 1`. -/
def exponentOfDigits (ds : List Nat) : Nat :=
  ds.foldl (fun e d => if e ≤ exponentRoom then e * 10 + d else exponentRoom + 1) 0

/-- An exponent at the start of the input: `e` or `E`, an optional sign, and a digit. Without the
digit there is none. -/
def exponent : List Char → Option Int × List Char
  | c :: cs =>
    if c = 'e' ∨ c = 'E' then
      let (negative, rest) := match cs with
        | '-' :: rest => (true, rest)
        | '+' :: rest => (false, rest)
        | rest => (false, rest)
      match decimalDigits rest with
      | ([], _) => (none, c :: cs)
      | (ds, rest) =>
        let e : Int := exponentOfDigits ds
        (some (if negative then -e else e), rest)
    else (none, c :: cs)
  | [] => (none, [])

/-- A decimal numeral at the start of the input. -/
def decimalAt (cs : List Char) : Numeral × List Char :=
  let (whole, rest) := decimalDigits cs
  let (fraction, rest) := match rest with
    | '.' :: rest =>
      let (ds, rest) := decimalDigits rest
      (some ds, rest)
    | rest => (none, rest)
  let (e, rest) := exponent rest
  (.decimal whole fraction e, rest)

/-- The numeral at the start of the input, which starts with one. -/
def numeralAt (cs : List Char) : Numeral × List Char :=
  match cs with
  | '0' :: x :: rest =>
    if x = 'x' ∨ x = 'X' then
      match digits Document.hexDigit? rest with
      | ([], _) => decimalAt cs
      | (ds, rest) => (.hexadecimal ds, rest)
    else decimalAt cs
  | _ => decimalAt cs

/-- A numeral at the start of the input. It must not run into a word. -/
def read? (cs : List Char) : Option (Numeral × List Char) :=
  let (numeral, rest) := numeralAt cs
  match rest with
  | c :: _ => if isWordChar c then none else some (numeral, rest)
  | [] => some (numeral, [])

/-! ### Reals -/

/-- A significand below this number takes one more digit without leaving a word. -/
def digitRoom : Nat := 1844674407370955160

/-- A significand below this number times ten fits a word. -/
def zeroRoom : Nat := 1844674407370955161

/-- Appends digits to a significand while there is room, and counts the digits left. -/
def takeDigits : List Nat → Nat → Nat × Nat
  | [], s => (s, 0)
  | d :: ds, s => if s < digitRoom then takeDigits ds (s * 10 + d) else (s, ds.length + 1)

/-- Moves powers of ten into a significand while there is room: from `s · 10 ^ e` to the new
significand and exponent. -/
def raise : Nat → Nat → Nat × Nat
  | 0, s => (s, 0)
  | e + 1, s => if s < zeroRoom then raise e (s * 10) else (s, e + 1)

/-- Cancels powers of ten that divide a significand: from `s / 10 ^ e` to the new significand and
exponent. -/
def lower : Nat → Nat → Nat × Nat
  | 0, s => (s, 0)
  | e + 1, s => if s % 10 = 0 then lower e (s / 10) else (s, e + 1)

/-- The positive magnitude `s · 10 ^ e` with sixty-four significant bits. -/
def scaled (s : Nat) (e : Int) : Extended :=
  if e < 0 then
    let (s, left) := lower e.natAbs s
    (Extended.ofNat s).scale (-(left : Int))
  else
    let (s, left) := raise e.natAbs s
    (Extended.ofNat s).scale left

/-- The real of decimal digits. Digits before the point that find no room count as zeros, and
those after it are dropped. -/
def real (negative : Bool) (whole fraction : List Nat) (exponent : Int) : Double :=
  let (s, zeros) := takeDigits whole 0
  let (s, dropped) := takeDigits fraction s
  if s = 0 then Double.ofSignBits negative 0
  else (scaled s (exponent + zeros - (fraction.length - dropped : Nat))).toDouble negative

/-! ### Stored values -/

/-- The integer of hexadecimal digits, given by its bits. At most sixteen digits after the leading
zeros fit, and the least integer has no negative. -/
def bits? (negative : Bool) (ds : List Nat) : Option Stored :=
  let bits := ds.foldl (fun n d => n * 16 + d) 0
  if bits < wordCount then
    let i : Int64 := (UInt64.ofNat bits).toInt64
    if negative then
      if bits = 9223372036854775808 then none else some (.integer (-i))
    else some (.integer i)
  else none

/-- The stored value of a numeral with its sign. -/
def stored? (negative : Bool) : Numeral → Option Stored
  | .hexadecimal ds => bits? negative ds
  | .decimal whole none none =>
    let n : Int := NumberLiteral.natOfDigits whole
    let i := if negative then -n else n
    some (if fitsSigned i then .integer (Int64.ofInt i) else .real (real negative whole [] 0))
  | .decimal whole fraction exponent =>
    some (.real (real negative whole (fraction.getD []) (exponent.getD 0)))

end Numeral

end EntitySql
