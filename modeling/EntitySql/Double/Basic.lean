/-!
# Double-precision numbers by their bits

A `Double` is a 64-bit pattern read as sign, exponent field and fraction. Everything here is
exact arithmetic on natural numbers: the magnitude of a finite double is the fraction
`significand · 2 ^ scale`, and `Double.ofRatio` goes the other way, from a fraction to the
nearest double.

* `Double.magnitude` writes a finite magnitude as a numerator over a denominator.
* `Double.ofRatio` rounds a fraction to the nearest double, a tie to the even significand,
  and a magnitude above the largest finite double to infinity.
* `Double.mulAbs` and `Double.divAbs` are the rounded product and quotient of magnitudes.
-/

namespace EntitySql

/-- A double-precision number, given by its bit pattern. -/
structure Double where
  bits : UInt64
deriving DecidableEq, Repr, Inhabited

namespace Double

/-! ### Reading the pattern -/

/-- The sign bit is set. -/
def isNegative (x : Double) : Bool :=
  decide (Nat.pow 2 63 ≤ x.bits.toNat)

/-- The pattern without its sign bit. -/
def unsignedBits (x : Double) : Nat :=
  x.bits.toNat % Nat.pow 2 63

/-- The eleven exponent bits. -/
def exponentField (x : Double) : Nat :=
  x.unsignedBits / Nat.pow 2 52

/-- The fifty-two fraction bits. -/
def fraction (x : Double) : Nat :=
  x.bits.toNat % Nat.pow 2 52

/-- Neither infinite nor a NaN. -/
def isFinite (x : Double) : Bool :=
  x.exponentField != 2047

/-- One of the two zeros. -/
def isZero (x : Double) : Bool :=
  x.unsignedBits == 0

/-- The integer `m` of the magnitude `m · 2 ^ scale` of a finite double. -/
def significand (x : Double) : Nat :=
  if x.exponentField = 0 then x.fraction else x.fraction + Nat.pow 2 52

/-- The exponent `q` of the magnitude `significand · 2 ^ q` of a finite double. -/
def scale (x : Double) : Int :=
  if x.exponentField = 0 then -1074 else x.exponentField - 1075

/-- The magnitude of a finite double as a numerator over a denominator. -/
def magnitude (x : Double) : Nat × Nat :=
  (x.significand * Nat.pow 2 x.scale.toNat, Nat.pow 2 (-x.scale).toNat)

/-- The number as an integer over a positive denominator. Infinity counts as `2 ^ 1024`, which is
above every finite double. -/
def ratio (x : Double) : Int × Nat :=
  (if x.isNegative then -(x.magnitude.1 : Int) else x.magnitude.1, x.magnitude.2)

/-- Numbers compare as numbers: the two zeros are equal, and every other finite double is
equal to itself only. -/
def sameNumber (x y : Double) : Bool :=
  x == y || x.isZero && y.isZero

/-! ### Rounding -/

/-- The quotient `num / den` to the nearest integer, a half to the even neighbour. -/
def roundHalfEven (num den : Nat) : Nat :=
  let quotient := num / den
  let twice := 2 * (num % den)
  if twice < den then quotient
  else if den < twice then quotient + 1
  else quotient + quotient % 2

/-- The greatest `e` with `2 ^ e ≤ num / den`, for positive arguments. -/
def binaryExponent (num den : Nat) : Int :=
  let guess : Int := (Nat.log2 num : Int) - Nat.log2 den
  if num * Nat.pow 2 (-guess).toNat < den * Nat.pow 2 guess.toNat then guess - 1 else guess

/-- The pattern of infinity without its sign bit. -/
def infinityBits : Nat :=
  2047 * Nat.pow 2 52

/-- The largest finite magnitude. -/
def largestFinite : Nat :=
  (Nat.pow 2 53 - 1) * Nat.pow 2 971

/-- The unsigned pattern of the double nearest to `num / den`. A significand that rounds up to
`2 ^ 53` carries into the exponent field by itself. -/
def nearestBits (num den : Nat) : Nat :=
  let precise := binaryExponent num den - 52
  let unit : Int := if precise < -1074 then -1074 else precise
  let m := roundHalfEven (num * Nat.pow 2 (-unit).toNat) (den * Nat.pow 2 unit.toNat)
  let pattern := (unit + 1075).toNat * Nat.pow 2 52 + (m - Nat.pow 2 52)
  if m < Nat.pow 2 52 then m else if pattern < infinityBits then pattern else infinityBits

/-- A double from its sign and its unsigned pattern. -/
def ofSignBits (negative : Bool) (unsigned : Nat) : Double :=
  ⟨UInt64.ofNat (if negative then Nat.pow 2 63 + unsigned else unsigned)⟩

/-- The double nearest to `num / den`, with the given sign; a zero numerator gives a zero. -/
def ofRatio (negative : Bool) (num den : Nat) : Double :=
  ofSignBits negative (if num = 0 then 0 else nearestBits num den)

/-- The double nearest to an integer. -/
def ofInt (i : Int) : Double :=
  ofRatio (decide (i < 0)) i.natAbs 1

/-- The rounded product of two magnitudes. -/
def mulAbs (x y : Double) : Double :=
  ofRatio false (x.magnitude.1 * y.magnitude.1) (x.magnitude.2 * y.magnitude.2)

/-- The rounded quotient of two magnitudes. -/
def divAbs (x y : Double) : Double :=
  ofRatio false (x.magnitude.1 * y.magnitude.2) (x.magnitude.2 * y.magnitude.1)

/-- The same magnitude with the given sign. -/
def withSign (negative : Bool) (x : Double) : Double :=
  ofSignBits negative x.unsignedBits

/-- The sixteen lower-case hexadecimal digits of the pattern. -/
def hexDigits (x : Double) : String :=
  let digits := Nat.toDigits 16 x.bits.toNat
  String.ofList (List.replicate (16 - digits.length) '0' ++ digits)

end Double

end EntitySql
