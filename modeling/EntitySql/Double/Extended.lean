import EntitySql.Double.Basic

/-!
# Magnitudes of sixty-four significant bits

An `Extended` magnitude keeps sixty-four significant bits, eleven more than a double, and any
exponent. `Extended.round` brings a fraction to this precision and `Extended.mul` multiplies; each
rounds once, a tie to the even significand. `Extended.scale` multiplies by a power of ten in steps
of `10 ^ 100`, `10 ^ 10` and `10`, so that its result carries one rounding of each step, and
`Extended.toDouble` rounds the last time.
-/

namespace EntitySql

/-- The magnitude `significand · 2 ^ exponent`. -/
structure Extended where
  significand : Nat
  exponent : Int
deriving DecidableEq, Repr, Inhabited

namespace Extended

/-- A natural number as it is. -/
def ofNat (n : Nat) : Extended :=
  ⟨n, 0⟩

/-- The magnitude of sixty-four significant bits nearest to `num / den`, for positive
arguments. -/
def round (num den : Nat) : Extended :=
  let unit := Double.binaryExponent num den - 63
  ⟨Double.roundHalfEven (num * Nat.pow 2 (-unit).toNat) (den * Nat.pow 2 unit.toNat), unit⟩

/-- The rounded product of positive magnitudes. -/
def mul (x y : Extended) : Extended :=
  let product := round (x.significand * y.significand) 1
  ⟨product.significand, product.exponent + x.exponent + y.exponent⟩

/-- The rounded power `10 ^ e`. -/
def powerOfTen (e : Int) : Extended :=
  round (Nat.pow 10 e.toNat) (Nat.pow 10 (-e).toNat)

/-- Multiplies by `10 ^ step`, `count` times. -/
def times (step : Int) (count : Nat) (x : Extended) : Extended :=
  let factor := powerOfTen step
  Nat.repeat (fun y => y.mul factor) count x

/-- The positive magnitude `x · 10 ^ e`, by steps of `10 ^ 100`, then of `10 ^ 10`, then of
`10`, all upwards or all downwards. -/
def scale (x : Extended) (e : Int) : Extended :=
  let n := e.natAbs
  let step := fun (k : Int) => if e < 0 then -k else k
  times (step 1) (n % 10) (times (step 10) (n % 100 / 10) (times (step 100) (n / 100) x))

/-- The nearest double with the given sign. A magnitude above the largest finite double is
infinite, however little it lies above. -/
def toDouble (negative : Bool) (x : Extended) : Double :=
  let num := x.significand * Nat.pow 2 x.exponent.toNat
  let den := Nat.pow 2 (-x.exponent).toNat
  if Double.largestFinite * den < num then Double.ofSignBits negative Double.infinityBits
  else Double.ofRatio negative num den

end Extended

end EntitySql
