import EntitySql.Double.Basic

/-!
# The shortest decimal text of a double

A finite double is written with the fewest digits that read back as the same double, and of
those the digits nearest to it. Digits are searched on decimal grids of growing fineness: on
the grid of `n` digits only the two neighbours of the value can be nearest, so the search looks
at these two and keeps those inside the interval of numbers that round to the double. The
interval holds its end points exactly when the significand is even.

The text is positional while the decimal point stands at most sixteen places after and four
places before the first digit, with `.0` after a whole number; otherwise it has an exponent, which
is always signed.
-/

namespace EntitySql

namespace Double

/-! ### The interval that rounds to a double -/

/-- The rounding interval of a nonzero finite double over a common denominator: the value and
both ends are numerators over `den`. -/
structure RoundingInterval where
  lower : Nat
  value : Nat
  upper : Nat
  den : Nat
  closed : Bool

/-- The interval of numbers that round to `x`. The gap below the least significand of a binade
is half as wide as the gap above it. -/
def roundingInterval (x : Double) : RoundingInterval :=
  let m := x.significand
  let below := if x.fraction = 0 ∧ 1 < x.exponentField then 1 else 2
  let up := Nat.pow 2 x.scale.toNat
  { lower := (4 * m - below) * up
    value := 4 * m * up
    upper := (4 * m + 2) * up
    den := 4 * Nat.pow 2 (-x.scale).toNat
    closed := m % 2 == 0 }

/-- Whether `num / den` lies in the interval. -/
def RoundingInterval.holds (r : RoundingInterval) (num den : Nat) : Bool :=
  let low := r.lower * den
  let mid := num * r.den
  let high := r.upper * den
  if r.closed then decide (low ≤ mid) && decide (mid ≤ high)
  else decide (low < mid) && decide (mid < high)

/-! ### Decimal grids -/

/-- The decimal number `digits · 10 ^ exponent`. -/
structure Decimal where
  digits : Nat
  exponent : Int
deriving DecidableEq, Repr

/-- A decimal number as a numerator over a denominator. -/
def Decimal.ratio (d : Decimal) : Nat × Nat :=
  (d.digits * Nat.pow 10 d.exponent.toNat, Nat.pow 10 (-d.exponent).toNat)

/-- The nearer to the interval's value of its two neighbours on the grid of step
`10 ^ exponent` that lie in the interval; of two equally near ones the even. -/
def RoundingInterval.onGrid (r : RoundingInterval) (exponent : Int) : Option Decimal :=
  let num := r.value * Nat.pow 10 (-exponent).toNat
  let den := r.den * Nat.pow 10 exponent.toNat
  let below : Decimal := ⟨num / den, exponent⟩
  let above : Decimal := ⟨num / den + 1, exponent⟩
  let nearest : Decimal := ⟨roundHalfEven num den, exponent⟩
  let inside := fun (d : Decimal) => r.holds d.ratio.1 d.ratio.2
  if inside nearest then some nearest
  else if inside below then some below
  else if inside above then some above
  else none

/-- The exponent of the first digit of `num / den`: the `e` with
`10 ^ e ≤ num / den < 10 ^ (e + 1)`, found from an estimate that is off by at most one. -/
def decimalExponent (num den : Nat) : Int :=
  let guess : Int := (binaryExponent num den * 30103).fdiv 100000
  let atLeast := fun (e : Int) => decide (den * Nat.pow 10 e.toNat ≤ num * Nat.pow 10 (-e).toNat)
  if atLeast (guess + 1) then guess + 1 else if atLeast guess then guess else guess - 1

/-- The first hit on the grids of `count`, `count + 1`, … digits, at most `fuel` of them. -/
def RoundingInterval.search (r : RoundingInterval) (first : Int) : Nat → Nat → Option Decimal
  | 0, _ => none
  | fuel + 1, count =>
    match r.onGrid (first - count + 1) with
    | some d => some d
    | none => r.search first fuel (count + 1)

/-- Drops trailing zeros of the digits, at most `fuel` of them. -/
def Decimal.strip : Nat → Decimal → Decimal
  | 0, d => d
  | fuel + 1, d =>
    if d.digits ≠ 0 ∧ d.digits % 10 = 0 then Decimal.strip fuel ⟨d.digits / 10, d.exponent + 1⟩
    else d

/-- The shortest decimal of a nonzero finite double; seventeen digits always suffice. -/
def shortest (x : Double) : Decimal :=
  let r := x.roundingInterval
  ((r.search (decimalExponent r.value r.den) 17 1).getD ⟨0, 0⟩).strip 20

/-! ### Layout -/

/-- The text of an exponent: its sign, also before a positive one, and its digits. -/
def exponentText (e : Int) : String :=
  (if e < 0 then "-" else "+") ++ toString e.natAbs

/-- The text of a positive decimal number without trailing zeros in its digits. -/
def Decimal.text (d : Decimal) : String :=
  let digits := Nat.toDigits 10 d.digits
  let point : Int := digits.length + d.exponent
  if 0 ≤ d.exponent ∧ point ≤ 16 then
    String.ofList (digits ++ List.replicate d.exponent.toNat '0' ++ ['.', '0'])
  else if 0 < point ∧ point ≤ 16 then
    String.ofList (digits.take point.toNat ++ '.' :: digits.drop point.toNat)
  else if -5 < point ∧ point ≤ 0 then
    String.ofList ('0' :: '.' :: List.replicate (-point).toNat '0' ++ digits)
  else
    let mantissa := match digits with
      | [] => []
      | [c] => [c]
      | c :: rest => c :: '.' :: rest
    String.ofList (mantissa ++ ['e']) ++ exponentText (point - 1)

/-- The shortest text of a finite double, with the sign of a negative zero kept. -/
def text (x : Double) : String :=
  (if x.isNegative then "-" else "") ++ if x.isZero then "0.0" else x.shortest.text

end Double

end EntitySql
