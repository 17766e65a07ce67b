/-!
# Limits of 64-bit words

Counts and integers of the outside world fit 64 bits. The bounds are written out, so that they
are the same numerals wherever they are used.
-/

namespace EntitySql

/-- The number of unsigned 64-bit words, two to the power of 64. -/
def wordCount : Nat := 18446744073709551616

/-- The least signed 64-bit integer. -/
def leastSigned : Int := -9223372036854775808

/-- The greatest signed 64-bit integer. -/
def greatestSigned : Int := 9223372036854775807

/-- The greatest unsigned 64-bit integer. -/
def greatestUnsigned : Int := 18446744073709551615

/-- An integer in the range of the signed 64-bit integers. -/
def fitsSigned (i : Int) : Bool :=
  decide (leastSigned ≤ i) && decide (i ≤ greatestSigned)

/-- An integer in the joint range of the signed and the unsigned 64-bit integers. -/
def fitsWord (i : Int) : Bool :=
  decide (leastSigned ≤ i) && decide (i ≤ greatestUnsigned)

theorem fitsSigned_iff {i : Int} :
    fitsSigned i = true ↔ leastSigned ≤ i ∧ i ≤ greatestSigned := by
  simp [fitsSigned]

theorem fitsWord_iff {i : Int} :
    fitsWord i = true ↔ leastSigned ≤ i ∧ i ≤ greatestUnsigned := by
  simp [fitsWord]

end EntitySql
