/-!
Finite numbers of the binary64 format, held exactly. The magnitudes are numbered in increasing
order, so a number is a sign and a rank: no significand or exponent can be out of range, and
rounding up is adding one to the rank, the carry into the next binade included.
-/

namespace StaticQuery

/-- How many magnitudes a binade holds, two to the 52nd. -/
def Binary64.binadeSize : Nat :=
  4503599627370496

def Binary64.magnitudeCount : Nat :=
  2047 * binadeSize

structure Binary64 where
  negative : Bool
  rank : Nat
  finite : rank < Binary64.magnitudeCount
deriving DecidableEq

namespace Binary64

def unitsPerOne : Nat :=
  Nat.pow 2 1074

/-- The magnitude of a rank in units: below the first binade a rank counts units, and each binade
doubles the step of the one before. -/
def unitsOfRank (rank : Nat) : Nat :=
  let binade := rank / binadeSize
  let fraction := rank % binadeSize
  if binade = 0 then fraction else (binadeSize + fraction) * Nat.pow 2 (binade - 1)

def units (number : Binary64) : Nat :=
  unitsOfRank number.rank

/-- The rank nearest to `numerator / denominator`; a tie goes to the even significand. -/
def nearestRank (numerator denominator : Nat) : Nat :=
  let total := numerator * unitsPerOne
  let whole := total / denominator
  let shift := if whole < 2 * binadeSize then 0 else Nat.log2 whole - 52
  let step := denominator * Nat.pow 2 shift
  let significand := total / step
  let rest := total % step
  let up := step < 2 * rest || (2 * rest == step && significand % 2 == 1)
  shift * binadeSize + significand + (if up then 1 else 0)

def ofRatio? (negative : Bool) (numerator denominator : Nat) : Option Binary64 :=
  let rank := nearestRank numerator denominator
  if finite : rank < magnitudeCount then some ⟨negative, rank, finite⟩ else none

def isZero (number : Binary64) : Bool :=
  number.rank == 0

theorem isZero_iff {number : Binary64} : number.isZero = true ↔ number.units = 0 := by
  rw [isZero, beq_iff_eq, units, unitsOfRank]
  split
  · simp only [binadeSize] at *
    omega
  · have step : 0 < Nat.pow 2 (number.rank / binadeSize - 1) := Nat.pow_pos (by decide)
    have positive : 0 < binadeSize := by decide
    rw [Nat.mul_eq_zero]
    simp only [binadeSize] at *
    omega

def zero (negative : Bool) : Binary64 :=
  ⟨negative, 0, by decide⟩

end Binary64

end StaticQuery
