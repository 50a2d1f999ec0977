import StaticQuery.Number.Binary64

/-!
Decimal texts and binary64 numbers. Reading rounds to the nearest number. Writing takes the fewest
digits that read back as the same number and, of those, the ones nearest to it.
-/

namespace StaticQuery

structure Decimal where
  coefficient : Nat
  exponent : Int
deriving DecidableEq

def digitsValue (digits : List Char) : Nat :=
  digits.foldl (fun value digit => 10 * value + (digit.toNat - '0'.toNat)) 0

def decimalDigits (value : Nat) : List Char :=
  Nat.toDigits 10 value

namespace Decimal

/-- The nearest binary64 number; `none` past the largest. Exponents far outside the range of the
format are answered without writing out the power of ten. -/
def toBinary64? (negative : Bool) (decimal : Decimal) : Option Binary64 :=
  let size : Int := (decimalDigits decimal.coefficient).length + decimal.exponent
  if decimal.coefficient = 0 ∨ size < -330 then some (Binary64.zero negative)
  else if 310 < size then none
  else if 0 ≤ decimal.exponent then
    Binary64.ofRatio? negative (decimal.coefficient * Nat.pow 10 decimal.exponent.toNat) 1
  else Binary64.ofRatio? negative decimal.coefficient (Nat.pow 10 (-decimal.exponent).toNat)

def normalize (decimal : Decimal) : Decimal :=
  let digits := decimalDigits decimal.coefficient
  let zeros := (digits.reverse.takeWhile (· == '0')).length
  if decimal.coefficient = 0 then decimal
  else ⟨decimal.coefficient / Nat.pow 10 zeros, decimal.exponent + zeros⟩

end Decimal

namespace Binary64

def decimalScale : Nat :=
  Nat.pow 10 1074

/-- The magnitude of a rank times `decimalScale`; a whole number, since `2 ^ -1074` is a multiple
of `10 ^ -1074`. -/
def scaledMagnitude (rank : Nat) : Nat :=
  unitsOfRank rank * Nat.pow 5 1074

def readsBack (rank scaled : Nat) : Bool :=
  nearestRank scaled decimalScale == rank

/-- The point of a grid that is taken for a magnitude: of the two around it one that reads back, the
nearer if both do, and the even one when both are as near. -/
def gridPoint? (reads : Nat → Bool) (magnitude step : Nat) : Option Nat :=
  let below := magnitude / step
  let gap := magnitude % step
  match reads (below * step), reads ((below + 1) * step) with
  | true, true =>
      if 2 * gap < step ∨ (2 * gap = step ∧ below % 2 = 0) then some below else some (below + 1)
  | true, false => some below
  | false, true => some (below + 1)
  | false, false => none

def shortestFrom (reads : Nat → Bool) (magnitude size : Nat) : List Nat → Decimal
  | [] => ⟨magnitude, -1074⟩
  | count :: more =>
      match gridPoint? reads magnitude (Nat.pow 10 (size - count)) with
      | some point => ⟨point, (size : Int) - count - 1074⟩
      | none => shortestFrom reads magnitude size more

def shortest (number : Binary64) : Decimal :=
  let magnitude := scaledMagnitude number.rank
  let size := (decimalDigits magnitude).length
  (shortestFrom (readsBack number.rank) magnitude size (List.range' 1 17)).normalize

end Binary64

end StaticQuery
