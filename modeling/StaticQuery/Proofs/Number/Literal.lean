import Mathlib.Data.Nat.Digits.Defs
import Mathlib.Data.Rat.Cast.Order
import Mathlib.Tactic.FieldSimp
import StaticQuery.Proofs.Json.NumberText
import StaticQuery.TypeSystem.Input

/-!
What number literals denote. Integers are read off their digits, and a literal is too large for a
finite binary64 number from halfway between the largest one and the next power of two.
-/

namespace StaticQuery

namespace Binary64

def shiftOf (whole : Nat) : Nat :=
  if whole < 2 * binadeSize then 0 else Nat.log2 whole - 52

theorem shiftOf_spec (whole : Nat) :
    whole / 2 ^ shiftOf whole < 2 * binadeSize ∧
      (shiftOf whole ≠ 0 → binadeSize ≤ whole / 2 ^ shiftOf whole) := by
  have size : binadeSize = 2 ^ 52 := by decide
  unfold shiftOf
  by_cases small : whole < 2 * binadeSize
  · rw [if_pos small]
    simpa using small
  · rw [if_neg small]
    have nonzero : whole ≠ 0 := by omega
    have large : 53 ≤ Nat.log2 whole := by
      rw [Nat.le_log2 nonzero]
      omega
    have split : 52 + (Nat.log2 whole - 52) = Nat.log2 whole := by omega
    have positive : 0 < 2 ^ (Nat.log2 whole - 52) := Nat.two_pow_pos _
    constructor
    · rw [Nat.div_lt_iff_lt_mul positive, size, ← Nat.pow_succ', ← Nat.pow_add,
        show 53 + (Nat.log2 whole - 52) = Nat.log2 whole + 1 by omega]
      exact Nat.lt_log2_self
    · intro _
      rw [Nat.le_div_iff_mul_le positive, size, ← Nat.pow_add, split]
      exact Nat.log2_self_le nonzero

def carry (step steps rest : Nat) : Nat :=
  if step < 2 * rest ∨ 2 * rest = step ∧ steps % 2 = 1 then 1 else 0

theorem carry_le_one (step steps rest : Nat) : carry step steps rest ≤ 1 := by
  unfold carry
  split
  · exact Nat.le_refl 1
  · exact Nat.zero_le 1

/-- How a ratio is rounded: it is a number of steps and a rest. From the second binade on the number
has all its digits. -/
theorem nearestRank_eq {numerator denominator : Nat} (positive : 0 < denominator) :
    ∃ shift steps rest,
      numerator * unitsPerOne = steps * (denominator * 2 ^ shift) + rest ∧
      rest < denominator * 2 ^ shift ∧
      steps < 2 * binadeSize ∧ (shift ≠ 0 → binadeSize ≤ steps) ∧
      nearestRank numerator denominator =
        shift * binadeSize + steps + carry (denominator * 2 ^ shift) steps rest := by
  have digits := shiftOf_spec (numerator * unitsPerOne / denominator)
  rw [Nat.div_div_eq_div_mul] at digits
  refine ⟨shiftOf (numerator * unitsPerOne / denominator), _, _,
    (Nat.div_add_mod' _ _).symm, Nat.mod_lt _ (Nat.mul_pos positive (Nat.two_pow_pos _)),
    digits.1, digits.2, ?_⟩
  simp only [nearestRank, carry, shiftOf, Nat.pow_eq, Bool.or_eq_true, Bool.and_eq_true,
    beq_iff_eq, decide_eq_true_eq]
  congr

theorem two_mul_step_le (denominator : Nat) {low high : Nat} (less : low < high) :
    2 * (denominator * 2 ^ low) ≤ denominator * 2 ^ high := by
  rw [Nat.mul_left_comm, ← Nat.pow_succ']
  exact Nat.mul_le_mul_left _ (Nat.pow_le_pow_right Nat.two_pos less)

section

variable {step steps rest : Nat}

theorem twice_lt (small : rest < step) :
    2 * (steps * step + rest) < 2 * (steps + 1) * step := by
  have next : 2 * (steps + 1) * step = 2 * (steps * step) + 2 * step := by ring
  omega

/-- In the last binade the largest number of steps is odd, so half a step more is too much. -/
theorem steps_add_carry_lt_iff (small : rest < step) (fewer : steps < 2 * binadeSize) :
    steps + carry step steps rest < 2 * binadeSize ↔
      2 * (steps * step + rest) < (4 * binadeSize - 1) * step := by
  by_cases largest : steps = 2 * binadeSize - 1
  · have odd : steps % 2 = 1 := by omega
    have halfway : (4 * binadeSize - 1) * step = 2 * (steps * step) + step := by
      rw [show 4 * binadeSize - 1 = 2 * steps + 1 by omega]
      ring
    rw [halfway, carry]
    split
    · omega
    · omega
  · have finite : 2 * (steps * step + rest) < (4 * binadeSize - 1) * step :=
      (twice_lt small).trans_le (Nat.mul_le_mul_right step (by omega))
    have carried := carry_le_one step steps rest
    simp only [finite, iff_true]
    omega

theorem lt_halfway {last : Nat} (small : rest < step) (fewer : steps < 2 * binadeSize)
    (coarser : 2 * step ≤ last) :
    2 * (steps * step + rest) < (4 * binadeSize - 1) * last := by
  have size : 1 ≤ binadeSize := by decide
  calc 2 * (steps * step + rest) < 2 * (steps + 1) * step := twice_lt small
    _ = (steps + 1) * (2 * step) := by ring
    _ ≤ (4 * binadeSize - 1) * last := Nat.mul_le_mul (by omega) coarser

theorem halfway_le {last : Nat} (more : binadeSize ≤ steps) (finer : 2 * last ≤ step)
    (rest : Nat) :
    (4 * binadeSize - 1) * last ≤ 2 * (steps * step + rest) := by
  calc (4 * binadeSize - 1) * last ≤ 4 * binadeSize * last :=
        Nat.mul_le_mul_right last (by omega)
    _ = 2 * (binadeSize * (2 * last)) := by ring
    _ ≤ 2 * (steps * step) := Nat.mul_le_mul_left 2 (Nat.mul_le_mul more finer)
    _ ≤ 2 * (steps * step + rest) := by omega

end

/-- Twice the halfway point is `2 ^ 54 - 1` of the steps of the last binade. -/
theorem nearestRank_lt_iff {numerator denominator : Nat} (positive : 0 < denominator) :
    nearestRank numerator denominator < magnitudeCount ↔
      2 * (numerator * unitsPerOne) < (4 * binadeSize - 1) * (denominator * 2 ^ 2045) := by
  obtain ⟨shift, steps, rest, total, small, fewer, more, rounded⟩ := nearestRank_eq positive
  have carried := carry_le_one (denominator * 2 ^ shift) steps rest
  have count : magnitudeCount = 2047 * binadeSize := rfl
  rw [rounded, total, count]
  -- Only in the last binade, the shift by 2045, is it the rounding that decides.
  rcases Nat.lt_trichotomy shift 2045 with below | rfl | above
  · have binades : shift * binadeSize ≤ 2044 * binadeSize := Nat.mul_le_mul_right _ (by omega)
    have finite := lt_halfway small fewer (two_mul_step_le denominator below)
    simp only [finite, iff_true]
    omega
  · rw [← steps_add_carry_lt_iff small fewer]
    omega
  · have binades : 2046 * binadeSize ≤ shift * binadeSize := Nat.mul_le_mul_right _ (by omega)
    have enough := more (by omega)
    have infinite := halfway_le enough (two_mul_step_le denominator above) rest
    simp only [Nat.not_lt.mpr infinite, iff_false]
    omega

def overflow : ℚ :=
  2 ^ 1024 - 2 ^ 970

theorem overflow_eq : overflow = ((4 * binadeSize - 1 : Nat) : ℚ) * 2 ^ 970 := by
  have size : ((4 * binadeSize - 1 : Nat) : ℚ) = 2 ^ 54 - 1 := by norm_num [binadeSize]
  rw [overflow, size, sub_mul, one_mul, ← pow_add]

theorem one_lt_overflow : 1 < overflow := by
  have size : (1 : ℚ) < (4 * binadeSize - 1 : Nat) := by norm_num [binadeSize]
  have power : (1 : ℚ) ≤ 2 ^ 970 := one_le_pow₀ one_le_two
  rw [overflow_eq]
  exact size.trans_le (le_mul_of_one_le_right (Nat.cast_nonneg _) power)

theorem overflow_le : overflow ≤ 10 ^ 310 := by
  have powers : ((2 ^ 1024 : Nat) : ℚ) ≤ ((10 ^ 310 : Nat) : ℚ) :=
    Nat.cast_le.mpr (by decide +kernel)
  rw [Nat.cast_pow, Nat.cast_pow] at powers
  have positive : (0 : ℚ) < 2 ^ 970 := pow_pos two_pos 970
  exact (sub_le_self _ positive.le).trans powers

theorem ofRatio?_eq_none_iff (negative : Bool) {numerator denominator : Nat}
    (positive : 0 < denominator) :
    ofRatio? negative numerator denominator = none ↔
      overflow ≤ (numerator : ℚ) / denominator := by
  have powers : 2 ^ 2045 = 2 * unitsPerOne * 2 ^ 970 := by decide +kernel
  have scale : 0 < 2 * unitsPerOne := Nat.mul_pos Nat.two_pos unitsPerOne_pos
  have left : (4 * binadeSize - 1) * (denominator * 2 ^ 2045) =
      2 * unitsPerOne * ((4 * binadeSize - 1) * 2 ^ 970 * denominator) := by
    rw [powers]
    generalize 2 ^ 970 = power
    ring
  have right : 2 * (numerator * unitsPerOne) = 2 * unitsPerOne * numerator := by ring
  have threshold : ofRatio? negative numerator denominator = none ↔
      (4 * binadeSize - 1) * 2 ^ 970 * denominator ≤ numerator := by
    rw [ofRatio?, dite_eq_right_iff]
    simp only [reduceCtorEq, imp_false]
    rw [nearestRank_lt_iff positive, Nat.not_lt, left, right, Nat.mul_le_mul_left_iff scale]
  have denominatorPositive : (0 : ℚ) < denominator := Nat.cast_pos.mpr positive
  rw [threshold, overflow_eq, le_div_iff₀ denominatorPositive, ← Nat.cast_le (α := ℚ),
    Nat.cast_mul, Nat.cast_mul, Nat.cast_pow, Nat.cast_ofNat]

end Binary64

namespace Decimal

def value (decimal : Decimal) : ℚ :=
  decimal.coefficient * 10 ^ decimal.exponent

theorem value_lt (decimal : Decimal) :
    decimal.value < 10 ^ ((decimalDigits decimal.coefficient).length + decimal.exponent) := by
  have digits : 0 < (decimalDigits decimal.coefficient).length :=
    List.length_pos_of_ne_nil (decimalDigits_ne_nil _)
  have bound := (length_decimalDigits_le decimal.coefficient digits).mp le_rfl
  have cast : (decimal.coefficient : ℚ) < 10 ^ (decimalDigits decimal.coefficient).length := by
    exact_mod_cast bound
  rw [value, zpow_add₀ (by norm_num), zpow_natCast]
  exact mul_lt_mul_of_pos_right cast (zpow_pos (by norm_num) _)

theorem le_value {decimal : Decimal} (nonzero : decimal.coefficient ≠ 0) :
    10 ^ ((decimalDigits decimal.coefficient).length + decimal.exponent - 1) ≤ decimal.value := by
  have digits : 0 < (decimalDigits decimal.coefficient).length :=
    List.length_pos_of_ne_nil (decimalDigits_ne_nil _)
  have bound : 10 ^ ((decimalDigits decimal.coefficient).length - 1) ≤ decimal.coefficient :=
    pow_length_decimalDigits_le nonzero (by omega)
  have cast : (10 : ℚ) ^ ((decimalDigits decimal.coefficient).length - 1) ≤
      decimal.coefficient := by
    exact_mod_cast bound
  have exponent : ((decimalDigits decimal.coefficient).length : Int) + decimal.exponent - 1 =
      ((decimalDigits decimal.coefficient).length - 1 : Nat) + decimal.exponent := by omega
  rw [value, exponent, zpow_add₀ (by norm_num), zpow_natCast]
  exact mul_le_mul_of_nonneg_right cast (zpow_pos (by norm_num) _).le

theorem toBinary64?_eq_none_iff (negative : Bool) (decimal : Decimal) :
    decimal.toBinary64? negative = none ↔ Binary64.overflow ≤ decimal.value := by
  have positive (power : Nat) : 0 < Nat.pow 10 power := Nat.pow_pos (by decide)
  simp only [toBinary64?]
  split
  · rename_i tiny
    have less : decimal.value < Binary64.overflow := by
      refine lt_of_le_of_lt ?_ Binary64.one_lt_overflow
      rcases tiny with zero | small
      · simp [value, zero]
      · exact decimal.value_lt.le.trans (zpow_le_one_of_nonpos₀ (by norm_num) (by omega))
    simpa using less
  rename_i ordinary
  rw [not_or] at ordinary
  split
  · rename_i huge
    have more : Binary64.overflow ≤ decimal.value := by
      refine Binary64.overflow_le.trans (le_trans ?_ (le_value ordinary.1))
      rw [← zpow_natCast]
      exact zpow_le_zpow_right₀ (by norm_num) (by omega)
    simpa using more
  split
  · rename_i whole
    rw [Binary64.ofRatio?_eq_none_iff negative Nat.one_pos, value]
    obtain ⟨power, same⟩ := Int.eq_ofNat_of_zero_le whole
    simp [same]
  · rename_i fractional
    rw [Binary64.ofRatio?_eq_none_iff negative (positive _), value]
    obtain ⟨power, same⟩ := Int.eq_ofNat_of_zero_le (show 0 ≤ -decimal.exponent by omega)
    have exponent : decimal.exponent = -(power : Int) := by omega
    simp [exponent, div_eq_mul_inv]

end Decimal

def placeValue (digits : List Char) : Nat :=
  Nat.ofDigits 10 (digits.reverse.map fun digit => digit.toNat - '0'.toNat)

theorem digitsValue_eq_placeValue (digits : List Char) :
    digitsValue digits = placeValue digits := by
  rw [placeValue, Nat.ofDigits_eq_foldr, List.foldr_map, List.foldr_reverse, digitsValue]
  simp only [Nat.cast_id, Nat.add_comm]

theorem placeValue_append (first second : List Char) :
    placeValue (first ++ second) = placeValue first * 10 ^ second.length + placeValue second := by
  simp only [placeValue, List.reverse_append, List.map_append, Nat.ofDigits_append, List.length_map,
    List.length_reverse]
  ring

namespace NumberLiteral

def magnitude (literal : NumberLiteral) : ℚ :=
  (placeValue literal.whole + placeValue literal.fraction / 10 ^ literal.fraction.length) *
    10 ^ (if literal.exponentNegative then -(placeValue literal.exponentDigits : Int)
      else placeValue literal.exponentDigits)

theorem value_decimal (literal : NumberLiteral) : literal.decimal.value = literal.magnitude := by
  have ten : (10 : ℚ) ≠ 0 := by norm_num
  simp only [Decimal.value, decimal, magnitude, digitsValue_eq_placeValue, placeValue_append,
    zpow_sub₀ ten, zpow_natCast, Nat.cast_add, Nat.cast_mul, Nat.cast_pow, Nat.cast_ofNat]
  field_simp

theorem toBinary64?_eq_none_iff (literal : NumberLiteral) :
    literal.toBinary64? = none ↔ Binary64.overflow ≤ literal.magnitude := by
  rw [toBinary64?, Decimal.toBinary64?_eq_none_iff, value_decimal]

end NumberLiteral

inductive DecimalText : List Char → Int → Prop
  | plain {digits} : digits ≠ [] → (∀ digit ∈ digits, digit.isDigit = true) →
      DecimalText digits (placeValue digits)
  | negated {digits} : digits ≠ [] → (∀ digit ∈ digits, digit.isDigit = true) →
      DecimalText ('-' :: digits) (-placeValue digits)

theorem intOfText?_eq_some_iff {text : String} {value : Int} :
    intOfText? text = some value ↔ DecimalText text.toList value := by
  unfold intOfText?
  generalize text.toList = written
  constructor
  · generalize scanned : NumberLiteral.scanSign written = sign
    obtain ⟨negative, digits⟩ := sign
    intro read
    dsimp only at read
    split at read
    · cases read
    · rename_i decimal
      simp only [Bool.or_eq_true, List.isEmpty_iff, Bool.not_eq_true', not_or,
        Bool.not_eq_false, List.all_eq_true, digitsValue_eq_placeValue, Option.some.injEq]
        at decimal read
      subst read
      unfold NumberLiteral.scanSign at scanned
      split at scanned
      · cases scanned
        exact .negated decimal.1 decimal.2
      · cases scanned
        exact .plain decimal.1 decimal.2
  · intro denoted
    cases denoted with
    | plain present all =>
        have unsigned : written.head? ≠ some '-' := by
          intro first
          have digit := all '-' (List.mem_of_head? first)
          cases digit
        have scanned : NumberLiteral.scanSign written = (false, written) :=
          NumberLiteral.scanSign_append false unsigned
        have decimal : written.all Char.isDigit = true := List.all_eq_true.mpr all
        simp [scanned, present, decimal, digitsValue_eq_placeValue]
    | @negated digits present all =>
        have scanned : NumberLiteral.scanSign ('-' :: digits) = (true, digits) := rfl
        have decimal : digits.all Char.isDigit = true := List.all_eq_true.mpr all
        simp [scanned, present, decimal, digitsValue_eq_placeValue]

end StaticQuery
