import Mathlib.Algebra.Order.Ring.Nat
import Mathlib.Tactic.Ring
import StaticQuery.Number.Decimal

/-!
Decimals and the numbers they round to. Only the ratio that a decimal denotes matters, a number
that is written out in full rounds to itself, and so the digits that are chosen for a number read
back as that number.
-/

namespace StaticQuery

namespace Binary64

/-- A common factor of numerator and denominator does not matter. -/
theorem nearestRank_mul_right (numerator denominator : Nat) {factor : Nat}
    (positive : 0 < factor) :
    nearestRank (numerator * factor) (denominator * factor) =
      nearestRank numerator denominator := by
  have total : numerator * factor * unitsPerOne = numerator * unitsPerOne * factor := by ring
  have step (shift : Nat) :
      denominator * factor * Nat.pow 2 shift = denominator * Nat.pow 2 shift * factor := by ring
  simp only [nearestRank, total, step, Nat.mul_div_mul_right _ _ positive,
    Nat.mul_mod_mul_right, ← mul_assoc, Nat.mul_lt_mul_right positive, beq_eq_decide,
    Nat.mul_left_inj (Nat.pos_iff_ne_zero.mp positive)]

theorem nearestRank_congr {numerator denominator numerator' denominator' : Nat}
    (positive : 0 < denominator) (positive' : 0 < denominator')
    (same : numerator * denominator' = numerator' * denominator) :
    nearestRank numerator denominator = nearestRank numerator' denominator' := by
  rw [← nearestRank_mul_right numerator denominator positive', same,
    Nat.mul_comm denominator denominator', nearestRank_mul_right numerator' denominator' positive]

theorem log2_of_significand {significand shift : Nat} (lower : binadeSize ≤ significand)
    (upper : significand < 2 * binadeSize) :
    Nat.log2 (significand * Nat.pow 2 shift) = 52 + shift := by
  have size : binadeSize = 2 ^ 52 := by decide
  have positive : 0 < Nat.pow 2 shift := Nat.pos_of_ne_zero (by simp)
  have nonzero : significand * Nat.pow 2 shift ≠ 0 := by
    have : 0 < significand := by rw [size] at lower; omega
    exact (Nat.mul_pos this positive).ne'
  rw [Nat.log2_eq_iff nonzero]
  simp only [Nat.pow_eq] at positive ⊢
  constructor
  · rw [Nat.pow_add, ← size]
    exact Nat.mul_le_mul_right _ lower
  · rw [show 52 + shift + 1 = 52 + 1 + shift by omega, Nat.pow_add, Nat.pow_succ, ← size,
      Nat.mul_comm binadeSize 2]
    exact Nat.mul_lt_mul_of_pos_right upper positive

theorem unitsPerOne_pos : 0 < unitsPerOne := by
  decide +kernel

/-- What is a whole number of steps rounds to that number of steps. -/
theorem nearestRank_of_shift {units shift significand : Nat}
    (exactly : units = significand * Nat.pow 2 shift)
    (shifted : (if units < 2 * binadeSize then 0 else Nat.log2 units - 52) = shift) :
    nearestRank units unitsPerOne = shift * binadeSize + significand := by
  have whole : units * unitsPerOne / unitsPerOne = units := Nat.mul_div_cancel _ unitsPerOne_pos
  have step : 0 < unitsPerOne * Nat.pow 2 shift :=
    Nat.mul_pos unitsPerOne_pos (Nat.pow_pos Nat.zero_lt_two)
  have total : units * unitsPerOne = significand * (unitsPerOne * Nat.pow 2 shift) := by
    rw [exactly]
    ring
  simp only [nearestRank, whole, shifted]
  rw [total, Nat.mul_div_cancel _ step, Nat.mul_mod_left]
  simp [unitsPerOne_pos.ne']

/-- A magnitude that is given exactly rounds to itself. -/
theorem nearestRank_unitsOfRank (rank : Nat) :
    nearestRank (unitsOfRank rank) unitsPerOne = rank := by
  have split : binadeSize * (rank / binadeSize) + rank % binadeSize = rank :=
    Nat.div_add_mod rank binadeSize
  have fractionBound : rank % binadeSize < binadeSize := Nat.mod_lt _ (by decide)
  unfold unitsOfRank
  dsimp only
  generalize rank / binadeSize = binade at *
  generalize rank % binadeSize = fraction at *
  cases binade with
  | zero =>
      rw [if_pos rfl]
      have rounds : nearestRank fraction unitsPerOne = 0 * binadeSize + fraction := by
        apply nearestRank_of_shift
        · simp
        · rw [if_pos (by omega)]
      omega
  | succ shift =>
      rw [if_neg (Nat.succ_ne_zero shift), Nat.add_sub_cancel]
      have rounds : nearestRank ((binadeSize + fraction) * Nat.pow 2 shift) unitsPerOne =
          shift * binadeSize + (binadeSize + fraction) := by
        apply nearestRank_of_shift rfl
        cases shift with
        | zero =>
            rw [if_pos]
            simp only [Nat.pow_eq, Nat.pow_zero, Nat.mul_one]
            omega
        | succ shift =>
            have doubled : 2 ≤ Nat.pow 2 (shift + 1) := Nat.le_self_pow (by omega) 2
            have large : binadeSize * 2 ≤ (binadeSize + fraction) * Nat.pow 2 (shift + 1) :=
              Nat.mul_le_mul (by omega) doubled
            rw [if_neg (by omega), log2_of_significand (by omega) (by omega)]
            omega
      rw [rounds, ← split]
      ring

theorem ofRatio?_congr (negative : Bool) {numerator denominator numerator' denominator' : Nat}
    (positive : 0 < denominator) (positive' : 0 < denominator')
    (same : numerator * denominator' = numerator' * denominator) :
    ofRatio? negative numerator denominator = ofRatio? negative numerator' denominator' := by
  simp only [ofRatio?, nearestRank_congr positive positive' same]

end Binary64

theorem digitsValue_append (first second : List Char) :
    digitsValue (first ++ second) = Nat.ofDigitChars 10 second (digitsValue first) :=
  Nat.ofDigitChars_append 0

theorem digitsValue_decimalDigits (value : Nat) : digitsValue (decimalDigits value) = value :=
  Nat.ofDigitChars_toDigits (by decide) (by decide)

theorem digitsValue_append_zeros (digits : List Char) (count : Nat) :
    digitsValue (digits ++ List.replicate count '0') = digitsValue digits * 10 ^ count := by
  rw [digitsValue_append, Nat.ofDigitChars_replicate_zero, Nat.mul_comm]

theorem isDigit_of_mem_decimalDigits {value : Nat} {digit : Char}
    (member : digit ∈ decimalDigits value) :
    digit.isDigit = true :=
  Nat.isDigit_of_mem_toDigits (by decide) (by decide) member

theorem decimalDigits_ne_nil (value : Nat) : decimalDigits value ≠ [] :=
  Nat.toDigits_ne_nil

theorem length_decimalDigits_le (value : Nat) {count : Nat} (positive : 0 < count) :
    (decimalDigits value).length ≤ count ↔ value < 10 ^ count :=
  Nat.length_toDigits_le_iff (by decide) positive

theorem decimalDigits_mul_ten {value : Nat} (nonzero : value ≠ 0) :
    decimalDigits (value * 10) = decimalDigits value ++ ['0'] := by
  have appended : Nat.toDigits 10 value ++ Nat.toDigits 10 0 = Nat.toDigits 10 (10 * value + 0) :=
    Nat.toDigits_append_toDigits (by decide) (Nat.pos_of_ne_zero nonzero) (by decide)
  rw [Nat.toDigits_zero, Nat.add_zero, Nat.mul_comm] at appended
  exact appended.symm

theorem length_decimalDigits_mul_pow {value : Nat} (nonzero : value ≠ 0) (count : Nat) :
    (decimalDigits (value * 10 ^ count)).length = (decimalDigits value).length + count := by
  induction count with
  | zero => simp
  | succ count ih =>
      have still : value * 10 ^ count ≠ 0 := Nat.mul_ne_zero nonzero (by simp)
      rw [Nat.pow_succ, ← Nat.mul_assoc, decimalDigits_mul_ten still, List.length_append, ih]
      rfl

theorem pow_length_decimalDigits_le {value count : Nat} (nonzero : value ≠ 0)
    (fewer : count < (decimalDigits value).length) : 10 ^ count ≤ value := by
  cases count with
  | zero => exact Nat.one_le_iff_ne_zero.mpr nonzero
  | succ count =>
      have longer := (length_decimalDigits_le value (Nat.succ_pos count)).not.mp (by omega)
      omega

/-- The zeros at the end of a number's digits are powers of ten in it. -/
theorem pow_trailingZeros_dvd (value : Nat) :
    10 ^ ((decimalDigits value).reverse.takeWhile (· == '0')).length ∣ value := by
  have zeros : (decimalDigits value).reverse.takeWhile (· == '0') =
      List.replicate ((decimalDigits value).reverse.takeWhile (· == '0')).length '0' := by
    rw [List.eq_replicate_iff]
    refine ⟨rfl, fun digit member => ?_⟩
    have matched := List.all_eq_true.mp List.all_takeWhile digit member
    simpa using matched
  generalize ((decimalDigits value).reverse.takeWhile (· == '0')).length = count at zeros
  have split :=
    List.takeWhile_append_dropWhile (p := (· == '0')) (l := (decimalDigits value).reverse)
  rw [zeros, ← List.reverse_inj, List.reverse_append, List.reverse_reverse,
    List.reverse_replicate] at split
  have total := digitsValue_decimalDigits value
  rw [← split, digitsValue_append_zeros] at total
  exact Dvd.intro_left _ total

namespace Decimal

/-- Only the value of a decimal matters to the number that it reads as. -/
theorem toBinary64?_mul_pow {coefficient : Nat} (nonzero : coefficient ≠ 0) (negative : Bool)
    (count : Nat) (exponent : Int) :
    toBinary64? negative ⟨coefficient * 10 ^ count, exponent⟩ =
      toBinary64? negative ⟨coefficient, exponent + count⟩ := by
  have scaledNonzero : coefficient * 10 ^ count ≠ 0 := Nat.mul_ne_zero nonzero (by simp)
  have size : ((decimalDigits (coefficient * 10 ^ count)).length : Int) + exponent =
      (decimalDigits coefficient).length + (exponent + count) := by
    rw [length_decimalDigits_mul_pow nonzero]
    omega
  have positive (power : Nat) : 0 < Nat.pow 10 power := Nat.pow_pos (by decide)
  simp only [toBinary64?, size, nonzero, scaledNonzero, false_or]
  split
  · rfl
  split
  · rfl
  by_cases whole : 0 ≤ exponent
  · have power : (exponent + count).toNat = count + exponent.toNat := by omega
    rw [if_pos whole, if_pos (by omega), power]
    simp only [Nat.pow_eq, Nat.pow_add, Nat.mul_assoc]
  by_cases scaledWhole : 0 ≤ exponent + count
  · have power : count = (exponent + count).toNat + (-exponent).toNat := by omega
    rw [if_neg whole, if_pos scaledWhole]
    refine Binary64.ofRatio?_congr negative (positive _) Nat.one_pos ?_
    nth_rewrite 1 [power]
    simp only [Nat.pow_eq, Nat.pow_add]
    ring
  · have power : (-exponent).toNat = count + (-(exponent + count)).toNat := by omega
    rw [if_neg whole, if_neg scaledWhole]
    refine Binary64.ofRatio?_congr negative (positive _) (positive _) ?_
    rw [power]
    simp only [Nat.pow_eq, Nat.pow_add]
    ring

theorem normalize_spec {decimal : Decimal} (nonzero : decimal.coefficient ≠ 0) (negative : Bool) :
    decimal.normalize.coefficient ≠ 0 ∧
      decimal.normalize.toBinary64? negative = decimal.toBinary64? negative := by
  obtain ⟨coefficient, exponent⟩ := decimal
  have divides := pow_trailingZeros_dvd coefficient
  simp only at nonzero
  simp only [normalize, nonzero, if_false, Nat.pow_eq]
  generalize ((decimalDigits coefficient).reverse.takeWhile (· == '0')).length = count at *
  have whole : coefficient / 10 ^ count * 10 ^ count = coefficient := Nat.div_mul_cancel divides
  have kept : coefficient / 10 ^ count ≠ 0 := by
    intro none
    rw [none, Nat.zero_mul] at whole
    exact nonzero whole.symm
  refine ⟨kept, ?_⟩
  rw [← toBinary64?_mul_pow kept, whole]

end Decimal

namespace Binary64

section

variable {rank : Nat}

theorem decimalScale_eq : decimalScale = Nat.pow 5 1074 * unitsPerOne := by
  decide +kernel

theorem nearestRank_scaledMagnitude (rank : Nat) :
    nearestRank (scaledMagnitude rank) decimalScale = rank := by
  have positive : 0 < decimalScale := by decide +kernel
  have same : scaledMagnitude rank * unitsPerOne = unitsOfRank rank * decimalScale := by
    rw [scaledMagnitude, decimalScale_eq, Nat.mul_assoc]
  rw [nearestRank_congr positive unitsPerOne_pos same, nearestRank_unitsOfRank]

theorem unitsOfRank_pos (nonzero : rank ≠ 0) : 0 < unitsOfRank rank := by
  simp only [unitsOfRank]
  split
  · rename_i subnormal
    have split := Nat.div_add_mod rank binadeSize
    rw [subnormal] at split
    omega
  · have size : 0 < binadeSize := by decide
    exact Nat.mul_pos (by omega) (Nat.pow_pos (by decide))

theorem unitsOfRank_lt {steps : Nat} (bounded : rank < (steps + 2) * binadeSize) :
    unitsOfRank rank < 2 ^ 53 * 2 ^ steps := by
  have fraction : rank % binadeSize < binadeSize := Nat.mod_lt _ (by decide)
  have size : binadeSize * 2 = 2 ^ 53 := by decide
  have binade : rank / binadeSize < steps + 2 := Nat.div_lt_of_lt_mul (by rwa [Nat.mul_comm])
  have power : Nat.pow 2 (rank / binadeSize - 1) ≤ 2 ^ steps :=
    Nat.pow_le_pow_right (by decide) (by omega)
  have positive : 0 < 2 ^ steps := Nat.pow_pos (by decide)
  simp only [unitsOfRank]
  split
  · calc rank % binadeSize < 2 ^ 53 * 1 := by omega
      _ ≤ 2 ^ 53 * 2 ^ steps := Nat.mul_le_mul_left _ positive
  · calc (binadeSize + rank % binadeSize) * Nat.pow 2 (rank / binadeSize - 1)
        ≤ (binadeSize + rank % binadeSize) * 2 ^ steps := Nat.mul_le_mul_left _ power
      _ < 2 ^ 53 * 2 ^ steps := Nat.mul_lt_mul_of_pos_right (by omega) positive

/-- The magnitudes of all numbers but zero, with room for a factor of two. -/
theorem scaledMagnitude_bounds (nonzero : rank ≠ 0) (finite : rank < magnitudeCount) :
    2 * 10 ^ 743 ≤ scaledMagnitude rank ∧ 2 * scaledMagnitude rank < 10 ^ 1384 := by
  have least : 2 * 10 ^ 743 ≤ Nat.pow 5 1074 := by decide +kernel
  have factorPositive : 0 < Nat.pow 5 1074 := by decide +kernel
  have greatest : 2 * (2 ^ 53 * 2 ^ 2045 * Nat.pow 5 1074) ≤ 10 ^ 1384 := by decide +kernel
  have positive := unitsOfRank_pos nonzero
  have bound : unitsOfRank rank < 2 ^ 53 * 2 ^ 2045 := unitsOfRank_lt finite
  unfold scaledMagnitude
  generalize Nat.pow 5 1074 = factor at *
  generalize 2 ^ 53 * 2 ^ 2045 = limit at *
  generalize 10 ^ 743 = lowest at *
  generalize 10 ^ 1384 = highest at *
  have lower : 1 * factor ≤ unitsOfRank rank * factor := Nat.mul_le_mul_right factor positive
  have upper : (unitsOfRank rank + 1) * factor ≤ limit * factor := Nat.mul_le_mul_right factor bound
  rw [Nat.succ_mul] at upper
  constructor
  · omega
  · omega

theorem toBinary64?_of_readsBack {scaled : Nat} (negative : Bool) (finite : rank < magnitudeCount)
    (reads : readsBack rank scaled = true) (lower : 10 ^ 743 ≤ scaled)
    (upper : scaled < 10 ^ 1384) :
    Decimal.toBinary64? negative ⟨scaled, -1074⟩ = some ⟨negative, rank, finite⟩ := by
  have nonzero : scaled ≠ 0 := by
    have positive : 0 < 10 ^ 743 := by decide +kernel
    omega
  have longest : (decimalDigits scaled).length ≤ 1384 :=
    (length_decimalDigits_le scaled (by decide)).mpr upper
  have shortest : ¬(decimalDigits scaled).length ≤ 743 := by
    rw [length_decimalDigits_le scaled (by decide)]
    omega
  have nearest : nearestRank scaled decimalScale = rank := beq_iff_eq.mp reads
  have scale : Nat.pow 10 (-(-1074 : Int)).toNat = decimalScale := by decide +kernel
  simp only [Decimal.toBinary64?, nonzero, false_or]
  rw [if_neg (by omega), if_neg (by omega), if_neg (by decide), scale]
  simp only [ofRatio?, nearest, finite, dite_true]

/-- A point that is taken reads back, and is one of the two around the magnitude. -/
theorem gridPoint?_eq_some {reads : Nat → Bool} {magnitude step point : Nat}
    (found : gridPoint? reads magnitude step = some point) :
    reads (point * step) = true ∧
      (point = magnitude / step ∨ point = magnitude / step + 1) := by
  simp only [gridPoint?] at found
  split at found
  · rename_i below above
    split at found
    · obtain rfl := Option.some.inj found
      exact ⟨below, Or.inl rfl⟩
    · obtain rfl := Option.some.inj found
      exact ⟨above, Or.inr rfl⟩
  · rename_i below _
    obtain rfl := Option.some.inj found
    exact ⟨below, Or.inl rfl⟩
  · rename_i _ above
    obtain rfl := Option.some.inj found
    exact ⟨above, Or.inr rfl⟩
  · cases found

theorem gridPoint_bounds {magnitude step point : Nat} (positive : 0 < step)
    (fine : step ≤ magnitude) (around : point = magnitude / step ∨ point = magnitude / step + 1) :
    point ≠ 0 ∧ magnitude ≤ 2 * (point * step) ∧ point * step ≤ 2 * magnitude := by
  have whole := Nat.div_add_mod magnitude step
  have rest := Nat.mod_lt magnitude positive
  have some : 1 ≤ magnitude / step := (Nat.one_le_div_iff positive).mpr fine
  have least : 1 * step ≤ magnitude / step * step := Nat.mul_le_mul_right step some
  rw [Nat.mul_comm step] at whole
  have next : (magnitude / step + 1) * step = magnitude / step * step + step := Nat.succ_mul _ _
  rcases around with rfl | rfl
  · refine ⟨by omega, by omega, by omega⟩
  · rw [next]
    refine ⟨by omega, by omega, by omega⟩

/-- Whatever grids are tried, what is found is a decimal of a value that reads back and lies within
a factor of two of the magnitude. -/
theorem shortestFrom_spec {reads : Nat → Bool} {magnitude : Nat} (nonzero : magnitude ≠ 0)
    (fallback : reads magnitude = true) {counts : List Nat}
    (small : ∀ count ∈ counts, 1 ≤ count ∧ count ≤ (decimalDigits magnitude).length) :
    ∃ point power,
      shortestFrom reads magnitude (decimalDigits magnitude).length counts =
        ⟨point, -1074 + (power : Nat)⟩ ∧
      point ≠ 0 ∧ reads (point * 10 ^ power) = true ∧
      magnitude ≤ 2 * (point * 10 ^ power) ∧ point * 10 ^ power ≤ 2 * magnitude := by
  induction counts with
  | nil => exact ⟨magnitude, 0, rfl, nonzero, by simpa using fallback, by omega, by omega⟩
  | cons count more ih =>
      obtain ⟨⟨least, most⟩, others⟩ := List.forall_mem_cons.mp small
      simp only [shortestFrom]
      cases found : gridPoint? reads magnitude
          (Nat.pow 10 ((decimalDigits magnitude).length - count)) with
      | none => exact ih others
      | some point =>
          obtain ⟨readsBack, around⟩ := gridPoint?_eq_some found
          have fine : 10 ^ ((decimalDigits magnitude).length - count) ≤ magnitude :=
            pow_length_decimalDigits_le nonzero (by omega)
          obtain ⟨kept, above, below⟩ := gridPoint_bounds (Nat.pow_pos (by decide)) fine around
          refine ⟨point, (decimalDigits magnitude).length - count, ?_, kept, readsBack, above,
            below⟩
          have exponent : ((decimalDigits magnitude).length : Int) - count - 1074 =
              -1074 + ((decimalDigits magnitude).length - count : Nat) := by omega
          rw [exponent]

/-- The digits that are written for a number read back as that number. -/
theorem shortest_reads_back {number : Binary64} (nonzero : number.isZero = false) :
    number.shortest.coefficient ≠ 0 ∧
      number.shortest.toBinary64? number.negative = some number := by
  have rank : number.rank ≠ 0 := by simpa [isZero] using nonzero
  obtain ⟨lower, upper⟩ := scaledMagnitude_bounds rank number.finite
  have magnitude : scaledMagnitude number.rank ≠ 0 := by
    have positive : 0 < 10 ^ 743 := by decide +kernel
    omega
  have size : ¬(decimalDigits (scaledMagnitude number.rank)).length ≤ 743 := by
    rw [length_decimalDigits_le _ (by decide)]
    omega
  have small : ∀ count ∈ List.range' 1 17,
      1 ≤ count ∧ count ≤ (decimalDigits (scaledMagnitude number.rank)).length := by
    intro count member
    rw [List.mem_range'_1] at member
    omega
  have fallback : readsBack number.rank (scaledMagnitude number.rank) = true :=
    beq_iff_eq.mpr (nearestRank_scaledMagnitude number.rank)
  obtain ⟨point, power, found, kept, reads, above, below⟩ :=
    shortestFrom_spec magnitude fallback small
  have coefficient : (⟨point, -1074 + (power : Nat)⟩ : Decimal).coefficient ≠ 0 := kept
  obtain ⟨remains, same⟩ := Decimal.normalize_spec coefficient number.negative
  rw [← Decimal.toBinary64?_mul_pow kept,
    toBinary64?_of_readsBack number.negative number.finite reads (by omega) (by omega)] at same
  rw [shortest, found]
  exact ⟨remains, same⟩

end

end Binary64

end StaticQuery
