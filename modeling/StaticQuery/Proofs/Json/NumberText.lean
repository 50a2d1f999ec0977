import StaticQuery.Json.Printer
import StaticQuery.Json.Reader
import StaticQuery.Proofs.Number.Rounding

/-!
The text of a number is a number literal, and reading that literal gives the number back. So the
text tells which number was written, and where it ends.
-/

namespace StaticQuery

def Ends (inside : Char → Bool) (rest : List Char) : Prop :=
  ∀ c ∈ rest.head?, inside c = false

theorem Ends.cons {inside : Char → Bool} {c : Char} (other : inside c = false)
    (rest : List Char) : Ends inside (c :: rest) := by
  intro found same
  rw [List.head?_cons, Option.mem_some_iff] at same
  rwa [← same]

/-- Where characters of a class end, at a character of another, is where they are cut off. -/
theorem span_append {p : Char → Bool} {first rest : List Char} (all : ∀ c ∈ first, p c = true)
    (ends : Ends p rest) :
    (first ++ rest).takeWhile p = first ∧ (first ++ rest).dropWhile p = rest := by
  rw [List.takeWhile_append_of_pos all, List.dropWhile_append_of_pos all]
  cases rest with
  | nil => exact ⟨List.append_nil first, rfl⟩
  | cons c rest =>
      have other := ends c rfl
      simp [other]

theorem span_append_inj {p : Char → Bool} {first second rest rest' : List Char}
    (all : ∀ c ∈ first, p c = true) (all' : ∀ c ∈ second, p c = true)
    (ends : Ends p rest) (ends' : Ends p rest')
    (same : first ++ rest = second ++ rest') : first = second ∧ rest = rest' := by
  obtain ⟨taken, left⟩ := span_append all ends
  obtain ⟨taken', left'⟩ := span_append all' ends'
  rw [same] at taken left
  exact ⟨taken.symm.trans taken', left.symm.trans left'⟩

def isNumeral (c : Char) : Bool :=
  c.isDigit || c == '-' || c == '+' || c == '.' || c == 'e' || c == 'E'

theorem isNumeral_of_isDigit {c : Char} (digit : c.isDigit = true) : isNumeral c = true := by
  simp [isNumeral, digit]

theorem head_decimalDigits_ne_zero {value : Nat} (nonzero : value ≠ 0) :
    (decimalDigits value).head? ≠ some '0' := by
  have single : ∀ digit < 10, digit ≠ 0 → Nat.digitChar digit ≠ '0' := by decide
  induction value using Nat.strongRecOn with
  | ind value ih =>
      rw [decimalDigits, Nat.toDigits_eq_if (by decide)]
      split
      · rename_i small
        simpa using single value small nonzero
      · rename_i large
        have shorter := ih (value / 10) (by omega) (by omega)
        obtain ⟨digit, more, found⟩ :=
          List.exists_cons_of_ne_nil (decimalDigits_ne_nil (value / 10))
        rw [decimalDigits] at found
        rw [decimalDigits, found] at shorter
        rw [found]
        exact shorter

namespace NumberLiteral

def chars (literal : NumberLiteral) : List Char :=
  (if literal.negative then ['-'] else []) ++ (literal.whole ++
    ((if literal.fraction.isEmpty then [] else '.' :: literal.fraction) ++
      if literal.exponentDigits.isEmpty then []
      else 'e' :: (if literal.exponentNegative then '-' else '+') :: literal.exponentDigits))

structure Proper (literal : NumberLiteral) : Prop where
  whole : ∀ c ∈ literal.whole, c.isDigit = true
  fraction : ∀ c ∈ literal.fraction, c.isDigit = true
  exponentDigits : ∀ c ∈ literal.exponentDigits, c.isDigit = true
  present : literal.whole ≠ []
  leading : literal.whole = ['0'] ∨ literal.whole.head? ≠ some '0'
  unsigned : literal.exponentDigits = [] → literal.exponentNegative = false

theorem scanDigits_append {digits rest : List Char} (all : ∀ c ∈ digits, c.isDigit = true)
    (ends : Ends Char.isDigit rest) : scanDigits (digits ++ rest) = (digits, rest) := by
  obtain ⟨taken, left⟩ := span_append all ends
  rw [scanDigits, taken, left]

theorem scanDigits1_append {digits rest : List Char} (present : digits ≠ [])
    (all : ∀ c ∈ digits, c.isDigit = true) (ends : Ends Char.isDigit rest) :
    scanDigits1 (digits ++ rest) = some (digits, rest) := by
  rw [scanDigits1, scanDigits_append all ends]
  cases digits with
  | nil => exact absurd rfl present
  | cons digit digits => rfl

theorem scanWhole_append {digits rest : List Char} (present : digits ≠ [])
    (all : ∀ c ∈ digits, c.isDigit = true) (leading : digits = ['0'] ∨ digits.head? ≠ some '0')
    (ends : Ends Char.isDigit rest) :
    scanWhole (digits ++ rest) = some (digits, rest) := by
  rcases leading with rfl | leading
  · rfl
  · rw [scanWhole]
    · exact scanDigits1_append present all ends
    · intro others same
      cases digits with
      | nil => exact absurd rfl present
      | cons digit digits =>
          rw [List.cons_append, List.cons.injEq] at same
          rw [List.head?_cons, same.1] at leading
          exact leading rfl

theorem scanSign_append {text : List Char} (negative : Bool) (digit : text.head? ≠ some '-') :
    scanSign ((if negative then ['-'] else []) ++ text) = (negative, text) := by
  cases negative with
  | true => rfl
  | false =>
      cases text with
      | nil => rfl
      | cons c text =>
          have other : c ≠ '-' := by simpa using digit
          simp [scanSign, other]

theorem scanFraction_append {digits rest : List Char} (all : ∀ c ∈ digits, c.isDigit = true)
    (ends : ∀ c ∈ rest.head?, c.isDigit = false ∧ c ≠ '.') :
    scanFraction ((if digits.isEmpty then [] else '.' :: digits) ++ rest) =
      some (digits, rest) := by
  cases digits with
  | nil =>
      cases rest with
      | nil => rfl
      | cons c rest =>
          have other := (ends c rfl).2
          simp [scanFraction, other]
  | cons digit digits =>
      exact scanDigits1_append (List.cons_ne_nil _ _) all fun c found => (ends c found).1

theorem scanExponent_append {digits rest : List Char} {negative : Bool}
    (all : ∀ c ∈ digits, c.isDigit = true) (unsigned : digits = [] → negative = false)
    (ends : Ends isNumeral rest) :
    scanExponent ((if digits.isEmpty then [] else
        'e' :: (if negative then '-' else '+') :: digits) ++ rest) =
      some (negative, digits, rest) := by
  cases digits with
  | nil =>
      rw [unsigned rfl]
      cases rest with
      | nil => rfl
      | cons c rest =>
          have other := ends c rfl
          simp only [isNumeral, Bool.or_eq_false_iff, beq_eq_false_iff_ne] at other
          simp [scanExponent, other]
  | cons digit digits =>
      have scanned : scanDigits1 (digit :: digits ++ rest) = some (digit :: digits, rest) :=
        scanDigits1_append (List.cons_ne_nil _ _) all fun c found => by
          have other := ends c found
          simp only [isNumeral, Bool.or_eq_false_iff] at other
          exact other.1.1.1.1.1
      cases negative with
      | true => simpa [scanExponent, scanExponentSign, scanSign] using scanned
      | false => simpa [scanExponent, scanExponentSign] using scanned

/-- A literal that is written out is read again, whatever follows it. -/
theorem scan_chars {literal : NumberLiteral} (proper : literal.Proper) {rest : List Char}
    (ends : Ends isNumeral rest) : scan (literal.chars ++ rest) = some (literal, rest) := by
  have ending {c : Char} (other : isNumeral c = false) : c.isDigit = false ∧ c ≠ '.' := by
    simp only [isNumeral, Bool.or_eq_false_iff, beq_eq_false_iff_ne] at other
    exact ⟨other.1.1.1.1.1, other.1.1.2⟩
  -- What follows each part starts with none of its characters.
  have exponentEnds (c : Char) (found : c ∈ ((if literal.exponentDigits.isEmpty then [] else
      'e' :: (if literal.exponentNegative then '-' else '+') :: literal.exponentDigits) ++
        rest).head?) : c.isDigit = false ∧ c ≠ '.' := by
    cases digits : literal.exponentDigits with
    | nil =>
        simp only [digits, List.isEmpty_nil, if_true, List.nil_append] at found
        exact ending (ends c found)
    | cons digit more =>
        simp only [digits, List.isEmpty_cons, Bool.false_eq_true, if_false, List.cons_append,
          List.head?_cons, Option.mem_some_iff] at found
        subst found
        exact ⟨by decide, by decide⟩
  have fractionEnds (c : Char) (found : c ∈ ((if literal.fraction.isEmpty then [] else
      '.' :: literal.fraction) ++ ((if literal.exponentDigits.isEmpty then [] else
      'e' :: (if literal.exponentNegative then '-' else '+') :: literal.exponentDigits) ++
        rest)).head?) : c.isDigit = false := by
    cases digits : literal.fraction with
    | nil =>
        simp only [digits, List.isEmpty_nil, if_true, List.nil_append] at found
        exact (exponentEnds c found).1
    | cons digit more =>
        simp only [digits, List.isEmpty_cons, Bool.false_eq_true, if_false, List.cons_append,
          List.head?_cons, Option.mem_some_iff] at found
        subst found
        decide
  have unsigned (tail : List Char) : (literal.whole ++ tail).head? ≠ some '-' := by
    obtain ⟨digit, more, found⟩ := List.exists_cons_of_ne_nil proper.present
    have isDigit := proper.whole digit (by simp [found])
    rw [found, List.cons_append, List.head?_cons, ne_eq, Option.some.injEq]
    rintro rfl
    cases isDigit
  simp only [chars, scan, List.append_assoc]
  rw [scanSign_append _ (unsigned _)]
  simp only [scanWhole_append proper.present proper.whole proper.leading fractionEnds,
    scanFraction_append proper.fraction exponentEnds,
    scanExponent_append proper.exponentDigits proper.unsigned ends, Option.bind_eq_bind,
    Option.bind_some]
  rfl

theorem isNumeral_of_mem_chars {literal : NumberLiteral} (proper : literal.Proper) {c : Char}
    (member : c ∈ literal.chars) : isNumeral c = true := by
  simp only [chars, List.mem_append] at member
  rcases member with sign | whole | fraction | exponent
  · split at sign
    · rw [List.mem_singleton.mp sign]
      rfl
    · cases sign
  · exact isNumeral_of_isDigit (proper.whole c whole)
  · split at fraction
    · cases fraction
    · rcases List.mem_cons.mp fraction with rfl | digit
      · rfl
      · exact isNumeral_of_isDigit (proper.fraction c digit)
  · split at exponent
    · cases exponent
    · rcases List.mem_cons.mp exponent with rfl | signed
      · rfl
      · rcases List.mem_cons.mp signed with rfl | digit
        · split
          · rfl
          · rfl
        · exact isNumeral_of_isDigit (proper.exponentDigits c digit)

end NumberLiteral

namespace DecimalLayout

def literal (layout : DecimalLayout) (negative : Bool) (decimal : Decimal) : NumberLiteral :=
  let digits := decimalDigits decimal.coefficient
  let scientific := decimal.exponent + digits.length - 1
  let point := digits.length + decimal.exponent
  if layout.leastPositional ≤ scientific ∧ scientific < layout.pastPositional then
    if 0 ≤ decimal.exponent then
      ⟨negative, digits ++ zeros decimal.exponent.toNat, ['0'], false, []⟩
    else if 0 < point then
      ⟨negative, digits.take point.toNat, digits.drop point.toNat, false, []⟩
    else ⟨negative, ['0'], zeros (-point).toNat ++ digits, false, []⟩
  else
    ⟨negative, digits.take 1, digits.drop 1, decide (scientific < 0),
      decimalDigits scientific.natAbs⟩

variable {layout : DecimalLayout} {decimal : Decimal}

theorem length_zeros (count : Nat) : (zeros count).length = count :=
  List.length_replicate

theorem scientificDigits_eq {digits : List Char} (present : digits ≠ []) :
    scientificDigits digits = digits.take 1 ++
      (if (digits.drop 1).isEmpty then [] else '.' :: digits.drop 1) := by
  cases digits with
  | nil => exact absurd rfl present
  | cons digit more =>
      cases more with
      | nil => rfl
      | cons next more => rfl

theorem chars_literal (layout : DecimalLayout) (negative : Bool) (decimal : Decimal) :
    (layout.literal negative decimal).chars =
      (if negative then ['-'] else []) ++ layout.chars decimal := by
  have present := decimalDigits_ne_nil decimal.coefficient
  simp only [literal, chars, positionalChars]
  generalize decimalDigits decimal.coefficient = digits at *
  split
  · split
    · simp [NumberLiteral.chars]
    · split
      · rename_i fractional inside
        have some : (digits.drop (digits.length + decimal.exponent).toNat).isEmpty = false := by
          rw [List.isEmpty_eq_false_iff, ne_eq, List.drop_eq_nil_iff]
          omega
        simp [NumberLiteral.chars, some]
      · have some :
            (zeros (-(digits.length + decimal.exponent)).toNat ++ digits).isEmpty = false := by
          rw [List.isEmpty_eq_false_iff, ne_eq, List.append_eq_nil_iff]
          exact fun both => present both.2
        simp only [NumberLiteral.chars, some]
        simp
  · rw [scientificDigits_eq present]
    have some : (decimalDigits (decimal.exponent + digits.length - 1).natAbs).isEmpty = false := by
      rw [List.isEmpty_eq_false_iff]
      exact decimalDigits_ne_nil _
    simp only [NumberLiteral.chars, some, exponentChars, decide_eq_true_eq]
    simp

theorem proper_literal (negative : Bool) (nonzero : decimal.coefficient ≠ 0) :
    (layout.literal negative decimal).Proper := by
  have present := decimalDigits_ne_nil decimal.coefficient
  have leading := head_decimalDigits_ne_zero nonzero
  have all : ∀ c ∈ decimalDigits decimal.coefficient, c.isDigit = true :=
    fun c member => isDigit_of_mem_decimalDigits member
  have zero {count : Nat} {c : Char} (member : c ∈ zeros count) : c.isDigit = true := by
    rw [List.eq_of_mem_replicate member]
    rfl
  have lone : ∀ c ∈ ['0'], c.isDigit = true := List.all_eq_true.mp (by decide)
  simp only [literal]
  generalize decimalDigits decimal.coefficient = digits at *
  -- The front of the digits does not start with a zero either.
  have front (count : Nat) (positive : 0 < count) :
      digits.take count ≠ [] ∧ (digits.take count).head? ≠ some '0' := by
    obtain ⟨count, rfl⟩ := Nat.exists_eq_succ_of_ne_zero positive.ne'
    cases digits with
    | nil => exact absurd rfl present
    | cons digit more => exact ⟨List.cons_ne_nil _ _, leading⟩
  split
  · split
    · refine ⟨?_, lone, by simp, by simp [present], Or.inr ?_, fun _ => rfl⟩
      · intro c member
        rcases List.mem_append.mp member with digit | padding
        · exact all c digit
        · exact zero padding
      · obtain ⟨digit, more, rfl⟩ := List.exists_cons_of_ne_nil present
        exact leading
    · split
      · rename_i inside
        obtain ⟨some, first⟩ := front (digits.length + decimal.exponent).toNat (by omega)
        exact ⟨fun c member => all c (List.mem_of_mem_take member),
          fun c member => all c (List.mem_of_mem_drop member), by simp, some, Or.inr first,
          fun _ => rfl⟩
      · refine ⟨lone, ?_, by simp, by simp, Or.inl rfl, fun _ => rfl⟩
        intro c member
        rcases List.mem_append.mp member with padding | digit
        · exact zero padding
        · exact all c digit
  · obtain ⟨some, first⟩ := front 1 (by decide)
    exact ⟨fun c member => all c (List.mem_of_mem_take member),
      fun c member => all c (List.mem_of_mem_drop member),
      fun c member => isDigit_of_mem_decimalDigits member, some, Or.inr first,
      fun none => absurd none (decimalDigits_ne_nil _)⟩

theorem isWhole_literal (layout : DecimalLayout) (negative : Bool) (decimal : Decimal) :
    (layout.literal negative decimal).isWhole = false := by
  have present := decimalDigits_ne_nil decimal.coefficient
  have exponent := decimalDigits_ne_nil
    (decimal.exponent + (decimalDigits decimal.coefficient).length - 1).natAbs
  simp only [literal, NumberLiteral.isWhole]
  generalize decimalDigits decimal.coefficient = digits at *
  split
  · split
    · rfl
    · split
      · rw [Bool.and_eq_false_iff]
        left
        rw [List.isEmpty_eq_false_iff, ne_eq, List.drop_eq_nil_iff]
        omega
      · simp [present]
  · simp [exponent]

/-- The layout does not change the number that a decimal reads as. -/
theorem toBinary64?_literal (negative : Bool) (nonzero : decimal.coefficient ≠ 0) :
    (layout.literal negative decimal).toBinary64? = decimal.toBinary64? negative := by
  obtain ⟨coefficient, exponent⟩ := decimal
  have value := digitsValue_decimalDigits coefficient
  have length : 0 < (decimalDigits coefficient).length :=
    List.length_pos_iff.mpr (decimalDigits_ne_nil coefficient)
  have exponentValue (written : Int) :
      (if decide (written < 0) = true then -(digitsValue (decimalDigits written.natAbs) : Int)
        else digitsValue (decimalDigits written.natAbs)) = written := by
    rw [digitsValue_decimalDigits]
    split
    · rename_i below
      have negative : written < 0 := by simpa using below
      omega
    · rename_i above
      have nonnegative : ¬written < 0 := by simpa using above
      omega
  simp only [literal, NumberLiteral.toBinary64?]
  split
  · split
    · rename_i whole
      have padded : digitsValue (decimalDigits coefficient ++ zeros exponent.toNat ++ ['0']) =
          coefficient * 10 ^ (exponent.toNat + 1) := by
        rw [List.append_assoc, zeros, ← List.replicate_succ', digitsValue_append_zeros, value]
      simp only [NumberLiteral.decimal, padded]
      rw [Decimal.toBinary64?_mul_pow nonzero]
      congr 2
      simp [digitsValue]
      omega
    · split
      · rename_i fractional inside
        simp only [NumberLiteral.decimal, List.take_append_drop, value, List.length_drop]
        congr 2
        simp [digitsValue]
        omega
      · rename_i fractional outside
        have padded (count : Nat) :
            digitsValue (['0'] ++ (zeros count ++ decimalDigits coefficient)) = coefficient := by
          have none : digitsValue ([] ++ List.replicate (count + 1) '0') = 0 := by
            rw [digitsValue_append_zeros]
            exact Nat.zero_mul _
          rw [List.nil_append] at none
          rw [← List.append_assoc, zeros, List.singleton_append, ← List.replicate_succ,
            digitsValue_append, none]
          exact value
        simp only [NumberLiteral.decimal, padded, List.length_append, length_zeros]
        congr 2
        simp [digitsValue]
        omega
  · simp only [NumberLiteral.decimal, List.take_append_drop, value, List.length_drop,
      exponentValue]
    congr 2
    omega

end DecimalLayout

namespace Json.Number

def literal : Number → NumberLiteral
  | .integer whole => ⟨decide (whole.value < 0), decimalDigits whole.value.natAbs, [], false, []⟩
  | .float real =>
      if real.isZero then ⟨real.negative, ['0'], ['0'], false, []⟩
      else numberLayout.literal real.negative real.shortest

theorem sign_append (negative : Bool) (magnitude : List Char) :
    (if negative then ['-'] else []) ++ magnitude =
      if negative then '-' :: magnitude else magnitude := by
  cases negative with
  | true => rfl
  | false => rfl

theorem chars_literal (value : Number) : value.literal.chars = value.chars := by
  cases value with
  | integer whole =>
      have signed := sign_append (decide (whole.value < 0)) (decimalDigits whole.value.natAbs)
      simp only [decide_eq_true_eq] at signed
      simp only [literal, NumberLiteral.chars, chars, integerChars, decide_eq_true_eq,
        List.isEmpty_nil, if_true, List.append_nil, signed]
  | float real =>
      simp only [literal, chars, floatChars]
      cases zero : real.isZero with
      | true => exact sign_append _ _
      | false =>
          simp only [Bool.false_eq_true, if_false, DecimalLayout.chars_literal]
          exact sign_append _ _

theorem proper_literal (value : Number) : value.literal.Proper := by
  have lone : ∀ c ∈ ['0'], c.isDigit = true := List.all_eq_true.mp (by decide)
  cases value with
  | integer whole =>
      simp only [literal]
      refine ⟨fun c member => isDigit_of_mem_decimalDigits member, by simp, by simp,
        decimalDigits_ne_nil _, ?_, fun _ => rfl⟩
      by_cases zero : whole.value.natAbs = 0
      · left
        rw [zero]
        rfl
      · exact Or.inr (head_decimalDigits_ne_zero zero)
  | float real =>
      simp only [literal]
      cases zero : real.isZero with
      | true => exact ⟨lone, lone, by simp, by simp, Or.inl rfl, fun _ => rfl⟩
      | false =>
          simp only [Bool.false_eq_true, if_false]
          exact DecimalLayout.proper_literal _ (Binary64.shortest_reads_back zero).1

theorem ofLiteral?_literal (value : Number) : ofLiteral? value.literal = some value := by
  cases value with
  | integer whole =>
      have signed : (NumberLiteral.wholeValue ⟨decide (whole.value < 0),
          decimalDigits whole.value.natAbs, [], false, []⟩) = whole.value := by
        simp only [NumberLiteral.wholeValue, digitsValue_decimalDigits, decide_eq_true_eq]
        split
        · omega
        · omega
      have notMinusZero : (decide (whole.value < 0) && whole.value == 0) = false := by
        by_cases zero : whole.value = 0
        · simp [zero]
        · simp [zero]
      simp only [literal, ofLiteral?, signed, notMinusZero, NumberLiteral.isWhole,
        Integer64.ofInt?_value, List.isEmpty_nil, Bool.and_self, Bool.not_false, if_true]
  | float real =>
      simp only [literal]
      cases zero : real.isZero with
      | true =>
          have rank : real.rank = 0 := by simpa [Binary64.isZero] using zero
          have same : Binary64.zero real.negative = real := by
            obtain ⟨negative, rank, finite⟩ := real
            subst rank
            rfl
          have decimal : (⟨real.negative, ['0'], ['0'], false, []⟩ : NumberLiteral).decimal =
              ⟨0, -1⟩ := rfl
          simp [ofLiteral?, NumberLiteral.isWhole, NumberLiteral.toBinary64?, decimal,
            Decimal.toBinary64?, same]
      | false =>
          obtain ⟨nonzero, reads⟩ := Binary64.shortest_reads_back zero
          simp only [Bool.false_eq_true, if_false, ofLiteral?, DecimalLayout.isWhole_literal,
            Bool.false_and, DecimalLayout.toBinary64?_literal _ nonzero, reads, Option.map_some]

/-- The text of a number tells which number it is and where it ends. -/
theorem chars_append_inj {left right : Number} {rest rest' : List Char} (ends : Ends isNumeral rest)
    (ends' : Ends isNumeral rest') (same : left.chars ++ rest = right.chars ++ rest') :
    left = right ∧ rest = rest' := by
  have scanned := NumberLiteral.scan_chars left.proper_literal ends
  rw [chars_literal, same, ← chars_literal,
    NumberLiteral.scan_chars right.proper_literal ends', Option.some.injEq,
    Prod.mk.injEq] at scanned
  obtain ⟨literals, rests⟩ := scanned
  have values := ofLiteral?_literal left
  rw [← literals, ofLiteral?_literal, Option.some.injEq] at values
  exact ⟨values.symm, rests.symm⟩

theorem isNumeral_of_mem_chars {value : Number} {c : Char} (member : c ∈ value.chars) :
    isNumeral c = true := by
  rw [← chars_literal] at member
  exact NumberLiteral.isNumeral_of_mem_chars value.proper_literal member

end Json.Number

end StaticQuery
