import StaticQuery.Proofs.Json.NumberText

/-!
The text of a JSON value tells which value it is and where it ends. String literals are read back
as they were written; everything else is told apart by its first character.
-/

namespace StaticQuery

section

variable {α : Type} {text : List α → List Char}

def afterFirst (separator : List Char) (text : List α → List Char) : List α → List Char
  | [] => []
  | next :: others => separator ++ text (next :: others)

/-- Where the parts are over, no separator follows, so both texts go on with parts or neither. -/
theorem afterFirst_append_inj {separator rest rest' : List Char} {left right : List α}
    (empty : text [] = []) (ends : ∀ more, separator ++ more ≠ rest)
    (ends' : ∀ more, separator ++ more ≠ rest')
    (same : afterFirst separator text left ++ rest = afterFirst separator text right ++ rest') :
    text left ++ rest = text right ++ rest' := by
  cases left with
  | nil =>
      cases right with
      | nil => rwa [empty]
      | cons other others =>
          rw [afterFirst, afterFirst, List.append_assoc] at same
          exact absurd same.symm (ends _)
  | cons first items =>
      cases right with
      | nil =>
          rw [afterFirst, afterFirst, List.append_assoc] at same
          exact absurd same (ends' _)
      | cons other others =>
          rw [afterFirst, afterFirst, List.append_assoc, List.append_assoc] at same
          exact List.append_cancel_left same

theorem ends_afterFirst {inside : Char → Bool} {c : Char} (other : inside c = false)
    {separator rest : List Char} {items : List α} (ends : Ends inside rest) :
    Ends inside (afterFirst (c :: separator) text items ++ rest) := by
  cases items with
  | nil => exact ends
  | cons item items => exact .cons other _

end

namespace Json

theorem readText_escapeChar (anyUnits : Bool) (done : List Char) (c : Char) (rest : List Char) :
    readText anyUnits done (escapeChar c ++ rest) = readText anyUnits (c :: done) rest := by
  have hex : ∀ value < 16, hexValue? (lowerHexDigit value) = some value := by decide
  unfold escapeChar
  split
  · subst c
    simp [readText, simpleEscape?]
  split
  · subst c
    simp [readText, simpleEscape?]
  split
  · subst c
    simp [readText, simpleEscape?]
  split
  · subst c
    simp [readText, simpleEscape?]
  split
  · subst c
    simp [readText, simpleEscape?]
  split
  · subst c
    simp [readText, simpleEscape?]
  split
  · subst c
    simp [readText, simpleEscape?]
  split
  · rename_i control
    have quad : hexQuad? '0' '0' (lowerHexDigit (c.toNat / 16)) (lowerHexDigit (c.toNat % 16)) =
        some c.toNat := by
      have zero : hexValue? '0' = some 0 := by decide
      simp only [hexQuad?, zero, hex (c.toNat / 16) (by omega), hex (c.toNat % 16) (by omega),
        Option.bind_eq_bind, Option.bind_some, Option.pure_def, Option.some.injEq]
      omega
    have high : isHighSurrogate c.toNat = false := by
      simp [isHighSurrogate]
      omega
    have low : isLowSurrogate c.toNat = false := by
      simp [isLowSurrogate]
      omega
    simp only [List.cons_append, List.nil_append]
    rw [readText]
    simp [quad, high, low, Char.ofNat_toNat]
  · rename_i quote backslash _ _ _ _ _ control
    rw [List.singleton_append, readText]
    · simp [control, backslash]
    · exact quote
    · intro _ _ _ _ _ same
      exact absurd same backslash
    · intro _ _ same
      exact absurd same backslash

theorem readText_flatMap (anyUnits : Bool) (text : List Char) (done rest : List Char) :
    readText anyUnits done (text.flatMap escapeChar ++ '"' :: rest) =
      some (String.ofList (done.reverse ++ text), rest) := by
  induction text generalizing done with
  | nil => simp [readText]
  | cons c text ih =>
      rw [List.flatMap_cons, List.append_assoc, readText_escapeChar, ih]
      simp

theorem quotedChars_append (text : String) (rest : List Char) :
    quotedChars text ++ rest = '"' :: (text.toList.flatMap escapeChar ++ '"' :: rest) := by
  simp [quotedChars]

theorem quotedChars_append_inj {left right : String} {rest rest' : List Char}
    (same : quotedChars left ++ rest = quotedChars right ++ rest') :
    left = right ∧ rest = rest' := by
  rw [quotedChars_append, quotedChars_append, List.cons.injEq] at same
  have read := readText_flatMap false left.toList [] rest
  rw [same.2, readText_flatMap] at read
  simp only [List.reverse_nil, List.nil_append, String.ofList_toList, Option.some.injEq,
    Prod.mk.injEq] at read
  exact ⟨read.1.symm, read.2.symm⟩

inductive Kind where
  | null | bool | number | string | array | object
deriving DecidableEq

def kind : Json → Kind
  | .null => .null
  | .bool _ => .bool
  | .number _ => .number
  | .string _ => .string
  | .array _ => .array
  | .object _ => .object

def Kind.ofLead (c : Char) : Option Kind :=
  if c = 'n' then some .null
  else if c = 't' then some .bool
  else if c = 'f' then some .bool
  else if c = '"' then some .string
  else if c = '[' then some .array
  else if c = '{' then some .object
  else if isNumeral c then some .number
  else none

theorem Number.chars_ne_nil (value : Number) : value.chars ≠ [] := by
  rw [← chars_literal]
  simp [NumberLiteral.chars, value.proper_literal.present]

theorem Kind.ofLead_of_isNumeral {c : Char} (numeral : isNumeral c = true) :
    Kind.ofLead c = some .number := by
  have different (other : Char) (plain : isNumeral other = false) : c ≠ other := by
    rintro rfl
    rw [numeral] at plain
    cases plain
  simp [ofLead, numeral, different 'n' (by decide), different 't' (by decide),
    different 'f' (by decide), different '"' (by decide), different '[' (by decide),
    different '{' (by decide)]

theorem exists_lead (value : Json) :
    ∃ c rest, value.chars = c :: rest ∧ Kind.ofLead c = some value.kind := by
  cases value with
  | null => exact ⟨_, _, rfl, by decide⟩
  | bool value =>
      cases value with
      | true => exact ⟨_, _, rfl, by decide⟩
      | false => exact ⟨_, _, rfl, by decide⟩
  | number value =>
      obtain ⟨c, rest, found⟩ := List.exists_cons_of_ne_nil value.chars_ne_nil
      refine ⟨c, rest, by rw [chars, found], Kind.ofLead_of_isNumeral ?_⟩
      exact Number.isNumeral_of_mem_chars (by rw [found]; exact List.mem_cons_self)
  | string text => exact ⟨'"', _, by rw [chars, quotedChars]; rfl, rfl⟩
  | array items => exact ⟨'[', _, by rw [chars]; rfl, rfl⟩
  | object members => exact ⟨'{', _, by rw [chars]; rfl, rfl⟩

theorem kind_eq_of_chars_append {left right : Json} {rest rest' : List Char}
    (same : left.chars ++ rest = right.chars ++ rest') : left.kind = right.kind := by
  obtain ⟨c, more, text, lead⟩ := left.exists_lead
  obtain ⟨c', more', text', lead'⟩ := right.exists_lead
  rw [text, text', List.cons_append, List.cons_append, List.cons.injEq] at same
  rw [same.1, lead', Option.some.injEq] at lead
  exact lead.symm

theorem chars_append_ne_cons {value : Json} {c : Char} {rest rest' : List Char}
    (lead : Kind.ofLead c = none) : value.chars ++ rest ≠ c :: rest' := by
  obtain ⟨first, more, text, kind⟩ := value.exists_lead
  rw [text, List.cons_append, ne_eq, List.cons.injEq]
  rintro ⟨rfl, _⟩
  rw [lead] at kind
  cases kind

theorem itemChars_cons (item : Json) (items : List Json) :
    itemChars (item :: items) = item.chars ++ afterFirst [','] itemChars items := by
  cases items with
  | nil => simp [itemChars, afterFirst]
  | cons next items => simp [itemChars, afterFirst]

theorem memberChars_cons (key : String) (value : Json) (members : List (String × Json)) :
    memberChars ((key, value) :: members) =
      quotedChars key ++ ':' :: (value.chars ++ afterFirst [','] memberChars members) := by
  cases members with
  | nil => simp [memberChars, afterFirst]
  | cons next members => simp [memberChars, afterFirst]

mutual

theorem chars_append_inj :
    ∀ {left right : Json} {rest rest' : List Char}, Ends isNumeral rest → Ends isNumeral rest' →
      left.chars ++ rest = right.chars ++ rest' → left = right ∧ rest = rest'
  | .null, right, rest, rest', _, _, same => by
      have kinds := kind_eq_of_chars_append same
      cases right with
      | null => exact ⟨rfl, by simpa [chars] using same⟩
      | _ => cases kinds
  | .bool value, right, rest, rest', _, _, same => by
      have kinds := kind_eq_of_chars_append same
      cases right with
      | bool other =>
          cases value with
          | true =>
              cases other with
              | true => exact ⟨rfl, by simpa [chars] using same⟩
              | false => simp [chars] at same
          | false =>
              cases other with
              | true => simp [chars] at same
              | false => exact ⟨rfl, by simpa [chars] using same⟩
      | _ => cases kinds
  | .number value, right, rest, rest', ends, ends', same => by
      have kinds := kind_eq_of_chars_append same
      cases right with
      | number other =>
          rw [chars, chars] at same
          obtain ⟨rfl, rests⟩ := Number.chars_append_inj ends ends' same
          exact ⟨rfl, rests⟩
      | _ => cases kinds
  | .string text, right, rest, rest', _, _, same => by
      have kinds := kind_eq_of_chars_append same
      cases right with
      | string other =>
          rw [chars, chars] at same
          obtain ⟨rfl, rests⟩ := quotedChars_append_inj same
          exact ⟨rfl, rests⟩
      | _ => cases kinds
  | .array items, right, rest, rest', _, _, same => by
      have kinds := kind_eq_of_chars_append same
      cases right with
      | array others =>
          simp only [chars, List.cons_append, List.append_assoc, List.nil_append,
            List.cons.injEq, true_and] at same
          obtain ⟨rfl, rests⟩ := itemChars_append_inj same
          exact ⟨rfl, rests⟩
      | _ => cases kinds
  | .object members, right, rest, rest', _, _, same => by
      have kinds := kind_eq_of_chars_append same
      cases right with
      | object others =>
          simp only [chars, List.cons_append, List.append_assoc, List.nil_append,
            List.cons.injEq, true_and] at same
          obtain ⟨rfl, rests⟩ := memberChars_append_inj same
          exact ⟨rfl, rests⟩
      | _ => cases kinds

theorem itemChars_append_inj :
    ∀ {left right : List Json} {rest rest' : List Char},
      itemChars left ++ ']' :: rest = itemChars right ++ ']' :: rest' →
        left = right ∧ rest = rest'
  | [], [], rest, rest', same => ⟨rfl, by simpa [itemChars] using same⟩
  | [], item :: items, rest, rest', same => by
      rw [itemChars_cons, itemChars, List.nil_append, List.append_assoc] at same
      exact absurd same.symm (chars_append_ne_cons (by decide))
  | item :: items, [], rest, rest', same => by
      rw [itemChars_cons, itemChars, List.nil_append, List.append_assoc] at same
      exact absurd same (chars_append_ne_cons (by decide))
  | item :: items, other :: others, rest, rest', same => by
      rw [itemChars_cons, itemChars_cons, List.append_assoc, List.append_assoc] at same
      obtain ⟨rfl, more⟩ := chars_append_inj
        (ends_afterFirst (by decide) (.cons (by decide) rest))
        (ends_afterFirst (by decide) (.cons (by decide) rest')) same
      obtain ⟨rfl, rests⟩ :=
        itemChars_append_inj (afterFirst_append_inj rfl (by simp) (by simp) more)
      exact ⟨rfl, rests⟩

theorem memberChars_append_inj :
    ∀ {left right : List (String × Json)} {rest rest' : List Char},
      memberChars left ++ '}' :: rest = memberChars right ++ '}' :: rest' →
        left = right ∧ rest = rest'
  | [], [], rest, rest', same => ⟨rfl, by simpa [memberChars] using same⟩
  | [], (key, value) :: members, rest, rest', same => by
      simp [memberChars_cons, memberChars, quotedChars] at same
  | (key, value) :: members, [], rest, rest', same => by
      simp [memberChars_cons, memberChars, quotedChars] at same
  | (key, value) :: members, (key', value') :: others, rest, rest', same => by
      simp only [memberChars_cons, List.append_assoc, List.cons_append] at same
      obtain ⟨rfl, values⟩ := quotedChars_append_inj same
      rw [List.cons.injEq] at values
      obtain ⟨rfl, more⟩ := chars_append_inj
        (ends_afterFirst (by decide) (.cons (by decide) rest))
        (ends_afterFirst (by decide) (.cons (by decide) rest')) values.2
      obtain ⟨rfl, rests⟩ :=
        memberChars_append_inj (afterFirst_append_inj rfl (by simp) (by simp) more)
      exact ⟨rfl, rests⟩

end

end Json

end StaticQuery
