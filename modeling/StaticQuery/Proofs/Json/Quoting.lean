import StaticQuery.Proofs.Json.ValueText

/-!
String literals in a longer text, as a reader sees them who only knows quotes and backslashes.
Whatever a string holds, its literal is closed where it ends and shows no control character, so
that values which differ in their strings alone are written alike around them.
-/

namespace StaticQuery

structure Reading where
  quoted : Bool
  escaped : Bool
deriving DecidableEq

namespace Reading

def code : Reading := ⟨false, false⟩

def literal : Reading := ⟨true, false⟩

def next (reading : Reading) (c : Char) : Reading :=
  if reading.escaped then ⟨reading.quoted, false⟩
  else if c = '\\' then ⟨reading.quoted, true⟩
  else if c = '"' then ⟨!reading.quoted, false⟩
  else reading

def after (reading : Reading) (text : List Char) : Reading :=
  text.foldl next reading

def along (reading : Reading) : List Char → List (Reading × Char)
  | [] => []
  | c :: rest => (reading, c) :: (reading.next c).along rest

theorem after_append (reading : Reading) (text more : List Char) :
    reading.after (text ++ more) = (reading.after text).after more :=
  List.foldl_append

theorem along_append (reading : Reading) (text more : List Char) :
    reading.along (text ++ more) = reading.along text ++ (reading.after text).along more := by
  induction text generalizing reading with
  | nil => rfl
  | cons c text ih =>
      rw [List.cons_append, along, along, ih, List.cons_append]
      rfl

def isContent (seen : Reading × Char) : Bool :=
  seen.1.quoted && (seen.1.next seen.2).quoted

def blanked (reading : Reading) (text : List Char) : List Char :=
  ((reading.along text).filter fun seen => !isContent seen).map Prod.snd

theorem blanked_append (reading : Reading) (text more : List Char) :
    reading.blanked (text ++ more) =
      reading.blanked text ++ (reading.after text).blanked more := by
  simp only [blanked, along_append, List.filter_append, List.map_append]

theorem blanked_cons (reading : Reading) (c : Char) (text : List Char) :
    reading.blanked (c :: text) =
      (if isContent (reading, c) then [] else [c]) ++ (reading.next c).blanked text := by
  cases content : isContent (reading, c) with
  | true => simp [blanked, along, content]
  | false => simp [blanked, along, content]

theorem splitOn_cons_of_ne {c : Char} (other : c ≠ '\n') {text first : List Char}
    {others : List (List Char)} (lines : text.splitOn '\n' = first :: others) :
    (c :: text).splitOn '\n' = (c :: first) :: others := by
  rw [List.splitOn] at lines ⊢
  rw [List.splitOnP_cons_eq_if_modifyHead, lines]
  simp [other]

theorem splitOn_newLine_cons (text : List Char) :
    ('\n' :: text).splitOn '\n' = [] :: text.splitOn '\n' := by
  simp [List.splitOn, List.splitOnP_cons_eq_if_modifyHead]

/-- Where no line ends within a string, each line can be read on its own. -/
theorem splitOn_blanked {reading : Reading} {text first : List Char} {others : List (List Char)}
    (breaks : ∀ seen ∈ reading.along text, seen.2 = '\n' → seen.1 = code)
    (lines : text.splitOn '\n' = first :: others) :
    (reading.blanked text).splitOn '\n' = reading.blanked first :: others.map code.blanked := by
  -- Only the first line is read on from the middle of something; the others start in code.
  induction text generalizing reading first others with
  | nil =>
      rw [List.splitOn_nil, List.cons.injEq] at lines
      rw [← lines.1, ← lines.2]
      rfl
  | cons c text ih =>
      have later : ∀ seen ∈ (reading.next c).along text, seen.2 = '\n' → seen.1 = code :=
        fun seen member => breaks seen (List.mem_cons_of_mem _ member)
      obtain ⟨line, _, rest⟩ := List.exists_cons_of_ne_nil (List.splitOn_ne_nil '\n' text)
      by_cases lineEnd : c = '\n'
      · subst c
        have outside : reading = code := breaks _ List.mem_cons_self rfl
        subst reading
        rw [splitOn_newLine_cons, List.cons.injEq] at lines
        have kept : code.blanked ('\n' :: text) = '\n' :: code.blanked text := blanked_cons ..
        have more : (code.blanked text).splitOn '\n' = _ := ih later rest
        rw [kept, splitOn_newLine_cons, more, ← lines.1, ← lines.2, rest]
        rfl
      · rw [splitOn_cons_of_ne lineEnd rest, List.cons.injEq] at lines
        rw [← lines.1, ← lines.2, blanked_cons, blanked_cons]
        cases isContent (reading, c) with
        | true => exact ih later rest
        | false => exact splitOn_cons_of_ne lineEnd (ih later rest)

/-- A text after which the reader stands where it stood before, and all of whose characters are
allowed where the reader meets them. -/
structure Keeps (reading : Reading) (allowed : Reading × Char → Prop) (text : List Char) :
    Prop where
  closed : reading.after text = reading
  allowed : ∀ seen ∈ reading.along text, allowed seen

instance (reading : Reading) (allowed : Reading × Char → Prop) [DecidablePred allowed]
    (text : List Char) : Decidable (reading.Keeps allowed text) :=
  decidable_of_iff (reading.after text = reading ∧ ∀ seen ∈ reading.along text, allowed seen)
    ⟨fun both => ⟨both.1, both.2⟩, fun keeps => ⟨keeps.closed, keeps.allowed⟩⟩

namespace Keeps

variable {reading : Reading} {allowed : Reading × Char → Prop}

theorem nil : reading.Keeps allowed [] :=
  ⟨rfl, fun _ member => nomatch member⟩

theorem append {text more : List Char} (first : reading.Keeps allowed text)
    (second : reading.Keeps allowed more) : reading.Keeps allowed (text ++ more) := by
  constructor
  · rw [after_append, first.closed, second.closed]
  · intro seen member
    rw [along_append, first.closed, List.mem_append] at member
    rcases member with early | late
    · exact first.allowed seen early
    · exact second.allowed seen late

theorem concat {text more : String} (first : reading.Keeps allowed text.toList)
    (second : reading.Keeps allowed more.toList) :
    reading.Keeps allowed (text ++ more).toList := by
  rw [String.toList_append]
  exact first.append second

theorem singleton {c : Char} (backslash : c ≠ '\\') (quote : c ≠ '"')
    (unescaped : reading.escaped = false) (fits : allowed (reading, c)) :
    reading.Keeps allowed [c] := by
  constructor
  · simp [after, next, unescaped, backslash, quote]
  · intro seen member
    rw [along, along, List.mem_singleton] at member
    rwa [member]

end Keeps

abbrev IsContent (text : List Char) : Prop :=
  literal.Keeps (fun seen => isContent seen = true ∧ 0x20 ≤ seen.2.toNat) text

/-- A text that leaves its reader outside of every string, with control characters only where the
reader expects code. -/
abbrev Sealed (text : List Char) : Prop :=
  code.Keeps (fun seen => seen.2.toNat < 0x20 → seen.1 = code) text

/-- Words of a class of characters that has neither quotes nor backslashes. -/
theorem sealed_of_all {inside : Char → Bool} (backslash : inside '\\' = false)
    (quote : inside '"' = false) {text : List Char} (all : ∀ c ∈ text, inside c = true) :
    Sealed text := by
  induction text with
  | nil => exact .nil
  | cons c text ih =>
      have different {other : Char} (outside : inside other = false) : c ≠ other := by
        rintro rfl
        rw [all c List.mem_cons_self] at outside
        cases outside
      have first : Sealed [c] := .singleton (different backslash) (different quote) rfl fun _ => rfl
      exact first.append (ih fun other member => all other (List.mem_cons_of_mem _ member))

theorem map_blanked_splitOn {text : List Char} (isSealed : Sealed text) :
    (text.splitOn '\n').map code.blanked = (code.blanked text).splitOn '\n' := by
  obtain ⟨first, others, found⟩ := List.exists_cons_of_ne_nil (List.splitOn_ne_nil '\n' text)
  have breaks : ∀ seen ∈ code.along text, seen.2 = '\n' → seen.1 = code := by
    intro seen member lineEnd
    exact isSealed.allowed seen member (by rw [lineEnd]; decide)
  rw [splitOn_blanked breaks found, found]
  rfl

structure SameCode (left right : List Char) : Prop where
  leftSealed : Sealed left
  rightSealed : Sealed right
  blanked : code.blanked left = code.blanked right

namespace SameCode

theorem refl {text : List Char} (isSealed : Sealed text) : SameCode text text :=
  ⟨isSealed, isSealed, rfl⟩

theorem symm {left right : List Char} (same : SameCode left right) : SameCode right left :=
  ⟨same.rightSealed, same.leftSealed, same.blanked.symm⟩

theorem trans {left middle right : List Char} (first : SameCode left middle)
    (second : SameCode middle right) : SameCode left right :=
  ⟨first.leftSealed, second.rightSealed, first.blanked.trans second.blanked⟩

theorem append {left right more more' : List Char} (first : SameCode left right)
    (second : SameCode more more') : SameCode (left ++ more) (right ++ more') := by
  refine ⟨first.leftSealed.append second.leftSealed,
    first.rightSealed.append second.rightSealed, ?_⟩
  rw [blanked_append, blanked_append, first.leftSealed.closed, first.rightSealed.closed,
    first.blanked, second.blanked]

theorem concat {left right more more' : String} (first : SameCode left.toList right.toList)
    (second : SameCode more.toList more'.toList) :
    SameCode (left ++ more).toList (right ++ more').toList := by
  rw [String.toList_append, String.toList_append]
  exact first.append second

theorem afterFirst {α : Type} (text : List α → List Char) {separator : List Char}
    {left right : List α} (isSealed : Sealed separator) (empty : left.isEmpty = right.isEmpty)
    (same : SameCode (text left) (text right)) :
    SameCode (StaticQuery.afterFirst separator text left)
      (StaticQuery.afterFirst separator text right) := by
  cases left with
  | nil =>
      cases right with
      | nil => exact .refl .nil
      | cons other others => cases empty
  | cons first items =>
      cases right with
      | nil => cases empty
      | cons other others => exact (SameCode.refl isSealed).append same

theorem lines {left right : List Char} (same : SameCode left right) :
    (left.splitOn '\n').map code.blanked = (right.splitOn '\n').map code.blanked := by
  rw [map_blanked_splitOn same.leftSealed, map_blanked_splitOn same.rightSealed, same.blanked]

end SameCode

end Reading

namespace Json

open Reading

theorem isContent_escapeChar (c : Char) : IsContent (escapeChar c) := by
  unfold escapeChar
  split
  · decide
  split
  · decide
  split
  · decide
  split
  · decide
  split
  · decide
  split
  · decide
  split
  · decide
  split
  · have digits : ∀ value < 16, IsContent [lowerHexDigit value] := by decide
    have lead : IsContent ['\\', 'u', '0', '0'] := by decide
    exact lead.append
      ((digits (c.toNat / 16) (by omega)).append (digits (c.toNat % 16) (by omega)))
  · rename_i quote backslash _ _ _ _ _ control
    have stays : literal.next c = literal := by simp [next, literal, backslash, quote]
    refine .singleton backslash quote rfl ⟨?_, Nat.le_of_not_lt control⟩
    rw [isContent, stays]
    rfl

theorem isContent_flatMap (text : List Char) : IsContent (text.flatMap escapeChar) := by
  induction text with
  | nil => exact .nil
  | cons c text ih => exact (isContent_escapeChar c).append ih

theorem along_quotedChars (text : String) :
    code.along (quotedChars text) =
      (code, '"') :: (literal.along (text.toList.flatMap escapeChar) ++ [(literal, '"')]) := by
  have closed := (isContent_flatMap text.toList).closed
  rw [quotedChars, List.cons_append, along]
  have opened : code.next '"' = literal := rfl
  rw [opened, along_append, closed]
  rfl

theorem sealed_quotedChars (text : String) : Sealed (quotedChars text) := by
  have content := isContent_flatMap text.toList
  constructor
  · rw [quotedChars, after_append]
    have inside : code.after ('"' :: text.toList.flatMap escapeChar) = literal := content.closed
    rw [inside]
    rfl
  · intro seen member control
    rw [along_quotedChars, List.mem_cons, List.mem_append, List.mem_singleton] at member
    rcases member with rfl | inside | rfl
    · rfl
    · have visible := (content.allowed seen inside).2
      omega
    · exact absurd control (by decide)

theorem blanked_quotedChars (text : String) : code.blanked (quotedChars text) = ['"', '"'] := by
  have content := isContent_flatMap text.toList
  have dropped : (literal.along (text.toList.flatMap escapeChar)).filter
      (fun seen => !isContent seen) = [] := by
    rw [List.filter_eq_nil_iff]
    intro seen member
    simp [(content.allowed seen member).1]
  rw [blanked, along_quotedChars, List.filter_cons, List.filter_append, dropped]
  rfl

theorem sameCode_quotedChars (left right : String) :
    SameCode (quotedChars left) (quotedChars right) :=
  ⟨sealed_quotedChars left, sealed_quotedChars right,
    (blanked_quotedChars left).trans (blanked_quotedChars right).symm⟩

mutual

def withoutTexts : Json → Json
  | .null => .null
  | .bool value => .bool value
  | .number value => .number value
  | .string _ => .string ""
  | .array items => .array (itemsWithoutTexts items)
  | .object members => .object (membersWithoutTexts members)

def itemsWithoutTexts : List Json → List Json
  | [] => []
  | item :: rest => item.withoutTexts :: itemsWithoutTexts rest

def membersWithoutTexts : List (String × Json) → List (String × Json)
  | [] => []
  | (key, value) :: rest => (key, value.withoutTexts) :: membersWithoutTexts rest

end

theorem isEmpty_itemsWithoutTexts (items : List Json) :
    items.isEmpty = (itemsWithoutTexts items).isEmpty := by
  cases items with
  | nil => rfl
  | cons item rest => rfl

theorem isEmpty_membersWithoutTexts (members : List (String × Json)) :
    members.isEmpty = (membersWithoutTexts members).isEmpty := by
  cases members with
  | nil => rfl
  | cons member rest => rfl

mutual

theorem sameCode_withoutTexts : ∀ value : Json, SameCode value.chars value.withoutTexts.chars
  | .null => .refl (by decide)
  | .bool true => .refl (by decide)
  | .bool false => .refl (by decide)
  | .number value => by
      rw [withoutTexts, chars]
      exact .refl (sealed_of_all (by decide) (by decide) fun _ member =>
        Number.isNumeral_of_mem_chars member)
  | .string text => by
      rw [withoutTexts, chars, chars]
      exact sameCode_quotedChars text ""
  | .array items => by
      have bracket : SameCode ['['] ['['] := .refl (by decide)
      have close : SameCode [']'] [']'] := .refl (by decide)
      rw [withoutTexts, chars, chars]
      exact (bracket.append (sameCode_itemsWithoutTexts items)).append close
  | .object members => by
      have brace : SameCode ['{'] ['{'] := .refl (by decide)
      have close : SameCode ['}'] ['}'] := .refl (by decide)
      rw [withoutTexts, chars, chars]
      exact (brace.append (sameCode_membersWithoutTexts members)).append close

theorem sameCode_itemsWithoutTexts :
    ∀ items : List Json, SameCode (itemChars items) (itemChars (itemsWithoutTexts items))
  | [] => .refl .nil
  | item :: rest => by
      have comma : Sealed [','] := by decide
      have others := SameCode.afterFirst itemChars comma (isEmpty_itemsWithoutTexts rest)
        (sameCode_itemsWithoutTexts rest)
      rw [itemsWithoutTexts, itemChars_cons, itemChars_cons]
      exact (sameCode_withoutTexts item).append others

theorem sameCode_membersWithoutTexts :
    ∀ members : List (String × Json),
      SameCode (memberChars members) (memberChars (membersWithoutTexts members))
  | [] => .refl .nil
  | (key, value) :: rest => by
      have colon : SameCode [':'] [':'] := .refl (by decide)
      have comma : Sealed [','] := by decide
      have others := SameCode.afterFirst memberChars comma (isEmpty_membersWithoutTexts rest)
        (sameCode_membersWithoutTexts rest)
      rw [membersWithoutTexts, memberChars_cons, memberChars_cons]
      exact (sameCode_quotedChars key key).append
        (colon.append ((sameCode_withoutTexts value).append others))

end

theorem sameCode_chars {left right : Json} (same : left.withoutTexts = right.withoutTexts) :
    SameCode left.chars right.chars := by
  have first := sameCode_withoutTexts left
  rw [same] at first
  exact first.trans (sameCode_withoutTexts right).symm

end Json

end StaticQuery
