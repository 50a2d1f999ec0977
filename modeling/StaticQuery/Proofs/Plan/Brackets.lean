import StaticQuery.Proofs.Plan.Quoting

/-!
Brackets and indentation, as a reader sees them who knows string literals. A text is built from
pieces, each of which takes the brackets open before it to those open after it and indents the
lines that it starts; pieces are joined along their brackets.
-/

namespace StaticQuery

open Reading

inductive BracketKind where
  | round
  | square
  | curly
deriving DecidableEq

namespace BracketKind

def opened? (c : Char) : Option BracketKind :=
  if c = '(' then some .round
  else if c = '[' then some .square
  else if c = '{' then some .curly
  else none

def closed? (c : Char) : Option BracketKind :=
  if c = ')' then some .round
  else if c = ']' then some .square
  else if c = '}' then some .curly
  else none

theorem opened?_of_closed? {c : Char} {kind : BracketKind} (closes : closed? c = some kind) :
    opened? c = none := by
  unfold closed? at closes
  split at closes
  · subst c
    rfl
  split at closes
  · subst c
    rfl
  split at closes
  · subst c
    rfl
  · cases closes

end BracketKind

abbrev Brackets := List BracketKind

namespace Brackets

def next? (opened : Brackets) (c : Char) : Option Brackets :=
  match BracketKind.opened? c, BracketKind.closed? c with
  | some kind, _ => some (kind :: opened)
  | none, some kind => if opened.head? = some kind then some opened.tail else none
  | none, none => some opened

def after? (opened : Brackets) (text : List Char) : Option Brackets :=
  (code.blanked text).foldlM next? opened

end Brackets

def WellBracketed (text : List Char) : Prop :=
  Brackets.after? [] text = some []

/-- The first line of a text is indented by two blanks for each brace that is open before it; one
that the line starts by closing does not count. -/
def Indented (opened : Brackets) (text : List Char) : Prop :=
  (text.takeWhile (· == ' ')).length +
      (if (text.dropWhile (· == ' ')).head? = some '}' then 2 else 0) =
    2 * opened.count .curly

def LaidOut (text : List Char) : Prop :=
  ∀ before line, text = before ++ line → before = [] ∨ before.getLast? = some '\n' →
    ∃ opened, Brackets.after? [] before = some opened ∧ Indented opened line

namespace Brackets

def marks : List Char :=
  ['\\', '"', '(', ')', '[', ']', '{', '}']

theorem next?_of_not_mem {c : Char} (plain : c ∉ marks) (opened : Brackets) :
    opened.next? c = some opened := by
  simp only [marks, List.mem_cons, List.not_mem_nil, or_false, not_or] at plain
  simp [next?, BracketKind.opened?, BracketKind.closed?, plain]

theorem after?_append {text : List Char} (isSealed : Sealed text) (opened : Brackets)
    (more : List Char) :
    opened.after? (text ++ more) = (opened.after? text).bind fun inner => inner.after? more := by
  rw [after?, blanked_append, isSealed.closed, List.foldlM_append]
  rfl

theorem after?_cons {c : Char} (backslash : c ≠ '\\') (quote : c ≠ '"') (opened : Brackets)
    (text : List Char) :
    opened.after? (c :: text) = (opened.next? c).bind fun inner => inner.after? text := by
  have stays : code.next c = code := by simp [next, code, backslash, quote]
  have kept : code.blanked (c :: text) = c :: code.blanked text := by
    rw [blanked_cons, stays]
    rfl
  rw [after?, kept, List.foldlM_cons]
  rfl

theorem after?_of_plain {text : List Char} (plain : ∀ c ∈ text, c ∉ marks) (opened : Brackets) :
    opened.after? text = some opened := by
  induction text with
  | nil => rfl
  | cons c text ih =>
      obtain ⟨first, others⟩ := List.forall_mem_cons.mp plain
      have different {mark : Char} (marked : mark ∈ marks) : c ≠ mark := by
        rintro rfl
        exact first marked
      rw [after?_cons (different (by decide)) (different (by decide)), next?_of_not_mem first,
        Option.bind_some, ih others]

end Brackets

/-- A piece of a longer text, from the brackets open before it to those open after it. Its lines
but the first are well indented, whatever comes after it. -/
structure Lays (opened : Brackets) (text : List Char) (outer : Brackets) : Prop where
  isSealed : Sealed text
  brackets : opened.after? text = some outer
  lines : ∀ before line, text = before ++ '\n' :: line →
    ∃ inner, opened.after? (before ++ ['\n']) = some inner ∧ ∀ rest, Indented inner (line ++ rest)

theorem indented_of_head {opened : Brackets} {depth : Nat} {text : List Char} {c : Char}
    (first : text.head? = some c) (visible : c ≠ ' ')
    (depths : 2 * depth + (if c = '}' then 2 else 0) = 2 * opened.count .curly) :
    Indented opened (List.replicate (2 * depth) ' ' ++ text) := by
  have blanks : ∀ blank ∈ List.replicate (2 * depth) ' ', (blank == ' ') = true := by
    intro blank member
    rw [List.eq_of_mem_replicate member, beq_self_eq_true]
  have ends : Ends (· == ' ') text := by
    intro found same
    rw [first, Option.mem_some_iff] at same
    simpa [← same] using visible
  obtain ⟨taken, left⟩ := span_append blanks ends
  rw [Indented, taken, left, List.length_replicate, first]
  simpa using depths

theorem indented_of_parenthesis {text : List Char} (first : text.head? = some '(') :
    Indented [] text := by
  have indented : Indented [] (List.replicate (2 * 0) ' ' ++ text) :=
    indented_of_head first (by decide) rfl
  exact indented

theorem exists_append_of_not_mem {c : Char} {first text before line : List Char}
    (absent : c ∉ first) (split : first ++ text = before ++ c :: line) :
    ∃ between, before = first ++ between ∧ text = between ++ c :: line := by
  induction first generalizing before with
  | nil => exact ⟨before, rfl, split⟩
  | cons d first ih =>
      rw [List.mem_cons, not_or] at absent
      obtain ⟨different, absent⟩ := absent
      cases before with
      | nil =>
          rw [List.cons_append, List.nil_append, List.cons.injEq] at split
          exact absurd split.1.symm different
      | cons e before =>
          rw [List.cons_append, List.cons_append, List.cons.injEq] at split
          obtain ⟨between, rfl, found⟩ := ih absent split.2
          exact ⟨between, by rw [split.1, List.cons_append], found⟩

namespace Lays

variable {opened inner outer : Brackets} {text more : List Char}

theorem append (first : Lays opened text inner) (second : Lays inner more outer) :
    Lays opened (text ++ more) outer := by
  have brackets (before : List Char) : opened.after? (text ++ before) = inner.after? before := by
    rw [Brackets.after?_append first.isSealed, first.brackets, Option.bind_some]
  refine ⟨first.isSealed.append second.isSealed, ?_, ?_⟩
  · rw [brackets, second.brackets]
  · intro before line split
    rcases List.append_eq_append_iff.mp split with ⟨between, rfl, later⟩ | ⟨between, same, later⟩
    · rw [List.append_assoc, brackets]
      exact second.lines between line later
    · cases between with
      | nil =>
          rw [List.append_nil] at same
          subst text
          rw [brackets]
          exact second.lines [] line later.symm
      | cons c between =>
          rw [List.cons_append, List.cons.injEq] at later
          obtain ⟨rfl, rfl⟩ := later
          obtain ⟨found, reached, indented⟩ := first.lines before between same
          refine ⟨found, reached, fun rest => ?_⟩
          rw [List.append_assoc]
          exact indented (more ++ rest)

theorem concat {text more : String} (first : Lays opened text.toList inner)
    (second : Lays inner more.toList outer) : Lays opened (text ++ more).toList outer := by
  rw [String.toList_append]
  exact first.append second

theorem ofLine (single : Sealed text ∧ '\n' ∉ text)
    (brackets : opened.after? text = some outer) : Lays opened text outer := by
  refine ⟨single.1, brackets, ?_⟩
  rintro before line rfl
  simp at single

/-- Lines but the first start with their indentation, and their first character decides whether it
is right. -/
theorem newLine (lays : Lays opened text outer) {depth : Nat} {c : Char}
    (first : text.head? = some c) (visible : c ≠ ' ')
    (depths : 2 * depth + (if c = '}' then 2 else 0) = 2 * opened.count .curly) :
    Lays opened ((Source.newLine depth).toList ++ text) outer := by
  have isSealed := Source.sealed_newLine depth
  have toList : (Source.newLine depth).toList = '\n' :: List.replicate (2 * depth) ' ' :=
    String.toList_ofList
  have plain : ∀ blank ∈ '\n' :: List.replicate (2 * depth) ' ', blank ∉ Brackets.marks := by
    intro blank member
    rcases List.mem_cons.mp member with rfl | later
    · decide
    · rw [List.eq_of_mem_replicate later]
      decide
  rw [toList] at isSealed ⊢
  have brackets (before : List Char) :
      opened.after? ('\n' :: List.replicate (2 * depth) ' ' ++ before) = opened.after? before := by
    rw [Brackets.after?_append isSealed, Brackets.after?_of_plain plain, Option.bind_some]
  refine ⟨isSealed.append lays.isSealed, ?_, ?_⟩
  · rw [brackets, lays.brackets]
  · intro before line split
    cases before with
    | nil =>
        rw [List.nil_append, List.cons_append, List.cons.injEq] at split
        obtain ⟨_, rfl⟩ := split
        refine ⟨opened, rfl, fun rest => ?_⟩
        rw [List.append_assoc]
        exact indented_of_head (by rw [List.head?_append, first, Option.some_or]) visible depths
    | cons d before =>
        rw [List.cons_append, List.cons_append, List.cons.injEq] at split
        obtain ⟨rfl, split⟩ := split
        obtain ⟨between, rfl, later⟩ := exists_append_of_not_mem (by simp) split
        rw [← List.cons_append, List.append_assoc, brackets]
        exact lays.lines between line later

theorem nextLine {text more : String} (first : Lays opened text.toList inner)
    (second : Lays inner more.toList outer) {depth : Nat} {c : Char}
    (lead : more.toList.head? = some c) (visible : c ≠ ' ')
    (depths : 2 * depth + (if c = '}' then 2 else 0) = 2 * inner.count .curly) :
    Lays opened (text ++ Source.newLine depth ++ more).toList outer := by
  rw [String.toList_append, String.toList_append, List.append_assoc]
  exact first.append (second.newLine lead visible depths)

theorem laidOut (lays : Lays [] text outer) (first : Indented [] text) : LaidOut text := by
  intro before line split starts
  rcases starts with rfl | ended
  · rw [List.nil_append] at split
    exact ⟨[], rfl, split ▸ first⟩
  · obtain ⟨earlier, rfl⟩ := List.getLast?_eq_some_iff.mp ended
    rw [List.append_assoc, List.singleton_append] at split
    obtain ⟨inner, brackets, indented⟩ := lays.lines earlier line split
    have line := indented []
    rw [List.append_nil] at line
    exact ⟨inner, brackets, line⟩

end Lays

structure Inline (text : List Char) : Prop where
  isSealed : Sealed text
  single : '\n' ∉ text
  brackets : ∀ opened : Brackets, opened.after? text = some opened

namespace Inline

variable {text more : List Char}

theorem lays (inline : Inline text) (opened : Brackets) : Lays opened text opened :=
  .ofLine ⟨inline.isSealed, inline.single⟩ (inline.brackets opened)

theorem nil : Inline [] :=
  ⟨.nil, by simp, fun _ => rfl⟩

theorem append (first : Inline text) (second : Inline more) : Inline (text ++ more) := by
  refine ⟨first.isSealed.append second.isSealed, ?_, ?_⟩
  · simp [first.single, second.single]
  · intro opened
    rw [Brackets.after?_append first.isSealed, first.brackets, Option.bind_some, second.brackets]

theorem concat {text more : String} (first : Inline text.toList) (second : Inline more.toList) :
    Inline (text ++ more).toList := by
  rw [String.toList_append]
  exact first.append second

/-- Words of a class of characters without brackets, quotes, backslashes and line ends. -/
theorem of_all {inside : Char → Bool} (outside : ('\n' :: Brackets.marks).any inside = false)
    (all : ∀ c ∈ text, inside c = true) : Inline text := by
  rw [List.any_eq_false] at outside
  have absent {c : Char} (member : c ∈ text) : c ∉ '\n' :: Brackets.marks := by
    intro marked
    exact outside c marked (all c member)
  have isSealed : Sealed text := sealed_of_all (eq_false_of_ne_true (outside '\\' (by decide)))
    (eq_false_of_ne_true (outside '"' (by decide))) all
  refine ⟨isSealed, ?_, ?_⟩
  · intro member
    exact absent member List.mem_cons_self
  · intro opened
    exact Brackets.after?_of_plain
      (fun c member marked => absent member (List.mem_cons_of_mem _ marked)) opened

theorem singleton {c : Char} (plain : c ∉ '\n' :: Brackets.marks) : Inline [c] := by
  have outside : ('\n' :: Brackets.marks).any (· == c) = false := by
    rw [List.any_beq', List.contains_eq_mem, decide_eq_false plain]
  exact .of_all outside (by simp)

theorem enclosed {left right : Char} {kind : BracketKind}
    (opens : BracketKind.opened? left = some kind) (closes : BracketKind.closed? right = some kind)
    (inline : Inline text) : Inline (left :: text ++ [right]) := by
  have opening (other : Char) (plain : BracketKind.opened? other = none) : left ≠ other := by
    rintro rfl
    rw [plain] at opens
    cases opens
  have closing (other : Char) (plain : BracketKind.closed? other = none) : right ≠ other := by
    rintro rfl
    rw [plain] at closes
    cases closes
  have first : Sealed [left] :=
    .singleton (opening '\\' (by decide)) (opening '"' (by decide)) rfl fun _ => rfl
  have last : Sealed [right] :=
    .singleton (closing '\\' (by decide)) (closing '"' (by decide)) rfl fun _ => rfl
  refine ⟨(first.append inline.isSealed).append last, ?_, ?_⟩
  · simp [inline.single, (opening '\n' (by decide)).symm, (closing '\n' (by decide)).symm]
  · intro opened
    have pushed : opened.next? left = some (kind :: opened) := by
      rw [Brackets.next?, opens]
    have popped : Brackets.next? (kind :: opened) right = some opened := by
      rw [Brackets.next?, BracketKind.opened?_of_closed? closes, closes]
      simp
    rw [List.cons_append,
      Brackets.after?_cons (opening '\\' (by decide)) (opening '"' (by decide)), pushed,
      Option.bind_some, Brackets.after?_append inline.isSealed, inline.brackets, Option.bind_some,
      Brackets.after?_cons (closing '\\' (by decide)) (closing '"' (by decide)), popped]
    rfl

theorem afterFirst {α : Type} (text : List α → List Char) {separator : List Char}
    (inline : Inline separator) {items : List α} (others : Inline (text items)) :
    Inline (StaticQuery.afterFirst separator text items) := by
  cases items with
  | nil => exact .nil
  | cons item items => exact inline.append others

end Inline

theorem Reading.map_snd_along (reading : Reading) (text : List Char) :
    (reading.along text).map Prod.snd = text := by
  induction text generalizing reading with
  | nil => rfl
  | cons c text ih => rw [along, List.map_cons, ih]

namespace Json

theorem inline_quotedChars (text : String) : Inline (quotedChars text) := by
  have content := isContent_flatMap text.toList
  refine ⟨sealed_quotedChars text, ?_, ?_⟩
  · intro member
    have inside : '\n' ∈ text.toList.flatMap escapeChar := by simpa [quotedChars] using member
    rw [← map_snd_along literal (text.toList.flatMap escapeChar)] at inside
    obtain ⟨seen, found, lineEnd⟩ := List.mem_map.mp inside
    have visible := (content.allowed seen found).2
    rw [lineEnd] at visible
    exact absurd visible (by decide)
  · intro opened
    rw [Brackets.after?, blanked_quotedChars]
    rfl

theorem inline_word (word : List Char) (letters : word.all Char.isAlpha = true) : Inline word :=
  .of_all rfl (List.all_eq_true.mp letters)

mutual

theorem inline_chars : ∀ value : Json, Inline value.chars
  | .null => inline_word ['n', 'u', 'l', 'l'] rfl
  | .bool true => inline_word ['t', 'r', 'u', 'e'] rfl
  | .bool false => inline_word ['f', 'a', 'l', 's', 'e'] rfl
  | .number value => by
      rw [chars]
      exact .of_all rfl fun _ member => Number.isNumeral_of_mem_chars member
  | .string text => by
      rw [chars]
      exact inline_quotedChars text
  | .array items => by
      rw [chars]
      exact .enclosed rfl rfl (inline_itemChars items)
  | .object members => by
      rw [chars]
      exact .enclosed rfl rfl (inline_memberChars members)

theorem inline_itemChars : ∀ items : List Json, Inline (itemChars items)
  | [] => .nil
  | item :: rest => by
      have comma := Inline.singleton (by decide : ',' ∉ '\n' :: Brackets.marks)
      rw [itemChars_cons]
      exact (inline_chars item).append (.afterFirst itemChars comma (inline_itemChars rest))

theorem inline_memberChars : ∀ members : List (String × Json), Inline (memberChars members)
  | [] => .nil
  | (key, value) :: rest => by
      have comma := Inline.singleton (by decide : ',' ∉ '\n' :: Brackets.marks)
      have colon := Inline.singleton (by decide : ':' ∉ '\n' :: Brackets.marks)
      rw [memberChars_cons]
      exact (inline_quotedChars key).append (colon.append
        ((inline_chars value).append (.afterFirst memberChars comma (inline_memberChars rest))))

end

end Json

end StaticQuery
