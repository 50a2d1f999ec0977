import StaticQuery.Json.Text
import StaticQuery.Yaml.Cursor

/-!
The text of YAML scalars in their five styles. Line breaks inside plain and quoted scalars are
folded: one break is a space, and each further one a line feed.
-/

namespace StaticQuery.Yaml

inductive Gap where
  | blanks (reversed : List Char)
  | breaks (more : Nat)
  /-- An escaped line break, which leaves nothing but those that follow it. -/
  | escaped (more : Nat)

namespace Gap

def reversed : Gap → List Char
  | .blanks reversed => reversed
  | .breaks 0 => [' ']
  | .breaks more => List.replicate more '\n'
  | .escaped more => List.replicate more '\n'

def hasBreak : Gap → Bool
  | .blanks _ => false
  | _ => true

def addBlank (c : Char) : Gap → Gap
  | .blanks reversed => .blanks (c :: reversed)
  | gap => gap

def addBreak : Gap → Gap
  | .blanks _ => .breaks 0
  | .breaks more => .breaks (more + 1)
  | .escaped more => .escaped (more + 1)

def read (indent : Int) : Nat → Gap → Cursor → Option (Gap × Cursor)
  | 0, _, _ => none
  | fuel + 1, gap, cursor =>
      let c := cursor.head
      if isBlank c then
        if gap.hasBreak && cursor.column < indent && c == '\t' then none
        else read indent fuel (gap.addBlank c) cursor.next
      else if isBreak c then read indent fuel gap.addBreak cursor.nextLine
      else some (gap, cursor)

end Gap

/-- The next word of a plain scalar: up to blank space, a colon that ends a key, or a mark of the
flow collection around it. The word so far is in reverse. -/
def plainWord (inFlow : Bool) : Nat → List Char → Cursor → List Char × Cursor
  | 0, word, cursor => (word, cursor)
  | fuel + 1, word, cursor =>
      let c := cursor.head
      let follower := cursor.peek 1
      if isGap c || (c == ':' && (isGap follower || (inFlow && isFlowMark follower))) ||
          (inFlow && isFlowMark c) then (word, cursor)
      else plainWord inFlow fuel (c :: word) cursor.next

/-- A scalar without quotes; its lines are indented at least to the given column outside flow
collections. The result says whether a line break was read at the end. -/
def readPlain (inFlow : Bool) (indent : Int) :
    Nat → List Char → Gap → Cursor → Option (List Char × Bool × Cursor)
  | 0, _, _, _ => none
  | fuel + 1, done, gap, cursor =>
      if cursor.isAtDocumentMarker || cursor.head == '#' then
        some (done.reverse, gap.hasBreak, cursor)
      else
        let (word, cursor) := plainWord inFlow cursor.fuel [] cursor
        let (done, gap) :=
          if word.isEmpty then (done, gap) else (word ++ gap.reversed ++ done, Gap.blanks [])
        if !(isBlank cursor.head || isBreak cursor.head) then
          some (done.reverse, gap.hasBreak, cursor)
        else
          match gap.read indent cursor.fuel cursor with
          | none => none
          | some (gap, cursor) =>
              if !inFlow && cursor.column < indent then some (done.reverse, gap.hasBreak, cursor)
              else readPlain inFlow indent fuel done gap cursor

def hexNumber? (digits : List Char) : Option Nat :=
  digits.foldlM (fun value digit => (hexValue? digit).map (16 * value + ·)) 0

def numericEscape? (count : Nat) (cursor : Cursor) : Option (Char × Cursor) :=
  let digits := cursor.rest.take count
  match hexNumber? digits with
  | none => none
  | some code =>
      if digits.length = count ∧ (code < 0xD800 ∨ (0xE000 ≤ code ∧ code < 0x110000)) then
        some (Char.ofNat code, cursor.skip count)
      else none

def readEscape (cursor : Cursor) : Option (Char × Cursor) :=
  let as (c : Char) := some (c, cursor.next)
  match cursor.head with
  | '0' => as '\x00'
  | 'a' => as '\x07'
  | 'b' => as '\x08'
  | 't' => as '\t'
  | '\t' => as '\t'
  | 'n' => as '\n'
  | 'v' => as '\x0b'
  | 'f' => as '\x0c'
  | 'r' => as '\r'
  | 'e' => as '\x1b'
  | ' ' => as ' '
  | '"' => as '"'
  | '\'' => as '\''
  | '\\' => as '\\'
  | 'N' => as '\u0085'
  | '_' => as '\u00a0'
  | 'L' => as '\u2028'
  | 'P' => as '\u2029'
  | 'x' => numericEscape? 2 cursor.next
  | 'u' => numericEscape? 4 cursor.next
  | 'U' => numericEscape? 8 cursor.next
  | _ => none

/-- The characters of a quoted scalar up to blank space, the closing quote or an escaped line
break; the result says whether it was the last. -/
def quotedWord (quote : Char) : Nat → List Char → Cursor → Option (List Char × Bool × Cursor)
  | 0, _, _ => none
  | fuel + 1, done, cursor =>
      let c := cursor.head
      if isGap c then some (done, false, cursor)
      else if c == '\'' && quote == '\'' && cursor.peek 1 == '\'' then
        quotedWord quote fuel ('\'' :: done) cursor.next.next
      else if c == quote then some (done, false, cursor)
      else if c == '\\' && quote == '"' then
        if isBreak (cursor.peek 1) then some (done, true, cursor.next.nextLine)
        else
          match readEscape cursor.next with
          | some (value, cursor) => quotedWord quote fuel (value :: done) cursor
          | none => none
      else quotedWord quote fuel (c :: done) cursor.next

def readQuoted (quote : Char) : Nat → List Char → Cursor → Option (List Char × Cursor)
  | 0, _, _ => none
  | fuel + 1, done, cursor =>
      if cursor.isAtDocumentMarker || isEnd cursor.head then none
      else
        match quotedWord quote cursor.fuel done cursor with
        | none => none
        | some (done, isEscaped, cursor) =>
            if cursor.head == quote then some (done.reverse, cursor.next)
            else
              let gap := if isEscaped then Gap.escaped 0 else Gap.blanks []
              match gap.read 0 cursor.fuel cursor with
              | none => none
              | some (gap, cursor) => readQuoted quote fuel (gap.reversed ++ done) cursor

inductive Chomping where
  | strip
  | clip
  | keep
deriving DecidableEq

def readChomping (cursor : Cursor) : Option Chomping × Cursor :=
  match cursor.head with
  | '+' => (some .keep, cursor.next)
  | '-' => (some .strip, cursor.next)
  | _ => (none, cursor)

def readIncrement (cursor : Cursor) : Option (Nat × Cursor) :=
  let c := cursor.head
  if !c.isDigit then some (0, cursor)
  else if c == '0' then none
  else some (c.toNat - '0'.toNat, cursor.next)

def readBlockHeader (cursor : Cursor) : Option (Chomping × Nat × Cursor) := do
  let (before?, cursor) := readChomping cursor
  let (increment, cursor) ← readIncrement cursor
  let (after?, cursor) :=
    if before?.isNone && increment != 0 then readChomping cursor else (none, cursor)
  let cursor := (cursor.skipWhile isBlank).skipComment
  if isBreakOrEnd cursor.head then
    return ((before?.or after?).getD .clip, increment, cursor.nextLine)
  else failure

/-- Skips indentation and empty lines, counting the latter. With no indentation known yet, all
spaces are skipped and the deepest column is found. -/
def readBlockBreaks (indent : Nat) :
    Nat → Nat → Nat → Cursor → Option (Nat × Nat × Cursor)
  | 0, _, _, _ => none
  | fuel + 1, deepest, breaks, cursor =>
      let cursor := cursor.skip
        (if indent = 0 then (cursor.rest.takeWhile (· == ' ')).length
         else min (indent - cursor.column) (cursor.rest.takeWhile (· == ' ')).length)
      let deepest := max deepest cursor.column
      if (indent = 0 || cursor.column < indent) && cursor.head == '\t' then none
      else if isBreak cursor.head then
        readBlockBreaks indent fuel deepest (breaks + 1) cursor.nextLine
      else some (deepest, breaks, cursor)

/-- The lines of a block scalar. `breaks` counts the empty lines before the current one,
`hasLine` says whether there is a line before them and `wasBlank` whether that began with a
blank. Lines are folded unless `literal`. -/
def readBlockLines (literal : Bool) (indent : Nat) :
    Nat → List Char → Bool → Bool → Nat → Cursor → Option (List Char × Bool × Nat × Cursor)
  | 0, _, _, _, _, _ => none
  | fuel + 1, done, hasLine, wasBlank, breaks, cursor =>
      if cursor.column ≠ indent || isEnd cursor.head then some (done, hasLine, breaks, cursor)
      else
        let isBlankLine := isBlank cursor.head
        let joint :=
          if !literal && hasLine && !wasBlank && !isBlankLine then
            if breaks = 0 then [' '] else []
          else if hasLine then ['\n'] else []
        let (line, cursor) := cursor.takeWhile fun c => !isBreak c
        let done := line.reverse ++ List.replicate breaks '\n' ++ joint ++ done
        if isEnd cursor.head then some (done, false, 0, cursor)
        else
          match readBlockBreaks indent cursor.fuel 0 0 cursor.nextLine with
          | none => none
          | some (_, breaks, cursor) =>
              readBlockLines literal indent fuel done true isBlankLine breaks cursor

def readBlock (literal : Bool) (parent : Int) (cursor : Cursor) :
    Option (List Char × Cursor) := do
  let (chomping, increment, cursor) ← readBlockHeader cursor
  let explicit := if increment = 0 then 0 else (max parent 0).toNat + increment
  let (deepest, breaks, cursor) ← readBlockBreaks explicit cursor.fuel 0 0 cursor
  let indent := if explicit = 0 then max (max deepest (parent + 1).toNat) 1 else explicit
  let (done, hasLine, breaks, cursor) ←
    readBlockLines literal indent cursor.fuel [] false false breaks cursor
  let last := if hasLine && chomping ≠ .strip then ['\n'] else []
  let tail := if chomping = .keep then List.replicate breaks '\n' else []
  return ((tail ++ last ++ done).reverse, cursor)

end StaticQuery.Yaml
