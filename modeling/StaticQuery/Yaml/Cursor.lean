/-!
A place in a YAML text: what is left of it, and the line and column reached. The end of the text,
like a null character in it, reads as a null character.
-/

namespace StaticQuery.Yaml

def isEnd (c : Char) : Bool :=
  c == '\x00'

def isBreak (c : Char) : Bool :=
  c == '\n' || c == '\r'

def isBlank (c : Char) : Bool :=
  c == ' ' || c == '\t'

def isBreakOrEnd (c : Char) : Bool :=
  isBreak c || isEnd c

def isGap (c : Char) : Bool :=
  isBlank c || isBreakOrEnd c

def isFlowMark (c : Char) : Bool :=
  c ∈ [',', '[', ']', '{', '}']

def isWordChar (c : Char) : Bool :=
  c.isAlphanum || c == '_' || c == '-'

structure Cursor where
  rest : List Char
  index : Nat
  line : Nat
  column : Nat

namespace Cursor

def ofText (text : String) : Cursor :=
  ⟨text.toList.takeWhile fun c => !isEnd c, 0, 0, 0⟩

def peek (cursor : Cursor) (offset : Nat) : Char :=
  cursor.rest.getD offset '\x00'

def head (cursor : Cursor) : Char :=
  cursor.peek 0

def next (cursor : Cursor) : Cursor :=
  match cursor.rest with
  | [] => cursor
  | '\n' :: rest => ⟨rest, cursor.index + 1, cursor.line + 1, 0⟩
  | _ :: rest => ⟨rest, cursor.index + 1, cursor.line, cursor.column + 1⟩

def skip : Nat → Cursor → Cursor
  | 0, cursor => cursor
  | count + 1, cursor => skip count cursor.next

def nextLine (cursor : Cursor) : Cursor :=
  if cursor.head == '\r' && cursor.peek 1 == '\n' then cursor.next.next
  else if isBreak cursor.head then cursor.next
  else cursor

def takeWhile (test : Char → Bool) (cursor : Cursor) : List Char × Cursor :=
  let taken := cursor.rest.takeWhile test
  (taken, cursor.skip taken.length)

def skipWhile (test : Char → Bool) (cursor : Cursor) : Cursor :=
  (cursor.takeWhile test).2

def skipComment (cursor : Cursor) : Cursor :=
  if cursor.head == '#' then cursor.skipWhile fun c => !isBreak c else cursor

def isAtMarker (mark : Char) (cursor : Cursor) : Bool :=
  cursor.column == 0 && cursor.head == mark && cursor.peek 1 == mark && cursor.peek 2 == mark &&
    isGap (cursor.peek 3)

def isAtDocumentMarker (cursor : Cursor) : Bool :=
  cursor.isAtMarker '-' || cursor.isAtMarker '.'

def fuel (cursor : Cursor) : Nat :=
  cursor.rest.length + 2

end Cursor

end StaticQuery.Yaml
