import StaticQuery.Json.Basic
import StaticQuery.Json.Text
import StaticQuery.Number.Literal

/-!
Reading JSON text. The grammar is strict. A repeated key keeps its first place and its last value.
Containers nest at most `nestingLimit` deep in values that are kept; a value that is only skipped
may nest freely, and its numbers and surrogates are not looked at.
-/

namespace StaticQuery

namespace Json

def nestingLimit : Nat :=
  127

def isBlank (c : Char) : Bool :=
  c == ' ' || c == '\t' || c == '\n' || c == '\r'

def skipBlanks (text : List Char) : List Char :=
  text.dropWhile isBlank

/-- Integers outside the 64-bit ranges, and minus zero, are taken as binary64 numbers. -/
def Number.ofLiteral? (literal : NumberLiteral) : Option Number :=
  let float := literal.toBinary64?.map Number.float
  if literal.isWhole && !(literal.negative && literal.wholeValue == 0) then
    match Integer64.ofInt? literal.wholeValue with
    | some whole => some (.integer whole)
    | none => float
  else float

def readNumber (skipping : Bool) (text : List Char) : Option (Json × List Char) :=
  match NumberLiteral.scan text with
  | none => none
  | some (literal, rest) =>
      match Number.ofLiteral? literal with
      | some value => some (.number value, rest)
      | none => if skipping then some (.null, rest) else none

def readKey (skipping : Bool) (text : List Char) : Option (String × List Char) :=
  match skipBlanks text with
  | '"' :: rest => readText skipping [] rest
  | _ => none

mutual

/-- Reads the value at the start of the text. `depth` is how many containers may still open;
`fuel` bounds the work. -/
def readValue (skipping : Bool) : Nat → Nat → List Char → Option (Json × List Char)
  | 0, _, _ => none
  | fuel + 1, depth, text =>
      match skipBlanks text with
      | 'n' :: 'u' :: 'l' :: 'l' :: rest => some (.null, rest)
      | 't' :: 'r' :: 'u' :: 'e' :: rest => some (.bool true, rest)
      | 'f' :: 'a' :: 'l' :: 's' :: 'e' :: rest => some (.bool false, rest)
      | '"' :: rest => (readText skipping [] rest).map fun (value, rest) => (.string value, rest)
      | '[' :: rest =>
          match depth with
          | 0 => none
          | depth + 1 =>
              match skipBlanks rest with
              | ']' :: rest => some (.array [], rest)
              | rest =>
                  (readItems skipping fuel depth rest).map fun (items, rest) =>
                    (.array items, rest)
      | '{' :: rest =>
          match depth with
          | 0 => none
          | depth + 1 =>
              match skipBlanks rest with
              | '}' :: rest => some (.object [], rest)
              | rest =>
                  (readMembers skipping fuel depth [] rest).map fun (members, rest) =>
                    (.object members, rest)
      | rest => readNumber skipping rest

def readItems (skipping : Bool) : Nat → Nat → List Char → Option (List Json × List Char)
  | 0, _, _ => none
  | fuel + 1, depth, text =>
      match readValue skipping fuel depth text with
      | none => none
      | some (item, rest) =>
          match skipBlanks rest with
          | ',' :: rest =>
              (readItems skipping fuel depth rest).map fun (items, rest) => (item :: items, rest)
          | ']' :: rest => some ([item], rest)
          | _ => none

def readMembers (skipping : Bool) :
    Nat → Nat → Object → List Char → Option (Object × List Char)
  | 0, _, _, _ => none
  | fuel + 1, depth, done, text =>
      match readKey skipping text with
      | none => none
      | some (key, rest) =>
          match skipBlanks rest with
          | ':' :: rest =>
              match readValue skipping fuel depth rest with
              | none => none
              | some (value, rest) =>
                  let done := done.insert key value
                  match skipBlanks rest with
                  | ',' :: rest => readMembers skipping fuel depth done rest
                  | '}' :: rest => some (done, rest)
                  | _ => none
          | _ => none

end

/-- Enough fuel to read any value at the start of the text: each character opens at most one
container, and a container takes two steps. -/
def readFuel (text : List Char) : Nat :=
  2 * text.length + 2

def readKept (depth : Nat) (text : List Char) : Option (Json × List Char) :=
  readValue false (readFuel text) depth text

def skipValue (text : List Char) : Option (List Char) :=
  (readValue true (readFuel text) text.length text).map Prod.snd

def parse? (text : String) : Option Json :=
  match readKept nestingLimit text.toList with
  | some (value, rest) => if (skipBlanks rest).isEmpty then some value else none
  | none => none

end Json

end StaticQuery
