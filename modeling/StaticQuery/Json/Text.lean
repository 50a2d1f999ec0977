/-!
JSON string literals. Writing escapes the quote, the backslash and the control characters, and
nothing else. Reading takes every escape of the format and pairs surrogates.
-/

namespace StaticQuery

def hexValue? (digit : Char) : Option Nat :=
  if digit.isDigit then some (digit.toNat - '0'.toNat)
  else if 'a' ≤ digit ∧ digit ≤ 'f' then some (digit.toNat - 'a'.toNat + 10)
  else if 'A' ≤ digit ∧ digit ≤ 'F' then some (digit.toNat - 'A'.toNat + 10)
  else none

def hexQuad? (a b c d : Char) : Option Nat := do
  return 4096 * (← hexValue? a) + 256 * (← hexValue? b) + 16 * (← hexValue? c) + (← hexValue? d)

def isHighSurrogate (unit : Nat) : Bool :=
  0xD800 ≤ unit && unit < 0xDC00

def isLowSurrogate (unit : Nat) : Bool :=
  0xDC00 ≤ unit && unit < 0xE000

def surrogatePair (high low : Nat) : Char :=
  Char.ofNat (0x10000 + (high - 0xD800) * 0x400 + (low - 0xDC00))

namespace Json

def lowerHexDigit (value : Nat) : Char :=
  if value < 10 then Char.ofNat ('0'.toNat + value) else Char.ofNat ('a'.toNat + (value - 10))

def escapeChar (c : Char) : List Char :=
  if c = '"' then ['\\', '"']
  else if c = '\\' then ['\\', '\\']
  else if c = '\x08' then ['\\', 'b']
  else if c = '\x0c' then ['\\', 'f']
  else if c = '\n' then ['\\', 'n']
  else if c = '\r' then ['\\', 'r']
  else if c = '\t' then ['\\', 't']
  else if c.toNat < 0x20 then
    ['\\', 'u', '0', '0', lowerHexDigit (c.toNat / 16), lowerHexDigit (c.toNat % 16)]
  else [c]

def quotedChars (text : String) : List Char :=
  '"' :: text.toList.flatMap escapeChar ++ ['"']

def quoted (text : String) : String :=
  String.ofList (quotedChars text)

def simpleEscape? (c : Char) : Option Char :=
  match c with
  | '"' => some '"'
  | '\\' => some '\\'
  | '/' => some '/'
  | 'b' => some '\x08'
  | 'f' => some '\x0c'
  | 'n' => some '\n'
  | 'r' => some '\r'
  | 't' => some '\t'
  | _ => none

/-- Reads a string literal after its opening quote, the characters so far in reverse. With
`anyUnits`, unpaired surrogates are let through; that is for texts whose value is not kept. -/
def readText (anyUnits : Bool) (done : List Char) : List Char → Option (String × List Char)
  | [] => none
  | '"' :: rest => some (String.ofList done.reverse, rest)
  | '\\' :: 'u' :: a :: b :: c :: d :: rest =>
      match hexQuad? a b c d with
      | none => none
      | some unit =>
          if isHighSurrogate unit && !anyUnits then
            match rest with
            | '\\' :: 'u' :: e :: f :: g :: h :: rest =>
                match hexQuad? e f g h with
                | none => none
                | some low =>
                    if isLowSurrogate low then
                      readText anyUnits (surrogatePair unit low :: done) rest
                    else none
            | _ => none
          else if isLowSurrogate unit && !anyUnits then none
          else readText anyUnits (Char.ofNat unit :: done) rest
  | '\\' :: c :: rest =>
      match simpleEscape? c with
      | some value => readText anyUnits (value :: done) rest
      | none => none
  | c :: rest => if c.toNat < 0x20 ∨ c = '\\' then none else readText anyUnits (c :: done) rest

end Json

end StaticQuery
