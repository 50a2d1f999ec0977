import StaticQuery.Json.Text
import StaticQuery.Language.BlockString
import StaticQuery.Name
import StaticQuery.Number.Literal

/-!
Tokens of the query language. Blanks, line ends, byte order marks and comments divide tokens and
are otherwise ignored. Commas mean nothing either, but the grammar forbids them in a few places,
so they are tokens of their own.
-/

namespace StaticQuery

inductive Token where
  | punctuator (mark : Char)
  | comma
  | spread
  | name (name : Name)
  | int (text : String)
  | float (text : String)
  | string (value : String)
deriving DecidableEq

namespace Token

def isIgnored (c : Char) : Bool :=
  c == ' ' || c == '\t' || c == '\n' || c == '\r' || c == '\ufeff'

def isLineEnd (c : Char) : Bool :=
  c == '\n' || c == '\r'

def isPunctuator (c : Char) : Bool :=
  c ∈ ['!', '$', '&', '(', ')', ':', '=', '@', '[', ']', '{', '|', '}']

def readBraced (value : Nat) : List Char → Option (Nat × List Char)
  | [] => none
  | '}' :: rest => some (value, rest)
  | digit :: rest =>
      match hexValue? digit with
      | some digitValue => readBraced (16 * value + digitValue) rest
      | none => none

def isScalarValue (code : Nat) : Bool :=
  code < 0xD800 || (0xE000 ≤ code && code < 0x110000)

def readEscape : List Char → Option (Char × List Char)
  | 'u' :: '{' :: rest =>
      match readBraced 0 rest with
      | some (code, after) =>
          if isScalarValue code && rest.head? != some '}' then some (Char.ofNat code, after)
          else none
      | none => none
  | 'u' :: a :: b :: c :: d :: rest =>
      match hexQuad? a b c d with
      | none => none
      | some unit =>
          if isHighSurrogate unit then
            match rest with
            | '\\' :: 'u' :: e :: f :: g :: h :: rest =>
                match hexQuad? e f g h with
                | some low =>
                    if isLowSurrogate low then some (surrogatePair unit low, rest) else none
                | none => none
            | _ => none
          else if isLowSurrogate unit then none
          else some (Char.ofNat unit, rest)
  | c :: rest => (Json.simpleEscape? c).map fun value => (value, rest)
  | [] => none

def readStringRest : Nat → List Char → List Char → Option (List Char × List Char)
  | 0, _, _ => none
  | _, _, [] => none
  | _, done, '"' :: rest => some (done.reverse, rest)
  | fuel + 1, done, '\\' :: rest =>
      match readEscape rest with
      | some (value, rest) => readStringRest fuel (value :: done) rest
      | none => none
  | fuel + 1, done, c :: rest =>
      if isLineEnd c then none else readStringRest fuel (c :: done) rest

/-- Reads a string after its opening quote. Its first character may be a line end, and no other
one. -/
def readString : List Char → Option (List Char × List Char)
  | [] => none
  | c :: rest =>
      if isLineEnd c then readStringRest (rest.length + 1) [c] rest
      else readStringRest (rest.length + 2) [] (c :: rest)

def readBlock (done : List Char) : List Char → Option (List Char × List Char)
  | [] => none
  | '\\' :: '"' :: '"' :: '"' :: rest => readBlock ('"' :: '"' :: '"' :: done) rest
  | '"' :: '"' :: '"' :: rest => some (done.reverse, rest)
  | c :: rest => readBlock (c :: done) rest

def continuesNumber : List Char → Bool
  | c :: _ => isNameContinue c || c == '.'
  | [] => false

def readNumber (text : List Char) : Option (Token × List Char) :=
  match NumberLiteral.scan text with
  | none => none
  | some (literal, rest) =>
      let written := String.ofList (text.take (text.length - rest.length))
      if continuesNumber rest then none
      else some (if literal.isWhole then .int written else .float written, rest)

def read : List Char → Option (Token × List Char)
  | [] => none
  | '.' :: '.' :: '.' :: rest => some (.spread, rest)
  | '"' :: '"' :: '"' :: rest =>
      (readBlock [] rest).map fun (raw, rest) => (.string (String.ofList (BlockString.value raw)), rest)
  | '"' :: rest =>
      (readString rest).map fun (value, rest) => (.string (String.ofList value), rest)
  | ',' :: rest => some (.comma, rest)
  | c :: rest =>
      if isPunctuator c then some (.punctuator c, rest)
      else if isNameStart c then
        (Name.ofText? (String.ofList (c :: rest.takeWhile isNameContinue))).map fun name =>
          (.name name, rest.dropWhile isNameContinue)
      else if c.isDigit || c == '-' then readNumber (c :: rest)
      else none

def readAll : Nat → List Token → List Char → Option (List Token)
  | 0, _, _ => none
  | _, done, [] => some done.reverse
  | fuel + 1, done, c :: rest =>
      if isIgnored c then readAll fuel done rest
      else if c == '#' then readAll fuel done (rest.dropWhile fun c => !isLineEnd c)
      else
        match read (c :: rest) with
        | some (token, rest) => readAll fuel (token :: done) rest
        | none => none

def skipCommas (tokens : List Token) : List Token :=
  tokens.dropWhile (· = .comma)

def scan? (text : String) : Option (List Token) :=
  let chars := text.toList
  readAll (chars.length + 1) [] chars

end Token

end StaticQuery
