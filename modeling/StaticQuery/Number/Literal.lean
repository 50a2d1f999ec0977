import StaticQuery.Number.Decimal

/-!
Number literals as JSON and the query language both write them: an optional minus sign, digits
without leading zeros, an optional fraction and an optional exponent.
-/

namespace StaticQuery

structure NumberLiteral where
  negative : Bool
  whole : List Char
  fraction : List Char
  exponentNegative : Bool
  exponentDigits : List Char
deriving DecidableEq

namespace NumberLiteral

def scanSign : List Char → Bool × List Char
  | '-' :: rest => (true, rest)
  | text => (false, text)

def scanDigits (text : List Char) : List Char × List Char :=
  (text.takeWhile Char.isDigit, text.dropWhile Char.isDigit)

def scanDigits1 (text : List Char) : Option (List Char × List Char) :=
  match scanDigits text with
  | ([], _) => none
  | found => some found

def scanWhole : List Char → Option (List Char × List Char)
  | '0' :: rest => some (['0'], rest)
  | text => scanDigits1 text

def scanFraction : List Char → Option (List Char × List Char)
  | '.' :: rest => scanDigits1 rest
  | text => some ([], text)

def scanExponentSign : List Char → Bool × List Char
  | '+' :: rest => (false, rest)
  | text => scanSign text

def scanExponent : List Char → Option (Bool × List Char × List Char)
  | mark :: rest =>
      if mark = 'e' ∨ mark = 'E' then
        let (negative, rest) := scanExponentSign rest
        (scanDigits1 rest).map fun (digits, rest) => (negative, digits, rest)
      else some (false, [], mark :: rest)
  | [] => some (false, [], [])

def scan (text : List Char) : Option (NumberLiteral × List Char) := do
  let (negative, text) := scanSign text
  let (whole, text) ← scanWhole text
  let (fraction, text) ← scanFraction text
  let (exponentNegative, exponentDigits, text) ← scanExponent text
  return (⟨negative, whole, fraction, exponentNegative, exponentDigits⟩, text)

def ofText? (text : String) : Option NumberLiteral :=
  match scan text.toList with
  | some (literal, []) => some literal
  | _ => none

def isWhole (literal : NumberLiteral) : Bool :=
  literal.fraction.isEmpty && literal.exponentDigits.isEmpty

def wholeValue (literal : NumberLiteral) : Int :=
  let magnitude : Int := digitsValue literal.whole
  if literal.negative then -magnitude else magnitude

def decimal (literal : NumberLiteral) : Decimal :=
  let written : Int := digitsValue literal.exponentDigits
  let exponent := if literal.exponentNegative then -written else written
  ⟨digitsValue (literal.whole ++ literal.fraction), exponent - literal.fraction.length⟩

def toBinary64? (literal : NumberLiteral) : Option Binary64 :=
  literal.decimal.toBinary64? literal.negative

end NumberLiteral

end StaticQuery
