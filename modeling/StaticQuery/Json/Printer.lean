import StaticQuery.Json.Basic
import StaticQuery.Json.Text
import StaticQuery.Number.Decimal

/-!
The compact JSON text of a value: no blanks, members in their order.
-/

namespace StaticQuery

/-- How a decimal is laid out: positional for scientific exponents in a range, otherwise with an
exponent that always shows its sign. -/
structure DecimalLayout where
  leastPositional : Int
  pastPositional : Int

namespace DecimalLayout

def scientificDigits : List Char → List Char
  | [] => []
  | [digit] => [digit]
  | digit :: more => digit :: '.' :: more

def exponentChars (exponent : Int) : List Char :=
  (if exponent < 0 then '-' else '+') :: decimalDigits exponent.natAbs

def zeros (count : Nat) : List Char :=
  List.replicate count '0'

def positionalChars (digits : List Char) (exponent : Int) : List Char :=
  let point := digits.length + exponent
  if 0 ≤ exponent then digits ++ zeros exponent.toNat ++ ['.', '0']
  else if 0 < point then digits.take point.toNat ++ '.' :: digits.drop point.toNat
  else '0' :: '.' :: zeros (-point).toNat ++ digits

def chars (layout : DecimalLayout) (decimal : Decimal) : List Char :=
  let digits := decimalDigits decimal.coefficient
  let scientific := decimal.exponent + digits.length - 1
  if layout.leastPositional ≤ scientific ∧ scientific < layout.pastPositional then
    positionalChars digits decimal.exponent
  else scientificDigits digits ++ 'e' :: exponentChars scientific

end DecimalLayout

namespace Json

def numberLayout : DecimalLayout :=
  ⟨-5, 16⟩

def integerChars (value : Int) : List Char :=
  if value < 0 then '-' :: decimalDigits value.natAbs else decimalDigits value.natAbs

def floatChars (number : Binary64) : List Char :=
  let magnitude :=
    if number.isZero then ['0', '.', '0'] else numberLayout.chars number.shortest
  if number.negative then '-' :: magnitude else magnitude

def Number.chars : Number → List Char
  | .integer whole => integerChars whole.value
  | .float real => floatChars real

mutual

def chars : Json → List Char
  | .null => ['n', 'u', 'l', 'l']
  | .bool true => ['t', 'r', 'u', 'e']
  | .bool false => ['f', 'a', 'l', 's', 'e']
  | .number value => value.chars
  | .string text => quotedChars text
  | .array items => '[' :: itemChars items ++ [']']
  | .object members => '{' :: memberChars members ++ ['}']

def itemChars : List Json → List Char
  | [] => []
  | [item] => chars item
  | item :: rest => chars item ++ ',' :: itemChars rest

def memberChars : List (String × Json) → List Char
  | [] => []
  | [(key, value)] => quotedChars key ++ ':' :: chars value
  | (key, value) :: rest => quotedChars key ++ ':' :: chars value ++ ',' :: memberChars rest

end

def render (value : Json) : String :=
  String.ofList value.chars

end Json

end StaticQuery
