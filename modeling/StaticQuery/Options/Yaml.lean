import StaticQuery.Options
import StaticQuery.Yaml.Node

/-!
Options from YAML text: a mapping or a sequence of scalars. Values are plain scalars, or have a tag
that says what they are.
-/

namespace StaticQuery

namespace Options

def digitsIn? (radix : Nat) (digits : List Char) : Option Nat :=
  if digits.isEmpty then none
  else
    digits.foldlM (fun value digit =>
      match hexValue? digit with
      | some digitValue => if digitValue < radix then some (radix * value + digitValue) else none
      | none => none) 0

def magnitude? (marked : Nat → List Char → Option Nat) : List Char → Option Nat
  | '0' :: 'x' :: digits => marked 16 digits
  | '0' :: 'o' :: digits => marked 8 digits
  | '0' :: 'b' :: digits => marked 2 digits
  | '0' :: _ :: _ => none
  | digits => digitsIn? 10 digits

def signedDigitsIn? (radix : Nat) : List Char → Option Nat
  | '+' :: digits => digitsIn? radix digits
  | digits => digitsIn? radix digits

/-- A plain scalar as an unsigned 64-bit integer; minus zero is one. Unless the number is negative,
a plus sign may also stand after the mark of its radix. -/
def plainLimit? (text : String) : Option Nat :=
  match text.toList with
  | '+' :: rest => (magnitude? signedDigitsIn? rest).filter (· < uint64Bound)
  | '-' :: rest => (magnitude? digitsIn? rest).filter (· = 0)
  | rest => (magnitude? signedDigitsIn? rest).filter (· < uint64Bound)

/-- A scalar tagged as an integer: decimal, below the signed 64-bit bound. -/
def taggedLimit? (text : String) : Option Nat :=
  match text.toList with
  | '+' :: rest => (digitsIn? 10 rest).filter (· < int64Bound)
  | '-' :: rest => (digitsIn? 10 rest).filter (· = 0)
  | rest => (digitsIn? 10 rest).filter (· < int64Bound)

def boolOfText? : String → Option Bool
  | "true" => some true
  | "false" => some false
  | _ => none

def readScalar {α : Type} (tagName : String) (tagged untagged : String → Option α) :
    Yaml.Node → Option α
  | .scalar text _ (some tag) =>
      if tag.handle = "!!" && tag.suffix = tagName then tagged text else none
  | .scalar text true none => untagged text
  | _ => none

def yamlReading : Reading Yaml.Node where
  toBool? := readScalar "bool" boolOfText? boolOfText?
  toLimit? := readScalar "int" taggedLimit? plainLimit?

def keyed? : Yaml.Node × Yaml.Node → Option (String × Yaml.Node)
  | (.scalar text _ _, value) => some (text, value)
  | _ => none

def ofYaml? (text : String) : Option Options :=
  match Yaml.Node.parse? text with
  | some (.mapping members) => (members.mapM keyed?).bind (ofMembers? yamlReading)
  | some (.sequence items) => ofItems? yamlReading items
  | _ => none

end Options

end StaticQuery
