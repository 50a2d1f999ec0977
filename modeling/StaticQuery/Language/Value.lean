import StaticQuery.Name

/-!
Literal values, directives and type references of the query language, and their one-line text.
-/

namespace StaticQuery

inductive Value where
  | null
  | boolean (value : Bool)
  | int (text : String)
  | float (text : String)
  | string (text : String)
  | enum (name : Name)
  | var (name : Name)
  | list (items : List Value)
  | object (fields : List (Name × Value))
deriving BEq

namespace Value

inductive Kind where
  | null | boolean | int | float | string | enum | var | list | object
deriving DecidableEq

def Kind.text : Kind → String
  | .null => "null"
  | .boolean => "boolean"
  | .int => "int"
  | .float => "float"
  | .string => "string"
  | .enum => "enum"
  | .var => "variable"
  | .list => "list"
  | .object => "object"

def kind : Value → Kind
  | .null => .null
  | .boolean _ => .boolean
  | .int _ => .int
  | .float _ => .float
  | .string _ => .string
  | .enum _ => .enum
  | .var _ => .var
  | .list _ => .list
  | .object _ => .object

def upperHexDigit (value : Nat) : Char :=
  if value < 10 then Char.ofNat ('0'.toNat + value) else Char.ofNat ('A'.toNat + (value - 10))

/-- Tabs and characters outside ASCII stand for themselves. -/
def escapeChar (c : Char) : List Char :=
  if c = '"' then ['\\', '"']
  else if c = '\\' then ['\\', '\\']
  else if c = '\x08' then ['\\', 'b']
  else if c = '\x0c' then ['\\', 'f']
  else if c = '\n' then ['\\', 'n']
  else if c = '\r' then ['\\', 'r']
  else if c.toNat < 0x20 ∧ c ≠ '\t' then
    ['\\', 'u', '0', '0', upperHexDigit (c.toNat / 16), upperHexDigit (c.toNat % 16)]
  else [c]

def quoted (text : String) : String :=
  "\"" ++ String.ofList (text.toList.flatMap escapeChar) ++ "\""

mutual

def render : Value → String
  | .null => "null"
  | .boolean true => "true"
  | .boolean false => "false"
  | .int text => text
  | .float text => text
  | .string text => quoted text
  | .enum name => name.text
  | .var name => "$" ++ name.text
  | .list items => "[" ++ renderItems items ++ "]"
  | .object fields => "\x7b" ++ renderFields fields ++ "\x7d"

def renderItems : List Value → String
  | [] => ""
  | [item] => render item
  | item :: rest => render item ++ ", " ++ renderItems rest

def renderFields : List (Name × Value) → String
  | [] => ""
  | [(name, value)] => name.text ++ ": " ++ render value
  | (name, value) :: rest => name.text ++ ": " ++ render value ++ ", " ++ renderFields rest

end

mutual

def usedVariables : Value → List Name
  | .var name => [name]
  | .list items => itemVariables items
  | .object fields => fieldVariables fields
  | _ => []

def itemVariables : List Value → List Name
  | [] => []
  | item :: rest => usedVariables item ++ itemVariables rest

def fieldVariables : List (Name × Value) → List Name
  | [] => []
  | (_, value) :: rest => usedVariables value ++ fieldVariables rest

end

end Value

abbrev Arguments := List (Name × Value)

namespace Arguments

def find? (arguments : Arguments) (name : String) : Option Value :=
  (List.find? (fun argument => argument.1.text == name) arguments).map Prod.snd

def usedVariables (arguments : Arguments) : List Name :=
  Value.fieldVariables arguments

def render (arguments : Arguments) : String :=
  if arguments.isEmpty then "" else "(" ++ Value.renderFields arguments ++ ")"

end Arguments

structure Directive where
  name : Name
  arguments : Arguments
deriving BEq

namespace Directive

def usedVariables (directives : List Directive) : List Name :=
  directives.flatMap fun directive => directive.arguments.usedVariables

def render (directive : Directive) : String :=
  " @" ++ directive.name.text ++ directive.arguments.render

def renderAll (directives : List Directive) : String :=
  directives.foldr (fun directive text => directive.render ++ text) ""

end Directive

inductive TypeRef where
  | named (name : Name) (nonNull : Bool)
  | list (item : TypeRef) (nonNull : Bool)
deriving DecidableEq

namespace TypeRef

def inner : TypeRef → Name
  | .named name _ => name
  | .list item _ => item.inner

def isList : TypeRef → Bool
  | .named .. => false
  | .list .. => true

def isNonNull : TypeRef → Bool
  | .named _ nonNull => nonNull
  | .list _ nonNull => nonNull

def nullable : TypeRef → TypeRef
  | .named name _ => .named name false
  | .list item _ => .list item false

def render : TypeRef → String
  | .named name nonNull => name.text ++ (if nonNull then "!" else "")
  | .list item nonNull => "[" ++ item.render ++ "]" ++ (if nonNull then "!" else "")

end TypeRef

end StaticQuery
