import StaticQuery.Json.Basic
import StaticQuery.Json.Printer

/-!
Options of the compiler. They can be given by key or by position, in any notation that tells
booleans and unsigned integers apart.
-/

namespace StaticQuery

structure Options where
  /-- Whether resolvers are told which field they are called for. -/
  emitAst : Bool := true
  /-- How deep object fields may nest. -/
  recursionLimit : Nat := 512
deriving DecidableEq

namespace Options

def emitAstKey : String :=
  "emit_ast"

def recursionLimitKey : String :=
  "recursion_limit"

structure Reading (α : Type) where
  toBool? : α → Option Bool
  /-- Unsigned 64-bit integers. -/
  toLimit? : α → Option Nat

variable {α : Type}

def set? (reading : Reading α) (options : Options) (key : String) (value : α) : Option Options :=
  if key = emitAstKey then
    (reading.toBool? value).map fun emitAst => { options with emitAst := emitAst }
  else if key = recursionLimitKey then
    (reading.toLimit? value).map fun limit => { options with recursionLimit := limit }
  else none

def setAll? (reading : Reading α) : Options → List (String × α) → Option Options
  | options, [] => some options
  | options, (key, value) :: rest =>
      match set? reading options key value with
      | some options => setAll? reading options rest
      | none => none

def ofMembers? (reading : Reading α) (members : List (String × α)) : Option Options :=
  if (members.map Prod.fst).Nodup then setAll? reading {} members else none

def ofItems? (reading : Reading α) (items : List α) : Option Options :=
  if items.length ≤ 2 then setAll? reading {} ([emitAstKey, recursionLimitKey].zip items) else none

def jsonReading : Reading Json where
  toBool?
    | .bool value => some value
    | _ => none
  toLimit?
    | .number (.integer whole) => if 0 ≤ whole.value then some whole.value.toNat else none
    | _ => none

def ofJson? : Json → Option Options
  | .object members => ofMembers? jsonReading members
  | .array items => ofItems? jsonReading items
  | _ => none

def render (options : Options) : String :=
  "\x7b" ++ Json.quoted emitAstKey ++ ":" ++ (Json.bool options.emitAst).render ++ "," ++
    Json.quoted recursionLimitKey ++ ":" ++
    String.ofList (Json.integerChars options.recursionLimit) ++ "\x7d"

def jsonSchema : String :=
  r#"{"$schema":"http://json-schema.org/draft-07/schema#","title":"Options","description":"Options for [`compile`](crate::compile).\n\nExample `compiler.yaml`:\n\n```yaml emit_ast: false recursion_limit: 64 ```","type":"object","properties":{"emit_ast":{"description":"Embed the field selection that triggered each custom resolver call in its resolve info.","default":true,"type":"boolean"},"recursion_limit":{"description":"Maximum nesting of object-typed fields in a compiled operation.","default":512,"type":"integer","format":"uint","minimum":0.0}},"additionalProperties":false}"#

end Options

end StaticQuery
