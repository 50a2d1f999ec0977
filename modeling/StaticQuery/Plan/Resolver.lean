import StaticQuery.Plan.Basic
import StaticQuery.TypeSystem.Schema

/-!
Resolvers, and schemas with resolvers registered for their fields. Whether a resolver is
asynchronous is declared by whoever registers it.
-/

namespace StaticQuery

structure ResolverError where
  message : String
deriving DecidableEq

structure Future (α : Type) where
  pending : Nat
  outcome : α

abbrev Resolver (α : Type) := Json → Json.Object → ResolveInfo → α

inductive ResolveFn where
  | sync (resolve : Resolver (Except ResolverError Json))
  | async (resolve : Resolver (Future (Except ResolverError Json)))

def ResolveFn.isAsync : ResolveFn → Bool
  | .sync _ => false
  | .async _ => true

/-- What is registered for a field. Without a resolve function the field is read off its source. -/
structure FieldConfig where
  resolve? : Option ResolveFn

inductive SchemaError where
  | invalidText
  | unknownField (type field : String)
deriving DecidableEq

def SchemaError.message : SchemaError → String
  | .invalidText => "schema parsing error"
  | .unknownField type field =>
      "cannot register a resolver for unknown field " ++ type ++ "." ++ field

structure ExecutableSchema where
  definitions : Schema
  fields : OrderedMap Coordinate FieldConfig

namespace ExecutableSchema

def ofSchema (definitions : Schema) : ExecutableSchema :=
  ⟨definitions, []⟩

def coordinateOf? (type field : String) : Option Coordinate :=
  match Name.ofText? type, Name.ofText? field with
  | some type, some field => some ⟨type, field⟩
  | _, _ => none

def definedCoordinate? (schema : ExecutableSchema) (type field : String) : Option Coordinate :=
  (coordinateOf? type field).filter fun coordinate =>
    schema.definitions.definesField coordinate.type coordinate.field

def register (schema : ExecutableSchema) (type field : String) (config : FieldConfig) :
    Except SchemaError ExecutableSchema :=
  match schema.definedCoordinate? type field with
  | none => .error (.unknownField type field)
  | some coordinate =>
      .ok ⟨schema.definitions, schema.fields.insert coordinate config⟩

def registerSync (schema : ExecutableSchema) (type field : String)
    (resolve : Resolver (Except ResolverError Json)) : Except SchemaError ExecutableSchema :=
  schema.register type field ⟨some (.sync resolve)⟩

def registerAsync (schema : ExecutableSchema) (type field : String)
    (resolve : Resolver (Future (Except ResolverError Json))) :
    Except SchemaError ExecutableSchema :=
  schema.register type field ⟨some (.async resolve)⟩

def fieldConfig? (schema : ExecutableSchema) (type field : String) : Option FieldConfig :=
  (coordinateOf? type field).bind schema.fields.get?

def resolveFn? (schema : ExecutableSchema) (coordinate : Coordinate) : Option ResolveFn :=
  (schema.fields.get? coordinate).bind FieldConfig.resolve?

end ExecutableSchema

end StaticQuery
