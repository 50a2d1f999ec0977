import StaticQuery.Language.Selection

/-!
Definitions of a document, executable and of the type system, as the grammar gives them.
Descriptions are not kept.
-/

namespace StaticQuery

structure VariableDefinition where
  name : Name
  type : TypeRef
  default? : Option Value
  directives : List Directive

structure OperationDefinition where
  kind : OperationKind
  name? : Option Name
  declared : List VariableDefinition
  directives : List Directive
  selections : List (Selection Unit)

structure FragmentDefinition where
  name : Name
  condition : Name
  directives : List Directive
  selections : List (Selection Unit)

structure InputValueDefinition where
  name : Name
  type : TypeRef
  default? : Option Value
  directives : List Directive

def InputValueDefinition.isRequired (input : InputValueDefinition) : Bool :=
  input.type.isNonNull && input.default?.isNone

structure FieldDefinition where
  name : Name
  arguments : List InputValueDefinition
  type : TypeRef
  directives : List Directive

structure EnumValueDefinition where
  name : Name
  directives : List Directive

inductive TypeBody where
  | scalar
  | object (interfaces : List Name) (fields : List FieldDefinition)
  | interface (interfaces : List Name) (fields : List FieldDefinition)
  | union (members : List Name)
  | enum (values : List EnumValueDefinition)
  | inputObject (fields : List InputValueDefinition)

structure TypeDefinition where
  name : Name
  directives : List Directive
  body : TypeBody

inductive DirectiveLocation where
  | query | mutation | subscription | field | fragmentDefinition | fragmentSpread | inlineFragment
  | variableDefinition | schema | scalar | object | fieldDefinition | argumentDefinition
  | interface | union | enum | enumValue | inputObject | inputFieldDefinition
deriving DecidableEq

def DirectiveLocation.ofText? : String → Option DirectiveLocation
  | "QUERY" => some .query
  | "MUTATION" => some .mutation
  | "SUBSCRIPTION" => some .subscription
  | "FIELD" => some .field
  | "FRAGMENT_DEFINITION" => some .fragmentDefinition
  | "FRAGMENT_SPREAD" => some .fragmentSpread
  | "INLINE_FRAGMENT" => some .inlineFragment
  | "VARIABLE_DEFINITION" => some .variableDefinition
  | "SCHEMA" => some .schema
  | "SCALAR" => some .scalar
  | "OBJECT" => some .object
  | "FIELD_DEFINITION" => some .fieldDefinition
  | "ARGUMENT_DEFINITION" => some .argumentDefinition
  | "INTERFACE" => some .interface
  | "UNION" => some .union
  | "ENUM" => some .enum
  | "ENUM_VALUE" => some .enumValue
  | "INPUT_OBJECT" => some .inputObject
  | "INPUT_FIELD_DEFINITION" => some .inputFieldDefinition
  | _ => none

structure DirectiveDefinition where
  name : Name
  arguments : List InputValueDefinition
  repeatable : Bool
  locations : List DirectiveLocation

structure SchemaBlock where
  directives : List Directive
  operations : List (OperationKind × Name)

inductive Definition where
  | operation (definition : OperationDefinition)
  | fragment (definition : FragmentDefinition)
  | schema (block : SchemaBlock)
  | schemaExtension (block : SchemaBlock)
  | type (definition : TypeDefinition)
  | typeExtension (extension : TypeDefinition)
  | directive (definition : DirectiveDefinition)

end StaticQuery
