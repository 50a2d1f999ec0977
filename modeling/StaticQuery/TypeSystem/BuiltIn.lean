import StaticQuery.Language.Parser

/-!
What every schema holds without saying so: the built-in scalars and directives, and the types of
introspection. They are given as text in the schema language itself.
-/

namespace StaticQuery.BuiltIn

def introspectionText : String := r#"
type __Schema {
  description: String
  types: [__Type!]!
  queryType: __Type!
  mutationType: __Type
  subscriptionType: __Type
  directives: [__Directive!]!
}

type __Type {
  kind: __TypeKind!
  name: String
  description: String
  fields(includeDeprecated: Boolean = false): [__Field!]
  interfaces: [__Type!]
  possibleTypes: [__Type!]
  enumValues(includeDeprecated: Boolean = false): [__EnumValue!]
  inputFields(includeDeprecated: Boolean = false): [__InputValue!]
  ofType: __Type
  specifiedByURL: String
}

enum __TypeKind { SCALAR OBJECT INTERFACE UNION ENUM INPUT_OBJECT LIST NON_NULL }

type __Field {
  name: String!
  description: String
  args(includeDeprecated: Boolean = false): [__InputValue!]!
  type: __Type!
  isDeprecated: Boolean!
  deprecationReason: String
}

type __InputValue {
  name: String!
  description: String
  type: __Type!
  defaultValue: String
  isDeprecated: Boolean!
  deprecationReason: String
}

type __EnumValue {
  name: String!
  description: String
  isDeprecated: Boolean!
  deprecationReason: String
}

type __Directive {
  name: String!
  description: String
  locations: [__DirectiveLocation!]!
  args(includeDeprecated: Boolean = false): [__InputValue!]!
  isRepeatable: Boolean!
}

enum __DirectiveLocation {
  QUERY MUTATION SUBSCRIPTION FIELD FRAGMENT_DEFINITION FRAGMENT_SPREAD INLINE_FRAGMENT
  VARIABLE_DEFINITION SCHEMA SCALAR OBJECT FIELD_DEFINITION ARGUMENT_DEFINITION INTERFACE
  UNION ENUM ENUM_VALUE INPUT_OBJECT INPUT_FIELD_DEFINITION
}
"#

def scalarText : String :=
  "scalar Int scalar Float scalar String scalar Boolean scalar ID"

def directiveText : String := r#"
directive @skip(if: Boolean!) on FIELD | FRAGMENT_SPREAD | INLINE_FRAGMENT
directive @include(if: Boolean!) on FIELD | FRAGMENT_SPREAD | INLINE_FRAGMENT
directive @deprecated(reason: String = "No longer supported")
  on FIELD_DEFINITION | ARGUMENT_DEFINITION | INPUT_FIELD_DEFINITION | ENUM_VALUE
directive @specifiedBy(url: String!) on SCALAR
"#

def metaFieldText : String :=
  r#"type Meta { __typename: String! __schema: __Schema! __type(name: String!): __Type }"#

def typesOf (text : String) : List TypeDefinition :=
  ((Definition.parseAll? text).getD []).filterMap fun
    | .type definition => some definition
    | _ => none

def introspectionTypes : List TypeDefinition :=
  typesOf introspectionText

def scalars : List TypeDefinition :=
  typesOf scalarText

def directives : List DirectiveDefinition :=
  ((Definition.parseAll? directiveText).getD []).filterMap fun
    | .directive definition => some definition
    | _ => none

def metaFields : List FieldDefinition :=
  (typesOf metaFieldText).flatMap fun definition =>
    match definition.body with
    | .object _ fields => fields
    | _ => []

def metaField? (text : String) : Option FieldDefinition :=
  metaFields.find? fun field => field.name.text = text

def isIntrospection (name : Name) : Bool :=
  introspectionTypes.any fun definition => definition.name = name

def isScalar (name : Name) : Bool :=
  name.text ∈ ["Int", "Float", "String", "Boolean", "ID"]

end StaticQuery.BuiltIn
