import StaticQuery.TypeSystem.Assembly
import StaticQuery.TypeSystem.Input

/-!
The rules of schemas, and reading a schema from its text.
-/

namespace StaticQuery

namespace Schema

def chainLimit : Nat :=
  32

def freeNames (names : List Name) : Bool :=
  names.all fun name => !name.isReserved

def distinct (names : List Name) : Bool :=
  decide names.Nodup

def inputsValid (schema : Schema) (location : DirectiveLocation)
    (inputs : List InputValueDefinition) : Bool :=
  let names := inputs.map (·.name)
  distinct names && freeNames names &&
  inputs.all fun input =>
    schema.typeIs TypeBody.isInput input.type.inner &&
    schema.directivesAccepted [] location input.directives

def fieldsValid (schema : Schema) (fields : List FieldDefinition) : Bool :=
  let names := fields.map (·.name)
  !fields.isEmpty && distinct names && freeNames names &&
  fields.all fun field =>
    schema.typeIs TypeBody.isOutput field.type.inner &&
    schema.inputsValid .argumentDefinition field.arguments &&
    schema.directivesAccepted [] .fieldDefinition field.directives

def below (schema : Schema) (type above : Name) : Bool :=
  type = above || schema.declares type above ||
    match schema.body? above with
    | some (.union members) => members.contains type
    | _ => false

def narrows (schema : Schema) : TypeRef → TypeRef → Bool
  | .named type nonNull, .named above aboveNonNull =>
      (nonNull || !aboveNonNull) && schema.below type above
  | .list item nonNull, .list above aboveNonNull =>
      (nonNull || !aboveNonNull) && narrows schema item above
  | _, _ => false

def argumentsImplement (own wanted : List InputValueDefinition) : Bool :=
  (wanted.all fun argument =>
    own.any fun candidate => candidate.name = argument.name && candidate.type = argument.type) &&
  own.all fun argument =>
    !argument.isRequired || wanted.any fun candidate => candidate.name = argument.name

def fieldImplements (schema : Schema) (own : List FieldDefinition) (wanted : FieldDefinition) :
    Bool :=
  own.any fun field =>
    field.name = wanted.name &&
    schema.narrows field.type wanted.type &&
    argumentsImplement field.arguments wanted.arguments

/-- Every declared interface is one, is not the type itself, and is implemented in full, the
interfaces that it declares in turn included. -/
def interfacesValid (schema : Schema) (type : Name) (interfaces : List Name)
    (fields : List FieldDefinition) : Bool :=
  distinct interfaces &&
  interfaces.all fun name =>
    name ≠ type &&
      match schema.body? name with
      | some (.interface inherited wanted) =>
          inherited.all interfaces.contains && wanted.all (schema.fieldImplements fields)
      | _ => false

def demandedInputs (schema : Schema) (name : Name) : List Name :=
  match schema.body? name with
  | some (.inputObject fields) =>
      fields.filterMap fun field =>
        match field.type with
        | .named inner true =>
            if schema.typeIs (· matches .inputObject _) inner then some inner else none
        | _ => none
  | _ => []

def demandsEnd (schema : Schema) : Nat → List Name → Bool
  | 0, demanded => demanded.isEmpty
  | rounds + 1, demanded =>
      demandsEnd schema rounds (demanded.flatMap schema.demandedInputs).eraseDups

def inputIsFinite (schema : Schema) (name : Name) : Bool :=
  schema.demandsEnd chainLimit [name]

def typeDirectiveLocation : TypeBody → DirectiveLocation
  | .scalar => .scalar
  | .object .. => .object
  | .interface .. => .interface
  | .union _ => .union
  | .enum _ => .enum
  | .inputObject _ => .inputObject

/-- Whether a type follows the rules for its kind. The types of introspection do so too, with what
extensions add to them; the built-in scalars have no rules. -/
def typeValid (schema : Schema) (definition : TypeDefinition) : Bool :=
  (!definition.name.isReserved || BuiltIn.isIntrospection definition.name) &&
  (BuiltIn.isScalar definition.name ||
    schema.directivesAccepted [] (typeDirectiveLocation definition.body)
      definition.directives) &&
  match definition.body with
  | .scalar => true
  | .object interfaces fields =>
      schema.fieldsValid fields && schema.interfacesValid definition.name interfaces fields
  | .interface interfaces fields =>
      schema.fieldsValid fields && schema.interfacesValid definition.name interfaces fields
  | .union members =>
      !members.isEmpty && distinct members && members.all (schema.typeIs TypeBody.isObject)
  | .enum values =>
      let names := values.map (·.name)
      !values.isEmpty && distinct names && freeNames names &&
      values.all fun value => schema.directivesAccepted [] .enumValue value.directives
  | .inputObject fields =>
      !fields.isEmpty && schema.inputsValid .inputFieldDefinition fields &&
      schema.inputIsFinite definition.name

inductive Mention where
  | directive (name : Name)
  | type (name : Name)

def Mention.ofDirectives (directives : List Directive) : List Mention :=
  directives.map fun directive => .directive directive.name

def Mention.ofInput (input : InputValueDefinition) : List Mention :=
  Mention.ofDirectives input.directives ++ [.type input.type.inner]

def directiveMentions (schema : Schema) (name : Name) : List Mention :=
  match schema.directive? name with
  | none => []
  | some definition => definition.arguments.flatMap Mention.ofInput

def typeMentions (schema : Schema) (name : Name) : List Mention :=
  match schema.type? name with
  | none => []
  | some definition =>
      Mention.ofDirectives definition.directives ++
        match definition.body with
        | .enum values => values.flatMap fun value => Mention.ofDirectives value.directives
        | .inputObject fields => fields.flatMap Mention.ofInput
        | _ => []

/-- Follows mentions until they end or repeat, and fails where the first directive is mentioned
again or a chain grows too long. `directives` and `types` are those on the way here. -/
def mentionsEnd (schema : Schema) (first : Name) :
    Nat → List Name → List Name → Mention → Bool
  | 0, _, _, _ => false
  | fuel + 1, directives, types, .directive name =>
      if directives.contains name then name ≠ first
      else
        directives.length < chainLimit &&
        (schema.directiveMentions name).all
          (mentionsEnd schema first fuel (name :: directives) types)
  | fuel + 1, directives, types, .type name =>
      types.contains name || BuiltIn.isScalar name || BuiltIn.isIntrospection name ||
        (types.length < chainLimit &&
        (schema.typeMentions name).all
          (mentionsEnd schema first fuel directives (name :: types)))

def directiveValid (schema : Schema) (definition : DirectiveDefinition) : Bool :=
  !definition.name.isReserved &&
  schema.inputsValid .argumentDefinition definition.arguments &&
  (schema.directiveMentions definition.name).all
    (schema.mentionsEnd definition.name (2 * chainLimit + 1) [definition.name] [])

def rootsValid (schema : Schema) (block : SchemaBlock) : Bool :=
  decide (block.operations.map Prod.fst).Nodup &&
  distinct (block.operations.map Prod.snd) &&
  schema.query?.isSome &&
  block.operations.all (fun root => schema.typeIs TypeBody.isObject root.2) &&
  schema.directivesAccepted [] .schema block.directives

def Assembled.isValid (assembled : Assembled) : Bool :=
  let schema := assembled.schema
  schema.rootsValid assembled.block &&
  schema.types.all schema.typeValid &&
  assembled.ownDirectives.all schema.directiveValid

def parse? (text : String) : Option Schema := do
  let definitions ← Definition.parseAll? text
  let assembled ← assemble? definitions
  if assembled.isValid then return assembled.schema else failure

end Schema

end StaticQuery
