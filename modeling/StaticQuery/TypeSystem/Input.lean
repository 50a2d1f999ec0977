import StaticQuery.Number.Literal
import StaticQuery.Number.Word
import StaticQuery.TypeSystem.BuiltIn
import StaticQuery.TypeSystem.Schema

/-!
Which literal values a type accepts, and which applications of arguments and directives fit their
definitions. Variables are judged by their declared types.
-/

namespace StaticQuery

def intOfText? (text : String) : Option Int :=
  match NumberLiteral.scanSign text.toList with
  | (negative, digits) =>
      if digits.isEmpty || !digits.all Char.isDigit then none
      else
        let magnitude : Int := digitsValue digits
        some (if negative then -magnitude else magnitude)

def floatOfText? (text : String) : Option Binary64 :=
  (NumberLiteral.ofText? text).bind NumberLiteral.toBinary64?

namespace Schema

def scalarAccepts (scalar : Name) (value : Value) : Bool :=
  match scalar.text, value with
  | "Int", .int text => (intOfText? text).any fitsInt32
  | "Float", .int text => (floatOfText? text).isSome
  | "Float", .float text => (floatOfText? text).isSome
  | "String", .string _ => true
  | "Boolean", .boolean _ => true
  | "ID", .int _ => true
  | "ID", .string _ => true
  | _, _ => !BuiltIn.isScalar scalar

def namedAccepts (schema : Schema) (name : Name) (value : Value) : Bool :=
  match schema.body? name, value with
  | some .scalar, value => scalarAccepts name value
  | some (.enum values), .enum chosen => values.any fun definition => definition.name = chosen
  | _, _ => false

/-- The type of the items of a list type; a named type stands for its own items, since one value
is taken for a list of one. -/
def itemType : TypeRef → TypeRef
  | .list item _ => item
  | type => type

def isGiven (given : List (Name × Value)) (name : Name) : Bool :=
  given.any fun field => field.1 = name

def isGivenNull (given : List (Name × Value)) (name : Name) : Bool :=
  given.any fun field => field.1 = name && field.2 matches .null

def hasRequired (fields : List InputValueDefinition) (given : List (Name × Value)) : Bool :=
  fields.all fun field =>
    !field.isRequired || (isGiven given field.name && !isGivenNull given field.name)

mutual

/-- Whether a type accepts a value. `variableType?` gives the declared types of variables. A scalar
without rules of its own takes objects without a look inside, and lists item by item. -/
def accepts (schema : Schema) (variableType? : Name → Option TypeRef) :
    Value → TypeRef → Bool
  | .null, type => !type.isNonNull
  | .var name, type =>
      schema.typeIs TypeBody.isInput type.inner &&
        match variableType? name with
        | some declared => declared.inner = type.inner
        | none => false
  | .list items, type =>
      (type.isList || (schema.typeIs (· matches .scalar) type.inner && !BuiltIn.isScalar type.inner))
        && itemsAccepted schema variableType? items (itemType type)
  | .object given, type =>
      match schema.body? type.inner with
      | some .scalar => !BuiltIn.isScalar type.inner
      | some (.inputObject fields) =>
          hasRequired fields given && fieldsAccepted schema variableType? fields [] given
      | _ => false
  | value, type => schema.namedAccepts type.inner value

def itemsAccepted (schema : Schema) (variableType? : Name → Option TypeRef) :
    List Value → TypeRef → Bool
  | [], _ => true
  | item :: rest, type =>
      accepts schema variableType? item type && itemsAccepted schema variableType? rest type

/-- Every given field is known, and of its type where it is given first; `earlier` are the names
given before. -/
def fieldsAccepted (schema : Schema) (variableType? : Name → Option TypeRef)
    (fields : List InputValueDefinition) (earlier : List Name) : List (Name × Value) → Bool
  | [] => true
  | (name, value) :: rest =>
      (match fields.find? fun field => field.name = name with
        | some field => earlier.contains name || accepts schema variableType? value field.type
        | none => false) &&
      fieldsAccepted schema variableType? fields (name :: earlier) rest

end

abbrev Variables := List VariableDefinition

def declaration? (scope : Variables) (name : Name) : Option VariableDefinition :=
  scope.find? fun definition => definition.name = name

def variableType? (scope : Variables) (name : Name) : Option TypeRef :=
  (declaration? scope name).map (·.type)

def compatible : TypeRef → TypeRef → Bool
  | .named given givenNonNull, .named wanted wantedNonNull =>
      (givenNonNull || !wantedNonNull) && given = wanted
  | .list given givenNonNull, .list wanted wantedNonNull =>
      (givenNonNull || !wantedNonNull) && compatible given wanted
  | _, _ => false

/-- Whether a variable may stand for an argument. A default value, of the variable or of the
argument, makes up for a nullable variable, even if it is null. -/
def usageAllowed (given : VariableDefinition) (wanted : InputValueDefinition) : Bool :=
  if wanted.type.isNonNull && !given.type.isNonNull then
    (given.default?.isSome || wanted.default?.isSome) &&
      compatible given.type wanted.type.nullable
  else compatible given.type wanted.type

def argumentAccepted (schema : Schema) (scope : Variables)
    (definitions : List InputValueDefinition) (argument : Name × Value) : Bool :=
  match definitions.find? fun definition => definition.name = argument.1 with
  | none => false
  | some definition =>
      schema.accepts (variableType? scope) argument.2 definition.type &&
        match argument.2 with
        | .var name =>
            match declaration? scope name with
            | some given => usageAllowed given definition
            | none => true
        | _ => true

def argumentsAccepted (schema : Schema) (scope : Variables)
    (definitions : List InputValueDefinition) (arguments : Arguments) : Bool :=
  decide (arguments.map Prod.fst).Nodup &&
  arguments.all (schema.argumentAccepted scope definitions) &&
  hasRequired definitions arguments

def repeatsRightly (definition : DirectiveDefinition) (directives : List Directive) : Bool :=
  definition.repeatable ||
    (directives.filter fun directive => directive.name = definition.name).length ≤ 1

def directivesAccepted (schema : Schema) (scope : Variables) (location : DirectiveLocation)
    (directives : List Directive) : Bool :=
  directives.all fun directive =>
    match schema.directive? directive.name with
    | none => false
    | some definition =>
        definition.locations.contains location &&
        repeatsRightly definition directives &&
        schema.argumentsAccepted scope definition.arguments directive.arguments

end Schema

end StaticQuery
