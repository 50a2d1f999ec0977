import StaticQuery.Document.Deferral
import StaticQuery.Document.Merging
import StaticQuery.TypeSystem.Input

/-!
The rules of query documents, and reading a document from its text.
-/

namespace StaticQuery

def Schema.conditionApplies (schema : Schema) (parent condition : Name) : Bool :=
  condition = parent ||
    (schema.possibleTypes condition).any (schema.possibleTypes parent).contains

namespace Selection

mutual

/-- A field's arguments and directives fit, and it has a selection when its type is composite. A
type condition names a composite type that can apply. A spread names a fragment that can apply;
what the fragment holds is judged once, by itself. -/
def accepted (schema : Schema) (fragments : Fragments) (scope : Schema.Variables) (parent : Name) :
    Selection TypeRef → Bool
  | .field head selections =>
      (match schema.field? parent head.name with
        | none => false
        | some definition =>
            schema.argumentsAccepted scope definition.arguments head.arguments) &&
      schema.directivesAccepted scope .field head.directives &&
      (schema.typeIs TypeBody.isComposite head.type.inner != selections.isEmpty) &&
      acceptedAll schema fragments scope head.type.inner selections
  | .fragmentSpread name directives =>
      (match fragments.get? name with
        | none => false
        | some fragment => schema.conditionApplies parent fragment.condition) &&
      schema.directivesAccepted scope .fragmentSpread directives
  | .inlineFragment condition? directives selections =>
      (match condition? with
        | none => true
        | some condition =>
            schema.typeIs TypeBody.isComposite condition &&
            schema.conditionApplies parent condition) &&
      schema.directivesAccepted scope .inlineFragment directives &&
      acceptedAll schema fragments scope (condition?.getD parent) selections

def acceptedAll (schema : Schema) (fragments : Fragments) (scope : Schema.Variables)
    (parent : Name) : List (Selection TypeRef) → Bool
  | [] => true
  | selection :: rest =>
      accepted schema fragments scope parent selection &&
        acceptedAll schema fragments scope parent rest

end

mutual

def level {τ : Type} : Selection τ → List (Selection τ)
  | .field head selections => [.field head selections]
  | .fragmentSpread fragment directives => [.fragmentSpread fragment directives]
  | .inlineFragment condition? directives selections =>
      .inlineFragment condition? directives selections :: levelAll selections

def levelAll {τ : Type} : List (Selection τ) → List (Selection τ)
  | [] => []
  | selection :: rest => level selection ++ levelAll rest

end

def head? {τ : Type} : Selection τ → Option (FieldHead τ)
  | .field head _ => some head
  | _ => none

def spread? {τ : Type} : Selection τ → Option Name
  | .fragmentSpread fragment _ => some fragment
  | _ => none

def directives {τ : Type} : Selection τ → List Directive
  | .field head _ => head.directives
  | .fragmentSpread _ directives => directives
  | .inlineFragment _ directives _ => directives

def isConditional {τ : Type} (selection : Selection τ) : Bool :=
  selection.directives.any fun directive =>
    directive.name.text = "skip" || directive.name.text = "include"

end Selection

def BoundFragment.accepted (schema : Schema) (fragments : Fragments) (scope : Schema.Variables)
    (fragment : BoundFragment) : Bool :=
  schema.typeIs TypeBody.isComposite fragment.condition &&
  schema.directivesAccepted scope .fragmentDefinition fragment.directives &&
  Selection.acceptedAll schema fragments scope fragment.condition fragment.selections

/-- The selections on the root level of an operation. A fragment that is spread there adds its own,
once however often it is spread. -/
def Operation.rootLevel? (fragments : Fragments) (operation : Operation) :
    Option (List (Selection TypeRef)) := do
  let levelOf name := match fragments.get? name with
    | some fragment => Selection.levelAll fragment.selections
    | none => []
  let own := Selection.levelAll operation.selections
  let names ← Fragments.reach? (fun name => (levelOf name).filterMap Selection.spread?)
    Fragments.chainLimit (own.filterMap Selection.spread?).eraseDups
  return own ++ names.eraseDups.flatMap levelOf

def Operation.hasOnlyField (fragments : Fragments) (operation : Operation) : Bool :=
  match operation.rootLevel? fragments with
  | none => false
  | some level =>
      level.all (fun selection => !selection.isConditional) &&
      match level.filterMap Selection.head? with
      | [head] => !head.name.isReserved
      | _ => false

namespace OperationDefinition

def location (definition : OperationDefinition) : DirectiveLocation :=
  match definition.kind with
  | .query => .query
  | .mutation => .mutation
  | .subscription => .subscription

def variablesDeclared (schema : Schema) (definition : OperationDefinition) : Bool :=
  decide (definition.declared.map (·.name)).Nodup &&
  definition.declared.all fun given =>
    schema.typeIs TypeBody.isInput given.type.inner &&
    schema.directivesAccepted [] .variableDefinition given.directives &&
      match given.default? with
      | some value => schema.accepts (fun _ => none) value given.type
      | none => true

def variablesUsed (definition : OperationDefinition) (reached : Fragments)
    (operation : Operation) : Bool :=
  let used := Directive.usedVariables definition.directives ++
    Selection.usedVariablesAll operation.selections ++
    reached.flatMap fun fragment =>
      Directive.usedVariables fragment.directives ++
        Selection.usedVariablesAll fragment.selections
  definition.declared.all fun variableDefinition => used.contains variableDefinition.name

def accepted (schema : Schema) (fragments reached : Fragments) (definition : OperationDefinition)
    (operation : Operation) : Bool :=
  definition.variablesDeclared schema &&
  definition.variablesUsed reached operation &&
  schema.directivesAccepted definition.declared definition.location definition.directives &&
  Selection.acceptedAll schema fragments definition.declared operation.rootType
    operation.selections &&
  reached.all (BoundFragment.accepted schema fragments definition.declared) &&
  fragments.nestsWithinLimit operation &&
  (definition.kind ≠ .subscription || operation.hasOnlyField fragments) &&
  Deferral.accepted reached operation

def bind (schema : Schema) (definition : OperationDefinition) : Option Operation := do
  let rootType ← schema.rootType? definition.kind
  let selections ← Selection.bindAll schema rootType definition.selections
  return ⟨definition.kind, definition.name?, rootType, selections⟩

end OperationDefinition

def FragmentDefinition.bind (schema : Schema) (definition : FragmentDefinition) :
    Option BoundFragment := do
  if (schema.type? definition.condition).isNone then failure
  let selections ← Selection.bindAll schema definition.condition definition.selections
  return ⟨definition.name, definition.condition, definition.directives, selections⟩

namespace Definition

def operation? : Definition → Option OperationDefinition
  | .operation definition => some definition
  | _ => none

def fragment? : Definition → Option FragmentDefinition
  | .fragment definition => some definition
  | _ => none

/-- Only operations and fragments, at least one operation, and an operation without a name only
by itself; names of each kind are distinct. -/
def isRequest (definitions : List Definition) : Bool :=
  let operations := definitions.filterMap operation?
  let fragments := definitions.filterMap fragment?
  definitions.length = operations.length + fragments.length &&
  !operations.isEmpty &&
  (operations.length = 1 || operations.all fun operation => operation.name?.isSome) &&
  decide (operations.map (·.name?)).Nodup &&
  decide (fragments.map (·.name)).Nodup

/-- Every fragment is spread somewhere, if only by itself. -/
def fragmentsUsed (definitions : List Definition) : Bool :=
  let fragments := definitions.filterMap fragment?
  let spread :=
    (definitions.filterMap operation?).flatMap (fun operation =>
      Selection.spreadsAll operation.selections) ++
    fragments.flatMap fun fragment => Selection.spreadsAll fragment.selections
  fragments.all fun fragment => spread.contains fragment.name

end Definition

namespace Document

def operationOf? (schema : Schema) (fragments : Fragments) (definition : OperationDefinition) :
    Option Operation := do
  let operation ← definition.bind schema
  let reached ← fragments.reachedBy? operation
  if definition.accepted schema fragments reached operation then return operation else failure

def ofDefinitions? (schema : Schema) (definitions : List Definition) : Option Document := do
  if Definition.isRequest definitions && Definition.fragmentsUsed definitions then
    let fragments ← (definitions.filterMap Definition.fragment?).mapM (·.bind schema)
    let operations ← (definitions.filterMap Definition.operation?).mapM
      (operationOf? schema fragments)
    if Merging.mergeable schema fragments operations then return ⟨operations⟩ else failure
  else failure

def parse? (schema : Schema) (text : String) : Option Document := do
  let definitions ← Definition.parseAll? text
  ofDefinitions? schema definitions

end Document

end StaticQuery
