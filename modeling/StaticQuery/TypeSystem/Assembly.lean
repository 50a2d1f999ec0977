import StaticQuery.TypeSystem.BuiltIn
import StaticQuery.TypeSystem.Schema

/-!
Putting a schema together from the definitions of a text: extensions are merged into what they
extend, the built-in definitions are added, and root operation types are found by name where no
schema definition gives them. Definitions take effect in their order: an extension before its type
waits for it, and comes to nothing if the type then is of another kind.
-/

namespace StaticQuery

namespace Definition

def isExecutable : Definition → Bool
  | .operation _ => true
  | .fragment _ => true
  | _ => false

def directives (definitions : List Definition) : List DirectiveDefinition :=
  definitions.filterMap fun
    | .directive definition => some definition
    | _ => none

def schemaBlocks (definitions : List Definition) : List SchemaBlock :=
  definitions.filterMap fun
    | .schema block => some block
    | _ => none

def schemaExtensions (definitions : List Definition) : List SchemaBlock :=
  definitions.filterMap fun
    | .schemaExtension block => some block
    | _ => none

end Definition

namespace TypeBody

def append? : TypeBody → TypeBody → Option TypeBody
  | .scalar, .scalar => some .scalar
  | .object interfaces fields, .object moreInterfaces moreFields =>
      some (.object (interfaces ++ moreInterfaces) (fields ++ moreFields))
  | .interface interfaces fields, .interface moreInterfaces moreFields =>
      some (.interface (interfaces ++ moreInterfaces) (fields ++ moreFields))
  | .union members, .union more => some (.union (members ++ more))
  | .enum values, .enum more => some (.enum (values ++ more))
  | .inputObject fields, .inputObject more => some (.inputObject (fields ++ more))
  | _, _ => none

def references : TypeBody → List Name
  | .object _ fields => fields.flatMap fieldReferences
  | .interface _ fields => fields.flatMap fieldReferences
  | .inputObject fields => fields.map fun field => field.type.inner
  | _ => []
where
  fieldReferences (field : FieldDefinition) : List Name :=
    field.type.inner :: field.arguments.map fun argument => argument.type.inner

end TypeBody

namespace Schema

def extendType? (definition extension : TypeDefinition) : Option TypeDefinition :=
  (definition.body.append? extension.body).map fun body =>
    ⟨definition.name, definition.directives ++ extension.directives, body⟩

structure TypeTable where
  types : List TypeDefinition
  waiting : List TypeDefinition

namespace TypeTable

def defines (table : TypeTable) (name : Name) : Bool :=
  table.types.any fun definition => definition.name = name

def define? (table : TypeTable) (definition : TypeDefinition) : Option TypeTable :=
  if table.defines definition.name then none
  else
    let (own, waiting) := table.waiting.partition fun extension => extension.name = definition.name
    let extended := own.foldl (fun definition extension =>
      (extendType? definition extension).getD definition) definition
    some ⟨table.types ++ [extended], waiting⟩

def extend? (table : TypeTable) (extension : TypeDefinition) : Option TypeTable :=
  if table.defines extension.name then
    (table.types.mapM fun definition =>
      if definition.name = extension.name then extendType? definition extension
      else some definition).map fun types => ⟨types, table.waiting⟩
  else some ⟨table.types, table.waiting ++ [extension]⟩

def add? (table : TypeTable) : Definition → Option TypeTable
  | .type definition => table.define? definition
  | .typeExtension extension => table.extend? extension
  | _ => some table

def ofDefinitions? (definitions : List Definition) : Option (List TypeDefinition) := do
  let table ← definitions.foldlM add? ⟨BuiltIn.introspectionTypes ++ BuiltIn.scalars, []⟩
  if table.waiting.isEmpty then return table.types else failure

end TypeTable

def customaryRoots (types : List TypeDefinition) : List (OperationKind × Name) :=
  let root (kind : OperationKind) (text : String) :=
    (types.find? fun definition => definition.name.text = text && definition.body.isObject).map
      fun definition => (kind, definition.name)
  [root .query "Query", root .mutation "Mutation", root .subscription "Subscription"].filterMap id

/-- All schema blocks as one. There is at most one definition, and an extension needs something
to extend. -/
def schemaBlock? (types : List TypeDefinition) (blocks extensions : List SchemaBlock) :
    Option SchemaBlock :=
  let base? : Option SchemaBlock :=
    match blocks with
    | [] =>
        let roots := customaryRoots types
        if roots.isEmpty && !extensions.isEmpty then none else some ⟨[], roots⟩
    | [block] => some block
    | _ => none
  base?.map fun base =>
    ⟨base.directives ++ extensions.flatMap (·.directives),
      base.operations ++ extensions.flatMap (·.operations)⟩

def usedScalars (types : List TypeDefinition) (directives : List DirectiveDefinition) :
    List TypeDefinition :=
  let references := types.flatMap (·.body.references) ++
    directives.flatMap fun definition => definition.arguments.map fun argument => argument.type.inner
  BuiltIn.scalars.filter fun scalar => references.contains scalar.name

def root? (block : SchemaBlock) (kind : OperationKind) : Option Name :=
  (block.operations.find? fun root => root.1 = kind).map Prod.snd

structure Assembled where
  schema : Schema
  block : SchemaBlock
  ownDirectives : List DirectiveDefinition

/-- Joins the definitions of a text and the built-in ones. Type names are distinct, and so are
directive names; only directives may replace built-in ones. -/
def assemble? (definitions : List Definition) : Option Assembled := do
  if definitions.any Definition.isExecutable then failure
  let directives := Definition.directives definitions
  if ¬ (directives.map (·.name)).Nodup then failure
  let extended ← TypeTable.ofDefinitions? definitions
  let builtInDirectives := BuiltIn.directives.filter fun builtIn =>
    !directives.any fun definition => definition.name = builtIn.name
  let allDirectives := builtInDirectives ++ directives
  let unscalar := extended.filter fun definition => !BuiltIn.isScalar definition.name
  let types := unscalar ++ usedScalars unscalar allDirectives
  let block ← schemaBlock? types (Definition.schemaBlocks definitions)
    (Definition.schemaExtensions definitions)
  return {
    schema := {
      types := types
      directives := allDirectives
      query? := root? block .query
      mutation? := root? block .mutation
      subscription? := root? block .subscription }
    block := block
    ownDirectives := directives }

end Schema

end StaticQuery
