import StaticQuery.Language.Definition

/-!
Schemas: the types, directives and root operation types that documents are written against.
-/

namespace StaticQuery

namespace TypeBody

def isObject : TypeBody → Bool
  | .object .. => true
  | _ => false

def isInterface : TypeBody → Bool
  | .interface .. => true
  | _ => false

def isComposite : TypeBody → Bool
  | .object .. => true
  | .interface .. => true
  | .union _ => true
  | _ => false

def isInput : TypeBody → Bool
  | .scalar => true
  | .enum _ => true
  | .inputObject _ => true
  | _ => false

def isOutput : TypeBody → Bool
  | .inputObject _ => false
  | _ => true

def fields : TypeBody → List FieldDefinition
  | .object _ fields => fields
  | .interface _ fields => fields
  | _ => []

def interfaces : TypeBody → List Name
  | .object interfaces _ => interfaces
  | .interface interfaces _ => interfaces
  | _ => []

end TypeBody

structure Schema where
  types : List TypeDefinition
  directives : List DirectiveDefinition
  query? : Option Name
  mutation? : Option Name
  subscription? : Option Name

namespace Schema

def type? (schema : Schema) (name : Name) : Option TypeDefinition :=
  schema.types.find? fun definition => definition.name = name

def body? (schema : Schema) (name : Name) : Option TypeBody :=
  (schema.type? name).map (·.body)

def directive? (schema : Schema) (name : Name) : Option DirectiveDefinition :=
  schema.directives.find? fun definition => definition.name = name

def rootType? (schema : Schema) : OperationKind → Option Name
  | .query => schema.query?
  | .mutation => schema.mutation?
  | .subscription => schema.subscription?

def typeIs (schema : Schema) (test : TypeBody → Bool) (name : Name) : Bool :=
  match schema.body? name with
  | some body => test body
  | none => false

def definesField (schema : Schema) (type field : Name) : Bool :=
  match schema.body? type with
  | some body => body.fields.any fun definition => definition.name = field
  | none => false

def declares (schema : Schema) (type interface : Name) : Bool :=
  match schema.body? type with
  | some body => body.interfaces.contains interface
  | none => false

def possibleTypes (schema : Schema) (name : Name) : List Name :=
  match schema.body? name with
  | some (.object ..) => [name]
  | some (.interface ..) =>
      (schema.types.filter fun definition =>
        definition.body.isObject && definition.body.interfaces.contains name).map (·.name)
  | some (.union members) => members
  | _ => []

end Schema

end StaticQuery
