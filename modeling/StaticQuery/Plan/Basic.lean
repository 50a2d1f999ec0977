import StaticQuery.Json.Basic
import StaticQuery.Language.Selection

/-!
Compiled operations. An operation is a function of a schema and a root value; its body is a tree
in which every decision that depends on the document is already taken: how each field is resolved,
with which arguments, from which source, and where to wait.
-/

namespace StaticQuery

structure Coordinate where
  type : Name
  field : Name
deriving DecidableEq

def Coordinate.render (coordinate : Coordinate) : String :=
  coordinate.type.text ++ "." ++ coordinate.field.text

def parameters : List String :=
  ["schema", "rootValue"]

/-- An identifier that holds an object while its fields are resolved. Identifiers are numbered by
nesting depth, so a scope never hides the ones around it. -/
inductive Binding where
  | rootValue
  | result (depth : Nat)
deriving DecidableEq

def Binding.render : Binding → String
  | .rootValue => "rootValue"
  | .result depth => "result_" ++ String.ofList (Nat.toDigits 10 depth)

structure ResolveInfo where
  fieldNodes : List FieldNode

structure ResolverCall where
  coordinate : Coordinate
  source : Binding
  arguments : Json.Object
  info : ResolveInfo
  awaited : Bool

inductive Expr where
  | property (source : Binding) (key : Name)
  | resolve (call : ResolverCall)
  | literal (value : Json)
  /-- Binds the value of an object field, and answers it merged with what is selected on it. -/
  | scope (binding : Binding) (value : Expr) (selection : List (Name × Expr)) (isAsync : Bool)

abbrev Properties := List (Name × Expr)

structure CompiledOperation where
  name : Name
  isAsync : Bool
  data : Properties

structure Artifact where
  operations : OrderedMap Name CompiledOperation

namespace Artifact

def empty : Artifact :=
  ⟨[]⟩

def insert (artifact : Artifact) (operation : CompiledOperation) : Artifact :=
  ⟨artifact.operations.insert operation.name operation⟩

def operation? (artifact : Artifact) (name : String) : Option CompiledOperation :=
  (Name.ofText? name).bind artifact.operations.get?

def toList (artifact : Artifact) : List CompiledOperation :=
  artifact.operations.map Prod.snd

def size (artifact : Artifact) : Nat :=
  artifact.operations.length

end Artifact

end StaticQuery
