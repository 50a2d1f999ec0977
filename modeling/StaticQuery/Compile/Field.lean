import StaticQuery.Compile.Error
import StaticQuery.Options
import StaticQuery.Plan.Resolver
import StaticQuery.TypeSystem.Input

/-!
Decisions about a single field: whether it is dropped, whether it opens a scope, what its arguments
are, and how its own value comes about.
-/

namespace StaticQuery

structure Target where
  schema : ExecutableSchema
  options : Options

namespace Name

def condition : Name := ⟨"if", by decide⟩

end Name

namespace Directive

def dropsWhen? (directive : Directive) : Option Bool :=
  if directive.name.text = "skip" then some true
  else if directive.name.text = "include" then some false
  else none

/-- Whether the directives of a field drop it. The first one that does decides; a condition that is
no boolean literal is an error if none before it dropped the field. -/
def drop (field : Name) : List Directive → Except CompileError Bool
  | [] => .ok false
  | directive :: rest =>
      match directive.dropsWhen? with
      | none => drop field rest
      | some dropsWhen =>
          match directive.arguments.find? Name.condition.text with
          | none => drop field rest
          | some (.boolean condition) => if condition = dropsWhen then .ok true else drop field rest
          | some other => .error (.unsupportedArgumentKind other.kind .condition field)

end Directive

namespace Value

/-- The JSON value of a literal. Enum values become their names, and integers have to fit a signed
64-bit word. -/
def compile (argument field : Name) : Value → Except CompileError Json
  | .null => .ok .null
  | .boolean value => .ok (.bool value)
  | .string text => .ok (.string text)
  | .enum name => .ok (.string name.text)
  | .int text =>
      match (intOfText? text).bind Integer64.ofSigned? with
      | some value => .ok (.number (.integer value))
      | none => .error (.invalidArgumentLiteral .int text argument)
  | .float text =>
      match floatOfText? text with
      | some value => .ok (.number (.float value))
      | none => .error (.invalidArgumentLiteral .float text argument)
  | .var name => .error (.unsupportedArgumentKind (Value.var name).kind argument field)
  | .list items => .error (.unsupportedArgumentKind (Value.list items).kind argument field)
  | .object fields => .error (.unsupportedArgumentKind (Value.object fields).kind argument field)
end Value

namespace Arguments

def compileFrom (field : Name) (done : Json.Object) : Arguments → Except CompileError Json.Object
  | [] => .ok done
  | (name, value) :: rest =>
      match value.compile name field with
      | .ok compiled => compileFrom field (done.insert name.text compiled) rest
      | .error error => .error error

def compile (field : Name) (arguments : Arguments) : Except CompileError Json.Object :=
  compileFrom field [] arguments

end Arguments

inductive Shape where
  | typename
  | leaf
  | scope
deriving DecidableEq

def FieldHead.shape (schema : Schema) (parent : Name) (head : FieldHead TypeRef) :
    Except CompileError Shape :=
  match schema.body? parent, schema.body? head.type.inner with
  | some parentBody, some body =>
      if head.name = Name.typename && parentBody.isObject then .ok .typename
      else
        match body with
        | .object .. => composite
        | .interface .. => composite
        | .union _ => .error (.unsupportedAbstractType head.name head.type.inner)
        | .scalar => .ok .leaf
        | .enum _ => .ok .leaf
        | .inputObject _ => .error (.missingTypeBinding head.name head.type.inner)
  | _, _ => .error (.missingTypeBinding head.name parent)
where
  composite : Except CompileError Shape :=
    if head.type.isList then .error (.unsupportedListField head.name head.type) else .ok .scope

structure FieldPlan where
  resolver? : Option Coordinate
  isAsync : Bool
  arguments : Json.Object

namespace FieldPlan

/-- Arguments are compiled for every field, so that unsupported ones always fail. -/
def make (schema : ExecutableSchema) (parent : Name) (head : FieldHead TypeRef) :
    Except CompileError FieldPlan :=
  match head.arguments.compile head.name with
  | .error error => .error error
  | .ok arguments =>
      let coordinate : Coordinate := ⟨parent, head.name⟩
      match schema.resolveFn? coordinate with
      | none => .ok ⟨none, false, []⟩
      | some resolve => .ok ⟨some coordinate, resolve.isAsync, arguments⟩

def valueExpr (plan : FieldPlan) (emitAst : Bool) (node : FieldNode) (source : Binding) : Expr :=
  match plan.resolver? with
  | none => .property source node.head.name
  | some coordinate =>
      .resolve {
        coordinate := coordinate
        source := source
        arguments := plan.arguments
        info := ⟨if emitAst then [node] else []⟩
        awaited := plan.isAsync }

end FieldPlan

end StaticQuery
