import StaticQuery.Compile.Field
import StaticQuery.Document.Basic

/-!
Compilation as a plain recursion on selections. What encloses a selection enters only through the
nesting depth, and whether a call below it is awaited comes back as a result.
-/

namespace StaticQuery

structure Gathered where
  properties : Properties
  awaits : Bool

namespace Gathered

def none : Gathered :=
  ⟨[], false⟩

def one (key : Name) (expr : Expr) (awaits : Bool) : Gathered :=
  ⟨[(key, expr)], awaits⟩

def append (first second : Gathered) : Gathered :=
  ⟨first.properties ++ second.properties, first.awaits || second.awaits⟩

end Gathered

def Binding.atDepth : Nat → Binding
  | 0 => .rootValue
  | depth + 1 => .result (depth + 1)

/-- What a field of a shape compiles to, `inner` being what is selected on it. -/
def Selection.gatherShaped (target : Target) (depth : Nat) (parent : Name)
    (head : FieldHead TypeRef) (nested : List (Selection TypeRef))
    (inner : Except CompileError Gathered) : Shape → Except CompileError Gathered
  | .typename => return .one head.responseKey (.literal (.string parent.text)) false
  | .leaf => do
      let plan ← FieldPlan.make target.schema parent head
      let value := plan.valueExpr target.options.emitAst ⟨head, nested⟩ (.atDepth depth)
      return .one head.responseKey value plan.isAsync
  | .scope =>
      if target.options.recursionLimit < depth + 1 then
        .error (.recursionLimitExceeded target.options.recursionLimit)
      else do
        let inner ← inner
        let plan ← FieldPlan.make target.schema parent head
        let value := plan.valueExpr target.options.emitAst ⟨head, nested⟩ (.atDepth depth)
        let isAsync := inner.awaits || plan.isAsync
        return .one head.responseKey
          (.scope (.atDepth (depth + 1)) value inner.properties isAsync) isAsync

mutual

def Selection.gatherAll (target : Target) (depth : Nat) (parent : Name) :
    List (Selection TypeRef) → Except CompileError Gathered
  | [] => .ok .none
  | selection :: rest => do
      let first ← gather target depth parent selection
      let others ← gatherAll target depth parent rest
      return first.append others

def Selection.gather (target : Target) (depth : Nat) (parent : Name) :
    Selection TypeRef → Except CompileError Gathered
  | .fragmentSpread _ _ => .error (.unsupportedSelection .spread)
  | .inlineFragment _ _ _ => .error (.unsupportedSelection .inline)
  | .field head nested => do
      let dropped ← Directive.drop head.name head.directives
      if dropped then .ok .none
      else do
        let shape ← head.shape target.schema.definitions parent
        gatherShaped target depth parent head nested
          (gatherAll target (depth + 1) head.type.inner nested) shape

end

def Operation.compile (target : Target) (operation : Operation) :
    Except CompileError CompiledOperation :=
  if operation.kind ≠ .query then .error (.unsupportedOperationKind operation.kind)
  else
    match operation.name? with
    | none => .error .missingOperationName
    | some name => do
        let gathered ← Selection.gatherAll target 0 operation.rootType operation.selections
        return ⟨name, gathered.awaits, gathered.properties⟩

end StaticQuery
