import StaticQuery.Run.Response
import StaticQuery.Run.Trace

/-!
Running compiled operations. Properties are evaluated strictly in order. Where a scope or call was
compiled to wait, and the run can wait, asynchronous resolvers are awaited one at a time.
-/

namespace StaticQuery

abbrev Environment := List (Binding × Json)

def Environment.lookup : Environment → Binding → Run Json
  | [], binding => .fail (.unboundIdentifier binding)
  | (bound, value) :: rest, binding =>
      if bound = binding then pure value else lookup rest binding

def ResolverCall.run (schema : ExecutableSchema) (canWait : Bool) (environment : Environment)
    (site : ResolverCall) : Run Json := do
  let source ← environment.lookup site.source
  let call : Call := ⟨site.coordinate, source, site.arguments, site.info⟩
  match schema.resolveFn? site.coordinate with
  | none => .fail (.missingResolver site.coordinate)
  | some (.sync resolve) => .callSync call resolve
  | some (.async resolve) =>
      if canWait then .callAsync call resolve
      else .fail (.unexpectedAsyncResolver site.coordinate)

mutual

/-- The value of an expression. `canWait` says whether everything around it can wait. -/
def Expr.evaluate (schema : ExecutableSchema) (canWait : Bool) (environment : Environment) :
    Expr → Run Json
  | .property source key => do
      return (← environment.lookup source).property key.text
  | .literal value => return value
  | .resolve site => site.run schema (canWait && site.awaited) environment
  | .scope binding value selection isAsync => do
      let own ← evaluate schema (canWait && isAsync) environment value
      if own.truthy then
        let selected ← evaluateAll schema (canWait && isAsync) ((binding, own) :: environment) []
          selection
        return own.merge selected
      else return .null

def Expr.evaluateAll (schema : ExecutableSchema) (canWait : Bool) (environment : Environment) :
    Json.Object → List (Name × Expr) → Run Json.Object
  | done, [] => return done
  | done, (key, expr) :: rest => do
      let value ← evaluate schema canWait environment expr
      evaluateAll schema canWait environment (done.insert key.text value) rest

end

inductive Completion where
  | ready (run : Run Response)
  | deferred (run : Run Response)

namespace Completion

def isDeferred : Completion → Bool
  | .ready _ => false
  | .deferred _ => true

def ready? : Completion → Option (Run Response)
  | .ready run => some run
  | .deferred _ => none

def resolve : Completion → Run Response
  | .ready run => run
  | .deferred run => run

end Completion

namespace CompiledOperation

def run (operation : CompiledOperation) (schema : ExecutableSchema) (root : Json) :
    Run Response := do
  let data ← Expr.evaluateAll schema operation.isAsync [(.rootValue, root)] [] operation.data
  return ⟨data⟩

def invoke (operation : CompiledOperation) (schema : ExecutableSchema) (root : Json) :
    Completion :=
  if operation.isAsync then .deferred (operation.run schema root)
  else .ready (operation.run schema root)

def execute (operation : CompiledOperation) (schema : ExecutableSchema) (root : Json) :
    Run Response :=
  match (operation.invoke schema root).ready? with
  | some run => run
  | none => .fail (.deferredOperation operation.name)

def executeAsync (operation : CompiledOperation) (schema : ExecutableSchema) (root : Json) :
    Run Response :=
  (operation.invoke schema root).resolve

end CompiledOperation

end StaticQuery
