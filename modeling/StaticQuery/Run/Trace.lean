import StaticQuery.Plan.Resolver

/-!
Computations that call resolvers. A run has an outcome and the ordered record of what was called;
an error ends it, and the record up to that point remains.
-/

namespace StaticQuery

inductive ExecutionError where
  | missingResolver (coordinate : Coordinate)
  | unexpectedAsyncResolver (coordinate : Coordinate)
  | deferredOperation (name : Name)
  | unboundIdentifier (binding : Binding)
  | resolver (error : ResolverError)
deriving DecidableEq

def ExecutionError.message : ExecutionError → String
  | .missingResolver coordinate => "no resolver is registered for " ++ coordinate.render
  | .unexpectedAsyncResolver coordinate =>
      "resolver for " ++ coordinate.render ++
        " is asynchronous but was compiled as a synchronous call site"
  | .deferredOperation name =>
      "operation '" ++ name.text ++ "' is asynchronous and must be awaited"
  | .unboundIdentifier binding =>
      "identifier " ++ binding.render ++ " is not bound by any enclosing scope"
  | .resolver error => "resolver error: " ++ error.message

structure Call where
  coordinate : Coordinate
  source : Json
  arguments : Json.Object
  info : ResolveInfo

inductive Event where
  | called (call : Call)
  | started (call : Call)
  | waiting (call : Call)
  | completed (call : Call)

structure Run (α : Type) where
  outcome : Except ExecutionError α
  events : List Event

namespace Run

variable {α β : Type}

protected def pure (value : α) : Run α :=
  ⟨.ok value, []⟩

def fail (error : ExecutionError) : Run α :=
  ⟨.error error, []⟩

protected def bind (run : Run α) (next : α → Run β) : Run β :=
  match run.outcome with
  | .error error => ⟨.error error, run.events⟩
  | .ok value => ⟨(next value).outcome, run.events ++ (next value).events⟩

instance : Monad Run where
  pure := Run.pure
  bind := Run.bind

def ofOutcome (outcome : Except ResolverError α) (events : List Event) : Run α :=
  ⟨outcome.mapError .resolver, events⟩

def callSync (call : Call) (resolve : Resolver (Except ResolverError Json)) : Run Json :=
  ofOutcome (resolve call.source call.arguments call.info) [.called call]

def callAsync (call : Call) (resolve : Resolver (Future (Except ResolverError Json))) : Run Json :=
  let future := resolve call.source call.arguments call.info
  ofOutcome future.outcome
    (.started call :: List.replicate future.pending (.waiting call) ++ [.completed call])

end Run

end StaticQuery
