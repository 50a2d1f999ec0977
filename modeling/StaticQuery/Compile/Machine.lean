import StaticQuery.Compile.Field
import StaticQuery.Document.Basic

/-!
The compiler proper. It walks each operation depth first and keeps three stacks: the identifier of
every open scope, whether each of these scopes has to wait, and the properties gathered for every
open selection set. A field is planned when it is left, after its selection.
-/

namespace StaticQuery

structure Stacks where
  sources : List Binding
  asyncFlags : List Bool
  accumulators : List Properties

structure Frame where
  source : Binding
  isAsync : Bool

abbrev Machine := StateT Stacks (Except CompileError)

namespace Machine

def pushFrame (source : Binding) : Machine Unit :=
  modify fun state =>
    { state with
      sources := source :: state.sources
      asyncFlags := false :: state.asyncFlags }

def popFrame : Machine Frame := do
  let state ← get
  match state.sources, state.asyncFlags with
  | source :: sources, isAsync :: asyncFlags =>
      set { state with sources := sources, asyncFlags := asyncFlags }
      return ⟨source, isAsync⟩
  | _, _ => throw (.stackImbalance .noFrameToClose)

def currentSource : Machine Binding := do
  match (← get).sources with
  | source :: _ => return source
  | [] => throw (.stackImbalance .noFrameForField)

def nextDepth (limit : Nat) : Machine Nat := do
  let depth := (← get).sources.length
  if limit < depth then throw (.recursionLimitExceeded limit) else return depth

/-- Every open scope encloses the call site at hand, and has to wait for it. -/
def markAsync : Machine Unit :=
  modify fun state => { state with asyncFlags := state.asyncFlags.map fun _ => true }

def openAccumulator : Machine Unit :=
  modify fun state => { state with accumulators := [] :: state.accumulators }

def closeAccumulator : Machine Properties := do
  let state ← get
  match state.accumulators with
  | properties :: accumulators =>
      set { state with accumulators := accumulators }
      return properties
  | [] => throw (.stackImbalance .noAccumulatorToClose)

def withAccumulator (body : Machine Unit) : Machine Properties := do
  openAccumulator
  body
  closeAccumulator

def appendProperty (key : Name) (expr : Expr) : Machine Unit := do
  let state ← get
  match state.accumulators with
  | properties :: accumulators =>
      set { state with accumulators := (properties ++ [(key, expr)]) :: accumulators }
  | [] => throw (.stackImbalance .noAccumulatorForField)

def ensureBalanced : Machine Unit := do
  let state ← get
  if !state.sources.isEmpty || !state.asyncFlags.isEmpty then
    throw (.stackImbalance .framesLeftOpen)
  if !state.accumulators.isEmpty then throw (.stackImbalance .accumulatorsLeftOpen)

def planField (target : Target) (parent : Name) (head : FieldHead TypeRef) :
    Machine FieldPlan := do
  let plan ← FieldPlan.make target.schema parent head
  if plan.isAsync then markAsync
  return plan

def fieldValue (target : Target) (plan : FieldPlan) (node : FieldNode) : Machine Expr := do
  return plan.valueExpr target.options.emitAst node (← currentSource)

mutual

def compileSelections (target : Target) (parent : Name) :
    List (Selection TypeRef) → Machine Unit
  | [] => return ()
  | selection :: rest => do
      compileSelection target parent selection
      compileSelections target parent rest

def compileSelection (target : Target) (parent : Name) : Selection TypeRef → Machine Unit
  | .fragmentSpread _ _ => throw (.unsupportedSelection .spread)
  | .inlineFragment _ _ _ => throw (.unsupportedSelection .inline)
  | .field head nested => do
      if ← Directive.drop head.name head.directives then return ()
      let expr ← match ← head.shape target.schema.definitions parent with
        | .typename => pure (.literal (.string parent.text))
        | .leaf => do
            let plan ← planField target parent head
            fieldValue target plan ⟨head, nested⟩
        | .scope => do
            pushFrame (.result (← nextDepth target.options.recursionLimit))
            let selection ← withAccumulator (compileSelections target head.type.inner nested)
            let frame ← popFrame
            let plan ← planField target parent head
            let value ← fieldValue target plan ⟨head, nested⟩
            pure (.scope frame.source value selection (frame.isAsync || plan.isAsync))
      appendProperty head.responseKey expr

end

def compileSelectionSet (target : Target) (parent : Name)
    (selections : List (Selection TypeRef)) : Machine Properties :=
  withAccumulator (compileSelections target parent selections)

def compileOperation (target : Target) (operation : Operation) : Machine CompiledOperation := do
  if operation.kind ≠ .query then throw (.unsupportedOperationKind operation.kind)
  match operation.name? with
  | none => throw .missingOperationName
  | some name =>
      pushFrame .rootValue
      let data ← compileSelectionSet target operation.rootType operation.selections
      let root ← popFrame
      ensureBalanced
      return ⟨name, root.isAsync, data⟩

def compileOperations (target : Target) (artifact : Artifact) :
    List Operation → Machine Artifact
  | [] => return artifact
  | operation :: rest => do
      let compiled ← compileOperation target operation
      compileOperations target (artifact.insert compiled) rest

end Machine

def compileDocument (document : Document) (schema : ExecutableSchema) (options : Options) :
    Except CompileError Artifact :=
  (Machine.compileOperations ⟨schema, options⟩ .empty document.operations).run' ⟨[], [], []⟩

end StaticQuery
