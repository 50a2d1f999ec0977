import StaticQuery.Compile.Direct
import StaticQuery.Compile.Machine
import StaticQuery.Proofs.Outcome

/-!
The stack machine computes what the plain recursion does. Between two selections its stacks are
fixed by the nesting depth, up to the flags and the innermost accumulator; a step changes these
two only, and by exactly what the recursion gathers. Compiling a document is therefore compiling
each of its operations on its own.
-/

namespace StaticQuery

def Binding.enclosing : Nat → List Binding
  | 0 => [.atDepth 0]
  | depth + 1 => .atDepth (depth + 1) :: enclosing depth

theorem Binding.length_enclosing (depth : Nat) : (enclosing depth).length = depth + 1 := by
  induction depth with
  | zero => rfl
  | succ depth ih => simp [enclosing, ih]

theorem Binding.enclosing_eq_cons (depth : Nat) :
    ∃ outer, enclosing depth = .atDepth depth :: outer := by
  cases depth with
  | zero => exact ⟨[], rfl⟩
  | succ depth => exact ⟨enclosing depth, rfl⟩

namespace Stacks

structure AtDepth (state : Stacks) (depth : Nat) : Prop where
  sources : state.sources = Binding.enclosing depth
  flags : state.asyncFlags.length = depth + 1
  accumulators : state.accumulators ≠ []

def mark (state : Stacks) (awaits : Bool) : Stacks :=
  { state with asyncFlags := state.asyncFlags.map (· || awaits) }

def record (state : Stacks) (gathered : Gathered) : Stacks :=
  { state.mark gathered.awaits with
    accumulators := state.accumulators.modifyHead (· ++ gathered.properties) }

@[simp] theorem mark_false (state : Stacks) : state.mark false = state := by
  simp [mark]

theorem mark_mark (state : Stacks) (first second : Bool) :
    (state.mark first).mark second = state.mark (first || second) := by
  simp [mark, Function.comp_def, Bool.or_assoc]

@[simp] theorem record_none (state : Stacks) : state.record .none = state := by
  obtain ⟨sources, flags, accumulators⟩ := state
  cases accumulators <;> simp [record, mark, Gathered.none]

theorem record_append (state : Stacks) (first second : Gathered) :
    (state.record first).record second = state.record (first.append second) := by
  obtain ⟨sources, flags, accumulators⟩ := state
  cases accumulators <;>
    simp [record, mark, Gathered.append, Function.comp_def, Bool.or_assoc]

theorem AtDepth.mark {state : Stacks} {depth : Nat} (placed : state.AtDepth depth)
    (awaits : Bool) : (state.mark awaits).AtDepth depth :=
  ⟨placed.sources, by simpa [Stacks.mark] using placed.flags, placed.accumulators⟩

theorem AtDepth.record {state : Stacks} {depth : Nat} (placed : state.AtDepth depth)
    (gathered : Gathered) : (state.record gathered).AtDepth depth := by
  refine ⟨placed.sources, ?_, ?_⟩
  · simpa [Stacks.record, Stacks.mark] using placed.flags
  · simpa [Stacks.record, Stacks.mark] using placed.accumulators

def enter (state : Stacks) (binding : Binding) : Stacks where
  sources := binding :: state.sources
  asyncFlags := false :: state.asyncFlags
  accumulators := [] :: state.accumulators

theorem AtDepth.enter {state : Stacks} {depth : Nat} (placed : state.AtDepth depth) :
    (state.enter (.result (depth + 1))).AtDepth (depth + 1) := by
  refine ⟨?_, ?_, ?_⟩
  · simp [Stacks.enter, placed.sources, Binding.enclosing, Binding.atDepth]
  · simp [Stacks.enter, placed.flags]
  · exact List.cons_ne_nil _ _

theorem atDepth_root : (enter ⟨[], [], []⟩ .rootValue).AtDepth 0 :=
  ⟨rfl, rfl, List.cons_ne_nil _ _⟩

end Stacks

namespace Machine

theorem nextDepth_run_eq (limit : Nat) (state : Stacks) :
    (nextDepth limit).run state =
      if limit < state.sources.length then .error (.recursionLimitExceeded limit)
      else .ok (state.sources.length, state) := by
  simp only [nextDepth, StateT.run_bind, StateT.run_get, pure_bind]
  split <;> rfl

theorem nextDepth_run (limit : Nat) {state : Stacks} {depth : Nat}
    (placed : state.AtDepth depth) :
    (nextDepth limit).run state =
      if limit < depth + 1 then .error (.recursionLimitExceeded limit)
      else .ok (depth + 1, state) := by
  rw [nextDepth_run_eq, placed.sources, Binding.length_enclosing]

theorem planField_run (target : Target) (parent : Name) (head : FieldHead TypeRef)
    (state : Stacks) :
    (planField target parent head).run state = (do
      let plan ← FieldPlan.make target.schema parent head
      return (plan, state.mark plan.isAsync)) := by
  simp only [planField, StateT.run_bind, StateT.run_monadLift, monadLift_self, bind_assoc,
    pure_bind]
  cases FieldPlan.make target.schema parent head with
  | error error => rfl
  | ok plan =>
      simp only [bind_ok]
      cases async : plan.isAsync with
      | true => simp [markAsync, Stacks.mark]
      | false => simp

theorem fieldValue_run (target : Target) (plan : FieldPlan) (node : FieldNode)
    {state : Stacks} {depth : Nat} (placed : state.AtDepth depth) :
    (fieldValue target plan node).run state =
      .ok (plan.valueExpr target.options.emitAst node (.atDepth depth), state) := by
  obtain ⟨outer, sources⟩ := Binding.enclosing_eq_cons depth
  have current : currentSource.run state = .ok (.atDepth depth, state) := by
    simp [currentSource, placed.sources, sources]
  simp only [fieldValue, StateT.run_bind, current, bind_ok]
  rfl

theorem planned_run {α : Type} (target : Target) (parent : Name) (node : FieldNode)
    {state : Stacks} {depth : Nat} (placed : state.AtDepth depth)
    (next : FieldPlan → Expr → Machine α) :
    (do
      let plan ← planField target parent node.head
      let value ← fieldValue target plan node
      next plan value : Machine α).run state = (do
      let plan ← FieldPlan.make target.schema parent node.head
      (next plan (plan.valueExpr target.options.emitAst node (.atDepth depth))).run
        (state.mark plan.isAsync)) := by
  simp only [StateT.run_bind, planField_run, bind_assoc]
  cases FieldPlan.make target.schema parent node.head with
  | error error => rfl
  | ok plan =>
      have value := fieldValue_run target plan node (placed.mark plan.isAsync)
      simp only [bind_ok, pure_eq_ok, value]

/-- A scope opened around a body that only records what it gathers is closed with just that, and
leaves nothing but marks on the scopes around it. -/
theorem scoped_run {α : Type} {body : Machine Unit} {outcome : Except CompileError Gathered}
    {state : Stacks} {binding : Binding} (next : Properties → Frame → Machine α)
    (records : body.run (state.enter binding) = (do
      let gathered ← outcome
      return ((), (state.enter binding).record gathered))) :
    (do
      pushFrame binding
      let selection ← withAccumulator body
      let frame ← popFrame
      next selection frame : Machine α).run state = (do
      let gathered ← outcome
      (next gathered.properties ⟨binding, gathered.awaits⟩).run
        (state.mark gathered.awaits)) := by
  have opened : openAccumulator.run
      ⟨binding :: state.sources, false :: state.asyncFlags, state.accumulators⟩ =
        .ok ((), state.enter binding) := rfl
  simp only [pushFrame, withAccumulator, StateT.run_bind, StateT.run_modify, pure_bind, opened,
    bind_ok, records, bind_assoc]
  cases outcome with
  | error error => rfl
  | ok gathered => rfl

theorem appendProperty_run (key : Name) (expr : Expr) (awaits : Bool)
    {state : Stacks} {depth : Nat} (placed : state.AtDepth depth) :
    (appendProperty key expr).run (state.mark awaits) =
      .ok ((), state.record (.one key expr awaits)) := by
  obtain ⟨sources, flags, accumulators⟩ := state
  cases accumulators with
  | nil => exact absurd rfl placed.accumulators
  | cons properties outer =>
      simp [appendProperty, Stacks.mark, Stacks.record, Gathered.one]

mutual

theorem compileSelections_run (target : Target) (parent : Name) :
    ∀ (selections : List (Selection TypeRef)) {state : Stacks} {depth : Nat},
      state.AtDepth depth →
      (compileSelections target parent selections).run state = (do
        let gathered ← Selection.gatherAll target depth parent selections
        return ((), state.record gathered))
  | [], state, depth, placed => by
      simp [compileSelections, Selection.gatherAll]
  | selection :: rest, state, depth, placed => by
      simp only [compileSelections, Selection.gatherAll, StateT.run_bind]
      rw [compileSelection_run target parent selection placed]
      cases Selection.gather target depth parent selection with
      | error error => rfl
      | ok first =>
          simp only [bind_ok, pure_eq_ok, bind_assoc]
          rw [compileSelections_run target parent rest (placed.record first)]
          simp only [Stacks.record_append, pure_eq_ok]

theorem compileSelection_run (target : Target) (parent : Name) :
    ∀ (selection : Selection TypeRef) {state : Stacks} {depth : Nat},
      state.AtDepth depth →
      (compileSelection target parent selection).run state = (do
        let gathered ← Selection.gather target depth parent selection
        return ((), state.record gathered))
  | .fragmentSpread fragment directives, state, depth, placed => by
      simp only [compileSelection, Selection.gather]; rfl
  | .inlineFragment condition directives selections, state, depth, placed => by
      simp only [compileSelection, Selection.gather]; rfl
  | .field head nested, state, depth, placed => by
      simp only [compileSelection, Selection.gather, StateT.run_bind, StateT.run_monadLift,
        monadLift_self, bind_assoc, pure_bind]
      cases Directive.drop head.name head.directives with
      | error error => rfl
      | ok dropped =>
          cases dropped with
          | true => simp
          | false =>
              simp only [bind_ok, Bool.false_eq_true, if_false, StateT.run_bind,
                StateT.run_monadLift, monadLift_self, bind_assoc, pure_bind]
              cases FieldHead.shape target.schema.definitions parent head with
              | error error => rfl
              | ok shape =>
                  cases shape with
                  | typename =>
                      have appended := appendProperty_run head.responseKey
                        (.literal (.string parent.text)) false placed
                      simpa [Selection.gatherShaped] using appended
                  | leaf =>
                      simp only [bind_ok, bind_assoc, Selection.gatherShaped]
                      rw [planned_run target parent ⟨head, nested⟩ placed]
                      simp only [appendProperty_run _ _ _ placed]
                      rfl
                  | scope =>
                      -- The frame is closed before the field is planned, so that the plan marks
                      -- the scopes around the field and not the one that it opens.
                      have records :=
                        compileSelections_run target head.type.inner nested placed.enter
                      simp only [bind_ok, Selection.gatherShaped]
                      rw [StateT.run_bind, nextDepth_run _ placed]
                      by_cases exceeded : target.options.recursionLimit < depth + 1
                      · simp only [exceeded, if_true]
                        rfl
                      · simp only [exceeded, if_false, bind_ok, bind_assoc]
                        rw [scoped_run _ records]
                        cases Selection.gatherAll target (depth + 1) head.type.inner nested with
                        | error error => rfl
                        | ok inner =>
                            simp only [bind_ok]
                            rw [planned_run target parent ⟨head, nested⟩ (placed.mark _)]
                            simp only [Stacks.mark_mark, appendProperty_run _ _ _ placed]
                            rfl

end

theorem compileOperation_run (target : Target) (operation : Operation) :
    (compileOperation target operation).run ⟨[], [], []⟩ = (do
      let compiled ← operation.compile target
      return (compiled, ⟨[], [], []⟩)) := by
  unfold compileOperation Operation.compile
  by_cases query : operation.kind = .query
  · cases operation.name? with
    | none => simp [query]; rfl
    | some name =>
        have records := compileSelections_run target operation.rootType operation.selections
          Stacks.atDepth_root
        simp only [query, ne_eq, not_true_eq_false, if_false, compileSelectionSet]
        rw [scoped_run _ records]
        cases Selection.gatherAll target 0 operation.rootType operation.selections with
        | error error => rfl
        | ok gathered => rfl
  · simp [query]; rfl

theorem compileOperations_run (target : Target) (artifact : Artifact)
    (operations : List Operation) :
    (compileOperations target artifact operations).run ⟨[], [], []⟩ = (do
      let compiled ← operations.mapM (Operation.compile target)
      return (compiled.foldl Artifact.insert artifact, ⟨[], [], []⟩)) := by
  induction operations generalizing artifact with
  | nil => rfl
  | cons operation rest ih =>
      simp only [compileOperations, StateT.run_bind, compileOperation_run, List.mapM_cons,
        bind_assoc]
      cases operation.compile target with
      | error error => rfl
      | ok compiled =>
          simp only [bind_ok, pure_eq_ok, ih]
          rfl

end Machine

def Artifact.ofList (operations : List CompiledOperation) : Artifact :=
  operations.foldl Artifact.insert .empty

/-- Compiling a document is compiling each operation on its own, up to the first that fails. -/
theorem compileDocument_eq (document : Document) (schema : ExecutableSchema) (options : Options) :
    compileDocument document schema options =
      (document.operations.mapM (Operation.compile ⟨schema, options⟩)).map Artifact.ofList := by
  have run := Machine.compileOperations_run ⟨schema, options⟩ .empty document.operations
  unfold compileDocument
  rw [StateT.run'_eq, run]
  cases document.operations.mapM (Operation.compile ⟨schema, options⟩) with
  | error error => rfl
  | ok compiled => rfl

end StaticQuery
