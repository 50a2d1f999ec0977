import Mathlib.Logic.Relation
import StaticQuery.Proofs.Compile.Refinement

/-!
The machine in single steps. What it still has to do is a list of tasks, and a step performs the
first of them by one of the machine's own moves on the stacks. From the start of a document the
steps lead to where the machine ends, so the configurations between are those it passes through.
-/

namespace StaticQuery

namespace Machine

inductive Owner where
  | operation (name : Name) (artifact : Artifact) (others : List Operation)
  | field (parent : Name) (node : FieldNode)

inductive Task where
  | operations (artifact : Artifact) (operations : List Operation)
  | openSet (owner : Owner) (parent : Name) (selections : List (Selection TypeRef))
  | selection (parent : Name) (selection : Selection TypeRef)
  | field (parent : Name) (node : FieldNode) (shape : Shape)
  | append (key : Name) (expr : Expr)
  | closeSet (owner : Owner)
  | closeFrame (owner : Owner) (gathered : Properties)
  | leave (owner : Owner) (gathered : Properties) (frame : Frame)

namespace Task

/-- Performs a task, and answers what is to be done in its place. -/
def perform (target : Target) : Task → Machine (List Task)
  -- The machine comes to rest here.
  | .operations artifact [] => return [.operations artifact []]
  | .operations artifact (operation :: others) => do
      if operation.kind ≠ .query then throw (.unsupportedOperationKind operation.kind)
      match operation.name? with
      | none => throw .missingOperationName
      | some name =>
          pushFrame .rootValue
          return [.openSet (.operation name artifact others) operation.rootType
            operation.selections]
  | .openSet owner parent selections => do
      openAccumulator
      return selections.map (.selection parent) ++ [.closeSet owner]
  | .selection _ (.fragmentSpread _ _) => throw (.unsupportedSelection .spread)
  | .selection _ (.inlineFragment _ _ _) => throw (.unsupportedSelection .inline)
  | .selection parent (.field head nested) => do
      if ← Directive.drop head.name head.directives then return []
      return [.field parent ⟨head, nested⟩ (← head.shape target.schema.definitions parent)]
  | .field parent node .typename => do
      return [.append node.head.responseKey (.literal (.string parent.text))]
  | .field parent node .leaf => do
      let plan ← planField target parent node.head
      return [.append node.head.responseKey (← fieldValue target plan node)]
  | .field parent node .scope => do
      pushFrame (.result (← nextDepth target.options.recursionLimit))
      return [.openSet (.field parent node) node.head.type.inner node.selections]
  | .append key expr => do
      appendProperty key expr
      return []
  | .closeSet owner => do
      return [.closeFrame owner (← closeAccumulator)]
  | .closeFrame owner gathered => do
      return [.leave owner gathered (← popFrame)]
  | .leave (.operation name artifact others) data root => do
      ensureBalanced
      return [.operations (artifact.insert ⟨name, root.isAsync, data⟩) others]
  | .leave (.field parent node) gathered frame => do
      let plan ← planField target parent node.head
      let value ← fieldValue target plan node
      return [.append node.head.responseKey
        (.scope frame.source value gathered (frame.isAsync || plan.isAsync))]

end Task

structure Configuration where
  tasks : List Task
  state : Stacks

inductive Step (target : Target) : Configuration → Configuration → Prop
  | perform {task : Task} {next rest : List Task} {state state' : Stacks} :
      (task.perform target).run state = .ok (next, state') →
      Step target ⟨task :: rest, state⟩ ⟨next ++ rest, state'⟩

namespace Configuration

def start (document : Document) : Configuration :=
  ⟨[.operations .empty document.operations], ⟨[], [], []⟩⟩

def finished (artifact : Artifact) : Configuration :=
  ⟨[.operations artifact []], ⟨[], [], []⟩⟩

def Reaches (target : Target) : Configuration → Configuration → Prop :=
  Relation.ReflTransGen (Step target)

def Fails (target : Target) (configuration : Configuration) (error : CompileError) : Prop :=
  ∃ task rest, configuration.tasks = task :: rest ∧
    (task.perform target).run configuration.state = .error error

def Leads (target : Target) (configuration : Configuration) :
    Except CompileError Configuration → Prop
  | .ok final => configuration.Reaches target final
  | .error error => ∃ final, configuration.Reaches target final ∧ final.Fails target error

namespace Leads

variable {target : Target} {task : Task} {rest : List Task} {state : Stacks}

theorem refl (configuration : Configuration) : configuration.Leads target (.ok configuration) :=
  Relation.ReflTransGen.refl

theorem after {first second : Configuration} {outcome : Except CompileError Configuration}
    (reached : first.Reaches target second) (leads : second.Leads target outcome) :
    first.Leads target outcome := by
  cases outcome with
  | ok final => exact reached.trans leads
  | error error =>
      obtain ⟨final, further, fails⟩ := leads
      exact ⟨final, reached.trans further, fails⟩

theorem bind {α : Type} {configuration : Configuration} {tasks : List Task}
    {outcome : Except CompileError (α × Stacks)}
    {next : α × Stacks → Except CompileError Configuration}
    (leads : configuration.Leads target (outcome >>= fun moved => .ok ⟨tasks, moved.2⟩))
    (later : ∀ moved : α × Stacks, Leads target ⟨tasks, moved.2⟩ (next moved)) :
    configuration.Leads target (outcome >>= next) := by
  cases outcome with
  | ok moved => exact after leads (later moved)
  | error error => exact leads

theorem fails {error : CompileError}
    (performs : (task.perform target).run state = .error error) :
    Leads target ⟨task :: rest, state⟩ (.error error) :=
  ⟨_, Relation.ReflTransGen.refl, task, rest, rfl, performs⟩

theorem step {next : List Task} {state' : Stacks} {outcome : Except CompileError Configuration}
    (performs : (task.perform target).run state = .ok (next, state'))
    (later : Leads target ⟨next ++ rest, state'⟩ outcome) :
    Leads target ⟨task :: rest, state⟩ outcome :=
  after (Relation.ReflTransGen.single (.perform performs)) later

/-- A task that is a move of the machine, and from its result the tasks in its place. -/
theorem perform {α : Type} (action : Machine α) (tasks : α → List Task)
    {next : α × Stacks → Except CompileError Configuration}
    (performs : task.perform target = (do return tasks (← action)))
    (later : ∀ moved, Leads target ⟨tasks moved.1 ++ rest, moved.2⟩ (next moved)) :
    Leads target ⟨task :: rest, state⟩ (action.run state >>= next) := by
  have performed : (task.perform target).run state = (do
      let moved ← action.run state
      return (tasks moved.1, moved.2)) := by
    simp only [performs, StateT.run_bind, StateT.run_pure]
  cases moves : action.run state with
  | error error =>
      rw [moves] at performed
      exact fails performed
  | ok moved =>
      rw [moves] at performed
      exact step performed (later moved)

end Leads

end Configuration

section

variable {target : Target} {rest : List Task} {state : Stacks}

open Machine.Configuration

theorem leads_append (key : Name) (expr : Expr) :
    Leads target ⟨.append key expr :: rest, state⟩
      ((appendProperty key expr).run state >>= fun moved => .ok ⟨rest, moved.2⟩) :=
  .perform (appendProperty key expr) (fun _ => []) (by rw [Task.perform]) fun _ => .refl _

/-- A task that finds a value for a key, after which the value is appended. -/
theorem leads_value {task : Task} (key : Name) (value : Machine Expr)
    (performs : task.perform target = (do return [.append key (← value)])) :
    Leads target ⟨task :: rest, state⟩
      ((do appendProperty key (← value) : Machine Unit).run state >>=
        fun moved => .ok ⟨rest, moved.2⟩) := by
  simp only [StateT.run_bind, bind_assoc]
  exact .perform value (fun expr => [.append key expr]) performs fun moved => leads_append _ _

/-- Where the tasks for a body lead as the body does, those that compile it as a selection set and
then leave its frame lead on to what is left to do for the owner. -/
theorem leads_set {α : Type} {body : Machine Unit} (owner : Owner) (parent : Name)
    (selections : List (Selection TypeRef))
    (leads : ∀ {rest : List Task} {state : Stacks},
      Leads target ⟨selections.map (.selection parent) ++ rest, state⟩
        (body.run state >>= fun moved => .ok ⟨rest, moved.2⟩))
    {next : Properties → Frame → Machine α} {last : α × Stacks → Except CompileError Configuration}
    (later : ∀ gathered frame {state : Stacks},
      Leads target ⟨.leave owner gathered frame :: rest, state⟩
        ((next gathered frame).run state >>= last)) :
    Leads target ⟨.openSet owner parent selections :: rest, state⟩
      ((do
        let gathered ← withAccumulator body
        let frame ← popFrame
        next gathered frame : Machine α).run state >>= last) := by
  simp only [withAccumulator, StateT.run_bind, bind_assoc]
  refine .perform openAccumulator
    (fun _ => selections.map (.selection parent) ++ [.closeSet owner]) (by rw [Task.perform])
    fun opened => ?_
  rw [List.append_assoc]
  refine leads.bind fun moved => ?_
  refine .perform closeAccumulator (fun gathered => [.closeFrame owner gathered])
    (by rw [Task.perform]) fun closed => ?_
  exact .perform popFrame (fun frame => [.leave owner closed.1 frame]) (by rw [Task.perform])
    fun left => later closed.1 left.1

theorem leads_leaf (parent : Name) (node : FieldNode) :
    Leads target ⟨.field parent node .leaf :: rest, state⟩
      ((do
        let plan ← planField target parent node.head
        let value ← fieldValue target plan node
        appendProperty node.head.responseKey value : Machine Unit).run state >>=
          fun moved => .ok ⟨rest, moved.2⟩) := by
  have leads : Leads target ⟨.field parent node .leaf :: rest, state⟩ _ :=
    leads_value node.head.responseKey (do
      let plan ← planField target parent node.head
      fieldValue target plan node) (by simp only [Task.perform, bind_assoc])
  simpa only [bind_assoc] using leads

theorem leads_scope (parent : Name) (node : FieldNode)
    (leads : ∀ {rest : List Task} {state : Stacks},
      Leads target ⟨node.selections.map (.selection node.head.type.inner) ++ rest, state⟩
        ((compileSelections target node.head.type.inner node.selections).run state >>=
          fun moved => .ok ⟨rest, moved.2⟩)) :
    Leads target ⟨.field parent node .scope :: rest, state⟩
      ((do
        pushFrame (.result (← nextDepth target.options.recursionLimit))
        let selection ← withAccumulator
          (compileSelections target node.head.type.inner node.selections)
        let frame ← popFrame
        let plan ← planField target parent node.head
        let value ← fieldValue target plan node
        appendProperty node.head.responseKey
          (.scope frame.source value selection (frame.isAsync || plan.isAsync)) :
        Machine Unit).run state >>= fun moved => .ok ⟨rest, moved.2⟩) := by
  have leaves : ∀ gathered frame {state : Stacks},
      Leads target ⟨.leave (.field parent node) gathered frame :: rest, state⟩ _ :=
    fun gathered frame => leads_value node.head.responseKey (do
      let plan ← planField target parent node.head
      let value ← fieldValue target plan node
      return .scope frame.source value gathered (frame.isAsync || plan.isAsync))
      (by simp only [Task.perform, bind_assoc, pure_bind])
  simp only [bind_assoc, pure_bind] at leaves
  rw [← bind_assoc, StateT.run_bind, bind_assoc]
  exact .perform _ (fun _ => [.openSet (.field parent node) node.head.type.inner node.selections])
    (by simp only [Task.perform, bind_assoc]) fun entered => leads_set _ _ _ leads leaves

mutual

theorem leads_selections (parent : Name) :
    ∀ (selections : List (Selection TypeRef)) {rest : List Task} {state : Stacks},
      Leads target ⟨selections.map (.selection parent) ++ rest, state⟩
        ((compileSelections target parent selections).run state >>=
          fun moved => .ok ⟨rest, moved.2⟩)
  | [], rest, state => .refl _
  | selection :: others, rest, state => by
      simp only [compileSelections, StateT.run_bind, bind_assoc]
      exact (leads_selection parent selection).bind fun _ => leads_selections parent others

theorem leads_selection (parent : Name) :
    ∀ (selection : Selection TypeRef) {rest : List Task} {state : Stacks},
      Leads target ⟨.selection parent selection :: rest, state⟩
        ((compileSelection target parent selection).run state >>=
          fun moved => .ok ⟨rest, moved.2⟩)
  | .fragmentSpread fragment directives, rest, state => .fails rfl
  | .inlineFragment condition directives selections, rest, state => .fails rfl
  | .field head nested, rest, state => by
      simp only [compileSelection, StateT.run_bind, StateT.run_monadLift, monadLift_self,
        bind_assoc, pure_bind]
      cases drop : Directive.drop head.name head.directives with
      | error error => exact .fails (by simp [Task.perform, drop])
      | ok dropped =>
          cases dropped with
          | true =>
              have performs : (Task.perform target (.selection parent (.field head nested))).run
                  state = .ok ([], state) := by
                simp [Task.perform, drop]
              exact .step performs (.refl _)
          | false =>
              simp only [bind_ok, Bool.false_eq_true, if_false, StateT.run_bind,
                StateT.run_monadLift, monadLift_self, bind_assoc, pure_bind]
              cases shaped : FieldHead.shape target.schema.definitions parent head with
              | error error => exact .fails (by simp [Task.perform, drop, shaped])
              | ok shape =>
                  have performs : (Task.perform target (.selection parent (.field head nested))).run
                      state = .ok ([.field parent ⟨head, nested⟩ shape], state) := by
                    simp [Task.perform, drop, shaped]
                  refine .step performs ?_
                  cases shape with
                  | typename => exact .step rfl (leads_append _ _)
                  | leaf => exact leads_leaf parent ⟨head, nested⟩
                  | scope => exact leads_scope parent ⟨head, nested⟩ (leads_selections _ nested)

end

theorem leads_operations (operations : List Operation) (artifact : Artifact) :
    Leads target ⟨[.operations artifact operations], state⟩
      ((compileOperations target artifact operations).run state >>=
        fun moved => .ok ⟨[.operations moved.1 []], moved.2⟩) := by
  induction operations generalizing artifact state with
  | nil => exact .refl _
  | cons operation others ih =>
      simp only [compileOperations, compileOperation]
      by_cases query : operation.kind = .query
      · cases named : operation.name? with
        | none =>
            simp only [query]
            exact .fails (by simp [Task.perform, query, named]; rfl)
        | some name =>
            simp only [query, ne_eq, not_true_eq_false, if_false, bind_assoc, pure_bind,
              compileSelectionSet]
            rw [StateT.run_bind, bind_assoc]
            refine .perform (pushFrame .rootValue) (fun _ => [.openSet
              (.operation name artifact others) operation.rootType operation.selections])
              (by simp only [Task.perform, query, named, ne_eq, not_true_eq_false, if_false])
              fun entered => leads_set _ _ _ (leads_selections _ _) fun data root state => ?_
            rw [StateT.run_bind, bind_assoc]
            exact .perform ensureBalanced _ (by rw [Task.perform]) fun balanced => ih _
      · have performs : (Task.perform target (.operations artifact (operation :: others))).run
            state = .error (.unsupportedOperationKind operation.kind) := by
          simp [Task.perform, query]
          rfl
        simp only [ne_eq, query, not_false_eq_true, if_true]
        exact .fails performs

/-- The steps of a document lead to where compiling it ends. -/
theorem leads_document (document : Document) :
    (start document).Leads target
      ((compileDocument document target.schema target.options).map finished) := by
  have leads : (start document).Leads target _ := leads_operations document.operations .empty
  rw [compileOperations_run, bind_assoc] at leads
  rw [compileDocument_eq]
  cases compiled : document.operations.mapM (Operation.compile target) with
  | error error =>
      rw [compiled] at leads
      exact leads
  | ok results =>
      rw [compiled] at leads
      exact leads

end

/-! The steps are determined, so they lead nowhere else. -/

section

variable {target : Target} {first second third : Configuration}

theorem step_rightUnique : Relator.RightUnique (Step target) := by
  intro configuration left right toLeft toRight
  cases toLeft with
  | perform performs =>
      cases toRight with
      | perform performs' =>
          rw [performs] at performs'
          cases performs'
          rfl

namespace Configuration

def Rests (target : Target) (configuration : Configuration) : Prop :=
  ∀ next, Step target configuration next → next = configuration

theorem rests_finished (artifact : Artifact) : (finished artifact).Rests target := by
  intro next steps
  cases steps with
  | perform performs =>
      cases performs
      rfl

theorem Fails.rests {error : CompileError} (fails : first.Fails target error) :
    first.Rests target := by
  intro next steps
  obtain ⟨task, rest, pending, performs⟩ := fails
  cases steps with
  | perform performs' =>
      cases pending
      rw [performs] at performs'
      cases performs'

theorem Rests.reaches (rests : first.Rests target) (reached : first.Reaches target second) :
    second = first := by
  induction reached with
  | refl => rfl
  | tail _ steps ih =>
      subst ih
      exact rests _ steps

theorem Rests.unique (toSecond : first.Reaches target second)
    (toThird : first.Reaches target third)
    (rests : second.Rests target) (rests' : third.Rests target) : second = third := by
  rcases Relation.ReflTransGen.total_of_right_unique step_rightUnique toSecond toThird with
    further | further
  · exact (rests.reaches further).symm
  · exact rests'.reaches further

theorem not_fails_finished (artifact : Artifact) (error : CompileError) :
    ¬(finished artifact).Fails target error := by
  rintro ⟨task, rest, pending, performs⟩
  cases pending
  cases performs

theorem Fails.unique {error error' : CompileError} (fails : first.Fails target error)
    (fails' : first.Fails target error') : error = error' := by
  obtain ⟨task, rest, pending, performs⟩ := fails
  obtain ⟨task', rest', pending', performs'⟩ := fails'
  rw [pending] at pending'
  cases pending'
  rw [performs] at performs'
  cases performs'
  rfl

theorem Leads.unique {outcome outcome' : Except CompileError Artifact}
    (leads : first.Leads target (outcome.map finished))
    (leads' : first.Leads target (outcome'.map finished)) : outcome = outcome' := by
  cases outcome with
  | ok artifact =>
      cases outcome' with
      | ok other =>
          cases Rests.unique leads leads' (rests_finished artifact) (rests_finished other)
          rfl
      | error error =>
          obtain ⟨final, reached, fails⟩ := leads'
          cases Rests.unique leads reached (rests_finished artifact) fails.rests
          exact absurd fails (not_fails_finished artifact error)
  | error error =>
      obtain ⟨final, reached, fails⟩ := leads
      cases outcome' with
      | ok artifact =>
          cases Rests.unique reached leads' fails.rests (rests_finished artifact)
          exact absurd fails (not_fails_finished artifact error)
      | error other =>
          obtain ⟨final', reached', fails'⟩ := leads'
          cases Rests.unique reached reached' fails.rests fails'.rests
          rw [fails.unique fails']

end Configuration

/-- Compiling a document ends exactly as the steps from its start do. -/
theorem compileDocument_eq_iff_leads (document : Document)
    (outcome : Except CompileError Artifact) :
    compileDocument document target.schema target.options = outcome ↔
      (Configuration.start document).Leads target (outcome.map .finished) := by
  constructor
  · rintro rfl
    exact leads_document document
  · exact (leads_document document).unique

end

end Machine

end StaticQuery
