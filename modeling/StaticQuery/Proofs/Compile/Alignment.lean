import StaticQuery.Proofs.Compile.Steps

/-!
The stacks stay aligned. While a document is compiled, each of them is as high as the tasks that
are left will lower it, and the frames are those of the scopes from the root inwards. So no move
ever finds a stack out of balance.
-/

namespace StaticQuery

namespace Stacks

structure Framed (state : Stacks) (frames : Nat) : Prop where
  sources : state.sources.reverse = (List.range frames).map Binding.atDepth
  flags : state.asyncFlags.length = frames

structure Holds (frames sets : Nat) (state : Stacks) : Prop extends Framed state frames where
  accumulators : state.accumulators.length = sets

variable {state : Stacks} {frames sets : Nat}

theorem Framed.length_sources (framed : state.Framed frames) :
    state.sources.length = frames := by
  have lengths := congrArg List.length framed.sources
  simpa using lengths

theorem Framed.sources_eq (framed : state.Framed (frames + 1)) :
    state.sources = .atDepth frames :: ((List.range frames).map Binding.atDepth).reverse := by
  have reversed := congrArg List.reverse framed.sources
  simpa [List.range_succ] using reversed

theorem Holds.push (holds : Holds frames sets state) :
    Holds (frames + 1) sets
      { state with
        sources := .atDepth frames :: state.sources
        asyncFlags := false :: state.asyncFlags } where
  sources := by simp [holds.sources, List.range_succ]
  flags := by simp [holds.flags]
  accumulators := holds.accumulators

theorem Holds.mark (holds : Holds frames sets state) (awaits : Bool) :
    Holds frames sets (state.mark awaits) where
  sources := holds.sources
  flags := by simpa [Stacks.mark] using holds.flags
  accumulators := holds.accumulators

end Stacks

/-! What is decided about a single field never finds fault with the stacks. -/

theorem Directive.drop_ne_imbalance (field : Name) (directives : List Directive)
    (imbalance : Imbalance) : drop field directives ≠ .error (.stackImbalance imbalance) := by
  fun_induction drop field directives with
  | case1 => nofun
  | case2 _ _ _ ih => exact ih
  | case3 _ _ _ _ _ ih => exact ih
  | case4 => nofun
  | case5 _ _ _ _ _ _ _ ih => exact ih
  | case6 => nofun

theorem FieldHead.shape_ne_imbalance (schema : Schema) (parent : Name) (head : FieldHead TypeRef)
    (imbalance : Imbalance) : head.shape schema parent ≠ .error (.stackImbalance imbalance) := by
  unfold shape shape.composite
  repeat' split
  all_goals nofun

theorem Value.compile_ne_imbalance (argument field : Name) (value : Value)
    (imbalance : Imbalance) :
    value.compile argument field ≠ .error (.stackImbalance imbalance) := by
  fun_cases value.compile argument field
  all_goals nofun

theorem Arguments.compileFrom_ne_imbalance (field : Name) (done : Json.Object)
    (arguments : Arguments) (imbalance : Imbalance) :
    compileFrom field done arguments ≠ .error (.stackImbalance imbalance) := by
  fun_induction compileFrom field done arguments with
  | case1 => nofun
  | case2 _ _ _ _ _ _ ih => exact ih
  | case3 _ name value _ error fails =>
      rintro ⟨⟩
      exact value.compile_ne_imbalance name field imbalance fails

theorem FieldPlan.make_ne_imbalance (schema : ExecutableSchema) (parent : Name)
    (head : FieldHead TypeRef) (imbalance : Imbalance) :
    make schema parent head ≠ .error (.stackImbalance imbalance) := by
  fun_cases make schema parent head with
  | case1 error fails =>
      rintro ⟨⟩
      exact Arguments.compileFrom_ne_imbalance _ _ _ imbalance fails
  | case2 => nofun
  | case3 => nofun

namespace Machine

/-- From stacks that meet the first condition, an action ends in stacks that meet the second, or
fails without having found them out of balance. -/
def Keeps {α : Type} (before : Stacks → Prop) (action : Machine α)
    (after : α → Stacks → Prop) : Prop :=
  ∀ state, before state →
    match action.run state with
    | .ok (value, moved) => after value moved
    | .error error => ∀ imbalance, error ≠ .stackImbalance imbalance

namespace Keeps

variable {α β : Type} {before : Stacks → Prop} {after : α → Stacks → Prop} {action : Machine α}

theorem pure {value : α} (holds : ∀ state, before state → after value state) :
    Keeps before (pure value) after :=
  holds

theorem bind {next : α → Machine β} {later : β → Stacks → Prop}
    (keeps : Keeps before action after)
    (further : ∀ value, Keeps (after value) (next value) later) :
    Keeps before (action >>= next) later := by
  intro state holds
  have kept := keeps state holds
  rw [StateT.run_bind]
  cases moves : action.run state with
  | error error =>
      rw [moves] at kept
      exact kept
  | ok moved =>
      rw [moves] at kept
      exact further moved.1 moved.2 kept

theorem throw {error : CompileError} (other : ∀ imbalance, error ≠ .stackImbalance imbalance) :
    Keeps before (throw error : Machine α) after :=
  fun _ _ => other

theorem lift {outcome : Except CompileError α}
    (other : ∀ imbalance, outcome ≠ .error (.stackImbalance imbalance)) :
    Keeps before (liftM outcome) fun _ => before := by
  intro state holds
  cases outcome with
  | ok value => exact holds
  | error error =>
      rintro imbalance rfl
      exact other imbalance rfl

end Keeps

open Stacks

variable {frames sets : Nat}

theorem keeps_pushFrame :
    Keeps (Holds frames sets) (pushFrame (.atDepth frames)) fun _ => Holds (frames + 1) sets :=
  fun _ holds => holds.push

theorem keeps_popFrame :
    Keeps (Holds (frames + 1) sets) popFrame fun _ => Holds frames sets := by
  rintro ⟨sources, flags, accumulators⟩ holds
  have known := holds.sources_eq
  have length := holds.flags
  obtain ⟨flag, flags, rfl⟩ := List.exists_of_length_succ _ length
  dsimp only at known
  subst known
  exact ⟨⟨by simp, by simpa using length⟩, holds.accumulators⟩

theorem keeps_openAccumulator :
    Keeps (Holds frames sets) openAccumulator fun _ => Holds frames (sets + 1) :=
  fun _ holds => ⟨⟨holds.sources, holds.flags⟩, congrArg (· + 1) holds.accumulators⟩

theorem keeps_closeAccumulator :
    Keeps (Holds frames (sets + 1)) closeAccumulator fun _ => Holds frames sets := by
  rintro ⟨sources, flags, accumulators⟩ holds
  obtain ⟨properties, outer, rfl⟩ := List.exists_of_length_succ _ holds.accumulators
  exact ⟨⟨holds.sources, holds.flags⟩, Nat.succ.inj holds.accumulators⟩

theorem keeps_appendProperty (key : Name) (expr : Expr) (opened : 0 < sets) :
    Keeps (Holds frames sets) (appendProperty key expr) fun _ => Holds frames sets := by
  rintro ⟨sources, flags, accumulators⟩ holds
  have length : 0 < accumulators.length := holds.accumulators ▸ opened
  obtain ⟨properties, outer, rfl⟩ := List.exists_cons_of_length_pos length
  exact ⟨⟨holds.sources, holds.flags⟩, holds.accumulators⟩

theorem keeps_ensureBalanced : Keeps (Holds 0 0) ensureBalanced fun _ => Holds 0 0 := by
  rintro ⟨sources, flags, accumulators⟩ holds
  cases List.eq_nil_of_length_eq_zero holds.length_sources
  cases List.eq_nil_of_length_eq_zero holds.flags
  cases List.eq_nil_of_length_eq_zero holds.accumulators
  exact holds

theorem keeps_nextDepth (limit : Nat) :
    Keeps (Holds frames sets) (nextDepth limit) fun depth state =>
      depth = frames ∧ Holds frames sets state := by
  intro state holds
  rw [nextDepth_run_eq, holds.length_sources]
  by_cases deep : limit < frames
  · rw [if_pos deep]
    rintro imbalance ⟨⟩
  · rw [if_neg deep]
    exact ⟨rfl, holds⟩

/-- A frame other than the first is numbered by those below it. -/
theorem keeps_pushFrame_result (framed : 0 < frames) {depth : Nat} :
    Keeps (fun state => depth = frames ∧ Holds frames sets state) (pushFrame (.result depth))
      fun _ => Holds (frames + 1) sets := by
  rintro state ⟨rfl, holds⟩
  obtain ⟨outer, rfl⟩ := Nat.exists_eq_add_one.mpr framed
  exact holds.push

theorem keeps_planField (target : Target) (parent : Name) (head : FieldHead TypeRef) :
    Keeps (Holds frames sets) (planField target parent head) fun _ => Holds frames sets := by
  intro state holds
  rw [planField_run]
  cases made : FieldPlan.make target.schema parent head with
  | error error =>
      rintro imbalance rfl
      exact FieldPlan.make_ne_imbalance _ _ _ imbalance made
  | ok plan => exact holds.mark plan.isAsync

theorem keeps_fieldValue (target : Target) (plan : FieldPlan) (node : FieldNode)
    (framed : 0 < frames) :
    Keeps (Holds frames sets) (fieldValue target plan node) fun _ => Holds frames sets := by
  rintro ⟨sources, flags, accumulators⟩ holds
  have length : 0 < sources.length := holds.length_sources ▸ framed
  obtain ⟨source, outer, rfl⟩ := List.exists_cons_of_length_pos length
  exact holds

def Owner.isOperation : Owner → Bool
  | .operation .. => true
  | .field .. => false

namespace Task

def closesSet : Task → Bool
  | .closeSet _ => true
  | _ => false

def closesFrame : Task → Bool
  | .openSet .. => true
  | .closeSet _ => true
  | .closeFrame .. => true
  | _ => false

def isOuter : Task → Bool
  | .operations .. => true
  | .openSet owner _ _ => owner.isOperation
  | .selection .. => false
  | .field .. => false
  | .append .. => false
  | .closeSet owner => owner.isOperation
  | .closeFrame owner _ => owner.isOperation
  | .leave owner _ _ => owner.isOperation

end Task

def openSets (tasks : List Task) : Nat :=
  (tasks.filter Task.closesSet).length

def openFrames (tasks : List Task) : Nat :=
  (tasks.filter Task.closesFrame).length

theorem openSets_le_openFrames (tasks : List Task) : openSets tasks ≤ openFrames tasks := by
  refine (List.monotone_filter_right tasks ?_).length_le
  intro task closes
  cases task with
  | closeSet owner => rfl
  | _ => nomatch closes

theorem openFrames_pos {tasks : List Task} (inside : 0 < openSets tasks) : 0 < openFrames tasks :=
  Nat.lt_of_lt_of_le inside (openSets_le_openFrames tasks)

def Nested : List Task → Prop
  | [] => True
  | task :: rest => (bif task.isOuter then rest = [] else 0 < openSets rest) ∧ Nested rest

structure Level (tasks : List Task) (state : Stacks) : Prop where
  nested : Nested tasks
  state : Holds (openFrames tasks) (openSets tasks) state

theorem Level.selections {tasks : List Task} {state : Stacks} (level : Level tasks state)
    (inside : 0 < openSets tasks) (parent : Name) (selections : List (Selection TypeRef)) :
    Level (selections.map (.selection parent) ++ tasks) state ∧
      0 < openSets (selections.map (.selection parent) ++ tasks) := by
  induction selections with
  | nil => exact ⟨level, inside⟩
  | cons selection others ih =>
      obtain ⟨⟨nested, state⟩, still⟩ := ih
      exact ⟨⟨⟨still, nested⟩, state⟩, still⟩

section

variable {target : Target} {rest : List Task}

theorem keeps_operation {artifact : Artifact} {operation : Operation} {others : List Operation} :
    Keeps (Holds 0 0) (Task.perform target (.operations artifact (operation :: others)))
      Level := by
  simp only [Task.perform]
  by_cases query : operation.kind = .query
  · simp only [query, ne_eq, not_true_eq_false, if_false]
    cases operation.name? with
    | none => exact .throw nofun
    | some name =>
        exact .bind keeps_pushFrame fun _ => .pure fun state holds => ⟨⟨rfl, trivial⟩, holds⟩
  · simp only [query, ne_eq, not_false_eq_true, if_true]
    exact fun _ _ _ => nofun

/-- Planning a field and appending it needs a frame for its source and a set for its value. -/
theorem keeps_planned (nested : Nested rest) (inside : 0 < openSets rest) (parent : Name)
    (node : FieldNode) (expr : FieldPlan → Expr → Expr) :
    Keeps (Holds (openFrames rest) (openSets rest)) (do
      let plan ← planField target parent node.head
      let value ← fieldValue target plan node
      return [.append node.head.responseKey (expr plan value)])
      fun next state => Level (next ++ rest) state := by
  refine .bind (keeps_planField _ _ _) fun plan => ?_
  refine .bind (keeps_fieldValue _ _ _ (openFrames_pos inside)) fun value => ?_
  exact .pure fun state holds => ⟨⟨inside, nested⟩, holds⟩

theorem keeps_selection (rests : Nested rest) (inside : 0 < openSets rest) (parent : Name)
    (selection : Selection TypeRef) :
    Keeps (Holds (openFrames rest) (openSets rest))
      (Task.perform target (.selection parent selection))
      fun next state => Level (next ++ rest) state := by
  cases selection with
  | fragmentSpread => exact .throw nofun
  | inlineFragment => exact .throw nofun
  | field head nested =>
      refine .bind (.lift (Directive.drop_ne_imbalance _ _)) fun dropped => ?_
      cases dropped with
      | true => exact .pure fun state holds => ⟨rests, holds⟩
      | false =>
          refine .bind (.lift (FieldHead.shape_ne_imbalance _ _ _)) fun shape => ?_
          exact .pure fun state holds => ⟨⟨inside, rests⟩, holds⟩

theorem keeps_field (nested : Nested rest) (inside : 0 < openSets rest) (parent : Name)
    (node : FieldNode) (shape : Shape) :
    Keeps (Holds (openFrames rest) (openSets rest)) (Task.perform target (.field parent node shape))
      fun next state => Level (next ++ rest) state := by
  cases shape with
  | typename => exact .pure fun state holds => ⟨⟨inside, nested⟩, holds⟩
  | leaf => exact keeps_planned nested inside parent node fun _ value => value
  | scope =>
      refine .bind (keeps_nextDepth _) fun depth => ?_
      exact .bind (keeps_pushFrame_result (openFrames_pos inside)) fun _ =>
        .pure fun state holds => ⟨⟨inside, nested⟩, holds⟩

theorem keeps_perform (target : Target) (task : Task) (nested : Nested (task :: rest)) :
    Keeps (Holds (openFrames (task :: rest)) (openSets (task :: rest))) (task.perform target)
      fun next state => Level (next ++ rest) state := by
  -- By the kind of task, `above` says that it is the last one or that a selection set is open.
  obtain ⟨above, rests⟩ := nested
  cases task with
  | operations artifact operations =>
      cases operations with
      | nil => exact .pure fun state holds => ⟨⟨above, rests⟩, holds⟩
      | cons operation others =>
          cases above
          simp only [List.append_nil]
          exact keeps_operation
  | openSet owner parent selections =>
      rw [Task.perform]
      refine .bind keeps_openAccumulator fun _ => .pure fun state holds => ?_
      have closing : Level (.closeSet owner :: rest) state := ⟨⟨above, rests⟩, holds⟩
      rw [List.append_assoc]
      exact (closing.selections (Nat.succ_pos _) parent selections).1
  | selection parent selection => exact keeps_selection rests above parent selection
  | field parent node shape => exact keeps_field rests above parent node shape
  | append key expr =>
      rw [Task.perform]
      exact .bind (keeps_appendProperty key expr above) fun _ => .pure fun state holds =>
        ⟨rests, holds⟩
  | closeSet owner =>
      rw [Task.perform]
      exact .bind keeps_closeAccumulator fun _ => .pure fun state holds =>
        ⟨⟨above, rests⟩, holds⟩
  | closeFrame owner gathered =>
      rw [Task.perform]
      exact .bind keeps_popFrame fun _ => .pure fun state holds => ⟨⟨above, rests⟩, holds⟩
  | leave owner gathered frame =>
      cases owner with
      | operation name artifact others =>
          cases above
          exact .bind keeps_ensureBalanced fun _ => .pure fun state holds =>
            ⟨⟨rfl, trivial⟩, holds⟩
      | field parent node =>
          exact keeps_planned rests above parent node fun plan value =>
            .scope frame.source value gathered (frame.isAsync || plan.isAsync)

/-- A step keeps the stacks level with what is left to do. -/
theorem Level.step {configuration next : Configuration}
    (level : Level configuration.tasks configuration.state)
    (steps : Step target configuration next) : Level next.tasks next.state := by
  cases steps with
  | perform performs =>
      have kept := keeps_perform target _ level.nested _ level.state
      rw [performs] at kept
      exact kept

theorem Level.not_fails {configuration : Configuration}
    (level : Level configuration.tasks configuration.state) (imbalance : Imbalance) :
    ¬configuration.Fails target (.stackImbalance imbalance) := by
  rintro ⟨task, rest, pending, performs⟩
  rw [pending] at level
  have kept := keeps_perform target task level.nested _ level.state
  rw [performs] at kept
  exact kept imbalance rfl

/-- They are so in every configuration that compiling a document passes through. -/
theorem level_of_reaches {document : Document} {configuration : Configuration}
    (reached : (Configuration.start document).Reaches target configuration) :
    Level configuration.tasks configuration.state := by
  induction reached with
  | refl => exact ⟨⟨rfl, trivial⟩, ⟨⟨rfl, rfl⟩, rfl⟩⟩
  | tail _ steps ih => exact ih.step steps

/-- The frames are those of the root and of the object fields that are open, and there is an
accumulator for each selection set that is. -/
structure Configuration.Aligned (configuration : Configuration) : Prop where
  framed : configuration.state.Framed configuration.state.sources.length
  accumulators : configuration.state.accumulators.length = openSets configuration.tasks

theorem Level.aligned {configuration : Configuration}
    (level : Level configuration.tasks configuration.state) : configuration.Aligned := by
  refine ⟨?_, level.state.accumulators⟩
  rw [level.state.length_sources]
  exact level.state.toFramed

theorem compileDocument_ne_imbalance (document : Document) (imbalance : Imbalance) :
    compileDocument document target.schema target.options ≠
      .error (.stackImbalance imbalance) := by
  intro fails
  obtain ⟨final, reached, fails⟩ := (compileDocument_eq_iff_leads document _).mp fails
  exact (level_of_reaches reached).not_fails imbalance fails

end

end Machine

end StaticQuery
