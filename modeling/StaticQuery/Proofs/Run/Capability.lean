import StaticQuery.Proofs.Run.Interpreter

/-!
Whether a resolver is declared asynchronous changes neither the outcome of an operation nor the
calls that it makes. Two schemas whose resolvers answer alike compile every document alike, up to
where to wait, and each operation runs on both as it is interpreted.
-/

namespace StaticQuery

theorem ResolveFn.call_observed (resolve : ResolveFn) (call : Call) :
    (resolve.call call).outcome =
        (resolve.answer call.source call.arguments call.info).mapError .resolver ∧
      (resolve.call call).calls = [call] := by
  refine ⟨rfl, ?_⟩
  cases resolve with
  | sync resolve => rfl
  | async resolve => simp [ResolveFn.call, ResolveFn.record, Run.calls, Event.begun?]

theorem ResolveFn.call_agrees {left right : ResolveFn} (alike : left.answer = right.answer)
    (call : Call) : (left.call call).Agrees (right.call call) := by
  obtain ⟨leftOutcome, leftCalls⟩ := left.call_observed call
  obtain ⟨rightOutcome, rightCalls⟩ := right.call_observed call
  constructor
  · rw [leftOutcome, rightOutcome, alike]
  · rw [leftCalls, rightCalls]

/-- The same definitions, and at every coordinate no resolver in both or two that answer alike. -/
structure ExecutableSchema.AnswersLike (first second : ExecutableSchema) : Prop where
  definitions : first.definitions = second.definitions
  answers : ∀ coordinate, (first.resolveFn? coordinate).map ResolveFn.answer =
    (second.resolveFn? coordinate).map ResolveFn.answer

namespace Expr

mutual

def eraseFlags : Expr → Expr
  | .property source key => .property source key
  | .resolve site => .resolve { site with awaited := false }
  | .literal value => .literal value
  | .scope binding value selection _ =>
      .scope binding value.eraseFlags (eraseFlagsAll selection) false

def eraseFlagsAll : Properties → Properties
  | [] => []
  | (key, expr) :: rest => (key, expr.eraseFlags) :: eraseFlagsAll rest

end

theorem eraseFlagsAll_append (first second : Properties) :
    eraseFlagsAll (first ++ second) = eraseFlagsAll first ++ eraseFlagsAll second := by
  induction first with
  | nil => rfl
  | cons property rest ih => simp [eraseFlagsAll, ih]

end Expr

def CompiledOperation.eraseFlags (operation : CompiledOperation) : CompiledOperation :=
  ⟨operation.name, false, Expr.eraseFlagsAll operation.data⟩

theorem CompiledOperation.name_eq_of_eraseFlags {left right : CompiledOperation}
    (erased : left.eraseFlags = right.eraseFlags) : left.name = right.name :=
  (CompiledOperation.mk.inj erased).1

def Artifact.eraseFlags (artifact : Artifact) : Artifact :=
  ⟨artifact.operations.map fun entry => (entry.1, entry.2.eraseFlags)⟩

theorem FieldPlan.eraseFlags_valueExpr {left right : FieldPlan}
    (plans : left.resolver? = right.resolver? ∧ left.arguments = right.arguments)
    (emitAst : Bool) (node : FieldNode) (source : Binding) :
    (left.valueExpr emitAst node source).eraseFlags =
      (right.valueExpr emitAst node source).eraseFlags := by
  unfold FieldPlan.valueExpr
  rw [plans.1, plans.2]
  cases right.resolver? with
  | none => rfl
  | some coordinate => rfl

namespace ExecutableSchema.AnswersLike

variable {first second : ExecutableSchema}

theorem resolveFn?_cases (same : first.AnswersLike second) (coordinate : Coordinate) :
    (first.resolveFn? coordinate = none ∧ second.resolveFn? coordinate = none) ∨
      ∃ left right, first.resolveFn? coordinate = some left ∧
        second.resolveFn? coordinate = some right ∧ left.answer = right.answer := by
  have answers := same.answers coordinate
  cases left : first.resolveFn? coordinate with
  | none =>
      rw [left, Option.map_none, eq_comm, Option.map_eq_none_iff] at answers
      exact Or.inl ⟨rfl, answers⟩
  | some resolve =>
      rw [left, Option.map_some, eq_comm, Option.map_eq_some_iff] at answers
      obtain ⟨other, right, alike⟩ := answers
      exact Or.inr ⟨resolve, other, rfl, right, alike.symm⟩

theorem make_alike (same : first.AnswersLike second) (parent : Name) (head : FieldHead TypeRef) :
    Alike (fun left right => left.resolver? = right.resolver? ∧ left.arguments = right.arguments)
      (FieldPlan.make first parent head) (FieldPlan.make second parent head) := by
  unfold FieldPlan.make
  cases head.arguments.compile head.name with
  | error error => exact .error error
  | ok arguments =>
      rcases same.resolveFn?_cases ⟨parent, head.name⟩ with
        ⟨left, right⟩ | ⟨resolve, other, left, right, _⟩
      · simp only [left, right]
        exact .ok ⟨rfl, rfl⟩
      · simp only [left, right]
        exact .ok ⟨rfl, rfl⟩

mutual

theorem gatherAll_alike (same : first.AnswersLike second) (options : Options) (depth : Nat)
    (parent : Name) :
    ∀ selections : List (Selection TypeRef),
      Alike (fun left right => Expr.eraseFlagsAll left.properties =
          Expr.eraseFlagsAll right.properties)
        (Selection.gatherAll ⟨first, options⟩ depth parent selections)
        (Selection.gatherAll ⟨second, options⟩ depth parent selections)
  | [] => .ok rfl
  | selection :: rest => by
      simp only [Selection.gatherAll]
      refine (gather_alike same options depth parent selection).bind fun one => ?_
      refine (gatherAll_alike same options depth parent rest).bind fun others => .ok ?_
      simp only [Gathered.append, Expr.eraseFlagsAll_append, one, others]

theorem gather_alike (same : first.AnswersLike second) (options : Options) (depth : Nat)
    (parent : Name) :
    ∀ selection : Selection TypeRef,
      Alike (fun left right => Expr.eraseFlagsAll left.properties =
          Expr.eraseFlagsAll right.properties)
        (Selection.gather ⟨first, options⟩ depth parent selection)
        (Selection.gather ⟨second, options⟩ depth parent selection)
  | .fragmentSpread _ _ => by simp only [Selection.gather]; exact .error _
  | .inlineFragment _ _ _ => by simp only [Selection.gather]; exact .error _
  | .field head nested => by
      simp only [Selection.gather, same.definitions]
      refine (Alike.refl (fun _ => rfl) (Directive.drop head.name head.directives)).bind ?_
      rintro dropped _ rfl
      cases dropped with
      | true => exact .ok rfl
      | false =>
          refine (Alike.refl (fun _ => rfl) (head.shape second.definitions parent)).bind ?_
          rintro shape _ rfl
          have values {left right : FieldPlan} (plans : left.resolver? = right.resolver? ∧
              left.arguments = right.arguments) :=
            FieldPlan.eraseFlags_valueExpr plans options.emitAst ⟨head, nested⟩ (.atDepth depth)
          cases shape with
          | typename => exact .ok rfl
          | leaf =>
              refine (same.make_alike parent head).bind fun plans => .ok ?_
              simp only [Gathered.one, Expr.eraseFlagsAll, values plans]
          | scope =>
              simp only [Selection.gatherShaped]
              split
              · exact .error _
              · refine (gatherAll_alike same options (depth + 1) head.type.inner nested).bind
                  fun inner => ?_
                refine (same.make_alike parent head).bind fun plans => .ok ?_
                simp only [Gathered.one, Expr.eraseFlagsAll, Expr.eraseFlags, values plans, inner]

end

theorem compile_alike (same : first.AnswersLike second) (options : Options)
    (operation : Operation) :
    Alike (fun left right => left.eraseFlags = right.eraseFlags)
      (operation.compile ⟨first, options⟩) (operation.compile ⟨second, options⟩) := by
  unfold Operation.compile
  split
  · exact .error _
  · cases operation.name? with
    | none => exact .error _
    | some name =>
        refine (same.gatherAll_alike options 0 operation.rootType operation.selections).bind
          fun data => .ok ?_
        simp only [CompiledOperation.eraseFlags, data]

theorem own_agrees (same : first.AnswersLike second) (options : Options) (parent : Name)
    (current : Json) (node : FieldNode) :
    (FieldNode.own ⟨first, options⟩ parent current node).Agrees
      (FieldNode.own ⟨second, options⟩ parent current node) := by
  unfold FieldNode.own
  rcases same.resolveFn?_cases ⟨parent, node.head.name⟩ with
    ⟨left, right⟩ | ⟨resolve, other, left, right, alike⟩
  · simp only [left, right]
    exact .refl _
  · simp only [left, right]
    exact ResolveFn.call_agrees alike _

mutual

theorem interpretAll_agrees (same : first.AnswersLike second) (options : Options) (parent : Name)
    (current : Json) :
    ∀ (done : Json.Object) (selections : List (Selection TypeRef)),
      (Selection.interpretAll ⟨first, options⟩ parent current done selections).Agrees
        (Selection.interpretAll ⟨second, options⟩ parent current done selections)
  | done, [] => .refl _
  | done, selection :: rest => by
      simp only [Selection.interpretAll]
      exact (interpret_agrees same options parent current done selection).bind fun done =>
        interpretAll_agrees same options parent current done rest

theorem interpret_agrees (same : first.AnswersLike second) (options : Options) (parent : Name)
    (current : Json) (done : Json.Object) :
    ∀ selection : Selection TypeRef,
      (Selection.interpret ⟨first, options⟩ parent current done selection).Agrees
        (Selection.interpret ⟨second, options⟩ parent current done selection)
  | .fragmentSpread _ _ => .refl _
  | .inlineFragment _ _ _ => .refl _
  | .field head nested => by
      simp only [Selection.interpret, same.definitions]
      split
      · exact .refl _
      split
      · exact .refl _
      refine (same.own_agrees options parent current ⟨head, nested⟩).bind fun own => ?_
      split
      · split
        · exact .refl _
        · exact (interpretAll_agrees same options head.type.inner own [] nested).bind
            fun selected => .refl _
      · exact .refl _

end

theorem operation_alike (same : first.AnswersLike second) (options : Options)
    (operation : Operation) :
    Alike (fun left right => left.eraseFlags = right.eraseFlags ∧
        ∀ root, (left.executeAsync first root).Agrees (right.executeAsync second root))
      (operation.compile ⟨first, options⟩) (operation.compile ⟨second, options⟩) := by
  refine (same.compile_alike options operation).imp ?_
  intro left right leftCompiles rightCompiles erased
  refine ⟨erased, fun root => ?_⟩
  rw [Operation.executeAsync_compile leftCompiles, Operation.executeAsync_compile rightCompiles]
  exact (same.interpretAll_agrees options operation.rootType root [] operation.selections).bind
    fun data => .refl _

end ExecutableSchema.AnswersLike

/-- Which resolvers are declared asynchronous changes neither what a document compiles to, up to
where to wait, nor how its operations end and which calls they make. -/
theorem compileDocument_alike {first second : ExecutableSchema} (same : first.AnswersLike second)
    (document : Document) (options : Options) :
    Alike (fun left right => left.eraseFlags = right.eraseFlags ∧
        List.Forall₂ (fun left right => ∀ root,
          (left.executeAsync first root).Agrees (right.executeAsync second root))
          left.toList right.toList)
      (compileDocument document first options) (compileDocument document second options) := by
  rw [compileDocument_eq, compileDocument_eq]
  refine (Alike.mapM (same.operation_alike options) document.operations).map fun pairs => ?_
  have entries := Artifact.forall₂_operations_ofList
    (fun operations => CompiledOperation.name_eq_of_eraseFlags operations.1) pairs
  constructor
  · simp only [Artifact.eraseFlags, Artifact.mk.injEq, ← List.forall₂_eq_eq_eq,
      List.forall₂_map_left_iff, List.forall₂_map_right_iff]
    exact entries.imp fun left right entry => by rw [entry.1, entry.2.1]
  · simp only [Artifact.toList, List.forall₂_map_left_iff, List.forall₂_map_right_iff]
    exact entries.imp fun left right entry => entry.2.2

theorem Sample.answersLike :
    (Sample.schema Sample.atOnce).AnswersLike (Sample.schema Sample.later) := by
  refine ⟨rfl, fun coordinate => ?_⟩
  simp only [ExecutableSchema.resolveFn?, Sample.schema, OrderedMap.get?]
  split
  · rfl
  · rfl

theorem compileDocument_alike_people :
    (Sample.schema Sample.atOnce).AnswersLike (Sample.schema Sample.later) ∧
      Alike (fun left right => left.eraseFlags = right.eraseFlags ∧
          List.Forall₂ (fun left right => ∀ root,
            (left.executeAsync (Sample.schema Sample.atOnce) root).Agrees
              (right.executeAsync (Sample.schema Sample.later) root))
            left.toList right.toList)
        (compileDocument Sample.document (Sample.schema Sample.atOnce) {})
        (compileDocument Sample.document (Sample.schema Sample.later) {}) :=
  ⟨Sample.answersLike, compileDocument_alike Sample.answersLike Sample.document {}⟩

end StaticQuery
