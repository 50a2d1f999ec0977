import StaticQuery.Proofs.Run.Scoping

/-!
What a resolver gives for a leaf goes into the response and nowhere else. On two schemas that answer
alike where an operation selects on the answer, and in any way elsewhere, the operation makes the
same calls if both runs succeed, and the same scopes come to null.
-/

namespace StaticQuery

structure Visit where
  scope : Expr
  canWait : Bool
  environment : Environment

def Visit.outcome (visit : Visit) (schema : ExecutableSchema) : Except ExecutionError Json :=
  (visit.scope.evaluate schema visit.canWait visit.environment).outcome

def Visit.NullAlike (first second : ExecutableSchema) (visit : Visit) : Prop :=
  ∃ left right, visit.outcome first = .ok left ∧ visit.outcome second = .ok right ∧
    (left = .null ↔ right = .null)

def Run.followed {α β : Type} (run : Run α) (next : α → List β) : List β :=
  match run.outcome with
  | .error _ => []
  | .ok value => next value

theorem Run.followed_of_ok {α β : Type} {run : Run α} {value : α} (ended : run.outcome = .ok value)
    (next : α → List β) : run.followed next = next value := by
  rw [Run.followed, ended]

theorem Run.followed_nil {α β : Type} (run : Run α) :
    run.followed (fun _ => ([] : List β)) = [] := by
  unfold Run.followed
  cases run.outcome with
  | error error => rfl
  | ok value => rfl

namespace Expr

mutual

def visits (schema : ExecutableSchema) (canWait : Bool) (environment : Environment) :
    Expr → List Visit
  | .property _ _ => []
  | .literal _ => []
  | .resolve _ => []
  | .scope binding value selection isAsync =>
      ⟨.scope binding value selection isAsync, canWait, environment⟩ ::
        (visits schema (canWait && isAsync) environment value ++
          (value.evaluate schema (canWait && isAsync) environment).followed fun own =>
            if own.truthy then
              visitsAll schema (canWait && isAsync) ((binding, own) :: environment) selection
            else [])

def visitsAll (schema : ExecutableSchema) (canWait : Bool) (environment : Environment) :
    Properties → List Visit
  | [] => []
  | (_, expr) :: rest =>
      visits schema canWait environment expr ++
        (expr.evaluate schema canWait environment).followed fun _ =>
          visitsAll schema canWait environment rest

end

mutual

/-- Evaluation that notes each scope as it comes to it. -/
def evaluateNoting (schema : ExecutableSchema) (canWait : Bool) (environment : Environment) :
    Expr → StateT (List Visit) Run Json
  | .property source key => do
      return (← environment.lookup source).property key.text
  | .literal value => return value
  | .resolve site => site.run schema (canWait && site.awaited) environment
  | .scope binding value selection isAsync => do
      modify (· ++ [⟨.scope binding value selection isAsync, canWait, environment⟩])
      let own ← evaluateNoting schema (canWait && isAsync) environment value
      if own.truthy then
        let selected ← evaluateAllNoting schema (canWait && isAsync)
          ((binding, own) :: environment) [] selection
        return own.merge selected
      else return .null

def evaluateAllNoting (schema : ExecutableSchema) (canWait : Bool) (environment : Environment) :
    Json.Object → Properties → StateT (List Visit) Run Json.Object
  | done, [] => return done
  | done, (key, expr) :: rest => do
      let value ← evaluateNoting schema canWait environment expr
      evaluateAllNoting schema canWait environment (done.insert key.text value) rest

end

mutual

theorem evaluateNoting_run (schema : ExecutableSchema) (canWait : Bool)
    (environment : Environment) (seen : List Visit) :
    ∀ expr : Expr, (expr.evaluateNoting schema canWait environment).run seen = (do
      let value ← expr.evaluate schema canWait environment
      return (value, seen ++ expr.visits schema canWait environment))
  | .property source key => by simp [evaluateNoting, evaluate, visits]
  | .literal value => by simp [evaluateNoting, evaluate, visits]
  | .resolve site => by simp [evaluateNoting, evaluate, visits]
  | .scope binding value selection isAsync => by
      simp only [evaluateNoting, evaluate, visits, StateT.run_bind, StateT.run_modify, pure_bind,
        bind_assoc]
      rw [evaluateNoting_run schema _ environment _ value, bind_assoc]
      apply Run.bind_congr_of_ok
      intro own evaluated
      rw [pure_bind, Run.followed_of_ok evaluated]
      cases own.truthy with
      | false => simp
      | true =>
          simp only [if_true, StateT.run_bind, bind_assoc]
          rw [evaluateAllNoting_run schema _ _ _ [] selection]
          simp

theorem evaluateAllNoting_run (schema : ExecutableSchema) (canWait : Bool)
    (environment : Environment) (seen : List Visit) :
    ∀ (done : Json.Object) (properties : Properties),
      (evaluateAllNoting schema canWait environment done properties).run seen = (do
        let object ← evaluateAll schema canWait environment done properties
        return (object, seen ++ visitsAll schema canWait environment properties))
  | done, [] => by simp [evaluateAllNoting, evaluateAll, visitsAll]
  | done, (key, expr) :: rest => by
      simp only [evaluateAllNoting, evaluateAll, visitsAll, StateT.run_bind, bind_assoc]
      rw [evaluateNoting_run schema canWait environment seen expr, bind_assoc]
      apply Run.bind_congr_of_ok
      intro value evaluated
      rw [pure_bind, Run.followed_of_ok evaluated,
        evaluateAllNoting_run schema canWait environment _ _ rest, List.append_assoc]

end

/-- The coordinate of the resolver on whose answer a scope selects. -/
def scopeCoordinate? : Expr → Option Coordinate
  | .scope _ (.resolve site) _ _ => some site.coordinate
  | _ => none

def scopeCoordinatesAll (properties : Properties) : List Coordinate :=
  (nodesAll properties).filterMap scopeCoordinate?

end Expr

def ExecutableSchema.AnswersLikeAt (first second : ExecutableSchema) (coordinate : Coordinate) :
    Prop :=
  (first.resolveFn? coordinate).map ResolveFn.answer =
    (second.resolveFn? coordinate).map ResolveFn.answer

structure Matched {α β : Type} (first second : ExecutableSchema) (related : α → β → Prop)
    (left : Run α) (leftVisits : List Visit) (right : Run β) (rightVisits : List Visit)
    (leftValue : α) (rightValue : β) : Prop where
  values : related leftValue rightValue
  calls : left.calls = right.calls
  visits : leftVisits = rightVisits
  answers : ∀ visit ∈ leftVisits, visit.NullAlike first second

/-- Two runs that do not part as long as both succeed. -/
def Together {α β : Type} (first second : ExecutableSchema) (related : α → β → Prop)
    (left : Run α) (leftVisits : List Visit) (right : Run β) (rightVisits : List Visit) : Prop :=
  ∀ leftValue rightValue, left.outcome = .ok leftValue → right.outcome = .ok rightValue →
    Matched first second related left leftVisits right rightVisits leftValue rightValue

namespace Together

variable {α β γ δ : Type} {first second : ExecutableSchema} {related : α → β → Prop}
  {left : Run α} {right : Run β} {leftVisits rightVisits : List Visit}

theorem same (run : Run α) : Together first second Eq run [] run [] := by
  intro leftValue rightValue leftEnds rightEnds
  rw [leftEnds] at rightEnds
  exact ⟨Except.ok.inj rightEnds, rfl, rfl, by simp⟩

theorem pure {leftValue : α} {rightValue : β} (values : related leftValue rightValue) :
    Together first second related (Pure.pure leftValue) [] (Pure.pure rightValue) [] := by
  rintro _ _ ⟨⟩ ⟨⟩
  exact ⟨values, rfl, rfl, by simp⟩

theorem imp {weaker : α → β → Prop}
    (runs : Together first second related left leftVisits right rightVisits)
    (weaken : ∀ {leftValue rightValue}, related leftValue rightValue →
      weaker leftValue rightValue) :
    Together first second weaker left leftVisits right rightVisits := by
  intro leftValue rightValue leftEnds rightEnds
  obtain ⟨values, calls, visits, answers⟩ := runs _ _ leftEnds rightEnds
  exact ⟨weaken values, calls, visits, answers⟩

theorem bind {related' : γ → δ → Prop}
    (runs : Together first second related left leftVisits right rightVisits)
    {next : α → Run γ} {next' : β → Run δ} {later : α → List Visit} {later' : β → List Visit}
    (rest : ∀ {leftValue rightValue}, related leftValue rightValue →
      Together first second related' (next leftValue) (later leftValue) (next' rightValue)
        (later' rightValue)) :
    Together first second related' (left >>= next) (leftVisits ++ left.followed later)
      (right >>= next') (rightVisits ++ right.followed later') := by
  intro leftLast rightLast leftEnds rightEnds
  rw [Run.outcome_bind, bind_eq_ok] at leftEnds rightEnds
  obtain ⟨leftValue, leftOk, leftEnds⟩ := leftEnds
  obtain ⟨rightValue, rightOk, rightEnds⟩ := rightEnds
  have begun := runs _ _ leftOk rightOk
  have ended := rest begun.values _ _ leftEnds rightEnds
  rw [Run.followed_of_ok leftOk, Run.followed_of_ok rightOk]
  refine ⟨ended.values, ?_, ?_, ?_⟩
  · rw [(Run.bind_of_ok leftOk next).2, (Run.bind_of_ok rightOk next').2, begun.calls,
      ended.calls]
  · rw [begun.visits, ended.visits]
  · intro visit listed
    rcases List.mem_append.mp listed with before | after
    · exact begun.answers visit before
    · exact ended.answers visit after

theorem bind_unvisited {related' : γ → δ → Prop}
    (runs : Together first second related left leftVisits right rightVisits)
    {next : α → Run γ} {next' : β → Run δ}
    (rest : ∀ {leftValue rightValue}, related leftValue rightValue →
      Together first second related' (next leftValue) [] (next' rightValue) []) :
    Together first second related' (left >>= next) leftVisits (right >>= next') rightVisits := by
  have whole := runs.bind rest
  rwa [Run.followed_nil, Run.followed_nil, List.append_nil, List.append_nil] at whole

theorem visited {scope : Expr} {canWait : Bool} {environment : Environment}
    (runs : Together first second (fun left right => left = Json.null ↔ right = Json.null)
      (scope.evaluate first canWait environment) leftVisits
      (scope.evaluate second canWait environment) rightVisits) :
    Together first second (fun _ _ => True)
      (scope.evaluate first canWait environment) (⟨scope, canWait, environment⟩ :: leftVisits)
      (scope.evaluate second canWait environment)
      (⟨scope, canWait, environment⟩ :: rightVisits) := by
  intro leftValue rightValue leftEnds rightEnds
  obtain ⟨nulls, calls, visits, answers⟩ := runs _ _ leftEnds rightEnds
  refine ⟨trivial, calls, by rw [visits], ?_⟩
  intro visit listed
  rcases List.mem_cons.mp listed with rfl | inside
  · exact ⟨leftValue, rightValue, leftEnds, rightEnds, nulls⟩
  · exact answers visit inside

end Together

theorem ResolveFn.call_eq_ok {resolve : ResolveFn} {call : Call} {value : Json}
    (ended : (resolve.call call).outcome = .ok value) :
    (resolve.call call).calls = [call] ∧
      resolve.answer call.source call.arguments call.info = .ok value := by
  obtain ⟨outcome, calls⟩ := resolve.call_observed call
  refine ⟨calls, ?_⟩
  rw [outcome] at ended
  cases answered : resolve.answer call.source call.arguments call.info with
  | error error =>
      rw [answered] at ended
      cases ended
  | ok answer =>
      rw [answered] at ended
      cases ended
      rfl

theorem ResolverCall.run_eq_ok {schema : ExecutableSchema} {canWait : Bool} {site : ResolverCall}
    {source value : Json}
    (ran : (site.run schema canWait [(site.source, source)]).outcome = .ok value) :
    (site.run schema canWait [(site.source, source)]).calls = [site.on source] ∧
      ∃ resolve, schema.resolveFn? site.coordinate = some resolve ∧
        resolve.answer source site.arguments site.info = .ok value := by
  simp only [ResolverCall.run, Environment.lookup_innermost, pure_bind] at ran ⊢
  cases registered : schema.resolveFn? site.coordinate with
  | none =>
      rw [registered] at ran
      cases ran
  | some resolve =>
      rw [registered] at ran
      have answered (ended : (resolve.call (site.on source)).outcome = .ok value) :
          (resolve.call (site.on source)).calls = [site.on source] ∧
            ∃ other, some resolve = some other ∧
              other.answer source site.arguments site.info = .ok value := by
        obtain ⟨calls, answer⟩ := ResolveFn.call_eq_ok ended
        exact ⟨calls, resolve, rfl, answer⟩
      cases resolve with
      | sync resolve => exact answered ran
      | async resolve =>
          cases canWait with
          | true => exact answered ran
          | false => cases ran

section

variable {first second : ExecutableSchema}

theorem ResolverCall.run_together (site : ResolverCall) (canWait : Bool)
    (environment : Environment) :
    Together first second
      (fun left right => first.AnswersLikeAt second site.coordinate → left = right)
      (site.run first canWait environment) [] (site.run second canWait environment) [] := by
  rw [site.run_eq_lookup_bind first, site.run_eq_lookup_bind second]
  refine (Together.same (environment.lookup site.source)).bind_unvisited ?_
  rintro source _ rfl leftValue rightValue leftEnds rightEnds
  obtain ⟨leftCalls, left, leftFound, leftAnswer⟩ := ResolverCall.run_eq_ok leftEnds
  obtain ⟨rightCalls, right, rightFound, rightAnswer⟩ := ResolverCall.run_eq_ok rightEnds
  refine ⟨?_, leftCalls.trans rightCalls.symm, rfl, by simp⟩
  intro alike
  rw [ExecutableSchema.AnswersLikeAt, leftFound, rightFound, Option.map_some, Option.map_some,
    Option.some.injEq] at alike
  rw [alike, rightAnswer] at leftAnswer
  exact (Except.ok.inj leftAnswer).symm

/-- The value of a field is what the current value holds or what a resolver gives, and is the same
on both schemas unless it comes from a resolver at which they differ. -/
theorem Expr.evaluate_together {expr : Expr} {source : Binding}
    (reads : expr.source? = some source) (canWait : Bool) (environment : Environment) :
    Together first second
      (fun left right => (∀ site, expr = .resolve site →
        first.AnswersLikeAt second site.coordinate) → left = right)
      (expr.evaluate first canWait environment) (expr.visits first canWait environment)
      (expr.evaluate second canWait environment) (expr.visits second canWait environment) := by
  cases expr with
  | property source key =>
      simp only [Expr.evaluate, Expr.visits]
      exact (Together.same _).imp fun same _ => same
  | resolve site =>
      simp only [Expr.evaluate, Expr.visits]
      exact (site.run_together _ environment).imp fun same alike => same (alike site rfl)
  | literal value => cases reads
  | scope binding value selection isAsync => cases reads

end

theorem Gathers.together {target : Target} {depth : Nat} {parent : Name}
    {selections : List (Selection TypeRef)} {gathered : Gathered}
    (compiled : Gathers target depth parent selections gathered) {first second : ExecutableSchema}
    (alike : ∀ coordinate ∈ Expr.scopeCoordinatesAll gathered.properties,
      first.AnswersLikeAt second coordinate)
    (canWait : Bool) (environment : Environment) (done done' : Json.Object) :
    Together first second (fun _ _ => True)
      (Expr.evaluateAll first canWait environment done gathered.properties)
      (Expr.visitsAll first canWait environment gathered.properties)
      (Expr.evaluateAll second canWait environment done' gathered.properties)
      (Expr.visitsAll second canWait environment gathered.properties) := by
  induction compiled generalizing canWait environment done done' with
  | nil => exact .pure trivial
  | dropped _ _ ih => exact ih alike canWait environment done done'
  | typename _ _ _ ih =>
      simp only [Gathered.append, Gathered.one, List.singleton_append, Expr.evaluateAll,
        Expr.visitsAll, Expr.evaluate, Expr.visits]
      exact (Together.same _).bind fun _ => ih alike canWait environment _ _
  | leaf _ _ _ _ ih =>
      have others := fun coordinate listed => alike coordinate
        (List.filterMap_subset _ (List.subset_append_right _ _) listed)
      simp only [Gathered.append, Gathered.one, List.singleton_append, Expr.evaluateAll,
        Expr.visitsAll]
      exact (Expr.evaluate_together (FieldPlan.source?_valueExpr ..) canWait environment).bind
        fun _ => ih others canWait environment _ _
  | @scope depth parent head nested rest inner plan later _ _ _ _ _ _ ihInner ihRest =>
      have others := fun coordinate listed => alike coordinate
        (List.filterMap_subset _ (List.subset_append_right _ _) listed)
      have selected : ∀ coordinate ∈ Expr.scopeCoordinatesAll inner.properties,
          first.AnswersLikeAt second coordinate := by
        intro coordinate listed
        obtain ⟨node, inside, selectedOn⟩ := List.mem_filterMap.mp listed
        refine alike coordinate (List.mem_filterMap.mpr ⟨node, ?_, selectedOn⟩)
        exact List.mem_append_left _ (List.mem_cons_of_mem _ (List.mem_append_right _ inside))
      have owned : ∀ site,
          plan.valueExpr target.options.emitAst ⟨head, nested⟩ (.atDepth depth) = .resolve site →
          first.AnswersLikeAt second site.coordinate := by
        intro site isSite
        have itself := congrArg (fun value => Expr.scopeCoordinate? (.scope (.atDepth (depth + 1))
          value inner.properties (inner.awaits || plan.isAsync))) isSite
        refine alike site.coordinate (List.mem_filterMap.mpr ⟨_, ?_, itself⟩)
        exact List.mem_append_left _ List.mem_cons_self
      simp only [Gathered.append, Gathered.one, List.singleton_append, Expr.evaluateAll,
        Expr.visitsAll]
      refine Together.bind ?_ fun (_ : True) => ihRest others canWait environment _ _
      simp only [Expr.visits]
      refine Together.visited ?_
      simp only [Expr.evaluate]
      refine (Expr.evaluate_together (FieldPlan.source?_valueExpr ..) _ environment).bind ?_
      intro own _ same
      obtain rfl := same owned
      -- What is selected goes into the own value only when all of it is evaluated, so from here on
      -- the scopes inside see the same value, and the answer is an object on both schemas.
      cases own.truthy with
      | false => exact .pure Iff.rfl
      | true =>
          simp only [if_true]
          exact (ihInner selected _ _ [] []).bind_unvisited fun _ => .pure (by simp [Json.merge])

namespace CompiledOperation

def scopeCoordinates (operation : CompiledOperation) : List Coordinate :=
  Expr.scopeCoordinatesAll operation.data

def visits (operation : CompiledOperation) (schema : ExecutableSchema) (root : Json) :
    List Visit :=
  Expr.visitsAll schema operation.isAsync [(.rootValue, root)] operation.data

def runNoting (operation : CompiledOperation) (schema : ExecutableSchema) (root : Json) :
    StateT (List Visit) Run Response := do
  let data ← Expr.evaluateAllNoting schema operation.isAsync [(.rootValue, root)] [] operation.data
  return ⟨data⟩

theorem runNoting_run (operation : CompiledOperation) (schema : ExecutableSchema) (root : Json) :
    (operation.runNoting schema root).run [] = (do
      let response ← operation.executeAsync schema root
      return (response, operation.visits schema root)) := by
  rw [operation.executeAsync_eq_run, runNoting, run, StateT.run_bind,
    Expr.evaluateAllNoting_run]
  simp [visits]

end CompiledOperation

/-- Noninterference. Let two schemas answer alike wherever an operation selects on the answer, and
in any way for leaves. If the operation succeeds on both, it calls the same resolvers on the same
values, and evaluates the same scopes, each of them to null on both or on neither. The scopes are
those that a run notes as it comes to them. -/
theorem leaf_results_reach_no_call {document : Document} {schema : ExecutableSchema}
    {options : Options} {artifact : Artifact}
    (compiles : compileDocument document schema options = .ok artifact)
    {operation : CompiledOperation} (member : operation ∈ artifact.toList)
    {first second : ExecutableSchema}
    (alike : ∀ coordinate ∈ operation.scopeCoordinates, first.AnswersLikeAt second coordinate)
    (root : Json) {left right : Response}
    (leftEnds : (operation.executeAsync first root).outcome = .ok left)
    (rightEnds : (operation.executeAsync second root).outcome = .ok right) :
    (operation.executeAsync first root).calls = (operation.executeAsync second root).calls ∧
      operation.visits first root = operation.visits second root ∧
      (∀ visit ∈ operation.visits first root, visit.NullAlike first second) ∧
      ∀ other, (operation.runNoting other root).run [] = (do
        let response ← operation.executeAsync other root
        return (response, operation.visits other root)) := by
  obtain ⟨source, _, compiled⟩ := exists_operation_of_mem compiles member
  obtain ⟨_, _, gathers⟩ := Operation.compile_eq_ok compiled
  have whole : Together first second (fun _ _ => True)
      (operation.executeAsync first root) (operation.visits first root)
      (operation.executeAsync second root) (operation.visits second root) := by
    rw [operation.executeAsync_eq_run, operation.executeAsync_eq_run]
    exact (gathers.together alike operation.isAsync [(.rootValue, root)] [] []).bind_unvisited
      fun _ => .pure trivial
  obtain ⟨_, calls, visits, answers⟩ := whole left right leftEnds rightEnds
  exact ⟨calls, visits, answers, fun other => operation.runNoting_run other root⟩

namespace Sample

def unnamed : ExecutableSchema :=
  leafSchema (.sync (Resolver.constant .null))

-- query People { friend(number: 7) { number: name name } viewer { name } }
def hidingDocument : Document where
  operations := [⟨.query, some people, query, [
    .field ⟨none, friend, .named user false, [(number, .int "7")], []⟩
      [.field ⟨some number, name, .named text false, [], []⟩ [], nameField],
    .field ⟨none, viewer, .named user false, [], []⟩ [nameField]]⟩]

end Sample

-- The first name is put under a key that the value has itself, on which the second is called.
theorem leaf_results_reach_no_call_hidden :
    ∃ artifact operation own,
      compileDocument Sample.hidingDocument Sample.unnamed {} = .ok artifact ∧
      operation ∈ artifact.toList ∧
      operation.scopeCoordinates = [⟨Sample.query, Sample.friend⟩] ∧
      (operation.executeAsync Sample.unnamed .null).outcome =
        .ok ⟨[("friend", .object [("number", .null), ("name", .null)]), ("viewer", .null)]⟩ ∧
      (operation.executeAsync Sample.named .null).outcome =
        .ok ⟨[("friend", .object [("number", .string "Ada"), ("name", .string "Ada")]),
          ("viewer", .null)]⟩ ∧
      (operation.executeAsync Sample.named .null).calls.map Call.source = [.null, own, own] ∧
      (operation.visits Sample.named .null).length = 2 ∧
      (operation.executeAsync Sample.unnamed .null).calls =
        (operation.executeAsync Sample.named .null).calls ∧
      operation.visits Sample.unnamed .null = operation.visits Sample.named .null ∧
      (∀ visit ∈ operation.visits Sample.unnamed .null,
        visit.NullAlike Sample.unnamed Sample.named) ∧
      ∀ other, (operation.runNoting other .null).run [] = (do
        let response ← operation.executeAsync other .null
        return (response, operation.visits other .null)) := by
  have compiles : compileDocument Sample.hidingDocument Sample.unnamed {} = .ok _ := rfl
  refine ⟨_, _, _, compiles, List.mem_singleton.mpr rfl, rfl, rfl, rfl, rfl, rfl, ?_⟩
  refine leaf_results_reach_no_call compiles (List.mem_singleton.mpr rfl) ?_ _ rfl rfl
  intro coordinate listed
  have only : coordinate = ⟨Sample.query, Sample.friend⟩ := List.mem_singleton.mp listed
  rw [only]
  rfl

end StaticQuery
