import Mathlib.Data.List.ReduceOption
import StaticQuery.Proofs.Compile.Classification
import StaticQuery.Proofs.Run.Capability

/-!
Which resolvers a run calls, and in which order. The call sites of an operation are listed depth
first. A run goes through that list once: it passes over the sites that are selected on a falsy
value and calls each other one, until it is through or one of them ends it.
-/

namespace StaticQuery

structure Enclosing where
  binding : Binding
  value : Expr
  isAsync : Bool

structure Placed where
  enclosing : List Enclosing
  site : ResolverCall

def Placed.within (scope : Enclosing) (placed : Placed) : Placed :=
  ⟨scope :: placed.enclosing, placed.site⟩

namespace Expr

mutual

def placed : Expr → List Placed
  | .property _ _ => []
  | .literal _ => []
  | .resolve site => [⟨[], site⟩]
  | .scope binding value selection isAsync =>
      placed value ++ (placedAll selection).map (.within ⟨binding, value, isAsync⟩)

def placedAll : Properties → List Placed
  | [] => []
  | (_, expr) :: rest => placed expr ++ placedAll rest

end

mutual

theorem map_site_placed : ∀ expr : Expr, expr.placed.map Placed.site = expr.sites
  | .property _ _ => rfl
  | .literal _ => rfl
  | .resolve _ => rfl
  | .scope binding value selection isAsync => by
      have own := map_site_placed value
      have selected := map_site_placedAll selection
      have outside : Placed.site ∘ Placed.within ⟨binding, value, isAsync⟩ = Placed.site := rfl
      simp only [placed, List.map_append, List.map_map, outside, own, selected, sites, sitesAll,
        nodes, List.filterMap_cons_none (show site? (.scope binding value selection isAsync) = none
          from rfl), List.filterMap_append]

theorem map_site_placedAll : ∀ properties : Properties,
    (placedAll properties).map Placed.site = sitesAll properties
  | [] => rfl
  | (_, expr) :: rest => by
      have first := map_site_placed expr
      have others := map_site_placedAll rest
      simp only [placedAll, List.map_append, first, others, sites, sitesAll, nodesAll,
        List.filterMap_append]

end

end Expr

def ResolverCall.on (site : ResolverCall) (source : Json) : Call :=
  ⟨site.coordinate, source, site.arguments, site.info⟩

/-- The value that is selected on inside all of the scopes; none where the own value of one of them
is falsy. -/
def Enclosing.selectedOn (schema : ExecutableSchema) (canWait : Bool) (environment : Environment)
    (current : Json) : List Enclosing → Except ExecutionError (Option Json)
  | [] => .ok (some current)
  | scope :: inner => do
      let own ← (scope.value.evaluate schema (canWait && scope.isAsync) environment).outcome
      if own.Falsy then return none
      else
        selectedOn schema (canWait && scope.isAsync) ((scope.binding, own) :: environment) own inner

def Placed.call? (schema : ExecutableSchema) (canWait : Bool) (environment : Environment)
    (current : Json) (placed : Placed) : Except ExecutionError (Option Call) :=
  (Enclosing.selectedOn schema canWait environment current placed.enclosing).map
    (Option.map placed.site.on)

inductive EndsAt (schema : ExecutableSchema) (site : ResolverCall) (call : Call) :
    ExecutionError → List Call → Prop
  | missing : schema.resolveFn? site.coordinate = none →
      EndsAt schema site call (.missingResolver site.coordinate) []
  | unexpected {resolve} : schema.resolveFn? site.coordinate = some (.async resolve) →
      site.awaited = false →
      EndsAt schema site call (.unexpectedAsyncResolver site.coordinate) []
  | resolver {resolve error} : schema.resolveFn? site.coordinate = some resolve →
      resolve.answer call.source call.arguments call.info = .error error →
      EndsAt schema site call (.resolver error) [call]

/-- A run that makes the calls of the listed sites in their order: of all of them if it succeeds,
and of those before the site at which it ends otherwise. -/
inductive Follows {α : Type} (schema : ExecutableSchema)
    (call? : Placed → Except ExecutionError (Option Call)) (sites : List Placed) (run : Run α) :
    Prop
  | through {value : α} (calls : List (Option Call)) :
      run.outcome = .ok value →
      List.Forall₂ (fun placed call => call? placed = .ok call) sites calls →
      run.calls = calls.reduceOption →
      Follows schema call? sites run
  | ended (before after : List Placed) {last : Placed} {calls : List (Option Call)} {call : Call}
      {error : ExecutionError} {attempted : List Call} :
      sites = before ++ last :: after →
      List.Forall₂ (fun placed call => call? placed = .ok call) before calls →
      call? last = .ok (some call) →
      EndsAt schema last.site call error attempted →
      run.outcome = .error error →
      run.calls = calls.reduceOption ++ attempted →
      Follows schema call? sites run

namespace Run

variable {α β : Type} {first : Run α}

theorem bind_of_ok {value : α} (ended : first.outcome = .ok value) (next : α → Run β) :
    (first >>= next).outcome = (next value).outcome ∧
      (first >>= next).calls = first.calls ++ (next value).calls := by
  obtain ⟨outcome, events⟩ := first
  subst ended
  refine ⟨rfl, ?_⟩
  simp only [calls, ok_bind, List.filterMap_append]

theorem bind_of_error {error : ExecutionError} (ended : first.outcome = .error error)
    (next : α → Run β) :
    (first >>= next).outcome = .error error ∧ (first >>= next).calls = first.calls := by
  obtain ⟨outcome, events⟩ := first
  subst ended
  exact ⟨rfl, rfl⟩

end Run

namespace Follows

variable {α β : Type} {schema : ExecutableSchema}
  {call? : Placed → Except ExecutionError (Option Call)} {sites others : List Placed}

theorem bind {first : Run α} {next : α → Run β} (one : Follows schema call? sites first)
    (later : ∀ value, first.outcome = .ok value → Follows schema call? others (next value)) :
    Follows schema call? (sites ++ others) (first >>= next) := by
  cases one with
  | through calls succeeded made called =>
      obtain ⟨outcome, sequence⟩ := Run.bind_of_ok succeeded next
      cases later _ succeeded with
      | through laterCalls ended laterMade laterCalled =>
          refine .through (calls ++ laterCalls) (outcome.trans ended)
            (List.rel_append made laterMade) ?_
          rw [sequence, called, laterCalled, List.reduceOption_append]
      | ended before after split laterMade reached endsAt failed laterCalled =>
          refine .ended (sites ++ before) after ?_ (List.rel_append made laterMade) reached endsAt
            (outcome.trans failed) ?_
          · rw [split, List.append_assoc]
          · rw [sequence, called, laterCalled, List.reduceOption_append, List.append_assoc]
  | ended before after split made reached endsAt failed called =>
      obtain ⟨outcome, sequence⟩ := Run.bind_of_error failed next
      refine .ended before (after ++ others) ?_ made reached endsAt outcome (sequence.trans called)
      rw [split, List.append_assoc, List.cons_append]

theorem pure (value : α) : Follows schema call? [] (Pure.pure value : Run α) :=
  .through [] rfl .nil rfl

theorem passedOver (value : α) (passed : ∀ placed ∈ sites, call? placed = .ok none) :
    Follows schema call? sites (Pure.pure value : Run α) := by
  refine .through (sites.map fun _ => none) rfl ?_ ?_
  · rw [List.forall₂_map_right_iff, List.forall₂_same]
    exact passed
  · simp [Run.calls, Pure.pure, Run.pure, List.reduceOption]

/-- What a run does at the sites of a selection, it does at them as sites of the scope. -/
theorem within {run : Run α} {inner? : Placed → Except ExecutionError (Option Call)}
    (inside : Follows schema inner? sites run) {scope : Enclosing}
    (entered : ∀ placed, call? (.within scope placed) = inner? placed) :
    Follows schema call? (sites.map (.within scope)) run := by
  cases inside with
  | through calls ended made called =>
      refine .through calls ended ?_ called
      simpa only [List.forall₂_map_left_iff, entered] using made
  | ended before after split made reached endsAt failed called =>
      refine .ended (before.map (.within scope)) (after.map (.within scope)) ?_ ?_
        ((entered _).trans reached) endsAt failed called
      · rw [split, List.map_append, List.map_cons]
      · simpa only [List.forall₂_map_left_iff, entered] using made

end Follows

section

variable {schema : ExecutableSchema} {canWait : Bool} {environment : Environment} {current : Json}

theorem Placed.call?_within {value : Expr} {isAsync : Bool} {own : Json}
    (evaluated : (value.evaluate schema (canWait && isAsync) environment).outcome = .ok own)
    (binding : Binding) (current : Json) (placed : Placed) :
    (Placed.within ⟨binding, value, isAsync⟩ placed).call? schema canWait environment current =
      if own.Falsy then .ok none
      else placed.call? schema (canWait && isAsync) ((binding, own) :: environment) own := by
  simp only [Placed.call?, Placed.within, Enclosing.selectedOn, evaluated, bind_ok]
  split
  · rfl
  · rfl

theorem ResolverCall.follows_run {site : ResolverCall}
    (bound : environment.lookup site.source = pure current)
    (waits : site.awaited = true → canWait = true)
    {call? : Placed → Except ExecutionError (Option Call)}
    (called : call? ⟨[], site⟩ = .ok (some (site.on current))) :
    Follows schema call? [⟨[], site⟩] (site.run schema (canWait && site.awaited) environment) := by
  have ended {error : ExecutionError} {attempted : List Call} {run : Run Json}
      (endsAt : EndsAt schema site (site.on current) error attempted)
      (failed : run.outcome = .error error) (calls : run.calls = attempted) :
      Follows schema call? [⟨[], site⟩] run :=
    .ended [] [] rfl .nil called endsAt failed calls
  unfold ResolverCall.run
  rw [bound, pure_bind]
  cases registered : schema.resolveFn? site.coordinate with
  | none => exact ended (.missing registered) rfl rfl
  | some resolve =>
      have answered : Follows schema call? [⟨[], site⟩] (resolve.call (site.on current)) := by
        obtain ⟨outcome, calls⟩ := resolve.call_observed (site.on current)
        cases answer : resolve.answer (site.on current).source (site.on current).arguments
            (site.on current).info with
        | error error =>
            rw [answer] at outcome
            exact ended (.resolver registered answer) outcome calls
        | ok value =>
            rw [answer] at outcome
            exact .through [some (site.on current)] outcome (.cons called .nil) calls
      cases resolve with
      | sync resolve => exact answered
      | async resolve =>
          cases awaited : site.awaited with
          | true =>
              rw [waits awaited]
              exact answered
          | false =>
              rw [Bool.and_false]
              exact ended (.unexpected registered awaited) rfl rfl

theorem FieldPlan.follows_valueExpr {plan : FieldPlan}
    (waits : plan.isAsync = true → canWait = true) {source : Binding}
    (bound : environment.lookup source = pure current) (emitAst : Bool) (node : FieldNode)
    {call? : Placed → Except ExecutionError (Option Call)}
    (called : ∀ site, call? ⟨[], site⟩ = .ok (some (site.on current))) :
    Follows schema call? (plan.valueExpr emitAst node source).placed
      ((plan.valueExpr emitAst node source).evaluate schema canWait environment) := by
  unfold FieldPlan.valueExpr
  cases plan.resolver? with
  | none =>
      simp only [Expr.placed, Expr.evaluate, bound, pure_bind]
      exact .pure _
  | some coordinate =>
      simp only [Expr.placed, Expr.evaluate]
      exact ResolverCall.follows_run bound waits (called _)

end

theorem Gathers.follows {target : Target} {depth : Nat} {parent : Name}
    {selections : List (Selection TypeRef)} {gathered : Gathered}
    (compiled : Gathers target depth parent selections gathered) (schema : ExecutableSchema)
    {canWait : Bool} {environment : Environment} {current : Json} (done : Json.Object)
    (waits : gathered.awaits = true → canWait = true)
    (bound : environment.lookup (.atDepth depth) = pure current) :
    Follows schema (Placed.call? schema canWait environment current)
      (Expr.placedAll gathered.properties)
      (Expr.evaluateAll schema canWait environment done gathered.properties) := by
  induction compiled generalizing canWait environment current done with
  | nil => exact .pure done
  | dropped _ _ ih => exact ih done waits bound
  | typename _ _ _ ih =>
      simp only [Gathered.append, Gathered.one, Bool.false_or] at waits
      simp only [Gathered.append, Gathered.one, List.singleton_append, Expr.placedAll,
        Expr.placed, Expr.evaluateAll, Expr.evaluate, List.nil_append, pure_bind]
      exact ih _ waits bound
  | leaf _ _ _ _ ih =>
      simp only [Gathered.append, Gathered.one, Bool.or_eq_true] at waits
      simp only [Gathered.append, Gathered.one, List.singleton_append, Expr.placedAll,
        Expr.evaluateAll]
      refine Follows.bind ?_ fun value _ => ih _ (fun awaits => waits (Or.inr awaits)) bound
      exact FieldPlan.follows_valueExpr (fun async => waits (Or.inl async)) bound _ _ fun _ => rfl
  | @scope depth parent head nested rest inner plan others _ _ _ _ _ _ ihInner ihRest =>
      simp only [Gathered.append, Gathered.one, Bool.or_eq_true] at waits
      have possible := waits_inside fun needed => waits (Or.inl needed)
      have ownWaits (async : plan.isAsync = true) := possible (Or.inr async)
      simp only [Gathered.append, Gathered.one, List.singleton_append, Expr.placedAll,
        Expr.placed, Expr.evaluateAll, Expr.evaluate]
      refine Follows.bind ?_ fun value _ => ihRest _ (fun awaits => waits (Or.inr awaits)) bound
      refine Follows.bind
        (FieldPlan.follows_valueExpr ownWaits bound _ _ fun _ => rfl) fun own evaluated => ?_
      -- Where the own value is falsy the sites inside are passed over, else they are called on it.
      have entered := Placed.call?_within evaluated (.atDepth (depth + 1)) current
      by_cases falsy : own.Falsy
      · rw [Json.truthy_eq_false_iff.mpr falsy, if_neg Bool.false_ne_true]
        refine Follows.passedOver Json.null fun placed member => ?_
        obtain ⟨inside, _, rfl⟩ := List.mem_map.mp member
        rw [entered, if_pos falsy]
      · rw [Json.truthy_iff.mpr falsy, if_pos rfl]
        have inside := ihInner [] (fun awaits => possible (Or.inl awaits))
          (Environment.lookup_innermost (.atDepth (depth + 1)) own environment)
        have selected := inside.bind fun object _ => Follows.pure (own.merge object)
        rw [List.append_nil] at selected
        exact selected.within fun placed => by rw [entered, if_neg falsy]

def ExecutableSchema.record (schema : ExecutableSchema) (call : Call) : List Event :=
  ((schema.resolveFn? call.coordinate).map (ResolveFn.record call)).getD []

def Run.Sequential {α : Type} (schema : ExecutableSchema) (run : Run α) : Prop :=
  run.events = run.calls.flatMap schema.record

namespace Run.Sequential

variable {α β : Type} {schema : ExecutableSchema}

theorem pure (value : α) : (Pure.pure value : Run α).Sequential schema := rfl

theorem fail (error : ExecutionError) : (Run.fail error : Run α).Sequential schema := rfl

theorem bind {first : Run α} {next : α → Run β} (one : first.Sequential schema)
    (later : ∀ value, (next value).Sequential schema) : (first >>= next).Sequential schema := by
  obtain ⟨outcome, events⟩ := first
  cases outcome with
  | error error => exact one
  | ok value =>
      have rest := later value
      simp only [Sequential, Run.calls] at one rest ⊢
      rw [Run.ok_bind, List.filterMap_append, List.flatMap_append, ← one, ← rest]

theorem call {resolve : ResolveFn} {call : Call}
    (registered : schema.resolveFn? call.coordinate = some resolve) :
    (resolve.call call).Sequential schema := by
  have calls := (resolve.call_observed call).2
  unfold Sequential
  rw [calls, List.flatMap_singleton, ExecutableSchema.record, registered]
  cases resolve with
  | sync resolve => rfl
  | async resolve => rfl

theorem lookup (environment : Environment) (binding : Binding) :
    (environment.lookup binding).Sequential schema := by
  induction environment with
  | nil => exact fail _
  | cons entry rest ih =>
      simp only [Environment.lookup]
      split
      · exact pure _
      · exact ih

theorem run_site (canWait : Bool) (environment : Environment) (site : ResolverCall) :
    (site.run schema canWait environment).Sequential schema := by
  refine bind (lookup environment site.source) fun source => ?_
  cases registered : schema.resolveFn? site.coordinate with
  | none => exact fail _
  | some resolve =>
      have called : (resolve.call (site.on source)).Sequential schema := call registered
      cases resolve with
      | sync resolve => exact called
      | async resolve =>
          cases canWait with
          | true => exact called
          | false => exact fail _

mutual

theorem evaluate (schema : ExecutableSchema) (canWait : Bool) (environment : Environment) :
    ∀ expr : Expr, (expr.evaluate schema canWait environment).Sequential schema
  | .property source key => by
      rw [Expr.evaluate]
      exact bind (lookup environment source) fun _ => pure _
  | .literal value => by
      rw [Expr.evaluate]
      exact pure value
  | .resolve site => by
      rw [Expr.evaluate]
      exact run_site _ environment site
  | .scope binding value selection isAsync => by
      rw [Expr.evaluate]
      refine bind (evaluate schema (canWait && isAsync) environment value) fun own => ?_
      split
      · refine bind ?_ fun selected => pure _
        exact evaluateAll schema (canWait && isAsync) ((binding, own) :: environment) [] selection
      · exact pure _

theorem evaluateAll (schema : ExecutableSchema) (canWait : Bool) (environment : Environment) :
    ∀ (done : Json.Object) (properties : Properties),
      (Expr.evaluateAll schema canWait environment done properties).Sequential schema
  | done, [] => by
      rw [Expr.evaluateAll]
      exact pure done
  | done, (key, expr) :: rest => by
      rw [Expr.evaluateAll]
      refine bind (evaluate schema canWait environment expr) fun value => ?_
      exact evaluateAll schema canWait environment (done.insert key.text value) rest

end

end Run.Sequential

namespace CompiledOperation

def sites (operation : CompiledOperation) : List Placed :=
  Expr.placedAll operation.data

def call? (operation : CompiledOperation) (schema : ExecutableSchema) (root : Json)
    (placed : Placed) : Except ExecutionError (Option Call) :=
  placed.call? schema operation.isAsync [(.rootValue, root)] root

end CompiledOperation

theorem compiled_follows {document : Document} {schema : ExecutableSchema} {options : Options}
    {artifact : Artifact} (compiles : compileDocument document schema options = .ok artifact)
    {operation : CompiledOperation} (member : operation ∈ artifact.toList)
    (other : ExecutableSchema) (root : Json) :
    Follows other (operation.call? other root) operation.sites
      (operation.executeAsync other root) := by
  obtain ⟨source, _, compiled⟩ := exists_operation_of_mem compiles member
  obtain ⟨_, _, gathers⟩ := Operation.compile_eq_ok compiled
  have data := gathers.follows other [] id (Environment.lookup_innermost (.atDepth 0) root [])
  rw [operation.executeAsync_eq_run, CompiledOperation.run, CompiledOperation.sites,
    ← List.append_nil (Expr.placedAll operation.data)]
  exact data.bind fun object _ => Follows.pure _

theorem exists_sublist_of_forall₂ {ε α β : Type} {step : α → Except ε (Option β)}
    {inputs : List α} {results : List (Option β)}
    (made : List.Forall₂ (fun input result => step input = .ok result) inputs results) :
    ∃ kept, List.Sublist kept inputs ∧
      List.Forall₂ (fun input result => step input = .ok (some result)) kept
        results.reduceOption := by
  induction made with
  | nil => exact ⟨[], .slnil, .nil⟩
  | @cons input result inputs results one _ ih =>
      obtain ⟨kept, among, pairs⟩ := ih
      cases result with
      | none => exact ⟨kept, among.cons input, pairs⟩
      | some result => exact ⟨input :: kept, among.cons_cons input, .cons one pairs⟩

theorem Follows.exists_sublist {α : Type} {schema : ExecutableSchema}
    {call? : Placed → Except ExecutionError (Option Call)} {sites : List Placed} {run : Run α}
    (follows : Follows schema call? sites run) :
    ∃ called, List.Sublist called sites ∧
      List.Forall₂ (fun placed call => call? placed = .ok (some call)) called run.calls := by
  cases follows with
  | through calls _ made called =>
      rw [called]
      exact exists_sublist_of_forall₂ made
  | @ended before after last calls call error attempted split made reached endsAt _ called =>
      obtain ⟨kept, among, pairs⟩ := exists_sublist_of_forall₂ made
      rw [called, split]
      cases endsAt with
      | missing _ => exact ⟨kept, among.trans (List.sublist_append_left _ _), by simpa using pairs⟩
      | unexpected _ _ =>
          exact ⟨kept, among.trans (List.sublist_append_left _ _), by simpa using pairs⟩
      | resolver _ _ =>
          refine ⟨kept ++ [last], among.append ?_, List.rel_append pairs (.cons reached .nil)⟩
          exact (List.nil_sublist after).cons_cons last

/-- Each resolver is called at most once for each call site, in the order of the sites: at all of
them that are not selected on a falsy value if the run succeeds, else at those before the one that
ends it, and calls do not overlap. -/
theorem executeAsync_calls_in_order {document : Document} {schema : ExecutableSchema}
    {options : Options} {artifact : Artifact}
    (compiles : compileDocument document schema options = .ok artifact)
    {operation : CompiledOperation} (member : operation ∈ artifact.toList)
    (other : ExecutableSchema) (root : Json) :
    operation.sites.map Placed.site = Expr.sitesAll operation.data ∧
      (∃ called, List.Sublist called operation.sites ∧
        List.Forall₂ (fun placed call => operation.call? other root placed = .ok (some call))
          called (operation.executeAsync other root).calls) ∧
      Follows other (operation.call? other root) operation.sites
        (operation.executeAsync other root) ∧
      (operation.executeAsync other root).Sequential other := by
  have follows := compiled_follows compiles member other root
  refine ⟨Expr.map_site_placedAll operation.data, follows.exists_sublist, follows, ?_⟩
  rw [operation.executeAsync_eq_run]
  exact (Run.Sequential.evaluateAll other _ _ _ _).bind fun _ => .pure _

namespace Sample

def leafSchema (leaf : ResolveFn) : ExecutableSchema :=
  ⟨definitions, [
    (⟨query, friend⟩, ⟨some (.async (Resolver.delayed 2 Resolver.echoArguments))⟩),
    (⟨user, name⟩, ⟨some leaf⟩)]⟩

def named : ExecutableSchema :=
  leafSchema (.sync (Resolver.constant (.string "Ada")))

-- query People { friend(number: 7) { name } viewer { name } number: friend(number: 8) { name } }
def twoFriends : Document where
  operations := [⟨.query, some people, query, [
    .field ⟨none, friend, .named user false, [(number, .int "7")], []⟩ [nameField],
    .field ⟨none, viewer, .named user false, [], []⟩ [nameField],
    .field ⟨some number, friend, .named user false, [(number, .int "8")], []⟩ [nameField]]⟩]

def nameScope (value : Expr) (isAsync : Bool) : Expr :=
  .scope (.result 1) value [(name, .resolve ⟨⟨user, name⟩, .result 1, [], ⟨[]⟩, false⟩)] isAsync

def eight : Integer64 :=
  ⟨8, by decide, by decide⟩

def numbered (whole : Integer64) : Json.Object :=
  [("number", .number (.integer whole))]

def friendSite (whole : Integer64) : Expr :=
  .resolve ⟨⟨query, friend⟩, .rootValue, numbered whole, ⟨[]⟩, true⟩

def twoFriendsCompiled : CompiledOperation where
  name := people
  isAsync := true
  data := [
    (friend, nameScope (friendSite seven) true),
    (viewer, nameScope (.property .rootValue viewer) false),
    (number, nameScope (friendSite eight) true)]

end Sample

-- There is no viewer, so the third site is passed over.
theorem executeAsync_calls_in_order_people :
    compileDocument Sample.twoFriends Sample.named ⟨false, 1⟩ =
        .ok ⟨[(Sample.people, Sample.twoFriendsCompiled)]⟩ ∧
      Sample.twoFriendsCompiled.sites.map (fun placed => placed.site.coordinate) =
        [⟨Sample.query, Sample.friend⟩, ⟨Sample.user, Sample.name⟩, ⟨Sample.user, Sample.name⟩,
          ⟨Sample.query, Sample.friend⟩, ⟨Sample.user, Sample.name⟩] ∧
      Sample.twoFriendsCompiled.sites.map (fun placed =>
          (Sample.twoFriendsCompiled.call? Sample.named .null placed).map Option.isSome) =
        [.ok true, .ok true, .ok false, .ok true, .ok true] ∧
      (Sample.twoFriendsCompiled.executeAsync Sample.named .null).calls.map
          (fun call => (call.coordinate, call.source)) =
        [(⟨Sample.query, Sample.friend⟩, .null),
          (⟨Sample.user, Sample.name⟩, .object (Sample.numbered Sample.seven)),
          (⟨Sample.query, Sample.friend⟩, .null),
          (⟨Sample.user, Sample.name⟩, .object (Sample.numbered Sample.eight))] ∧
      (Sample.twoFriendsCompiled.executeAsync Sample.named .null).events.length = 10 ∧
      Sample.twoFriendsCompiled.sites.map Placed.site =
        Expr.sitesAll Sample.twoFriendsCompiled.data ∧
      (∃ called, List.Sublist called Sample.twoFriendsCompiled.sites ∧
        List.Forall₂ (fun placed call =>
            Sample.twoFriendsCompiled.call? Sample.named .null placed = .ok (some call))
          called (Sample.twoFriendsCompiled.executeAsync Sample.named .null).calls) ∧
      Follows Sample.named (Sample.twoFriendsCompiled.call? Sample.named .null)
        Sample.twoFriendsCompiled.sites
        (Sample.twoFriendsCompiled.executeAsync Sample.named .null) ∧
      (Sample.twoFriendsCompiled.executeAsync Sample.named .null).Sequential Sample.named := by
  have compiles : compileDocument Sample.twoFriends Sample.named ⟨false, 1⟩ =
      .ok ⟨[(Sample.people, Sample.twoFriendsCompiled)]⟩ := by
    rw [compileDocument_eq]
    rfl
  refine ⟨compiles, rfl, rfl, rfl, rfl, ?_⟩
  exact executeAsync_calls_in_order compiles (List.mem_singleton.mpr rfl) _ _

end StaticQuery
