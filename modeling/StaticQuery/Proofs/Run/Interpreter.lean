import StaticQuery.Proofs.Compile.Artifact
import StaticQuery.Proofs.Compile.Field
import StaticQuery.Proofs.Run.Trace

/-!
An interpreter that walks the selections themselves, with nothing but the current value in hand. It
reads members, calls resolvers and merges objects in its own way. A compiled operation runs as its
document is interpreted: with the same outcome and the same record of calls.
-/

namespace StaticQuery

namespace Json

def member? (members : Object) (key : String) : Option Json :=
  (members.find? fun member => member.1 = key).map Prod.snd

def read (current : Json) (key : String) : Json :=
  match current with
  | .object members => (member? members key).getD .null
  | _ => .null

/-- The own members in their places, with what is selected under their keys; then the rest of what
is selected. -/
def overlay : Object → Object → Object
  | [], selected => selected
  | (key, value) :: own, selected =>
      (key, (member? selected key).getD value) ::
        overlay own (selected.filter fun member => member.1 ≠ key)

def withSelected (own : Json) (selected : Object) : Json :=
  match own with
  | .object members => .object (overlay members selected)
  | _ => .object selected

theorem member?_eq_get? (members : Object) (key : String) :
    member? members key = members.get? key := by
  induction members with
  | nil => rfl
  | cons member rest ih =>
      obtain ⟨known, value⟩ := member
      by_cases same : known = key
      · simp [member?, OrderedMap.get?, same]
      · rw [OrderedMap.get?, if_neg same, ← ih]
        simp [member?, same]

theorem property_eq_read (current : Json) (key : String) :
    current.property key = current.read key := by
  cases current with
  | object members =>
      rw [read, member?_eq_get?]
      cases found : OrderedMap.get? members key with
      | none => exact property_of_not_mem (OrderedMap.get?_eq_none_iff.mp found)
      | some value => exact property_of_get? found
  | null | bool | number | string | array => exact property_of_not_object (by simp) key

theorem insertAll_eq_overlay {own selected : Object} (distinct : selected.keys.Nodup) :
    own.insertAll selected = overlay own selected := by
  induction own generalizing selected with
  | nil => exact OrderedMap.nil_insertAll distinct
  | cons member rest ih =>
      obtain ⟨key, value⟩ := member
      have others : (OrderedMap.keys (selected.filter fun member => member.1 ≠ key)).Nodup :=
        distinct.sublist (List.filter_sublist.map Prod.fst)
      rw [OrderedMap.cons_insertAll, OrderedMap.last?_of_nodup distinct, ih others, overlay,
        member?_eq_get?]

theorem merge_eq_withSelected {selected : Object} (distinct : selected.keys.Nodup) (own : Json) :
    own.merge selected = own.withSelected selected := by
  cases own with
  | object members => exact congrArg object (insertAll_eq_overlay distinct)
  | null | bool | number | string | array =>
      exact congrArg object (OrderedMap.nil_insertAll distinct)

end Json

namespace ResolveFn

def answer : ResolveFn → Resolver (Except ResolverError Json)
  | .sync resolve => resolve
  | .async resolve => fun source arguments info => (resolve source arguments info).outcome

def record (call : Call) : ResolveFn → List Event
  | .sync _ => [.called call]
  | .async resolve =>
      .started call ::
        List.replicate (resolve call.source call.arguments call.info).pending (.waiting call) ++
          [.completed call]

def call (resolve : ResolveFn) (call : Call) : Run Json where
  outcome := (resolve.answer call.source call.arguments call.info).mapError .resolver
  events := resolve.record call

theorem callSync_eq_call (resolve : Resolver (Except ResolverError Json)) (call : Call) :
    Run.callSync call resolve = (ResolveFn.sync resolve).call call := rfl

theorem callAsync_eq_call (resolve : Resolver (Future (Except ResolverError Json)))
    (call : Call) : Run.callAsync call resolve = (ResolveFn.async resolve).call call := rfl

end ResolveFn

def FieldNode.own (target : Target) (parent : Name) (current : Json) (node : FieldNode) :
    Run Json :=
  match target.schema.resolveFn? ⟨parent, node.head.name⟩ with
  | none => return current.read node.head.name.text
  | some resolve =>
      resolve.call {
        coordinate := ⟨parent, node.head.name⟩
        source := current
        arguments := node.head.arguments.decode
        info := ⟨if target.options.emitAst then [node] else []⟩ }

namespace Selection

mutual

def interpretAll (target : Target) (parent : Name) (current : Json) :
    Json.Object → List (Selection TypeRef) → Run Json.Object
  | done, [] => return done
  | done, selection :: rest => do
      let done ← interpret target parent current done selection
      interpretAll target parent current done rest

def interpret (target : Target) (parent : Name) (current : Json) (done : Json.Object) :
    Selection TypeRef → Run Json.Object
  | .fragmentSpread _ _ => return done
  | .inlineFragment _ _ _ => return done
  | .field head nested =>
      let key := (head.alias?.getD head.name).text
      if Directive.isDropped head.directives then return done
      else if head.isTypename target.schema.definitions parent then
        return done.insert key (.string parent.text)
      else do
        let own ← FieldNode.own target parent current ⟨head, nested⟩
        if head.hasFields target.schema.definitions then
          if own.Falsy then return done.insert key .null
          else
            let selected ← interpretAll target head.type.inner own [] nested
            return done.insert key (own.withSelected selected)
        else return done.insert key own

end

end Selection

def Operation.interpret (target : Target) (operation : Operation) (root : Json) : Run Response := do
  let data ← Selection.interpretAll target operation.rootType root [] operation.selections
  return ⟨data⟩

theorem FieldPlan.evaluate_valueExpr {target : Target} {parent : Name} {head : FieldHead TypeRef}
    {plan : FieldPlan} (made : FieldPlan.make target.schema parent head = .ok plan)
    {canWait : Bool} (waits : plan.isAsync = true → canWait = true)
    {environment : Environment} {source : Binding} {current : Json}
    (bound : environment.lookup source = pure current) (nested : List (Selection TypeRef)) :
    Expr.evaluate target.schema canWait environment
        (plan.valueExpr target.options.emitAst ⟨head, nested⟩ source) =
      FieldNode.own target parent current ⟨head, nested⟩ := by
  have planned := FieldPlan.make_eq_ok made
  unfold FieldNode.own
  cases registered : target.schema.resolveFn? ⟨parent, head.name⟩ with
  | none =>
      simp only [registered] at planned
      subst plan
      simp [FieldPlan.valueExpr, Expr.evaluate, bound, Json.property_eq_read]
  | some resolve =>
      simp only [registered] at planned
      subst plan
      cases resolve with
      | sync resolve =>
          simp [FieldPlan.valueExpr, Expr.evaluate, ResolverCall.run, bound, registered,
            ResolveFn.callSync_eq_call]
      | async resolve =>
          have waiting : canWait = true := waits rfl
          simp [FieldPlan.valueExpr, Expr.evaluate, ResolverCall.run, bound, registered,
            ResolveFn.callAsync_eq_call, waiting, ResolveFn.isAsync]

theorem Environment.lookup_innermost (binding : Binding) (value : Json) (outer : Environment) :
    lookup ((binding, value) :: outer) binding = pure value := by
  simp [lookup]

theorem Expr.nodup_keys_evaluateAll {schema : ExecutableSchema} {canWait : Bool}
    {environment : Environment} {properties : Properties} {done object : Json.Object}
    (distinct : done.keys.Nodup)
    (evaluated : (evaluateAll schema canWait environment done properties).outcome = .ok object) :
    object.keys.Nodup := by
  induction properties generalizing done with
  | nil =>
      rw [evaluateAll] at evaluated
      cases evaluated
      exact distinct
  | cons property rest ih =>
      rw [evaluateAll, Run.outcome_bind, bind_eq_ok] at evaluated
      obtain ⟨value, _, others⟩ := evaluated
      exact ih (OrderedMap.nodup_keys_insert distinct _ value) others

/-- Inside of a scope waiting is possible if something there has to wait. -/
theorem waits_inside {canWait inner own : Bool}
    (waits : inner = true ∨ own = true → canWait = true) (needed : inner = true ∨ own = true) :
    (canWait && (inner || own)) = true := by
  rw [waits needed, Bool.true_and, Bool.or_eq_true]
  exact needed

/-- Compiled selections evaluate as they are interpreted, in every environment that binds their
source to the current value. -/
theorem Gathers.evaluateAll_eq_interpretAll {target : Target} {depth : Nat} {parent : Name}
    {selections : List (Selection TypeRef)} {gathered : Gathered}
    (compiled : Gathers target depth parent selections gathered) {canWait : Bool}
    {environment : Environment} {current : Json} (done : Json.Object)
    (waits : gathered.awaits = true → canWait = true)
    (bound : environment.lookup (.atDepth depth) = pure current) :
    Expr.evaluateAll target.schema canWait environment done gathered.properties =
      Selection.interpretAll target parent current done selections := by
  induction compiled generalizing canWait environment current done with
  | nil => simp [Gathered.none, Expr.evaluateAll, Selection.interpretAll]
  | dropped isDropped _ ih =>
      have omitted := Directive.drop_eq_ok isDropped
      simp only [Selection.interpretAll, Selection.interpret, omitted, if_true, pure_bind]
      exact ih done waits bound
  | typename isDropped shaped _ ih =>
      have kept := Directive.drop_eq_ok isDropped
      have typename := FieldHead.isTypename_of_shape shaped
      simp only [Gathered.append, Gathered.one, Bool.false_or] at waits
      simp only [Gathered.append, Gathered.one, List.singleton_append, Expr.evaluateAll,
        Expr.evaluate, FieldHead.responseKey, Selection.interpretAll, Selection.interpret, kept,
        typename, Bool.false_eq_true, if_false, if_true, pure_bind]
      exact ih _ waits bound
  | @leaf depth parent head nested rest plan others isDropped shaped planned _ ih =>
      have kept := Directive.drop_eq_ok isDropped
      obtain ⟨other, isLeaf⟩ := FieldHead.not_hasFields_of_shape shaped
      simp only [Gathered.append, Gathered.one, Bool.or_eq_true] at waits
      have own := FieldPlan.evaluate_valueExpr planned (fun async => waits (Or.inl async)) bound
        nested
      simp only [Gathered.append, Gathered.one, List.singleton_append, Expr.evaluateAll, own,
        FieldHead.responseKey, Selection.interpretAll, Selection.interpret, kept, other, isLeaf,
        Bool.false_eq_true, if_false, bind_assoc, pure_bind]
      exact bind_congr fun value => ih _ (fun awaits => waits (Or.inr awaits)) bound
  | @scope depth parent head nested rest inner plan others isDropped shaped _ _ planned _
      ihInner ihRest =>
      have kept := Directive.drop_eq_ok isDropped
      obtain ⟨other, isScope⟩ := FieldHead.hasFields_of_shape shaped
      simp only [Gathered.append, Gathered.one, Bool.or_eq_true] at waits
      have inside := waits_inside fun needed => waits (Or.inl needed)
      have own := FieldPlan.evaluate_valueExpr planned (fun async => inside (Or.inr async)) bound
        nested
      simp only [Gathered.append, Gathered.one, List.singleton_append, Expr.evaluateAll,
        Expr.evaluate, own, FieldHead.responseKey, Selection.interpretAll, Selection.interpret,
        kept, other, isScope, Bool.false_eq_true, if_false, if_true, bind_assoc]
      refine bind_congr fun value => ?_
      have selected := ihInner [] (fun awaits => inside (Or.inl awaits))
        (Environment.lookup_innermost (.atDepth (depth + 1)) value environment)
      by_cases falsy : value.Falsy
      · simp only [falsy, Json.truthy_eq_false_iff.mpr falsy, Bool.false_eq_true, if_false,
          if_true, pure_bind]
        exact ihRest _ (fun awaits => waits (Or.inr awaits)) bound
      · simp only [falsy, Json.truthy_iff.mpr falsy, if_true, if_false, bind_assoc, pure_bind,
          ← selected]
        apply Run.bind_congr_of_ok
        intro object evaluated
        have distinct := Expr.nodup_keys_evaluateAll OrderedMap.nodup_keys_nil evaluated
        rw [Json.merge_eq_withSelected distinct]
        exact ihRest _ (fun awaits => waits (Or.inr awaits)) bound

theorem CompiledOperation.executeAsync_eq_run (operation : CompiledOperation)
    (schema : ExecutableSchema) (root : Json) :
    operation.executeAsync schema root = operation.run schema root := by
  unfold executeAsync invoke
  split
  · rfl
  · rfl

theorem Operation.executeAsync_compile {target : Target} {operation : Operation}
    {compiled : CompiledOperation} (compiles : operation.compile target = .ok compiled)
    (root : Json) :
    compiled.executeAsync target.schema root = operation.interpret target root := by
  obtain ⟨_, _, gathers⟩ := Operation.compile_eq_ok compiles
  have data := gathers.evaluateAll_eq_interpretAll [] id
    (Environment.lookup_innermost (.atDepth 0) root [])
  rw [compiled.executeAsync_eq_run, CompiledOperation.run, Operation.interpret, ← data]
  rfl

/-- Compiler correctness: each operation of an artifact runs as an operation of that name in the
document is interpreted, and no operation of the document is left out. -/
theorem executeAsync_eq_interpret {document : Document} {schema : ExecutableSchema}
    {options : Options} {artifact : Artifact}
    (compiles : compileDocument document schema options = .ok artifact) :
    (∀ compiled ∈ artifact.toList, ∃ operation ∈ document.operations,
      operation.name? = some compiled.name ∧
        ∀ root, compiled.executeAsync schema root = operation.interpret ⟨schema, options⟩ root) ∧
      ∀ operation ∈ document.operations, ∃ compiled ∈ artifact.toList,
        operation.name? = some compiled.name := by
  constructor
  · intro compiled member
    obtain ⟨operation, listed, compiledFrom⟩ := exists_operation_of_mem compiles member
    obtain ⟨_, named, _⟩ := Operation.compile_eq_ok compiledFrom
    exact ⟨operation, listed, named, Operation.executeAsync_compile compiledFrom⟩
  · intro operation member
    exact exists_compiled_of_mem compiles member

namespace Sample

def grace : Json :=
  .object [("number", .string "7"), ("name", .string "Grace")]

def root : Json :=
  .object [("viewer", grace), ("name", .string "Ada")]

def anonymous : Json :=
  .object [("viewer", .string ""), ("number", .string "7")]

def seven : Integer64 :=
  ⟨7, by decide, by decide⟩

def friendCall (source : Json) : Call where
  coordinate := ⟨query, friend⟩
  source := source
  arguments := [("number", .number (.integer seven))]
  info := ⟨[⟨⟨none, friend, .named user false, [(number, .int "7")], []⟩, [nameField]⟩]⟩

def awaited (call : Call) : List Event :=
  [.started call, .waiting call, .waiting call, .completed call]

end Sample

-- The resolver of `friend` gives back the root, which has no name the second time.
theorem executeAsync_eq_interpret_people :
    ∃ artifact people,
      compileDocument Sample.document (Sample.schema Sample.later) {} = .ok artifact ∧
      artifact.toList = [people] ∧
      people.executeAsync (Sample.schema Sample.later) Sample.root =
        ⟨.ok ⟨[("viewer", Sample.grace), ("friend", Sample.root)]⟩,
          Sample.awaited (Sample.friendCall Sample.root)⟩ ∧
      people.executeAsync (Sample.schema Sample.later) Sample.anonymous =
        ⟨.ok ⟨[("viewer", .null), ("friend",
            .object [("viewer", .string ""), ("number", .string "7"), ("name", .null)])]⟩,
          Sample.awaited (Sample.friendCall Sample.anonymous)⟩ ∧
      (∀ compiled ∈ artifact.toList, ∃ operation ∈ Sample.document.operations,
        operation.name? = some compiled.name ∧
          ∀ root, compiled.executeAsync (Sample.schema Sample.later) root =
            operation.interpret ⟨Sample.schema Sample.later, {}⟩ root) ∧
      ∀ operation ∈ Sample.document.operations, ∃ compiled ∈ artifact.toList,
        operation.name? = some compiled.name :=
  ⟨_, _, rfl, rfl, rfl, rfl, executeAsync_eq_interpret rfl⟩

end StaticQuery
