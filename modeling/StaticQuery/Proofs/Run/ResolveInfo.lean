import StaticQuery.Proofs.Compile.Editing
import StaticQuery.Proofs.Run.Similarity

/-!
What resolvers are told about the field that they are called for. With or without it a document
compiles to the same operations otherwise, and each call site is told of the one field that it was
compiled from. Resolvers that do not look at it answer alike.
-/

namespace StaticQuery

namespace Selection

mutual

def resolvedAll (schema : ExecutableSchema) (parent : Name) :
    List (Selection TypeRef) → List (Name × FieldNode)
  | [] => []
  | selection :: rest => resolved schema parent selection ++ resolvedAll schema parent rest

def resolved (schema : ExecutableSchema) (parent : Name) :
    Selection TypeRef → List (Name × FieldNode)
  | .fragmentSpread _ _ => []
  | .inlineFragment _ _ _ => []
  | .field head nested =>
      if Directive.isDropped head.directives || head.isTypename schema.definitions parent then []
      else
        (if (schema.resolveFn? ⟨parent, head.name⟩).isSome then [(parent, ⟨head, nested⟩)]
          else []) ++
          if head.hasFields schema.definitions then resolvedAll schema head.type.inner nested
          else []

end

end Selection

def Operation.resolvedFields (operation : Operation) (schema : ExecutableSchema) :
    List (Name × FieldNode) :=
  Selection.resolvedAll schema operation.rootType operation.selections

structure ResolverCall.CompiledFrom (emitAst : Bool) (site : ResolverCall)
    (field : Name × FieldNode) : Prop where
  coordinate : site.coordinate = ⟨field.1, field.2.head.name⟩
  arguments : site.arguments = field.2.head.arguments.decode
  info : site.info.fieldNodes = if emitAst then [field.2] else []

theorem FieldPlan.compiledFrom_valueExpr {schema : ExecutableSchema} {parent : Name}
    {head : FieldHead TypeRef} {plan : FieldPlan}
    (made : FieldPlan.make schema parent head = .ok plan) (emitAst : Bool)
    (nested : List (Selection TypeRef)) (source : Binding) :
    List.Forall₂ (ResolverCall.CompiledFrom emitAst)
      (plan.valueExpr emitAst ⟨head, nested⟩ source).sites
      (if (schema.resolveFn? ⟨parent, head.name⟩).isSome then [(parent, ⟨head, nested⟩)]
      else []) := by
  have planned := FieldPlan.make_eq_ok made
  cases registered : schema.resolveFn? ⟨parent, head.name⟩ with
  | none =>
      simp only [registered] at planned
      subst plan
      exact .nil
  | some resolve =>
      simp only [registered] at planned
      subst plan
      exact .cons ⟨rfl, rfl, rfl⟩ .nil

/-- Call sites come from the fields that have resolvers, one from each, in their order. -/
theorem Gathers.sites_related {target : Target} {related : ResolverCall → Name × FieldNode → Prop}
    (relates : ∀ {parent head plan}, FieldPlan.make target.schema parent head = .ok plan →
      ∀ nested source, List.Forall₂ related
        (plan.valueExpr target.options.emitAst ⟨head, nested⟩ source).sites
        (if (target.schema.resolveFn? ⟨parent, head.name⟩).isSome then [(parent, ⟨head, nested⟩)]
        else []))
    {depth : Nat} {parent : Name} {selections : List (Selection TypeRef)} {gathered : Gathered}
    (compiled : Gathers target depth parent selections gathered) :
    List.Forall₂ related (Expr.sitesAll gathered.properties)
      (Selection.resolvedAll target.schema parent selections) := by
  induction compiled with
  | nil => exact .nil
  | dropped isDropped _ ih =>
      have omitted := Directive.drop_eq_ok isDropped
      simpa [Selection.resolvedAll, Selection.resolved, omitted] using ih
  | typename _ shaped _ ih =>
      have typename := FieldHead.isTypename_of_shape shaped
      simp only [Selection.resolvedAll, Selection.resolved, typename, Bool.or_true, if_true]
      exact ih
  | leaf isDropped shaped planned _ ih =>
      have kept := Directive.drop_eq_ok isDropped
      obtain ⟨other, isLeaf⟩ := FieldHead.not_hasFields_of_shape shaped
      simp only [Gathered.append, Gathered.one, List.singleton_append, Expr.sitesAll_cons,
        Selection.resolvedAll, Selection.resolved, kept, other, isLeaf, Bool.or_self,
        Bool.false_eq_true, if_false, List.append_nil]
      exact List.rel_append (relates planned _ _) ih
  | scope isDropped shaped _ _ planned _ ihInner ihRest =>
      have kept := Directive.drop_eq_ok isDropped
      obtain ⟨other, isScope⟩ := FieldHead.hasFields_of_shape shaped
      simp only [Gathered.append, Gathered.one, List.singleton_append, Expr.sitesAll_cons,
        Expr.sites_scope, Selection.resolvedAll, Selection.resolved, kept, other, isScope,
        Bool.or_self, Bool.false_eq_true, if_false, if_true]
      refine List.rel_append (List.rel_append ?_ ihInner) ihRest
      exact relates planned _ _

theorem Gathers.compiledFrom {target : Target} {depth : Nat} {parent : Name}
    {selections : List (Selection TypeRef)} {gathered : Gathered}
    (compiled : Gathers target depth parent selections gathered) :
    List.Forall₂ (ResolverCall.CompiledFrom target.options.emitAst)
      (Expr.sitesAll gathered.properties)
      (Selection.resolvedAll target.schema parent selections) :=
  compiled.sites_related fun made nested source =>
    FieldPlan.compiledFrom_valueExpr made target.options.emitAst nested source

/-! Runs on a schema whose resolvers do not look at what they are told. -/

def ExecutableSchema.IgnoresInfo (schema : ExecutableSchema) : Prop :=
  ∀ coordinate resolve, schema.resolveFn? coordinate = some resolve →
    ∀ source arguments info other,
      resolve.answer source arguments info = resolve.answer source arguments other

def Call.withoutInfo (call : Call) : Call :=
  { call with info := ⟨[]⟩ }

section

variable {schema : ExecutableSchema}

theorem ResolverCall.run_withoutInfo (ignores : schema.IgnoresInfo) (canWait : Bool)
    (environment : Environment) (site : ResolverCall) :
    (site.run schema canWait environment).Similar Eq Call.withoutInfo
      (site.withoutInfo.run schema canWait environment) := by
  refine (Run.Similar.refl (fun _ => rfl) _ (environment.lookup site.source)).bind ?_
  rintro source _ rfl
  simp only [ResolverCall.withoutInfo]
  cases registered : schema.resolveFn? site.coordinate with
  | none => exact .refl (fun _ => rfl) _ _
  | some resolve =>
      have answered : (resolve.call (site.on source)).Similar Eq Call.withoutInfo
          (resolve.call (site.withoutInfo.on source)) := by
        obtain ⟨outcome, calls⟩ := resolve.call_observed (site.on source)
        obtain ⟨otherOutcome, otherCalls⟩ := resolve.call_observed (site.withoutInfo.on source)
        have same : resolve.answer source site.arguments site.info =
            resolve.answer source site.arguments ⟨[]⟩ := ignores _ _ registered _ _ _ _
        constructor
        · rw [outcome, otherOutcome]
          exact same ▸ Alike.refl (fun _ => rfl) _
        · rw [calls, otherCalls]
          rfl
      cases resolve with
      | sync resolve => exact answered
      | async resolve =>
          cases canWait with
          | true => exact answered
          | false => exact .refl (fun _ => rfl) _ _

namespace Expr

mutual

theorem evaluate_withoutInfo (ignores : schema.IgnoresInfo) :
    ∀ (expr : Expr) (canWait : Bool) (environment : Environment),
      (expr.evaluate schema canWait environment).Similar Eq Call.withoutInfo
        ((expr.revise id ResolverCall.withoutInfo).evaluate schema canWait environment)
  | .property source key, canWait, environment => by
      rw [revise]
      exact .refl (fun _ => rfl) _ _
  | .literal value, canWait, environment => by
      rw [revise]
      exact .refl (fun _ => rfl) _ _
  | .resolve site, canWait, environment => by
      rw [revise, evaluate, evaluate]
      exact site.run_withoutInfo ignores _ environment
  | .scope binding value selection isAsync, canWait, environment => by
      rw [revise, evaluate, evaluate]
      refine (evaluate_withoutInfo ignores value (canWait && isAsync) environment).bind ?_
      rintro own _ rfl
      cases own.truthy with
      | false => exact .pure rfl
      | true =>
          simp only [if_true]
          refine (evaluateAll_withoutInfo ignores selection (canWait && isAsync)
            ((binding, own) :: environment) []).bind ?_
          rintro selected _ rfl
          exact .pure rfl

theorem evaluateAll_withoutInfo (ignores : schema.IgnoresInfo) :
    ∀ (properties : Properties) (canWait : Bool) (environment : Environment)
      (done : Json.Object),
      (evaluateAll schema canWait environment done properties).Similar Eq Call.withoutInfo
        (evaluateAll schema canWait environment done
          (reviseAll id ResolverCall.withoutInfo properties))
  | [], canWait, environment, done => by
      rw [reviseAll]
      exact .refl (fun _ => rfl) _ _
  | (key, expr) :: rest, canWait, environment, done => by
      rw [reviseAll, evaluateAll, evaluateAll]
      refine (evaluate_withoutInfo ignores expr canWait environment).bind ?_
      rintro value _ rfl
      exact evaluateAll_withoutInfo ignores rest canWait environment (done.insert key.text value)

end

end Expr

namespace CompiledOperation

theorem executeAsync_withoutInfo (ignores : schema.IgnoresInfo) (operation : CompiledOperation)
    (root : Json) :
    (operation.executeAsync schema root).Similar Eq Call.withoutInfo
      ((operation.revise id ResolverCall.withoutInfo).executeAsync schema root) := by
  rw [executeAsync_eq_run, executeAsync_eq_run, run, run]
  refine (Expr.evaluateAll_withoutInfo ignores operation.data operation.isAsync
    [(.rootValue, root)] []).bind ?_
  rintro data _ rfl
  exact .pure rfl

theorem runsLike_of_withoutInfo (ignores : schema.IgnoresInfo) {first second : CompiledOperation}
    (revised : first.revise id ResolverCall.withoutInfo =
      second.revise id ResolverCall.withoutInfo) (root : Json) :
    RunsLike Eq Call.withoutInfo schema root first second := by
  have one := first.executeAsync_withoutInfo ignores root
  have other := second.executeAsync_withoutInfo ignores root
  rw [revised] at one
  obtain ⟨names, waits, _⟩ := CompiledOperation.mk.inj revised
  exact runsLike_of_awaited names waits (one.trans (other.symm Eq.symm) Eq.trans)

end CompiledOperation

end

section

variable {document : Document} {schema : ExecutableSchema} {limit : Nat} {artifact : Artifact}

theorem exists_resolvedFields {emitAst : Bool}
    (compiles : compileDocument document schema ⟨emitAst, limit⟩ = .ok artifact)
    {compiled : CompiledOperation} (member : compiled ∈ artifact.toList) :
    ∃ operation ∈ document.operations, operation.name? = some compiled.name ∧
      List.Forall₂ (ResolverCall.CompiledFrom emitAst) (Expr.sitesAll compiled.data)
        (operation.resolvedFields schema) := by
  obtain ⟨operation, listed, compiledFrom⟩ := exists_operation_of_mem compiles member
  obtain ⟨_, named, gathers⟩ := Operation.compile_eq_ok compiledFrom
  exact ⟨operation, listed, named, gathers.compiledFrom⟩

theorem info_eq_nil (compiles : compileDocument document schema ⟨false, limit⟩ = .ok artifact)
    {compiled : CompiledOperation} (member : compiled ∈ artifact.toList) {site : ResolverCall}
    (listed : site ∈ Expr.sitesAll compiled.data) : site.info.fieldNodes = [] := by
  obtain ⟨_, _, _, fields⟩ := exists_resolvedFields compiles member
  obtain ⟨_, _, compiledFrom⟩ := exists_left_of_forall₂ fields.flip listed
  exact compiledFrom.info

end

theorem FieldEdit.unseen_some : FieldEdit.Unseen some true false id ResolverCall.withoutInfo where
  removed := by simp
  kept := by
    rintro head _ ⟨⟩
    exact ⟨head.alias?, head.directives, rfl, rfl, rfl⟩
  told _ _ _ := rfl

/-- Whether resolvers are told their fields makes no difference to the errors of compilation, nor to
artifacts apart from what is told: nothing at all, or to each call site its own field as it stands
in the document. On resolvers that ignore it both artifacts run alike. -/
theorem emitAst_changes_info_only (document : Document) (schema : ExecutableSchema)
    (limit : Nat) :
    Alike (fun told untold =>
        told.withoutInfo = untold.withoutInfo ∧
        (∀ compiled ∈ untold.toList, ∀ site ∈ Expr.sitesAll compiled.data,
          site.info.fieldNodes = []) ∧
        (∀ compiled ∈ told.toList, ∃ operation ∈ document.operations,
          operation.name? = some compiled.name ∧
            List.Forall₂ (ResolverCall.CompiledFrom true) (Expr.sitesAll compiled.data)
              (operation.resolvedFields schema)) ∧
        List.Forall₂ (fun left right => ∀ runtime : ExecutableSchema, runtime.IgnoresInfo →
          ∀ root, CompiledOperation.RunsLike Eq Call.withoutInfo runtime root left right)
          told.toList untold.toList)
      (compileDocument document schema { emitAst := true, recursionLimit := limit })
      (compileDocument document schema { emitAst := false, recursionLimit := limit }) := by
  have pairs : List.Forall₂ (fun left right => Alike
      (fun left right => left.revise id ResolverCall.withoutInfo =
        right.revise id ResolverCall.withoutInfo)
      (left.compile ⟨schema, ⟨true, limit⟩⟩) (right.compile ⟨schema, ⟨false, limit⟩⟩))
      document.operations document.operations := by
    refine List.forall₂_same.mpr ?_
    intro operation _
    have compiled := FieldEdit.unseen_some.compile_alike schema limit operation
    rwa [operation.edit_some] at compiled
  refine (compileDocument_alike_of_forall₂ CompiledOperation.name_eq_of_revise pairs).imp ?_
  intro told untold toldCompiles untoldCompiles entries
  refine ⟨Artifact.revise_eq_of_forall₂ entries, ?_, ?_, ?_⟩
  · intro compiled member site listed
    exact info_eq_nil untoldCompiles member listed
  · intro compiled member
    exact exists_resolvedFields toldCompiles member
  · simp only [Artifact.toList, List.forall₂_map_left_iff, List.forall₂_map_right_iff]
    refine entries.imp ?_
    rintro left right ⟨_, revised⟩ runtime ignores root
    exact CompiledOperation.runsLike_of_withoutInfo ignores revised root

theorem Sample.ignoresInfo : (Sample.schema Sample.later).IgnoresInfo := by
  intro coordinate resolve registered source arguments info other
  simp only [ExecutableSchema.resolveFn?, Sample.schema, OrderedMap.get?] at registered
  split at registered
  · cases registered
    rfl
  · cases registered

theorem emitAst_changes_info_only_people :
    ∃ told untold,
      compileDocument Sample.document (Sample.schema Sample.later) { emitAst := true } = .ok told ∧
      compileDocument Sample.document (Sample.schema Sample.later) { emitAst := false } =
        .ok untold ∧
      told.withoutInfo = untold.withoutInfo ∧
      (∀ compiled ∈ untold.toList, ∀ site ∈ Expr.sitesAll compiled.data,
        site.info.fieldNodes = []) ∧
      (told.toList.map fun compiled => (Expr.sitesAll compiled.data).map fun site =>
        site.info.fieldNodes.map FieldNode.render) = [[["friend(number: 7) \x7b name \x7d"]]] ∧
      List.Forall₂ (fun left right => ∀ root,
        CompiledOperation.RunsLike Eq Call.withoutInfo (Sample.schema Sample.later) root left
          right)
        told.toList untold.toList := by
  have toldCompiles : compileDocument Sample.document (Sample.schema Sample.later)
      { emitAst := true } = .ok _ := rfl
  have untoldCompiles : compileDocument Sample.document (Sample.schema Sample.later)
      { emitAst := false } = .ok _ := rfl
  have both := emitAst_changes_info_only Sample.document (Sample.schema Sample.later) 512
  have facts := both.values toldCompiles untoldCompiles
  refine ⟨_, _, toldCompiles, untoldCompiles, facts.1, facts.2.1, by decide, ?_⟩
  exact facts.2.2.2.imp fun _ _ runsAlike root => runsAlike _ Sample.ignoresInfo root

end StaticQuery
