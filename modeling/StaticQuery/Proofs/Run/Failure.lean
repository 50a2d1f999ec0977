import StaticQuery.Proofs.Run.CallOrder

/-!
Why runs fail. An operation may be run on another schema than the one it was compiled for. Whatever
that schema is, an error names a call site that does not fit it, or comes from a resolver.
-/

namespace StaticQuery

def ExecutableSchema.Serves (schema : ExecutableSchema) (sites : List ResolverCall) : Prop :=
  ∀ site ∈ sites, ∃ resolve, schema.resolveFn? site.coordinate = some resolve ∧
    (resolve.isAsync = true → site.awaited = true)

def ExecutableSchema.ReplacedBy (first second : ExecutableSchema) : Prop :=
  ∀ coordinate resolve, first.resolveFn? coordinate = some resolve →
    ∃ other, second.resolveFn? coordinate = some other ∧
      (other.isAsync = true → resolve.isAsync = true)

theorem ExecutableSchema.ReplacedBy.refl (schema : ExecutableSchema) : schema.ReplacedBy schema :=
  fun _ resolve registered => ⟨resolve, registered, id⟩

theorem Classified.serves {schema other : ExecutableSchema} {properties : Properties}
    {awaits : Bool} (classified : Classified schema (Expr.nodesAll properties) awaits)
    (replaced : schema.ReplacedBy other) : other.Serves (Expr.sitesAll properties) := by
  intro site listed
  have node : .resolve site ∈ Expr.nodesAll properties := by simpa [Expr.sitesAll] using listed
  obtain ⟨resolve, registered, awaited⟩ := classified.sites node
  obtain ⟨replacement, found, async⟩ := replaced _ _ registered
  exact ⟨replacement, found, fun isAsync => awaited.trans (async isAsync)⟩

theorem Follows.exists_endsAt {α : Type} {schema : ExecutableSchema}
    {call? : Placed → Except ExecutionError (Option Call)} {sites : List Placed} {run : Run α}
    (follows : Follows schema call? sites run) {error : ExecutionError}
    (failed : run.outcome = .error error) :
    ∃ site ∈ sites.map Placed.site, ∃ call attempted,
      EndsAt schema site call error attempted ∧ attempted ⊆ run.calls := by
  cases follows with
  | through _ succeeded _ _ =>
      rw [succeeded] at failed
      cases failed
  | ended before after split _ _ endsAt ended called =>
      rw [ended, Except.error.injEq] at failed
      subst failed
      refine ⟨_, ?_, _, _, endsAt, ?_⟩
      · rw [split]
        exact List.mem_map_of_mem (List.mem_append_right _ List.mem_cons_self)
      · rw [called]
        exact List.subset_append_right _ _

structure Explained (operation : CompiledOperation) (schema : ExecutableSchema) (root : Json) :
    Prop where
  served : schema.Serves (Expr.sitesAll operation.data) →
    (∃ response, (operation.executeAsync schema root).outcome = .ok response) ∨
      ∃ site ∈ Expr.sitesAll operation.data, ∃ resolve error,
        ∃ call ∈ (operation.executeAsync schema root).calls,
        schema.resolveFn? site.coordinate = some resolve ∧
          resolve.answer call.source call.arguments call.info = .error error ∧
          (operation.executeAsync schema root).outcome = .error (.resolver error)
  missing : ∀ {coordinate},
    (operation.executeAsync schema root).outcome = .error (.missingResolver coordinate) →
      (∃ site ∈ Expr.sitesAll operation.data, site.coordinate = coordinate) ∧
        schema.resolveFn? coordinate = none
  unexpected : ∀ {coordinate},
    (operation.executeAsync schema root).outcome = .error (.unexpectedAsyncResolver coordinate) →
      (∃ site ∈ Expr.sitesAll operation.data,
        site.coordinate = coordinate ∧ site.awaited = false) ∧
        ∃ resolve, schema.resolveFn? coordinate = some (.async resolve)
  bound : ∀ binding,
    (operation.executeAsync schema root).outcome ≠ .error (.unboundIdentifier binding)
  awaitable : ∀ name,
    (operation.executeAsync schema root).outcome ≠ .error (.deferredOperation name)
  deferred : ∀ name, (operation.execute schema root).outcome = .error (.deferredOperation name) ↔
    operation.isAsync = true ∧ name = operation.name
  uncalled : operation.isAsync = true → (operation.execute schema root).events = []
  immediate : operation.isAsync = false →
    operation.execute schema root = operation.executeAsync schema root

namespace CompiledOperation

variable {operation : CompiledOperation}

theorem execute_of_isAsync (isAsync : operation.isAsync = true) (schema : ExecutableSchema)
    (root : Json) : operation.execute schema root = .fail (.deferredOperation operation.name) := by
  simp [execute, invoke, isAsync, Completion.ready?]

theorem execute_of_not_isAsync (isSync : operation.isAsync = false) (schema : ExecutableSchema)
    (root : Json) : operation.execute schema root = operation.executeAsync schema root := by
  simp [execute, executeAsync, invoke, isSync, Completion.ready?, Completion.resolve]

theorem explained {schema : ExecutableSchema} {root : Json}
    (follows : Follows schema (operation.call? schema root) operation.sites
      (operation.executeAsync schema root)) : Explained operation schema root := by
  have fails {error : ExecutionError}
      (failed : (operation.executeAsync schema root).outcome = .error error) :
      ∃ site ∈ Expr.sitesAll operation.data, ∃ call attempted,
        EndsAt schema site call error attempted ∧
          attempted ⊆ (operation.executeAsync schema root).calls := by
    have found := follows.exists_endsAt failed
    rwa [sites, Expr.map_site_placedAll] at found
  have awaitable (name : Name) :
      (operation.executeAsync schema root).outcome ≠ .error (.deferredOperation name) := by
    intro failed
    obtain ⟨_, _, _, _, endsAt, _⟩ := fails failed
    cases endsAt
  refine ⟨?_, ?_, ?_, ?_, awaitable, ?_, ?_,
    fun isSync => execute_of_not_isAsync isSync schema root⟩
  · intro serves
    cases ended : (operation.executeAsync schema root).outcome with
    | ok response => exact Or.inl ⟨response, rfl⟩
    | error error =>
        obtain ⟨site, listed, call, attempted, endsAt, made⟩ := fails ended
        obtain ⟨known, registered, async⟩ := serves site listed
        cases endsAt with
        | missing unregistered =>
            rw [registered] at unregistered
            cases unregistered
        | unexpected other awaited =>
            rw [registered, Option.some.injEq] at other
            rw [other] at async
            rw [async rfl] at awaited
            cases awaited
        | @resolver resolve error other answered =>
            exact Or.inr ⟨site, listed, resolve, error, call, made List.mem_cons_self, other,
              answered, rfl⟩
  · intro coordinate failed
    obtain ⟨site, listed, _, _, endsAt, _⟩ := fails failed
    cases endsAt with
    | missing unregistered => exact ⟨⟨site, listed, rfl⟩, unregistered⟩
  · intro coordinate failed
    obtain ⟨site, listed, _, _, endsAt, _⟩ := fails failed
    cases endsAt with
    | unexpected registered awaited => exact ⟨⟨site, listed, rfl, awaited⟩, _, registered⟩
  · intro binding failed
    obtain ⟨_, _, _, _, endsAt, _⟩ := fails failed
    cases endsAt
  · intro name
    cases isAsync : operation.isAsync with
    | true => simp [execute_of_isAsync isAsync, Run.fail, eq_comm]
    | false =>
        rw [execute_of_not_isAsync isAsync]
        simpa using awaitable name
  · intro isAsync
    rw [execute_of_isAsync isAsync]
    rfl

end CompiledOperation

/-- Every error of a compiled operation is explained, on whatever schema it is run. The schema it
was compiled for serves all its call sites, and so does one in which resolvers have been replaced by
others that are no more asynchronous. -/
theorem compiled_explained {document : Document} {schema : ExecutableSchema} {options : Options}
    {artifact : Artifact} (compiles : compileDocument document schema options = .ok artifact)
    {operation : CompiledOperation} (member : operation ∈ artifact.toList) :
    schema.Serves (Expr.sitesAll operation.data) ∧
      (∀ other, schema.ReplacedBy other → other.Serves (Expr.sitesAll operation.data)) ∧
      ∀ other root, Explained operation other root := by
  obtain ⟨source, _, compiled⟩ := exists_operation_of_mem compiles member
  obtain ⟨_, _, gathers⟩ := Operation.compile_eq_ok compiled
  have classified := gathers.classified
  refine ⟨classified.serves (.refl schema), fun other replaced => classified.serves replaced, ?_⟩
  intro other root
  exact CompiledOperation.explained (compiled_follows compiles member other root)

theorem compiled_explained_people :
    ∃ artifact operation,
      compileDocument Sample.document (Sample.schema Sample.atOnce) {} = .ok artifact ∧
      operation ∈ artifact.toList ∧
      (operation.executeAsync (Sample.schema Sample.later) .null).outcome =
        .error (.unexpectedAsyncResolver ⟨Sample.query, Sample.friend⟩) ∧
      (Sample.schema Sample.atOnce).Serves (Expr.sitesAll operation.data) ∧
      (∀ other, (Sample.schema Sample.atOnce).ReplacedBy other →
        other.Serves (Expr.sitesAll operation.data)) ∧
      ∀ other root, Explained operation other root := by
  have compiles : compileDocument Sample.document (Sample.schema Sample.atOnce) {} = .ok _ := rfl
  refine ⟨_, _, compiles, List.mem_singleton.mpr rfl, rfl, ?_⟩
  exact compiled_explained compiles (List.mem_singleton.mpr rfl)

end StaticQuery
