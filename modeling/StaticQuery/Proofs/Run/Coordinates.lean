import StaticQuery.Proofs.Plan.Registration
import StaticQuery.Proofs.Run.Failure

/-!
What a run reads of a schema: the resolvers at the coordinates of the operation's call sites. How a
field is resolved was settled when it was compiled, so a resolver that comes later is not called
where there was none.
-/

namespace StaticQuery

def ExecutableSchema.SharesResolvers (first second : ExecutableSchema)
    (sites : List ResolverCall) : Prop :=
  ∀ site ∈ sites, first.resolveFn? site.coordinate = second.resolveFn? site.coordinate

namespace ExecutableSchema.SharesResolvers

variable {first second : ExecutableSchema}

theorem of_subset {sites part : List ResolverCall} (shared : first.SharesResolvers second sites)
    (among : part ⊆ sites) : first.SharesResolvers second part :=
  fun site member => shared site (among member)

theorem run_eq {site : ResolverCall}
    (same : first.resolveFn? site.coordinate = second.resolveFn? site.coordinate) (canWait : Bool)
    (environment : Environment) :
    site.run first canWait environment = site.run second canWait environment := by
  unfold ResolverCall.run
  rw [same]

mutual

theorem evaluate_eq :
    ∀ {expr : Expr}, first.SharesResolvers second expr.sites →
      ∀ (canWait : Bool) (environment : Environment),
        expr.evaluate first canWait environment = expr.evaluate second canWait environment
  | .property _ _, _, _, _ => by rw [Expr.evaluate, Expr.evaluate]
  | .literal _, _, _, _ => by rw [Expr.evaluate, Expr.evaluate]
  | .resolve site, shared, canWait, environment => by
      have same := shared site List.mem_cons_self
      rw [Expr.evaluate, Expr.evaluate, run_eq same]
  | .scope binding value selection isAsync, shared, canWait, environment => by
      rw [Expr.sites_scope] at shared
      have own := evaluate_eq (shared.of_subset (List.subset_append_left _ _))
      have selected := evaluateAll_eq (shared.of_subset (List.subset_append_right _ _))
      simp only [Expr.evaluate, own, selected]

theorem evaluateAll_eq :
    ∀ {properties : Properties}, first.SharesResolvers second (Expr.sitesAll properties) →
      ∀ (canWait : Bool) (environment : Environment) (done : Json.Object),
        Expr.evaluateAll first canWait environment done properties =
          Expr.evaluateAll second canWait environment done properties
  | [], _, _, _, _ => by rw [Expr.evaluateAll, Expr.evaluateAll]
  | (key, expr) :: rest, shared, canWait, environment, done => by
      rw [Expr.sitesAll_cons] at shared
      have one := evaluate_eq (shared.of_subset (List.subset_append_left _ _))
      have others := evaluateAll_eq (shared.of_subset (List.subset_append_right _ _))
      simp only [Expr.evaluateAll, one, others]

end

theorem invoke_eq {operation : CompiledOperation}
    (shared : first.SharesResolvers second (Expr.sitesAll operation.data)) (root : Json) :
    operation.invoke first root = operation.invoke second root := by
  simp only [CompiledOperation.invoke, CompiledOperation.run, evaluateAll_eq shared]

end ExecutableSchema.SharesResolvers

namespace ExecutableSchema

theorem resolveFn?_register {schema later : ExecutableSchema} {coordinate other : Coordinate}
    {config : FieldConfig}
    (registered : schema.register coordinate.type.text coordinate.field.text config = .ok later)
    (different : coordinate ≠ other) : later.resolveFn? other = schema.resolveFn? other := by
  unfold register at registered
  split at registered
  · cases registered
  · rename_i written found
    obtain ⟨⟨type, field⟩, _⟩ := definedCoordinate?_eq_some_iff.mp found
    obtain rfl : written = coordinate := Coordinate.eq_of_texts (by rw [type, field])
    cases registered
    rw [resolveFn?, resolveFn?, OrderedMap.get?_insert_of_ne _ _ different]

end ExecutableSchema

/-! The calls of a run are made at call sites. -/

theorem Placed.eq_on_of_call? {schema : ExecutableSchema} {canWait : Bool}
    {environment : Environment} {current : Json} {placed : Placed} {call : Call}
    (made : placed.call? schema canWait environment current = .ok (some call)) :
    ∃ source, call = placed.site.on source := by
  unfold Placed.call? at made
  cases selected : Enclosing.selectedOn schema canWait environment current placed.enclosing with
  | error error => simp [selected, Except.map] at made
  | ok source? =>
      simp only [selected, Except.map, Except.ok.injEq, Option.map_eq_some_iff] at made
      obtain ⟨source, _, rfl⟩ := made
      exact ⟨source, rfl⟩

/-- A run that may not wait calls what one that may wait calls, or nothing at all. -/
theorem CompiledOperation.calls_execute_subset (operation : CompiledOperation)
    (schema : ExecutableSchema) (root : Json) :
    (operation.execute schema root).calls ⊆ (operation.executeAsync schema root).calls := by
  cases isAsync : operation.isAsync with
  | true =>
      rw [execute_of_isAsync isAsync]
      exact List.nil_subset _
  | false =>
      rw [execute_of_not_isAsync isAsync]
      exact List.Subset.refl _

section

variable {document : Document} {schema : ExecutableSchema} {options : Options}
  {artifact : Artifact} {operation : CompiledOperation}

/-- Whatever is called is called at a site, with the site's own arguments. -/
theorem exists_site_of_call (compiles : compileDocument document schema options = .ok artifact)
    (member : operation ∈ artifact.toList) {runtime : ExecutableSchema} {root : Json} {call : Call}
    (called : call ∈ (operation.executeAsync runtime root).calls) :
    ∃ site ∈ Expr.sitesAll operation.data, ∃ source, call = site.on source := by
  obtain ⟨_, among, made⟩ :=
    (compiled_follows compiles member runtime root).exists_sublist
  obtain ⟨placed, listed, reached⟩ := exists_left_of_forall₂ made called
  have site : placed.site ∈ Expr.sitesAll operation.data := by
    rw [← Expr.map_site_placedAll]
    exact List.mem_map_of_mem (among.subset listed)
  exact ⟨placed.site, site, Placed.eq_on_of_call? reached⟩

/-- Every call site was compiled for a resolver. -/
theorem site_coordinate_ne (compiles : compileDocument document schema options = .ok artifact)
    (member : operation ∈ artifact.toList) {coordinate : Coordinate}
    (unresolved : schema.resolveFn? coordinate = none) {site : ResolverCall}
    (listed : site ∈ Expr.sitesAll operation.data) : site.coordinate ≠ coordinate := by
  obtain ⟨_, _, compiled⟩ := exists_operation_of_mem compiles member
  obtain ⟨_, _, gathers⟩ := Operation.compile_eq_ok compiled
  have node : .resolve site ∈ Expr.nodesAll operation.data := by simpa [Expr.sitesAll] using listed
  obtain ⟨resolve, registered, _⟩ := gathers.classified.sites node
  rintro rfl
  rw [unresolved] at registered
  cases registered

end

/-- A resolver that is registered where an operation was compiled without one changes nothing. -/
structure CompiledOperation.Overlooks (operation : CompiledOperation) (coordinate : Coordinate)
    (runtime : ExecutableSchema) (root : Json) : Prop where
  uncalled : ∀ call ∈ (operation.executeAsync runtime root).calls, call.coordinate ≠ coordinate
  uncalledAtOnce : ∀ call ∈ (operation.execute runtime root).calls, call.coordinate ≠ coordinate
  unchanged : ∀ config later,
    runtime.register coordinate.type.text coordinate.field.text config = .ok later →
      operation.invoke later root = operation.invoke runtime root

theorem compiled_overlooks {document : Document} {schema : ExecutableSchema} {options : Options}
    {artifact : Artifact} (compiles : compileDocument document schema options = .ok artifact)
    {operation : CompiledOperation} (member : operation ∈ artifact.toList)
    {coordinate : Coordinate} (unresolved : schema.resolveFn? coordinate = none)
    (runtime : ExecutableSchema) (root : Json) : operation.Overlooks coordinate runtime root := by
  have uncalled : ∀ call ∈ (operation.executeAsync runtime root).calls,
      call.coordinate ≠ coordinate := by
    intro call called
    obtain ⟨site, listed, source, rfl⟩ := exists_site_of_call compiles member called
    exact site_coordinate_ne compiles member unresolved listed
  refine ⟨uncalled, ?_, ?_⟩
  · intro call called
    exact uncalled call (operation.calls_execute_subset runtime root called)
  · intro config later registered
    refine ExecutableSchema.SharesResolvers.invoke_eq ?_ root
    intro site listed
    have different := site_coordinate_ne compiles member unresolved listed
    exact ExecutableSchema.resolveFn?_register registered different.symm

/-- A document compiles by the capabilities at its own coordinates, and an operation runs by the
resolvers at its call sites, whatever else the schemas hold. So a resolver that is registered only
after a field was compiled without one is never called. -/
theorem only_mentioned_coordinates_matter (document : Document) (options : Options) :
    (∀ first second : ExecutableSchema,
      first.CapableAs second (document.coordinates first.definitions) →
      compileDocument document first options = compileDocument document second options) ∧
    (∀ (operation : CompiledOperation) (root : Json) (first second : ExecutableSchema),
      first.SharesResolvers second (Expr.sitesAll operation.data) →
      (operation.invoke first root).isDeferred = (operation.invoke second root).isDeferred ∧
        operation.execute first root = operation.execute second root ∧
        operation.executeAsync first root = operation.executeAsync second root) ∧
    ∀ schema artifact, compileDocument document schema options = .ok artifact →
      ∀ operation ∈ artifact.toList, ∀ coordinate, schema.resolveFn? coordinate = none →
        ∀ runtime root, operation.Overlooks coordinate runtime root := by
  refine ⟨?_, ?_, ?_⟩
  · intro first second capable
    exact capable.compileDocument_eq options
  · intro operation root first second shared
    have same := shared.invoke_eq root
    exact ⟨by rw [same], by rw [CompiledOperation.execute, same, CompiledOperation.execute],
      by rw [CompiledOperation.executeAsync, same, CompiledOperation.executeAsync]⟩
  · intro schema artifact compiles operation member coordinate unresolved runtime root
    exact compiled_overlooks compiles member unresolved runtime root

/-! A schema that differs from the one compiled for in everything that the sample does not use. -/

def Sample.extended : ExecutableSchema :=
  ⟨Sample.definitions, [
    (⟨Sample.user, Sample.number⟩, ⟨some Sample.later⟩),
    (⟨Sample.query, Sample.friend⟩, ⟨some (.async (Resolver.delayed 1 Resolver.echoArguments))⟩)]⟩

def Sample.bare : ExecutableSchema :=
  ⟨⟨[], [], none, none, none⟩, Sample.extended.fields⟩

theorem only_mentioned_coordinates_matter_people :
    Sample.document.coordinates Sample.definitions =
      [⟨Sample.query, Sample.viewer⟩, ⟨Sample.user, Sample.name⟩, ⟨Sample.query, Sample.friend⟩,
        ⟨Sample.user, Sample.name⟩] ∧
    ∃ artifact operation,
      compileDocument Sample.document (Sample.schema Sample.later) {} = .ok artifact ∧
      compileDocument Sample.document Sample.extended {} = .ok artifact ∧
      operation ∈ artifact.toList ∧
      operation.executeAsync Sample.extended .null = operation.executeAsync Sample.bare .null ∧
      operation.Overlooks ⟨Sample.query, Sample.viewer⟩ Sample.extended .null := by
  have compiles : compileDocument Sample.document (Sample.schema Sample.later) {} = .ok _ := rfl
  obtain ⟨compiling, running, overlooking⟩ :=
    only_mentioned_coordinates_matter Sample.document {}
  have capable : (Sample.schema Sample.later).CapableAs Sample.extended
      (Sample.document.coordinates Sample.definitions) := ⟨rfl, by decide⟩
  have shared (sites : List ResolverCall) : Sample.extended.SharesResolvers Sample.bare sites :=
    fun _ _ => rfl
  refine ⟨rfl, _, _, compiles, (compiling _ _ capable).symm.trans compiles,
    List.mem_singleton.mpr rfl, (running _ .null _ _ (shared _)).2.2, ?_⟩
  exact overlooking _ _ compiles _ (List.mem_singleton.mpr rfl) _ rfl _ _

end StaticQuery
