import StaticQuery.Proofs.Run.CallOrder

/-!
Identifiers of compiled operations. A scope binds the identifier of its own depth, and what is
selected on it reads just that one. A run therefore finds every identifier that it looks up in the
innermost frame of its environment.
-/

namespace StaticQuery

namespace Expr

def source? : Expr → Option Binding
  | .property source _ => some source
  | .resolve site => some site.source
  | .literal _ => none
  | .scope _ _ _ _ => none

/-- The expression stands directly in the innermost of `depth` selections of scopes, each of these
scopes selected in the one before, and the first among the properties. -/
inductive SelectedAt : Properties → Nat → Expr → Prop
  | here {properties key expr} : (key, expr) ∈ properties → SelectedAt properties 0 expr
  | inside {properties key binding value selection isAsync depth expr} :
      (key, .scope binding value selection isAsync) ∈ properties →
      SelectedAt selection depth expr → SelectedAt properties (depth + 1) expr

/-- Identifiers as they have to be inside of `depth` scopes: read from the innermost one, and bound
by the next. -/
def ScopedAt (limit depth : Nat) : Expr → Prop
  | .property source _ => source = .atDepth depth
  | .resolve site => site.source = .atDepth depth
  | .literal _ => True
  | .scope binding value _ _ =>
      binding = .result (depth + 1) ∧ depth + 1 ≤ limit ∧
        value.source? = some (.atDepth depth) ∧ value.source? ≠ some binding

end Expr

structure Scoped (limit depth : Nat) (properties : Properties) : Prop where
  selected : ∀ {inner expr}, Expr.SelectedAt properties inner expr →
    expr.ScopedAt limit (depth + inner)

namespace Scoped

variable {limit depth : Nat} {first second selection : Properties}

theorem nil : Scoped limit depth [] := by
  constructor
  intro inner expr selected
  cases selected with
  | here member => cases member
  | inside member _ => cases member

theorem append (one : Scoped limit depth first) (other : Scoped limit depth second) :
    Scoped limit depth (first ++ second) := by
  constructor
  intro inner expr selected
  cases selected with
  | here member =>
      rcases List.mem_append.mp member with before | after
      · exact one.selected (.here before)
      · exact other.selected (.here after)
  | inside member within =>
      rcases List.mem_append.mp member with before | after
      · exact one.selected (.inside before within)
      · exact other.selected (.inside after within)

/-- A property that is no scope. -/
theorem single {key : Name} {expr : Expr} (fits : expr.ScopedAt limit depth)
    (plain : ∀ binding value selection isAsync, expr ≠ .scope binding value selection isAsync) :
    Scoped limit depth [(key, expr)] := by
  constructor
  intro inner other selected
  cases selected with
  | here member =>
      cases List.mem_singleton.mp member
      exact fits
  | inside member _ =>
      cases List.mem_singleton.mp member
      exact absurd rfl (plain _ _ _ _)

theorem scope {key : Name} {binding : Binding} {value : Expr} {isAsync : Bool}
    (fits : (Expr.scope binding value selection isAsync).ScopedAt limit depth)
    (inside : Scoped limit (depth + 1) selection) :
    Scoped limit depth [(key, .scope binding value selection isAsync)] := by
  constructor
  intro inner other found
  cases found with
  | here member =>
      cases List.mem_singleton.mp member
      exact fits
  | @inside _ _ _ _ _ _ inner _ member within =>
      cases List.mem_singleton.mp member
      have deeper := inside.selected within
      rwa [Nat.add_assoc, Nat.add_comm 1 inner] at deeper

end Scoped

theorem Binding.atDepth_ne_succ (depth : Nat) : Binding.atDepth depth ≠ .atDepth (depth + 1) := by
  cases depth with
  | zero => simp [Binding.atDepth]
  | succ depth => simp [Binding.atDepth]

theorem FieldPlan.source?_valueExpr (plan : FieldPlan) (emitAst : Bool) (node : FieldNode)
    (source : Binding) : (plan.valueExpr emitAst node source).source? = some source := by
  unfold FieldPlan.valueExpr
  cases plan.resolver? with
  | none => rfl
  | some coordinate => rfl

theorem Scoped.of_source? {limit depth : Nat} {key : Name} {expr : Expr}
    (reads : expr.source? = some (.atDepth depth)) : Scoped limit depth [(key, expr)] := by
  cases expr with
  | property source name => exact .single (Option.some.inj reads) (by simp)
  | resolve site => exact .single (Option.some.inj reads) (by simp)
  | literal value => cases reads
  | scope binding value selection isAsync => cases reads

theorem Gathers.scoped {target : Target} {depth : Nat} {parent : Name}
    {selections : List (Selection TypeRef)} {gathered : Gathered}
    (compiled : Gathers target depth parent selections gathered) :
    Scoped target.options.recursionLimit depth gathered.properties := by
  induction compiled with
  | nil => exact .nil
  | dropped _ _ ih => exact ih
  | typename _ _ _ ih => exact Scoped.append (.single trivial (by simp)) ih
  | leaf _ _ _ _ ih => exact Scoped.append (.of_source? (FieldPlan.source?_valueExpr ..)) ih
  | @scope depth parent head nested rest inner plan others _ _ within _ _ _ ihInner ihRest =>
      refine Scoped.append (.scope ?_ ihInner) ihRest
      have reads := plan.source?_valueExpr target.options.emitAst ⟨head, nested⟩ (.atDepth depth)
      refine ⟨rfl, within, reads, ?_⟩
      rw [reads]
      intro same
      exact Binding.atDepth_ne_succ depth (Option.some.inj same)

/-! Look-ups of a run. -/

structure Lookup where
  environment : Environment
  binding : Binding

def Lookup.FoundInnermost (lookup : Lookup) : Prop :=
  ∃ value outer, lookup.environment = (lookup.binding, value) :: outer ∧
    lookup.environment.lookup lookup.binding = pure value

namespace Expr

mutual

def lookups (schema : ExecutableSchema) (canWait : Bool) (environment : Environment) :
    Expr → List Lookup
  | .property source _ => [⟨environment, source⟩]
  | .literal _ => []
  | .resolve site => [⟨environment, site.source⟩]
  | .scope binding value selection isAsync =>
      lookups schema (canWait && isAsync) environment value ++
        match (value.evaluate schema (canWait && isAsync) environment).outcome with
        | .error _ => []
        | .ok own =>
            if own.truthy then
              lookupsAll schema (canWait && isAsync) ((binding, own) :: environment) selection
            else []

def lookupsAll (schema : ExecutableSchema) (canWait : Bool) (environment : Environment) :
    Properties → List Lookup
  | [] => []
  | (_, expr) :: rest =>
      lookups schema canWait environment expr ++
        match (expr.evaluate schema canWait environment).outcome with
        | .error _ => []
        | .ok _ => lookupsAll schema canWait environment rest

end

mutual

def evaluateWith (look : Environment → Binding → Run Json) (schema : ExecutableSchema)
    (canWait : Bool) (environment : Environment) : Expr → Run Json
  | .property source key => do
      return (← look environment source).property key.text
  | .literal value => return value
  | .resolve site => do
      -- Of the environment a call needs nothing but its source.
      let source ← look environment site.source
      site.run schema (canWait && site.awaited) [(site.source, source)]
  | .scope binding value selection isAsync => do
      let own ← evaluateWith look schema (canWait && isAsync) environment value
      if own.truthy then
        let selected ← evaluateAllWith look schema (canWait && isAsync)
          ((binding, own) :: environment) [] selection
        return own.merge selected
      else return .null

def evaluateAllWith (look : Environment → Binding → Run Json) (schema : ExecutableSchema)
    (canWait : Bool) (environment : Environment) :
    Json.Object → Properties → Run Json.Object
  | done, [] => return done
  | done, (key, expr) :: rest => do
      let value ← evaluateWith look schema canWait environment expr
      evaluateAllWith look schema canWait environment (done.insert key.text value) rest

end

end Expr

theorem ResolverCall.run_eq_lookup_bind (site : ResolverCall) (schema : ExecutableSchema)
    (canWait : Bool) (environment : Environment) :
    site.run schema canWait environment =
      environment.lookup site.source >>= fun source =>
        site.run schema canWait [(site.source, source)] := by
  simp only [ResolverCall.run, Environment.lookup_innermost, pure_bind]

def AgreesOn (look : Environment → Binding → Run Json) (lookups : List Lookup) : Prop :=
  ∀ lookup ∈ lookups,
    look lookup.environment lookup.binding = lookup.environment.lookup lookup.binding

namespace AgreesOn

variable {look : Environment → Binding → Run Json} {first second : List Lookup}

theorem left (agrees : AgreesOn look (first ++ second)) : AgreesOn look first :=
  fun lookup member => agrees lookup (List.mem_append_left _ member)

theorem right (agrees : AgreesOn look (first ++ second)) : AgreesOn look second :=
  fun lookup member => agrees lookup (List.mem_append_right _ member)

mutual

theorem evaluateWith_eq (schema : ExecutableSchema) :
    ∀ {expr : Expr} {canWait : Bool} {environment : Environment},
      AgreesOn look (expr.lookups schema canWait environment) →
      expr.evaluateWith look schema canWait environment = expr.evaluate schema canWait environment
  | .property source key, canWait, environment, agrees => by
      rw [Expr.evaluateWith, Expr.evaluate, agrees ⟨environment, source⟩ List.mem_cons_self]
  | .literal value, canWait, environment, agrees => rfl
  | .resolve site, canWait, environment, agrees => by
      rw [Expr.evaluateWith, Expr.evaluate, agrees ⟨environment, site.source⟩ List.mem_cons_self,
        ← ResolverCall.run_eq_lookup_bind]
  | .scope binding value selection isAsync, canWait, environment, agrees => by
      rw [Expr.lookups] at agrees
      rw [Expr.evaluateWith, Expr.evaluate, evaluateWith_eq schema agrees.left]
      apply Run.bind_congr_of_ok
      intro own evaluated
      have inner := agrees.right
      simp only [evaluated] at inner
      cases truthy : own.truthy with
      | false => rfl
      | true =>
          rw [truthy, if_pos rfl] at inner
          rw [if_pos rfl, if_pos rfl, evaluateAllWith_eq schema inner]

theorem evaluateAllWith_eq (schema : ExecutableSchema) :
    ∀ {properties : Properties} {canWait : Bool} {environment : Environment}
      {done : Json.Object},
      AgreesOn look (Expr.lookupsAll schema canWait environment properties) →
      Expr.evaluateAllWith look schema canWait environment done properties =
        Expr.evaluateAll schema canWait environment done properties
  | [], canWait, environment, done, agrees => rfl
  | (key, expr) :: rest, canWait, environment, done, agrees => by
      rw [Expr.lookupsAll] at agrees
      rw [Expr.evaluateAllWith, Expr.evaluateAll, evaluateWith_eq schema agrees.left]
      apply Run.bind_congr_of_ok
      intro value evaluated
      have later := agrees.right
      simp only [evaluated] at later
      exact evaluateAllWith_eq schema later

end

end AgreesOn

theorem Lookup.foundInnermost (binding : Binding) (value : Json) (outer : Environment) :
    (⟨(binding, value) :: outer, binding⟩ : Lookup).FoundInnermost :=
  ⟨value, outer, rfl, Environment.lookup_innermost binding value outer⟩

namespace Scoped

variable {limit depth : Nat}

theorem of_subset {properties part : Properties} (whole : Scoped limit depth properties)
    (among : ∀ property ∈ part, property ∈ properties) : Scoped limit depth part := by
  constructor
  intro inner expr selected
  cases selected with
  | here member => exact whole.selected (.here (among _ member))
  | inside member within => exact whole.selected (.inside (among _ member) within)

theorem selection {key : Name} {binding : Binding} {value : Expr} {selection : Properties}
    {isAsync : Bool} (outer : Scoped limit depth [(key, .scope binding value selection isAsync)]) :
    Scoped limit (depth + 1) selection := by
  constructor
  intro inner expr selected
  have deeper := outer.selected (.inside List.mem_cons_self selected)
  rwa [Nat.add_comm inner 1, ← Nat.add_assoc] at deeper

mutual

theorem lookups_found (schema : ExecutableSchema) :
    ∀ {expr : Expr} {key : Name} {depth : Nat} {canWait : Bool} {current : Json}
      {outer : Environment}, Scoped limit depth [(key, expr)] →
      ∀ lookup ∈ expr.lookups schema canWait ((.atDepth depth, current) :: outer),
        lookup.FoundInnermost
  | .property source name, key, depth, canWait, current, outer, inScope => by
      have source : source = .atDepth depth := inScope.selected (.here List.mem_cons_self)
      intro lookup member
      rw [Expr.lookups, List.mem_singleton] at member
      rw [member, source]
      exact Lookup.foundInnermost _ _ _
  | .literal value, key, depth, canWait, current, outer, inScope => by
      intro lookup member
      rw [Expr.lookups] at member
      cases member
  | .resolve site, key, depth, canWait, current, outer, inScope => by
      have source : site.source = .atDepth depth := inScope.selected (.here List.mem_cons_self)
      intro lookup member
      rw [Expr.lookups, List.mem_singleton] at member
      rw [member, source]
      exact Lookup.foundInnermost _ _ _
  | .scope binding value selection isAsync, key, depth, canWait, current, outer, inScope => by
      obtain ⟨rfl, _, reads, _⟩ := inScope.selected (.here List.mem_cons_self)
      intro lookup member
      rw [Expr.lookups, List.mem_append] at member
      rcases member with own | selected
      · have value : Scoped limit depth [(key, value)] := .of_source? reads
        exact lookups_found schema value lookup own
      · split at selected
        · cases selected
        · split at selected
          · exact lookupsAll_found schema inScope.selection lookup selected
          · cases selected

theorem lookupsAll_found (schema : ExecutableSchema) :
    ∀ {properties : Properties} {depth : Nat} {canWait : Bool} {current : Json}
      {outer : Environment}, Scoped limit depth properties →
      ∀ lookup ∈ Expr.lookupsAll schema canWait ((.atDepth depth, current) :: outer) properties,
        lookup.FoundInnermost
  | [], depth, canWait, current, outer, inScope => by
      intro lookup member
      rw [Expr.lookupsAll] at member
      cases member
  | (key, expr) :: rest, depth, canWait, current, outer, inScope => by
      intro lookup member
      rw [Expr.lookupsAll, List.mem_append] at member
      rcases member with first | later
      · have one : Scoped limit depth [(key, expr)] := inScope.of_subset (by simp)
        exact lookups_found schema one lookup first
      · split at later
        · cases later
        · have others : Scoped limit depth rest :=
            inScope.of_subset fun property member => List.mem_cons_of_mem _ member
          exact lookupsAll_found schema others lookup later

end

end Scoped

namespace CompiledOperation

def lookups (operation : CompiledOperation) (schema : ExecutableSchema) (root : Json) :
    List Lookup :=
  Expr.lookupsAll schema operation.isAsync [(.rootValue, root)] operation.data

def runWith (look : Environment → Binding → Run Json) (operation : CompiledOperation)
    (schema : ExecutableSchema) (root : Json) : Run Response := do
  let data ← Expr.evaluateAllWith look schema operation.isAsync [(.rootValue, root)] []
    operation.data
  return ⟨data⟩

end CompiledOperation

/-- In a compiled operation each scope binds the identifier of its depth, within the limit, and what
stands in it reads that identifier and no other. On whatever schema it is run, every look-up finds
its identifier in the innermost frame, and no look-up but these matters to the run. -/
theorem compiled_well_scoped {document : Document} {schema : ExecutableSchema} {options : Options}
    {artifact : Artifact} (compiles : compileDocument document schema options = .ok artifact)
    {operation : CompiledOperation} (member : operation ∈ artifact.toList) :
    (∀ depth expr, Expr.SelectedAt operation.data depth expr →
      expr.ScopedAt options.recursionLimit depth) ∧
    ∀ other root,
      (∀ lookup ∈ operation.lookups other root, lookup.FoundInnermost) ∧
      ∀ look, AgreesOn look (operation.lookups other root) →
        operation.runWith look other root = operation.executeAsync other root := by
  obtain ⟨source, _, compiled⟩ := exists_operation_of_mem compiles member
  obtain ⟨_, _, gathers⟩ := Operation.compile_eq_ok compiled
  have inScope := gathers.scoped
  refine ⟨?_, ?_⟩
  · intro depth expr selected
    simpa using inScope.selected selected
  · intro other root
    refine ⟨inScope.lookupsAll_found other, ?_⟩
    intro look agrees
    rw [CompiledOperation.runWith, agrees.evaluateAllWith_eq other, operation.executeAsync_eq_run]
    rfl

theorem compiled_well_scoped_people :
    ∃ artifact operation,
      compileDocument Sample.document (Sample.schema Sample.later) {} = .ok artifact ∧
      operation ∈ artifact.toList ∧
      (operation.lookups (Sample.schema Sample.later)
        (.object [("viewer", .object [])])).map Lookup.binding =
          [.rootValue, .result 1, .rootValue, .result 1] ∧
      (∀ depth expr, Expr.SelectedAt operation.data depth expr → expr.ScopedAt 512 depth) ∧
      ∀ other root,
        (∀ lookup ∈ operation.lookups other root, lookup.FoundInnermost) ∧
        ∀ look, AgreesOn look (operation.lookups other root) →
          operation.runWith look other root = operation.executeAsync other root := by
  have compiles : compileDocument Sample.document (Sample.schema Sample.later) {} = .ok _ := rfl
  refine ⟨_, _, compiles, List.mem_singleton.mpr rfl, rfl, ?_⟩
  exact compiled_well_scoped compiles (List.mem_singleton.mpr rfl)

end StaticQuery
