import StaticQuery.Proofs.Compile.Artifact
import StaticQuery.Proofs.Compile.Field

/-!
Where a compiled operation waits. A call site waits exactly if its resolver is asynchronous, and
whatever stands around call sites waits exactly if one of them does.
-/

namespace StaticQuery

namespace Expr

mutual

def nodes : Expr → List Expr
  | .property source key => [.property source key]
  | .resolve site => [.resolve site]
  | .literal value => [.literal value]
  | .scope binding value selection isAsync =>
      .scope binding value selection isAsync :: (nodes value ++ nodesAll selection)

def nodesAll : Properties → List Expr
  | [] => []
  | (_, expr) :: rest => nodes expr ++ nodesAll rest

end

def site? : Expr → Option ResolverCall
  | .resolve site => some site
  | _ => none

def sites (expr : Expr) : List ResolverCall :=
  expr.nodes.filterMap site?

def sitesAll (properties : Properties) : List ResolverCall :=
  (nodesAll properties).filterMap site?

theorem sitesAll_cons (key : Name) (expr : Expr) (rest : Properties) :
    sitesAll ((key, expr) :: rest) = expr.sites ++ sitesAll rest :=
  List.filterMap_append

theorem sites_scope (binding : Binding) (value : Expr) (selection : Properties) (isAsync : Bool) :
    (Expr.scope binding value selection isAsync).sites = value.sites ++ sitesAll selection :=
  List.filterMap_append

def waits : Expr → Bool
  | .property _ _ => false
  | .literal _ => false
  | .resolve site => site.awaited
  | .scope _ _ _ isAsync => isAsync

@[simp] theorem site?_eq_some {expr : Expr} {site : ResolverCall} :
    expr.site? = some site ↔ expr = .resolve site := by
  cases expr with
  | resolve other => simp [site?]
  | _ => simp [site?]

mutual

theorem nodes_trans {inner node : Expr} (inside : node ∈ inner.nodes) :
    ∀ {outer : Expr}, inner ∈ outer.nodes → node ∈ outer.nodes
  | .property _ _, found => by
      rw [nodes, List.mem_singleton] at found
      rwa [found] at inside
  | .resolve _, found => by
      rw [nodes, List.mem_singleton] at found
      rwa [found] at inside
  | .literal _, found => by
      rw [nodes, List.mem_singleton] at found
      rwa [found] at inside
  | .scope _ value selection _, found => by
      rw [nodes, List.mem_cons, List.mem_append] at found
      rcases found with rfl | own | selected
      · exact inside
      · rw [nodes]
        exact List.mem_cons_of_mem _ (List.mem_append_left _ (nodes_trans inside own))
      · rw [nodes]
        exact List.mem_cons_of_mem _ (List.mem_append_right _ (nodesAll_trans inside selected))

theorem nodesAll_trans {inner node : Expr} (inside : node ∈ inner.nodes) :
    ∀ {properties : Properties}, inner ∈ nodesAll properties → node ∈ nodesAll properties
  | [], found => by simp [nodesAll] at found
  | (_, expr) :: rest, found => by
      rw [nodesAll, List.mem_append] at found ⊢
      rcases found with first | later
      · exact Or.inl (nodes_trans inside first)
      · exact Or.inr (nodesAll_trans inside later)

end

end Expr

structure Classified (schema : ExecutableSchema) (nodes : List Expr) (awaits : Bool) : Prop where
  sites : ∀ {site}, .resolve site ∈ nodes →
    ∃ resolve, schema.resolveFn? site.coordinate = some resolve ∧ site.awaited = resolve.isAsync
  scopes : ∀ {binding value selection isAsync}, .scope binding value selection isAsync ∈ nodes →
    (isAsync = true ↔ ∃ site ∈ value.sites ++ Expr.sitesAll selection, site.awaited = true)
  whole : awaits = true ↔ ∃ site ∈ nodes.filterMap Expr.site?, site.awaited = true

namespace Classified

variable {schema : ExecutableSchema} {first second : List Expr} {awaits later : Bool}

theorem nil : Classified schema [] false :=
  ⟨by simp, by simp, by simp⟩

theorem append (left : Classified schema first awaits) (right : Classified schema second later) :
    Classified schema (first ++ second) (awaits || later) := by
  refine ⟨?_, ?_, ?_⟩
  · intro site found
    rcases List.mem_append.mp found with before | after
    · exact left.sites before
    · exact right.sites after
  · intro binding value selection isAsync found
    rcases List.mem_append.mp found with before | after
    · exact left.scopes before
    · exact right.scopes after
  · rw [Bool.or_eq_true, left.whole, right.whole, List.filterMap_append]
    simp only [List.mem_append, or_and_right, exists_or]

theorem literal (value : Json) : Classified schema (Expr.literal value).nodes false :=
  ⟨by simp [Expr.nodes], by simp [Expr.nodes], by simp [Expr.nodes]⟩

theorem valueExpr {parent : Name} {head : FieldHead TypeRef} {plan : FieldPlan}
    (made : FieldPlan.make schema parent head = .ok plan) (emitAst : Bool)
    (nested : List (Selection TypeRef)) (source : Binding) :
    Classified schema (plan.valueExpr emitAst ⟨head, nested⟩ source).nodes plan.isAsync := by
  have planned := FieldPlan.make_eq_ok made
  cases registered : schema.resolveFn? ⟨parent, head.name⟩ with
  | none =>
      simp only [registered] at planned
      subst plan
      exact ⟨by simp [FieldPlan.valueExpr, Expr.nodes], by simp [FieldPlan.valueExpr, Expr.nodes],
        by simp [FieldPlan.valueExpr, Expr.nodes]⟩
  | some resolve =>
      simp only [registered] at planned
      subst plan
      refine ⟨?_, ?_, ?_⟩
      · intro site found
        simp only [FieldPlan.valueExpr, Expr.nodes, List.mem_singleton, Expr.resolve.injEq] at found
        subst site
        exact ⟨resolve, registered, rfl⟩
      · simp [FieldPlan.valueExpr, Expr.nodes]
      · simp [FieldPlan.valueExpr, Expr.nodes, Expr.site?]

theorem scope {value : Expr} {selection : Properties}
    (own : Classified schema value.nodes later)
    (selected : Classified schema (Expr.nodesAll selection) awaits) (binding : Binding) :
    Classified schema (Expr.scope binding value selection (awaits || later)).nodes
      (awaits || later) := by
  have inside := own.append selected
  have whole : (awaits || later) = true ↔
      ∃ site ∈ value.sites ++ Expr.sitesAll selection, site.awaited = true := by
    rw [Bool.or_comm, inside.whole, List.filterMap_append]
    rfl
  refine ⟨?_, ?_, ?_⟩
  · intro site found
    rcases List.mem_cons.mp found with same | nested
    · cases same
    · exact inside.sites nested
  · intro binding value selection isAsync found
    rcases List.mem_cons.mp found with same | nested
    · cases same
      exact whole
    · exact inside.scopes nested
  · rw [whole, Expr.nodes, List.filterMap_cons_none rfl, List.filterMap_append]
    rfl

end Classified

theorem Gathers.classified {target : Target} {depth : Nat} {parent : Name}
    {selections : List (Selection TypeRef)} {gathered : Gathered}
    (compiled : Gathers target depth parent selections gathered) :
    Classified target.schema (Expr.nodesAll gathered.properties) gathered.awaits := by
  induction compiled with
  | nil => exact .nil
  | dropped _ _ ih => exact ih
  | typename _ _ _ ih => exact (Classified.literal _).append ih
  | leaf _ _ planned _ ih => exact (Classified.valueExpr planned _ _ _).append ih
  | scope _ _ _ _ planned _ ihInner ihRest =>
      exact (Classified.scope (.valueExpr planned _ _ _) ihInner _).append ihRest

namespace Classified

variable {schema : ExecutableSchema} {properties : Properties} {awaits : Bool}

theorem exists_awaited (classified : Classified schema (Expr.nodesAll properties) awaits)
    {node : Expr} (listed : node ∈ Expr.nodesAll properties) (waits : node.waits = true) :
    ∃ site, .resolve site ∈ node.nodes ∧ site.awaited = true := by
  cases node with
  | property _ _ => simp [Expr.waits] at waits
  | literal _ => simp [Expr.waits] at waits
  | resolve site => exact ⟨site, by simp [Expr.nodes], waits⟩
  | scope binding value selection isAsync =>
      obtain ⟨site, inside, awaited⟩ := (classified.scopes listed).mp waits
      refine ⟨site, ?_, awaited⟩
      simpa [Expr.sites, Expr.sitesAll, Expr.nodes] using inside

theorem waits_of_inside (classified : Classified schema (Expr.nodesAll properties) awaits)
    {outer inner : Expr} (listed : outer ∈ Expr.nodesAll properties) (inside : inner ∈ outer.nodes)
    (waits : inner.waits = true) : outer.waits = true ∧ awaits = true := by
  obtain ⟨site, found, awaited⟩ :=
    classified.exists_awaited (Expr.nodesAll_trans inside listed) waits
  have within := Expr.nodes_trans found inside
  constructor
  · cases outer with
    | property _ _ => simp [Expr.nodes] at within
    | literal _ => simp [Expr.nodes] at within
    | resolve other =>
        rw [Expr.nodes, List.mem_singleton, Expr.resolve.injEq] at within
        rwa [within] at awaited
    | scope binding value selection isAsync =>
        refine (classified.scopes listed).mpr ⟨site, ?_, awaited⟩
        simpa [Expr.sites, Expr.sitesAll, Expr.nodes] using within
  · have anywhere := Expr.nodesAll_trans within listed
    exact classified.whole.mpr ⟨site, by simpa using anywhere, awaited⟩

end Classified

/-- In a compiled operation each call site is awaited exactly if the resolver registered for it is
asynchronous, each scope and the operation itself wait exactly if a call site in them is awaited,
and nothing that waits stands in something that does not. -/
theorem compiled_classified {document : Document} {schema : ExecutableSchema} {options : Options}
    {artifact : Artifact} (compiles : compileDocument document schema options = .ok artifact)
    {operation : CompiledOperation} (member : operation ∈ artifact.toList) :
    Classified schema (Expr.nodesAll operation.data) operation.isAsync ∧
      ∀ outer ∈ Expr.nodesAll operation.data, ∀ inner ∈ outer.nodes, inner.waits = true →
        outer.waits = true ∧ operation.isAsync = true := by
  obtain ⟨source, _, compiled⟩ := exists_operation_of_mem compiles member
  obtain ⟨_, _, gathers⟩ := Operation.compile_eq_ok compiled
  have classified := gathers.classified
  refine ⟨classified, ?_⟩
  intro outer listed inner inside waits
  exact classified.waits_of_inside listed inside waits

theorem compiled_classified_people :
    ∃ artifact operation,
      compileDocument Sample.document (Sample.schema Sample.later) {} = .ok artifact ∧
      operation ∈ artifact.toList ∧
      (operation.data.map fun property => property.2.waits) = [false, true] ∧
      Classified (Sample.schema Sample.later) (Expr.nodesAll operation.data) operation.isAsync ∧
      ∀ outer ∈ Expr.nodesAll operation.data, ∀ inner ∈ outer.nodes, inner.waits = true →
        outer.waits = true ∧ operation.isAsync = true := by
  refine ⟨_, _, rfl, List.mem_singleton.mpr rfl, rfl, ?_⟩
  have compiles : compileDocument Sample.document (Sample.schema Sample.later) {} = .ok _ := rfl
  exact compiled_classified compiles (List.mem_singleton.mpr rfl)

end StaticQuery
