import StaticQuery.Proofs.Compile.Editing
import StaticQuery.Proofs.Run.Similarity

/-!
Aliases name the keys of a response and nothing else. Documents that differ in them compile alike up
to these keys, and their operations make the same calls and fail alike on every schema.
-/

namespace StaticQuery

def Name.blank : Name := ⟨"_", by decide⟩

def Artifact.withoutKeys (artifact : Artifact) : Artifact :=
  artifact.revise (fun _ => Name.blank) id

def FieldHead.unaliased : FieldEdit := fun head =>
  some { head with alias? := none }

def Document.unaliased (document : Document) : Document :=
  document.edit FieldHead.unaliased

theorem FieldHead.unseen_unaliased :
    FieldHead.unaliased.Unseen false false (fun _ => Name.blank) id where
  removed := by simp [FieldHead.unaliased]
  kept := by
    rintro head _ ⟨⟩
    exact ⟨none, head.directives, rfl, rfl, rfl⟩
  told _ _ _ := rfl

theorem FieldPlan.revise_valueExpr_id (plan : FieldPlan) (rename : Name → Name) (emitAst : Bool)
    (node : FieldNode) (source : Binding) :
    (plan.valueExpr emitAst node source).revise rename id = plan.valueExpr emitAst node source := by
  unfold FieldPlan.valueExpr
  cases plan.resolver? with
  | none => rfl
  | some coordinate => rfl

/-- Response keys have no part in what is called. What is selected goes into the value of a scope
only after all of it is evaluated, so no own value depends on them. -/
theorem Gathers.similar_renamed {target : Target} {depth : Nat} {parent : Name}
    {selections : List (Selection TypeRef)} {gathered : Gathered}
    (compiled : Gathers target depth parent selections gathered) (rename : Name → Name)
    (schema : ExecutableSchema) (canWait : Bool) (environment : Environment)
    (done renamed : Json.Object) :
    (Expr.evaluateAll schema canWait environment done gathered.properties).Similar
      (fun _ _ => True) id
      (Expr.evaluateAll schema canWait environment renamed
        (Expr.reviseAll rename id gathered.properties)) := by
  induction compiled generalizing canWait environment done renamed with
  | nil => exact .pure trivial
  | dropped _ _ ih => exact ih canWait environment done renamed
  | typename _ _ _ ih =>
      simp only [Gathered.append, Gathered.one, List.singleton_append, Expr.reviseAll,
        Expr.revise, Expr.evaluateAll, Expr.evaluate, pure_bind]
      exact ih canWait environment _ _
  | leaf _ _ _ _ ih =>
      simp only [Gathered.append, Gathered.one, List.singleton_append, Expr.reviseAll,
        FieldPlan.revise_valueExpr_id, Expr.evaluateAll]
      refine (Run.Similar.refl (fun _ => rfl) _ _).bind ?_
      rintro value _ rfl
      exact ih canWait environment _ _
  | @scope depth _ _ _ _ _ _ _ _ _ _ _ _ _ ihInner ihRest =>
      simp only [Gathered.append, Gathered.one, List.singleton_append, Expr.reviseAll,
        Expr.revise, FieldPlan.revise_valueExpr_id, Expr.evaluateAll, Expr.evaluate]
      refine Run.Similar.bind ?_ fun (_ : True) => ihRest canWait environment _ _
      refine (Run.Similar.refl (fun _ => rfl) _ _).bind ?_
      rintro own _ rfl
      cases own.truthy with
      | false => exact .pure trivial
      | true =>
          simp only [if_true]
          exact (ihInner _ ((.atDepth (depth + 1), own) :: environment) [] []).bind
            fun _ => .pure trivial

theorem Operation.executeAsync_renamed {target : Target} {operation : Operation}
    {compiled : CompiledOperation} (compiles : operation.compile target = .ok compiled)
    (rename : Name → Name) (schema : ExecutableSchema) (root : Json) :
    (compiled.executeAsync schema root).Similar (fun _ _ => True) id
      ((compiled.revise rename id).executeAsync schema root) := by
  obtain ⟨_, _, gathers⟩ := Operation.compile_eq_ok compiles
  rw [CompiledOperation.executeAsync_eq_run, CompiledOperation.executeAsync_eq_run,
    CompiledOperation.run, CompiledOperation.run]
  exact (gathers.similar_renamed rename schema compiled.isAsync [(.rootValue, root)] [] []).bind
    fun _ => .pure trivial

/-- Two operations that differ in aliases compile alike up to response keys, and run alike up to
the values that they give. -/
theorem Operation.compile_alike_of_unaliased {first second : Operation}
    (same : first.edit FieldHead.unaliased = second.edit FieldHead.unaliased)
    (schema : ExecutableSchema) (limit : Nat) :
    Alike (fun left right =>
        left.revise (fun _ => Name.blank) id = right.revise (fun _ => Name.blank) id ∧
        ∀ runtime root,
          CompiledOperation.RunsLike (fun _ _ => True) id runtime root left right)
      (first.compile ⟨schema, ⟨false, limit⟩⟩) (second.compile ⟨schema, ⟨false, limit⟩⟩) := by
  have one := FieldHead.unseen_unaliased.compile_alike schema limit first
  have other := FieldHead.unseen_unaliased.compile_alike schema limit second
  rw [same] at one
  refine (one.trans (other.symm Eq.symm) Eq.trans).imp ?_
  intro left right leftCompiles rightCompiles revised
  refine ⟨revised, ?_⟩
  intro runtime root
  have leftRuns := Operation.executeAsync_renamed leftCompiles (fun _ => .blank) runtime root
  have rightRuns := Operation.executeAsync_renamed rightCompiles (fun _ => .blank) runtime root
  rw [revised] at leftRuns
  obtain ⟨names, waits, _⟩ := CompiledOperation.mk.inj revised
  exact CompiledOperation.runsLike_of_awaited names waits
    (leftRuns.trans (rightRuns.symm fun _ => trivial) fun _ _ => trivial)

/-- Documents that differ only in aliases give the same error, or artifacts that differ only in
response keys; and on every schema their operations make the same calls and fail with the same
error, if they fail. -/
theorem aliases_rename_only {first second : Document}
    (same : first.unaliased = second.unaliased) (schema : ExecutableSchema) (limit : Nat) :
    Alike (fun left right =>
        left.withoutKeys = right.withoutKeys ∧
        List.Forall₂ (fun left right => ∀ runtime root,
          CompiledOperation.RunsLike (fun _ _ => True) id runtime root left right)
          left.toList right.toList)
      (compileDocument first schema { emitAst := false, recursionLimit := limit })
      (compileDocument second schema { emitAst := false, recursionLimit := limit }) := by
  have edited : first.operations.map (Operation.edit FieldHead.unaliased) =
      second.operations.map (Operation.edit FieldHead.unaliased) := Document.mk.inj same
  rw [← List.forall₂_eq_eq_eq, List.forall₂_map_left_iff, List.forall₂_map_right_iff] at edited
  have compiled := compileDocument_alike_of_forall₂
    (fun operations => CompiledOperation.name_eq_of_revise operations.1)
    (edited.imp fun _ _ alike => Operation.compile_alike_of_unaliased alike schema limit)
  refine compiled.imp ?_
  intro left right _ _ entries
  refine ⟨Artifact.revise_eq_of_forall₂ (entries.imp fun _ _ entry => ⟨entry.1, entry.2.1⟩), ?_⟩
  simp only [Artifact.toList, List.forall₂_map_left_iff, List.forall₂_map_right_iff]
  exact entries.imp fun _ _ entry => entry.2.2

-- query People { friend: viewer { number: name } viewer: friend(number: 7) { name } }
def Sample.aliased : Document where
  operations := [⟨.query, some people, query, [
    .field ⟨some friend, viewer, .named user false, [], []⟩
      [.field ⟨some number, name, .named text false, [], []⟩ []],
    .field ⟨some viewer, friend, .named user false, [(number, .int "7")], []⟩ [nameField]]⟩]

theorem aliases_rename_only_people :
    Sample.document.unaliased = Sample.aliased.unaliased ∧
      ∃ left right,
        compileDocument Sample.document (Sample.schema Sample.later) { emitAst := false } =
          .ok left ∧
        compileDocument Sample.aliased (Sample.schema Sample.later) { emitAst := false } =
          .ok right ∧
        (left.toList.map fun compiled => compiled.data.map Prod.fst) =
          [[Sample.viewer, Sample.friend]] ∧
        (right.toList.map fun compiled => compiled.data.map Prod.fst) =
          [[Sample.friend, Sample.viewer]] ∧
        left.withoutKeys = right.withoutKeys ∧
        List.Forall₂ (fun left right => ∀ runtime root,
          CompiledOperation.RunsLike (fun _ _ => True) id runtime root left right)
          left.toList right.toList := by
  have same : Sample.document.unaliased = Sample.aliased.unaliased := rfl
  have leftCompiles : compileDocument Sample.document (Sample.schema Sample.later)
      { emitAst := false } = .ok _ := rfl
  have rightCompiles : compileDocument Sample.aliased (Sample.schema Sample.later)
      { emitAst := false } = .ok _ := rfl
  have both := aliases_rename_only same (Sample.schema Sample.later) 512
  have facts := both.values leftCompiles rightCompiles
  exact ⟨same, _, _, leftCompiles, rightCompiles, rfl, rfl, facts.1, facts.2⟩

end StaticQuery
