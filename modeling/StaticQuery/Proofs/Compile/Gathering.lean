import StaticQuery.Proofs.Compile.Refinement

/-!
What compiled selections look like. `Gathers` lists the ways in which a selection set is compiled,
so that a property of compiled trees is shown by one case for each of them.
-/

namespace StaticQuery

inductive Gathers (target : Target) : Nat → Name → List (Selection TypeRef) → Gathered → Prop
  | nil {depth parent} : Gathers target depth parent [] .none
  | dropped {depth parent head nested rest others} :
      Directive.drop head.name head.directives = .ok true →
      Gathers target depth parent rest others →
      Gathers target depth parent (.field head nested :: rest) others
  | typename {depth parent head nested rest others} :
      Directive.drop head.name head.directives = .ok false →
      head.shape target.schema.definitions parent = .ok .typename →
      Gathers target depth parent rest others →
      Gathers target depth parent (.field head nested :: rest)
        ((Gathered.one head.responseKey (.literal (.string parent.text)) false).append others)
  | leaf {depth parent head nested rest plan others} :
      Directive.drop head.name head.directives = .ok false →
      head.shape target.schema.definitions parent = .ok .leaf →
      FieldPlan.make target.schema parent head = .ok plan →
      Gathers target depth parent rest others →
      Gathers target depth parent (.field head nested :: rest)
        ((Gathered.one head.responseKey
          (plan.valueExpr target.options.emitAst ⟨head, nested⟩ (.atDepth depth))
          plan.isAsync).append others)
  | scope {depth parent head nested rest inner plan others} :
      Directive.drop head.name head.directives = .ok false →
      head.shape target.schema.definitions parent = .ok .scope →
      depth + 1 ≤ target.options.recursionLimit →
      Gathers target (depth + 1) head.type.inner nested inner →
      FieldPlan.make target.schema parent head = .ok plan →
      Gathers target depth parent rest others →
      Gathers target depth parent (.field head nested :: rest)
        ((Gathered.one head.responseKey
          (.scope (.atDepth (depth + 1))
            (plan.valueExpr target.options.emitAst ⟨head, nested⟩ (.atDepth depth))
            inner.properties (inner.awaits || plan.isAsync))
          (inner.awaits || plan.isAsync)).append others)

@[simp] theorem Gathered.none_append (gathered : Gathered) :
    Gathered.none.append gathered = gathered := by
  simp [Gathered.none, Gathered.append]

mutual

theorem gathers_of_gatherAll {target : Target} {depth : Nat} {parent : Name} :
    ∀ {selections : List (Selection TypeRef)} {gathered : Gathered},
      Selection.gatherAll target depth parent selections = .ok gathered →
      Gathers target depth parent selections gathered
  | [], gathered, compiled => by
      simp only [Selection.gatherAll, Except.ok.injEq] at compiled
      subst gathered
      exact Gathers.nil
  | selection :: rest, gathered, compiled => by
      simp only [Selection.gatherAll, bind_eq_ok, pure_eq_ok, Except.ok.injEq] at compiled
      obtain ⟨first, firstCompiled, others, restCompiled, rfl⟩ := compiled
      exact gathers_cons firstCompiled (gathers_of_gatherAll restCompiled)

theorem gathers_cons {target : Target} {depth : Nat} {parent : Name}
    {rest : List (Selection TypeRef)} {others : Gathered} :
    ∀ {selection : Selection TypeRef} {first : Gathered},
      Selection.gather target depth parent selection = .ok first →
      Gathers target depth parent rest others →
      Gathers target depth parent (selection :: rest) (first.append others)
  | .fragmentSpread _ _, first, compiled, _ => by simp [Selection.gather] at compiled
  | .inlineFragment _ _ _, first, compiled, _ => by simp [Selection.gather] at compiled
  | .field head nested, first, compiled, others => by
      simp only [Selection.gather, bind_eq_ok] at compiled
      obtain ⟨dropped, isDropped, compiled⟩ := compiled
      cases dropped with
      | true =>
          simp only [if_true, Except.ok.injEq] at compiled
          subst first
          simpa using Gathers.dropped isDropped others
      | false =>
          simp only [Bool.false_eq_true, if_false, bind_eq_ok] at compiled
          obtain ⟨shape, hasShape, compiled⟩ := compiled
          cases shape with
          | typename =>
              simp only [Selection.gatherShaped, pure_eq_ok, Except.ok.injEq] at compiled
              subst first
              exact Gathers.typename isDropped hasShape others
          | leaf =>
              simp only [Selection.gatherShaped, bind_eq_ok, pure_eq_ok,
                Except.ok.injEq] at compiled
              obtain ⟨plan, planned, rfl⟩ := compiled
              exact Gathers.leaf isDropped hasShape planned others
          | scope =>
              simp only [Selection.gatherShaped] at compiled
              split at compiled
              · cases compiled
              · simp only [bind_eq_ok, pure_eq_ok, Except.ok.injEq] at compiled
                obtain ⟨inner, innerCompiled, plan, planned, rfl⟩ := compiled
                exact Gathers.scope isDropped hasShape (by omega)
                  (gathers_of_gatherAll innerCompiled) planned others

end

theorem Operation.compile_eq_ok {target : Target} {operation : Operation}
    {compiled : CompiledOperation} (compiles : operation.compile target = .ok compiled) :
    operation.kind = .query ∧ operation.name? = some compiled.name ∧
      Gathers target 0 operation.rootType operation.selections
        ⟨compiled.data, compiled.isAsync⟩ := by
  unfold Operation.compile at compiles
  by_cases query : operation.kind = .query
  · simp only [query, ne_eq, not_true_eq_false, if_false] at compiles
    cases named : operation.name? with
    | none => simp [named] at compiles
    | some name =>
        simp only [named, bind_eq_ok, pure_eq_ok, Except.ok.injEq] at compiles
        obtain ⟨gathered, gathers, rfl⟩ := compiles
        exact ⟨query, rfl, gathers_of_gatherAll gathers⟩
  · simp [query] at compiles

end StaticQuery
