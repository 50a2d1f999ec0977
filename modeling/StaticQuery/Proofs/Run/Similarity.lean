import StaticQuery.Proofs.Outcome
import StaticQuery.Proofs.Run.Failure

/-!
Runs that end alike and make the same calls, as far as one looks at their values and calls. With the
relation and the view left open, this says how runs of two operations are to be compared.
-/

namespace StaticQuery

namespace Run

variable {α β γ : Type}

/-- Both fail with the same error or both succeed, with related values; and they make the same
calls, as far as they are looked at. -/
structure Similar {δ : Type} (related : α → β → Prop) (view : Call → δ) (first : Run α)
    (second : Run β) : Prop where
  outcome : Alike related first.outcome second.outcome
  calls : first.calls.map view = second.calls.map view

namespace Similar

variable {δ : Type} {related : α → β → Prop} {view : Call → δ} {first : Run α} {second : Run β}

theorem refl {related : α → α → Prop} (same : ∀ value, related value value) (view : Call → δ)
    (run : Run α) : run.Similar related view run :=
  ⟨Alike.refl same run.outcome, rfl⟩

theorem pure {left : α} {right : β} (values : related left right) :
    Similar related view (Pure.pure left : Run α) (Pure.pure right : Run β) :=
  ⟨.ok values, rfl⟩

theorem symm {flipped : β → α → Prop} (similar : Similar related view first second)
    (flip : ∀ {left right}, related left right → flipped right left) :
    Similar flipped view second first :=
  ⟨similar.outcome.symm flip, similar.calls.symm⟩

theorem trans {third : Run γ} {related' : β → γ → Prop} {composed : α → γ → Prop}
    (similar : Similar related view first second) (later : Similar related' view second third)
    (compose : ∀ {left middle right}, related left middle → related' middle right →
      composed left right) : Similar composed view first third :=
  ⟨similar.outcome.trans later.outcome compose, similar.calls.trans later.calls⟩

theorem bind {α' β' : Type} {related' : α' → β' → Prop}
    (similar : Similar related view first second) {next : α → Run α'} {next' : β → Run β'}
    (later : ∀ {left right}, related left right →
      Similar related' view (next left) (next' right)) :
    Similar related' view (first >>= next) (second >>= next') := by
  obtain ⟨firstOutcome, firstEvents⟩ := first
  obtain ⟨secondOutcome, secondEvents⟩ := second
  obtain ⟨outcomes, called⟩ := similar
  cases outcomes with
  | error error => exact ⟨.error error, called⟩
  | ok values =>
      have rest := later values
      refine ⟨rest.outcome, ?_⟩
      have calledLater := rest.calls
      simp only [Run.calls] at called calledLater
      simp only [Run.calls, ok_bind, List.filterMap_append, List.map_append, called, calledLater]

end Similar

end Run

namespace CompiledOperation

structure RunsLike {δ : Type} (related : Response → Response → Prop) (view : Call → δ)
    (schema : ExecutableSchema) (root : Json) (first second : CompiledOperation) : Prop where
  awaited : (first.executeAsync schema root).Similar related view (second.executeAsync schema root)
  immediate : (first.execute schema root).Similar related view (second.execute schema root)

theorem runsLike_of_awaited {δ : Type} {related : Response → Response → Prop} {view : Call → δ}
    {schema : ExecutableSchema} {root : Json} {first second : CompiledOperation}
    (names : first.name = second.name) (waits : first.isAsync = second.isAsync)
    (awaited : (first.executeAsync schema root).Similar related view
      (second.executeAsync schema root)) :
    RunsLike related view schema root first second := by
  refine ⟨awaited, ?_⟩
  cases isAsync : first.isAsync with
  | true =>
      rw [execute_of_isAsync isAsync, execute_of_isAsync (waits.symm.trans isAsync), names]
      exact ⟨.error _, rfl⟩
  | false =>
      rw [execute_of_not_isAsync isAsync, execute_of_not_isAsync (waits.symm.trans isAsync)]
      exact awaited

end CompiledOperation

end StaticQuery
