import StaticQuery.Run.Evaluate

/-!
Runs as a monad, and when two of them agree: in their outcome and in the resolvers called, whatever
waiting happened in between.
-/

namespace StaticQuery

def Event.begun? : Event → Option Call
  | .called call => some call
  | .started call => some call
  | .waiting _ => none
  | .completed _ => none

namespace Run

variable {α β γ : Type}

theorem ok_bind (value : α) (events : List Event) (next : α → Run β) :
    (⟨.ok value, events⟩ : Run α) >>= next =
      ⟨(next value).outcome, events ++ (next value).events⟩ := rfl

instance : LawfulMonad Run := by
  refine LawfulMonad.mk' Run ?_ ?_ ?_
  · rintro α ⟨outcome, events⟩
    cases outcome with
    | error error => rfl
    | ok value => exact congrArg (Run.mk (.ok value)) (List.append_nil events)
  · intro α β value next
    rfl
  · rintro α β γ ⟨outcome, events⟩ next last
    cases outcome with
    | error error => rfl
    | ok value =>
        simp only [ok_bind]
        obtain ⟨outcome, later⟩ := next value
        cases outcome with
        | error error => rfl
        | ok value => simp only [ok_bind, List.append_assoc]

theorem outcome_bind (first : Run α) (next : α → Run β) :
    (first >>= next).outcome = first.outcome >>= fun value => (next value).outcome := by
  obtain ⟨outcome, events⟩ := first
  cases outcome with
  | error error => rfl
  | ok value => rfl

/-- Only what follows a successful outcome matters. -/
theorem bind_congr_of_ok {first : Run α} {left right : α → Run β}
    (same : ∀ value, first.outcome = .ok value → left value = right value) :
    first >>= left = first >>= right := by
  obtain ⟨outcome, events⟩ := first
  cases outcome with
  | error error => rfl
  | ok value => rw [ok_bind, ok_bind, same value rfl]

def calls (run : Run α) : List Call :=
  run.events.filterMap Event.begun?

structure Agrees (first second : Run α) : Prop where
  outcome : first.outcome = second.outcome
  calls : first.calls = second.calls

namespace Agrees

theorem refl (run : Run α) : run.Agrees run :=
  ⟨rfl, rfl⟩

theorem bind {first second : Run α} (agree : first.Agrees second) {left right : α → Run β}
    (next : ∀ value, (left value).Agrees (right value)) :
    (first >>= left).Agrees (second >>= right) := by
  obtain ⟨outcome, firstEvents⟩ := first
  obtain ⟨_, secondEvents⟩ := second
  obtain ⟨same, called⟩ := agree
  subst same
  cases outcome with
  | error error => exact ⟨rfl, called⟩
  | ok value =>
      refine ⟨(next value).outcome, ?_⟩
      have later := (next value).calls
      simp only [Run.calls] at called later
      simp only [Run.calls, ok_bind, List.filterMap_append, called, later]

end Agrees

end Run

end StaticQuery
