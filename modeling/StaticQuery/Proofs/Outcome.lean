import Mathlib.Data.List.Forall2

/-!
Computations that end in a value or an error, and pairs of them that end alike.
-/

namespace StaticQuery

section

variable {ε α β : Type}

@[simp] theorem bind_ok (value : α) (next : α → Except ε β) :
    (Except.ok value >>= next) = next value := rfl

@[simp] theorem bind_error (error : ε) (next : α → Except ε β) :
    (Except.error error >>= next) = Except.error error := rfl

@[simp] theorem pure_eq_ok (value : α) : (pure value : Except ε α) = Except.ok value := rfl

theorem bind_eq_ok {first : Except ε α} {next : α → Except ε β} {result : β} :
    (first >>= next) = .ok result ↔ ∃ value, first = .ok value ∧ next value = .ok result := by
  cases first with
  | error error => simp
  | ok value => simp

/-- Only what follows a successful first part matters. -/
theorem bind_congr_of_ok {first : Except ε α} {next next' : α → Except ε β}
    (same : ∀ value, first = .ok value → next value = next' value) :
    first >>= next = first >>= next' := by
  cases first with
  | error error => rfl
  | ok value => exact same value rfl

theorem mapM_eq_ok_iff {step : α → Except ε β} {inputs : List α} {results : List β} :
    inputs.mapM step = .ok results ↔
      List.Forall₂ (fun input result => step input = .ok result) inputs results := by
  induction inputs generalizing results with
  | nil =>
      simp only [List.mapM_nil, pure_eq_ok, Except.ok.injEq, List.forall₂_nil_left_iff]
      exact eq_comm
  | cons input rest ih =>
      simp only [List.mapM_cons, bind_eq_ok, pure_eq_ok, Except.ok.injEq,
        List.forall₂_cons_left_iff, ih]
      constructor
      · rintro ⟨first, firstOk, others, othersOk, rfl⟩
        exact ⟨first, others, firstOk, othersOk, rfl⟩
      · rintro ⟨first, others, firstOk, othersOk, rfl⟩
        exact ⟨first, firstOk, others, othersOk, rfl⟩

theorem mapM_congr {step step' : α → Except ε β} {inputs : List α}
    (same : ∀ input ∈ inputs, step input = step' input) :
    inputs.mapM step = inputs.mapM step' := by
  induction inputs with
  | nil => rfl
  | cons input rest ih =>
      obtain ⟨one, others⟩ := List.forall_mem_cons.mp same
      rw [List.mapM_cons, List.mapM_cons, one, ih others]

theorem exists_mapM_eq_ok_iff {step : α → Except ε β} {inputs : List α} :
    (∃ results, inputs.mapM step = .ok results) ↔
      ∀ input ∈ inputs, ∃ result, step input = .ok result := by
  induction inputs with
  | nil => simp
  | cons input rest ih =>
      simp only [List.mapM_cons, bind_eq_ok, pure_eq_ok, Except.ok.injEq, List.forall_mem_cons,
        ← ih]
      constructor
      · rintro ⟨_, first, firstOk, others, othersOk, rfl⟩
        exact ⟨⟨first, firstOk⟩, others, othersOk⟩
      · rintro ⟨⟨first, firstOk⟩, others, othersOk⟩
        exact ⟨first :: others, first, firstOk, others, othersOk, rfl⟩

/-- A traversal fails as the first of its steps that fails, and later steps do not matter. -/
theorem mapM_eq_error_iff {step : α → Except ε β} {inputs : List α} {error : ε} :
    inputs.mapM step = .error error ↔
      ∃ before failing after, inputs = before ++ failing :: after ∧
        (∀ input ∈ before, ∃ result, step input = .ok result) ∧ step failing = .error error := by
  constructor
  · intro failed
    induction inputs with
    | nil => simp at failed
    | cons input rest ih =>
        rw [List.mapM_cons] at failed
        cases first : step input with
        | error other =>
            rw [first, bind_error, Except.error.injEq] at failed
            subst error
            exact ⟨[], input, rest, rfl, by simp, first⟩
        | ok value =>
            rw [first, bind_ok] at failed
            cases others : rest.mapM step with
            | ok values => simp [others] at failed
            | error other =>
                rw [others, bind_error, Except.error.injEq] at failed
                subst error
                obtain ⟨before, failing, after, rfl, succeed, fails⟩ := ih others
                refine ⟨input :: before, failing, after, rfl, ?_, fails⟩
                exact List.forall_mem_cons.mpr ⟨⟨value, first⟩, succeed⟩
  · rintro ⟨before, failing, after, rfl, succeed, fails⟩
    obtain ⟨values, earlier⟩ := exists_mapM_eq_ok_iff.mpr succeed
    rw [List.mapM_append, earlier, bind_ok, List.mapM_cons, fails, bind_error, bind_error]

/-- Steps that fail with one error if at all: the traversal fails with it unless every step fits. -/
theorem mapM_of_fits {step : α → Except ε β} {fits : α → Prop} [DecidablePred fits] {error : ε}
    {inputs : List α} {results : List β}
    (pairs : List.Forall₂ (fun input result =>
      step input = if fits input then .ok result else .error error) inputs results) :
    inputs.mapM step = if ∀ input ∈ inputs, fits input then .ok results else .error error := by
  induction pairs with
  | nil => simp
  | @cons input result inputs results one _ ih =>
      rw [List.mapM_cons, one, ih]
      by_cases first : fits input
      · by_cases others : ∀ input ∈ inputs, fits input
        · rw [if_pos first, if_pos others, if_pos (List.forall_mem_cons.mpr ⟨first, others⟩)]
          rfl
        · rw [if_pos first, if_neg others,
            if_neg fun all => others (List.forall_mem_cons.mp all).2]
          rfl
      · rw [if_neg first, if_neg fun all => first (List.forall_mem_cons.mp all).1]
        rfl

theorem exists_left_of_forall₂ {related : α → β → Prop} {first : List α} {second : List β}
    (pairs : List.Forall₂ related first second) {right : β} (member : right ∈ second) :
    ∃ left ∈ first, related left right := by
  induction pairs with
  | nil => cases member
  | cons pair rest ih =>
      rcases List.mem_cons.mp member with rfl | later
      · exact ⟨_, List.mem_cons_self, pair⟩
      · obtain ⟨left, found, related⟩ := ih later
        exact ⟨left, List.mem_cons_of_mem _ found, related⟩

end

def failure? {ε α : Type} : Except ε α → Option ε
  | .error error => some error
  | .ok _ => none

section

variable {ε α β : Type}

@[simp] theorem failure?_ok (value : α) : failure? (.ok value : Except ε α) = none := rfl

@[simp] theorem failure?_error (error : ε) :
    failure? (.error error : Except ε α) = some error := rfl

theorem failure?_eq_some {outcome : Except ε α} {error : ε} :
    failure? outcome = some error ↔ outcome = .error error := by
  cases outcome with
  | error other => simp
  | ok value => simp

theorem failure?_eq_none {outcome : Except ε α} :
    failure? outcome = none ↔ ∃ value, outcome = .ok value := by
  cases outcome with
  | error error => simp
  | ok value => simp

@[simp] theorem failure?_map (next : α → β) (outcome : Except ε α) :
    failure? (outcome.map next) = failure? outcome := by
  cases outcome with
  | error error => rfl
  | ok value => rfl

theorem failure?_bind_pure (next : α → β) (outcome : Except ε α) :
    failure? (outcome >>= fun value => pure (next value)) = failure? outcome := by
  cases outcome with
  | error error => rfl
  | ok value => rfl

/-- Where the second part fails alike after every result of the first, the first failure counts. -/
theorem failure?_bind {first : Except ε α} {next : α → Except ε β} {later : Option ε}
    (fails : ∀ value, first = .ok value → failure? (next value) = later) :
    failure? (first >>= next) = (failure? first).or later := by
  cases first with
  | error error => rfl
  | ok value => simpa using fails value rfl

theorem failure?_mapM {step : α → Except ε β} {faults : α → List ε}
    (fails : ∀ input, failure? (step input) = (faults input).head?) (inputs : List α) :
    failure? (inputs.mapM step) = (inputs.flatMap faults).head? := by
  induction inputs with
  | nil => rfl
  | cons input rest ih =>
      rw [List.mapM_cons, List.flatMap_cons, List.head?_append, ← fails input, ← ih]
      exact failure?_bind fun result _ => failure?_bind_pure (result :: ·) (rest.mapM step)

end

/-- Both fail with the same error, or both succeed with related values. -/
inductive Alike {ε α β : Type} (related : α → β → Prop) : Except ε α → Except ε β → Prop
  | error (error : ε) : Alike related (.error error) (.error error)
  | ok {left : α} {right : β} : related left right → Alike related (.ok left) (.ok right)

namespace Alike

variable {ε α β α' β' : Type} {related : α → β → Prop} {first : Except ε α} {second : Except ε β}

theorem refl {related : α → α → Prop} (same : ∀ value, related value value) (outcome : Except ε α) :
    Alike related outcome outcome := by
  cases outcome with
  | error error => exact .error error
  | ok value => exact .ok (same value)

theorem imp {weaker : α → β → Prop} (alike : Alike related first second)
    (weaken : ∀ {left right}, first = .ok left → second = .ok right → related left right →
      weaker left right) : Alike weaker first second := by
  cases alike with
  | error error => exact .error error
  | ok values => exact .ok (weaken rfl rfl values)

theorem values {left : α} {right : β} (alike : Alike related first second)
    (firstOk : first = .ok left) (secondOk : second = .ok right) : related left right := by
  subst firstOk
  subst secondOk
  cases alike with
  | ok values => exact values

theorem symm {flipped : β → α → Prop} (alike : Alike related first second)
    (flip : ∀ {left right}, related left right → flipped right left) :
    Alike flipped second first := by
  cases alike with
  | error error => exact .error error
  | ok values => exact .ok (flip values)

theorem trans {γ : Type} {third : Except ε γ} {related' : β → γ → Prop} {composed : α → γ → Prop}
    (alike : Alike related first second) (later : Alike related' second third)
    (compose : ∀ {left middle right}, related left middle → related' middle right →
      composed left right) : Alike composed first third := by
  cases alike with
  | error error => cases later; exact .error error
  | ok values =>
      cases later with
      | ok others => exact .ok (compose values others)

theorem bind {next : α → Except ε α'} {next' : β → Except ε β'} {related' : α' → β' → Prop}
    (alike : Alike related first second)
    (later : ∀ {left right}, related left right → Alike related' (next left) (next' right)) :
    Alike related' (first >>= next) (second >>= next') := by
  cases alike with
  | error error => exact .error error
  | ok values => exact later values

theorem map {next : α → α'} {next' : β → β'} {related' : α' → β' → Prop}
    (alike : Alike related first second)
    (later : ∀ {left right}, related left right → related' (next left) (next' right)) :
    Alike related' (first.map next) (second.map next') := by
  cases alike with
  | error error => exact .error error
  | ok values => exact .ok (later values)

theorem iff_map_eq {γ : Type} {left : α → γ} {right : β → γ} :
    Alike (fun value other => left value = right other) first second ↔
      first.map left = second.map right := by
  constructor
  · intro alike
    cases alike with
    | error error => rfl
    | ok same => exact congrArg Except.ok same
  · intro same
    cases first with
    | error error =>
        cases second with
        | error other => cases same; exact .error error
        | ok other => cases same
    | ok value =>
        cases second with
        | error error => cases same
        | ok other => exact .ok (Except.ok.inj same)

theorem mapM_of_forall₂ {step : α → Except ε α'} {step' : β → Except ε β'}
    {related' : α' → β' → Prop} {inputs : List α} {others : List β}
    (pairs : List.Forall₂ (fun input other => Alike related' (step input) (step' other))
      inputs others) :
    Alike (List.Forall₂ related') (inputs.mapM step) (others.mapM step') := by
  induction pairs with
  | nil => exact .ok .nil
  | cons alike _ ih =>
      simp only [List.mapM_cons]
      refine alike.bind fun values => ih.bind fun later => ?_
      exact .ok (.cons values later)

theorem mapM {step : α → Except ε α'} {step' : α → Except ε β'} {related' : α' → β' → Prop}
    (alike : ∀ input, Alike related' (step input) (step' input)) (inputs : List α) :
    Alike (List.Forall₂ related') (inputs.mapM step) (inputs.mapM step') :=
  mapM_of_forall₂ (List.forall₂_same.mpr fun input _ => alike input)

end Alike

end StaticQuery
