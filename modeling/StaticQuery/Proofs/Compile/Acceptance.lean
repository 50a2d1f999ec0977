import StaticQuery.Proofs.Compile.Faults

/-!
Which documents compile. Every selection that compilation reaches is looked at on its own: a
document is accepted exactly if each of them is, and otherwise its first fault is reported.
-/

namespace StaticQuery

namespace FieldHead

structure Resolvable (schema : Schema) (limit depth : Nat) (head : FieldHead TypeRef) : Prop where
  notUnion : schema.typeIs TypeBody.isUnion head.type.inner = false
  notInput : schema.typeIs TypeBody.isInputObject head.type.inner = false
  notList : head.hasFields schema = true → head.type.isList = false
  nesting : (if head.hasFields schema then depth + 1 else depth) ≤ limit
  arguments : ∀ argument ∈ head.arguments, argument.2.isPassable = true

structure Supported (schema : Schema) (limit depth : Nat) (parent : Name)
    (head : FieldHead TypeRef) : Prop where
  conditions : ∀ directive ∈ head.directives, directive.unfixed? = none
  parentKnown : (schema.type? parent).isSome = true
  typeKnown : (schema.type? head.type.inner).isSome = true
  resolvable : head.isTypename schema parent = false → head.Resolvable schema limit depth

variable {schema : Schema} {parent : Name} {head : FieldHead TypeRef}

theorem conditionFaults_eq_nil :
    head.conditionFaults = [] ↔ ∀ directive ∈ head.directives, directive.unfixed? = none := by
  rw [conditionFaults, List.map_eq_nil_iff, List.filterMap_eq_nil_iff]

theorem argumentFaults_eq_nil :
    head.argumentFaults = [] ↔ ∀ argument ∈ head.arguments, argument.2.isPassable = true := by
  simp [argumentFaults]

theorem typeFaults_eq_nil :
    head.typeFaults schema parent = [] ↔
      ((schema.type? parent).isSome = true ∧ (schema.type? head.type.inner).isSome = true) ∧
        (head.isTypename schema parent = false →
          schema.typeIs TypeBody.isUnion head.type.inner = false ∧
            schema.typeIs TypeBody.isInputObject head.type.inner = false ∧
            (head.hasFields schema = true → head.type.isList = false)) := by
  rw [typeFaults, List.append_eq_nil_iff, faultIf_eq_nil, Bool.not_eq_false', Bool.and_eq_true]
  refine and_congr_right fun known => ?_
  cases head.isTypename schema parent with
  | true => simp
  | false => simp

end FieldHead

namespace Selection

def Accepted (schema : Schema) (limit depth : Nat) (parent : Name) : Selection TypeRef → Prop
  | .field head _ =>
      Directive.isDropped head.directives = true ∨ head.Supported schema limit depth parent
  | .fragmentSpread _ _ => False
  | .inlineFragment _ _ _ => False

theorem faults_nested_eq_nil {schema : Schema} {limit depth : Nat} {head : FieldHead TypeRef}
    {nested : List (Selection TypeRef)} (within : depth ≤ limit) :
    (if head.hasFields schema then
        faultIf (limit < depth + 1) (.recursionLimitExceeded limit) ++
          faultsAll schema limit (depth + 1) head.type.inner nested
      else []) = [] ↔
      (if head.hasFields schema then depth + 1 else depth) ≤ limit ∧
        (head.hasFields schema = true →
          faultsAll schema limit (depth + 1) head.type.inner nested = []) := by
  cases head.hasFields schema with
  | true => simp
  | false => simpa using within

theorem faults_field_eq_nil {schema : Schema} {limit depth : Nat} {parent : Name}
    {head : FieldHead TypeRef} {nested : List (Selection TypeRef)}
    (kept : Directive.isDropped head.directives = false) (within : depth ≤ limit) :
    faults schema limit depth parent (.field head nested) = [] ↔
      head.Supported schema limit depth parent ∧
        (head.isTypename schema parent = false → head.hasFields schema = true →
          faultsAll schema limit (depth + 1) head.type.inner nested = []) := by
  rw [faults, kept, if_neg Bool.false_ne_true, List.append_eq_nil_iff, List.append_eq_nil_iff,
    FieldHead.conditionFaults_eq_nil, FieldHead.typeFaults_eq_nil]
  cases other : head.isTypename schema parent with
  | true =>
      simp only [if_true, Bool.true_eq_false, false_implies, and_true]
      constructor
      · rintro ⟨conditions, parentKnown, typeKnown⟩
        exact ⟨conditions, parentKnown, typeKnown, by simp [other]⟩
      · intro supported
        exact ⟨supported.conditions, supported.parentKnown, supported.typeKnown⟩
  | false =>
      rw [if_neg Bool.false_ne_true, List.append_eq_nil_iff, FieldHead.argumentFaults_eq_nil,
        faults_nested_eq_nil within]
      constructor
      · rintro ⟨⟨conditions, ⟨parentKnown, typeKnown⟩, resolvable⟩, ⟨nesting, inner⟩, arguments⟩
        obtain ⟨notUnion, notInput, notList⟩ := resolvable rfl
        exact ⟨⟨conditions, parentKnown, typeKnown,
          fun _ => ⟨notUnion, notInput, notList, nesting, arguments⟩⟩, fun _ => inner⟩
      · rintro ⟨⟨conditions, parentKnown, typeKnown, resolvable⟩, inner⟩
        obtain ⟨notUnion, notInput, notList, nesting, arguments⟩ := resolvable other
        exact ⟨⟨conditions, ⟨parentKnown, typeKnown⟩, fun _ => ⟨notUnion, notInput, notList⟩⟩,
          ⟨nesting, inner rfl⟩, arguments⟩

end Selection

/-- The selections that compilation looks at, with the number of object fields around them and the
type on which they are made. The name of a type is known without its selections. -/
inductive Document.Reaches (schema : Schema) (document : Document) :
    Nat → Name → Selection TypeRef → Prop
  | root {operation selection} :
      operation ∈ document.operations →
      selection ∈ operation.selections →
      Reaches schema document 0 operation.rootType selection
  | nested {depth parent head nested selection} :
      Reaches schema document depth parent (.field head nested) →
      Directive.isDropped head.directives = false →
      head.isTypename schema parent = false →
      head.hasFields schema = true →
      selection ∈ nested →
      Reaches schema document (depth + 1) head.type.inner selection

structure Document.Accepted (schema : Schema) (limit : Nat) (document : Document) : Prop where
  queries : ∀ operation ∈ document.operations, operation.kind = .query
  named : ∀ operation ∈ document.operations, operation.name?.isSome = true
  selections : ∀ {depth parent selection}, document.Reaches schema depth parent selection →
    selection.Accepted schema limit depth parent

namespace Document

variable {schema : Schema} {limit : Nat} {document : Document}

theorem Reaches.faults_subset {depth : Nat} {parent : Name} {selection : Selection TypeRef}
    (reached : document.Reaches schema depth parent selection) (limit : Nat) :
    selection.faults schema limit depth parent ⊆ document.faults schema limit := by
  induction reached with
  | @root operation selection listed selected =>
      intro error found
      refine List.mem_flatMap.mpr ⟨operation, listed, ?_⟩
      rw [Operation.faults, Selection.faultsAll_eq_flatMap]
      exact List.mem_append_right _ (List.mem_flatMap.mpr ⟨selection, selected, found⟩)
  | @nested depth parent head nested selection _ kept other isScope selected ih =>
      intro error found
      refine ih ?_
      have inner : error ∈ Selection.faultsAll schema limit (depth + 1) head.type.inner nested := by
        rw [Selection.faultsAll_eq_flatMap]
        exact List.mem_flatMap.mpr ⟨selection, selected, found⟩
      simp [Selection.faults, kept, other, isScope, inner]

theorem faults_eq_nil_of_reaches (faultless : document.faults schema limit = []) {depth : Nat}
    {parent : Name} {selection : Selection TypeRef}
    (reached : document.Reaches schema depth parent selection) :
    depth ≤ limit ∧ selection.faults schema limit depth parent = [] := by
  induction reached with
  | @root operation selection listed selected =>
      have none := List.flatMap_eq_nil_iff.mp faultless operation listed
      rw [Operation.faults, List.append_eq_nil_iff, Selection.faultsAll_eq_flatMap] at none
      exact ⟨Nat.zero_le limit, List.flatMap_eq_nil_iff.mp none.2 selection selected⟩
  | @nested depth parent head nested selection _ kept other isScope selected ih =>
      obtain ⟨within, none⟩ := ih
      obtain ⟨supported, inner⟩ := (Selection.faults_field_eq_nil kept within).mp none
      have nesting := (supported.resolvable other).nesting
      rw [if_pos isScope] at nesting
      have inside := inner other isScope
      rw [Selection.faultsAll_eq_flatMap] at inside
      exact ⟨nesting, List.flatMap_eq_nil_iff.mp inside selection selected⟩

theorem accepted_of_faults_eq_nil (faultless : document.faults schema limit = []) :
    document.Accepted schema limit := by
  have operations : ∀ operation ∈ document.operations,
      operation.kind = .query ∧ operation.name?.isSome = true := by
    intro operation listed
    have none := List.flatMap_eq_nil_iff.mp faultless operation listed
    simp only [Operation.faults, List.append_eq_nil_iff, faultIf_eq_nil] at none
    exact ⟨by simpa using none.1.1, by simpa using none.1.2⟩
  constructor
  · intro operation listed
    exact (operations operation listed).1
  · intro operation listed
    exact (operations operation listed).2
  · intro depth parent selection reached
    obtain ⟨within, none⟩ := faults_eq_nil_of_reaches faultless reached
    cases selection with
    | fragmentSpread _ _ => simp [Selection.faults] at none
    | inlineFragment _ _ _ => simp [Selection.faults] at none
    | field head nested =>
        cases dropped : Directive.isDropped head.directives with
        | true => exact Or.inl dropped
        | false => exact Or.inr ((Selection.faults_field_eq_nil dropped within).mp none).1

mutual

theorem faultsAll_eq_nil_of_accepted (accepted : document.Accepted schema limit) {depth : Nat}
    {parent : Name} (within : depth ≤ limit) :
    ∀ selections : List (Selection TypeRef),
      (∀ selection ∈ selections, document.Reaches schema depth parent selection) →
      Selection.faultsAll schema limit depth parent selections = []
  | [], _ => rfl
  | selection :: rest, reached => by
      have first := reached selection List.mem_cons_self
      have others (selection) (listed : selection ∈ rest) :=
        reached selection (List.mem_cons_of_mem _ listed)
      rw [Selection.faultsAll, faults_eq_nil_of_accepted accepted within selection first,
        faultsAll_eq_nil_of_accepted accepted within rest others, List.nil_append]

theorem faults_eq_nil_of_accepted (accepted : document.Accepted schema limit) {depth : Nat}
    {parent : Name} (within : depth ≤ limit) :
    ∀ selection : Selection TypeRef, document.Reaches schema depth parent selection →
      selection.faults schema limit depth parent = []
  | .fragmentSpread _ _, reached => False.elim (accepted.selections reached)
  | .inlineFragment _ _ _, reached => False.elim (accepted.selections reached)
  | .field head nested, reached => by
      cases dropped : Directive.isDropped head.directives with
      | true => simp [Selection.faults, dropped]
      | false =>
          rcases accepted.selections reached with omitted | supported
          · simp [omitted] at dropped
          refine (Selection.faults_field_eq_nil dropped within).mpr ⟨supported, ?_⟩
          intro other isScope
          have nesting := (supported.resolvable other).nesting
          rw [if_pos isScope] at nesting
          exact faultsAll_eq_nil_of_accepted accepted nesting nested fun selection listed =>
            .nested reached dropped other isScope listed

end

theorem faults_eq_nil_iff : document.faults schema limit = [] ↔ document.Accepted schema limit := by
  refine ⟨accepted_of_faults_eq_nil, ?_⟩
  intro accepted
  refine List.flatMap_eq_nil_iff.mpr ?_
  intro operation listed
  have query := accepted.queries operation listed
  have named := accepted.named operation listed
  have selections := faultsAll_eq_nil_of_accepted accepted (Nat.zero_le limit)
    operation.selections fun selection selected => .root listed selected
  simp [Operation.faults, query, named, selections]

end Document

/-- A document compiles exactly if it is accepted, and else fails with the first of its faults;
resolvers have no part in either. -/
theorem compileDocument_accepts_exactly (document : Document) (schema : ExecutableSchema)
    (options : Options) :
    ((∃ artifact, compileDocument document schema options = .ok artifact) ↔
      document.Accepted schema.definitions options.recursionLimit) ∧
    ∀ error, compileDocument document schema options = .error error ↔
      (document.faults schema.definitions options.recursionLimit).head? = some error := by
  have first := failure?_compileDocument document schema options
  constructor
  · rw [← failure?_eq_none, first, List.head?_eq_none_iff, Document.faults_eq_nil_iff]
  · intro error
    rw [← failure?_eq_some, first]

end StaticQuery
