import Mathlib.Order.Bounds.Defs
import StaticQuery.Proofs.Compile.Artifact
import StaticQuery.Proofs.Compile.Field

/-!
How deep object fields nest, and what the recursion limit has to do with it. A document that
compiles at all compiles to one and the same artifact under every limit that its nesting does not
exceed, and fails under every other one.
-/

namespace StaticQuery

/-- A field that is kept and whose value is selected on: its type is an object or interface. The
name of an object type is no object, whatever type the document gives it. -/
def FieldHead.isObjectField (schema : Schema) (parent : Name) (head : FieldHead TypeRef) : Bool :=
  !Directive.isDropped head.directives && !head.isTypename schema parent && head.hasFields schema

namespace Selection

inductive Chain (schema : Schema) : Name → List (Selection TypeRef) → List FieldNode → Prop
  | nil {parent selections} : Chain schema parent selections []
  | cons {parent selections head nested inner} :
      .field head nested ∈ selections →
      head.isObjectField schema parent = true →
      Chain schema head.type.inner nested inner →
      Chain schema parent selections (⟨head, nested⟩ :: inner)

mutual

def nestingAll (schema : Schema) (parent : Name) : List (Selection TypeRef) → Nat
  | [] => 0
  | selection :: rest => max (nesting schema parent selection) (nestingAll schema parent rest)

def nesting (schema : Schema) (parent : Name) : Selection TypeRef → Nat
  | .fragmentSpread _ _ => 0
  | .inlineFragment _ _ _ => 0
  | .field head nested =>
      if head.isObjectField schema parent then nestingAll schema head.type.inner nested + 1 else 0

end

end Selection

def Operation.nesting (schema : Schema) (operation : Operation) : Nat :=
  Selection.nestingAll schema operation.rootType operation.selections

namespace Document

def nesting (schema : Schema) (document : Document) : Nat :=
  document.operations.foldr (fun operation deepest => max (operation.nesting schema) deepest) 0

def chainLengths (schema : Schema) (document : Document) : Set Nat :=
  {length | length = 0 ∨ ∃ operation ∈ document.operations, ∃ chain,
    Selection.Chain schema operation.rootType operation.selections chain ∧ chain.length = length}

end Document

namespace Selection

variable {schema : Schema} {parent : Name} {selections : List (Selection TypeRef)}

theorem nesting_le_of_mem (schema : Schema) (parent : Name) {selection : Selection TypeRef}
    (member : selection ∈ selections) :
    nesting schema parent selection ≤ nestingAll schema parent selections := by
  induction selections with
  | nil => cases member
  | cons first rest ih =>
      rw [nestingAll]
      rcases List.mem_cons.mp member with rfl | later
      · omega
      · have bound := ih later
        omega

theorem Chain.length_le {chain : List FieldNode} (linked : Chain schema parent selections chain) :
    chain.length ≤ nestingAll schema parent selections := by
  induction linked with
  | nil => exact Nat.zero_le _
  | @cons parent _ _ _ _ member opens _ ih =>
      have bound := nesting_le_of_mem schema parent member
      rw [nesting, if_pos opens] at bound
      rw [List.length_cons]
      omega

theorem Chain.of_subset {others : List (Selection TypeRef)} {chain : List FieldNode}
    (linked : Chain schema parent selections chain) (among : selections ⊆ others) :
    Chain schema parent others chain := by
  cases linked with
  | nil => exact .nil
  | cons member opens inner => exact .cons (among member) opens inner

mutual

theorem exists_chain_all (schema : Schema) (parent : Name) :
    ∀ selections : List (Selection TypeRef), ∃ chain,
      Chain schema parent selections chain ∧ chain.length = nestingAll schema parent selections
  | [] => ⟨[], .nil, rfl⟩
  | selection :: rest => by
      obtain ⟨first, firstLinked, firstLength⟩ := exists_chain schema parent selection
      obtain ⟨other, otherLinked, otherLength⟩ := exists_chain_all schema parent rest
      rw [nestingAll]
      by_cases deeper : nestingAll schema parent rest ≤ nesting schema parent selection
      · refine ⟨first, firstLinked.of_subset ?_, by omega⟩
        simp
      · refine ⟨other, otherLinked.of_subset ?_, by omega⟩
        exact List.subset_cons_self selection rest

theorem exists_chain (schema : Schema) (parent : Name) :
    ∀ selection : Selection TypeRef, ∃ chain,
      Chain schema parent [selection] chain ∧ chain.length = nesting schema parent selection
  | .fragmentSpread _ _ => ⟨[], .nil, rfl⟩
  | .inlineFragment _ _ _ => ⟨[], .nil, rfl⟩
  | .field head nested => by
      rw [nesting]
      split
      · rename_i opens
        obtain ⟨inner, linked, length⟩ := exists_chain_all schema head.type.inner nested
        exact ⟨⟨head, nested⟩ :: inner, .cons List.mem_cons_self opens linked, by simp [length]⟩
      · exact ⟨[], .nil, rfl⟩

end

end Selection

namespace Document

variable {schema : Schema} {document : Document}

theorem nesting_le_iff {limit : Nat} :
    document.nesting schema ≤ limit ↔
      ∀ operation ∈ document.operations, operation.nesting schema ≤ limit := by
  unfold nesting
  induction document.operations with
  | nil => simp
  | cons operation rest ih => simp only [List.foldr_cons, Nat.max_le, ih, List.forall_mem_cons]

theorem nesting_eq_zero_or_mem (schema : Schema) (document : Document) :
    document.nesting schema = 0 ∨
      ∃ operation ∈ document.operations, operation.nesting schema = document.nesting schema := by
  unfold nesting
  induction document.operations with
  | nil => exact Or.inl rfl
  | cons operation rest ih =>
      rw [List.foldr_cons]
      rcases Nat.le_total (rest.foldr (fun operation deepest =>
        max (operation.nesting schema) deepest) 0) (operation.nesting schema) with less | less
      · exact Or.inr ⟨operation, List.mem_cons_self, (Nat.max_eq_left less).symm⟩
      · rw [Nat.max_eq_right less]
        refine ih.imp_right ?_
        rintro ⟨deepest, listed, same⟩
        exact ⟨deepest, List.mem_cons_of_mem _ listed, same⟩

/-- The nesting that is computed is the length of the longest chain. -/
theorem isGreatest_nesting (schema : Schema) (document : Document) :
    IsGreatest (document.chainLengths schema) (document.nesting schema) := by
  constructor
  · rcases document.nesting_eq_zero_or_mem schema with none | ⟨operation, listed, same⟩
    · exact Or.inl none
    · obtain ⟨chain, linked, length⟩ :=
        Selection.exists_chain_all schema operation.rootType operation.selections
      exact Or.inr ⟨operation, listed, chain, linked, length.trans same⟩
  · rintro length (rfl | ⟨operation, listed, chain, linked, rfl⟩)
    · exact Nat.zero_le _
    · exact Nat.le_trans linked.length_le (nesting_le_iff.mp (Nat.le_refl _) operation listed)

end Document

namespace Selection

variable {schema : Schema} {parent : Name} {head : FieldHead TypeRef}

theorem nestingAll_cons_of_dropped (dropped : Directive.drop head.name head.directives = .ok true)
    (nested rest : List (Selection TypeRef)) :
    nestingAll schema parent (.field head nested :: rest) = nestingAll schema parent rest := by
  simp [nestingAll, nesting, FieldHead.isObjectField, Directive.drop_eq_ok dropped]

/-- Of the fields that are kept and compile, those that open a scope are the object fields. -/
theorem isObjectField_of_shape (kept : Directive.drop head.name head.directives = .ok false)
    {shape : Shape} (shaped : head.shape schema parent = .ok shape) :
    head.isObjectField schema parent = decide (shape = .scope) := by
  rw [FieldHead.isObjectField, Directive.drop_eq_ok kept]
  cases shape with
  | typename => simp [FieldHead.isTypename_of_shape shaped]
  | leaf => simp [FieldHead.not_hasFields_of_shape shaped]
  | scope => simp [FieldHead.hasFields_of_shape shaped]

theorem nestingAll_cons_of_flat (kept : Directive.drop head.name head.directives = .ok false)
    {shape : Shape} (shaped : head.shape schema parent = .ok shape) (flat : shape ≠ .scope)
    (nested rest : List (Selection TypeRef)) :
    nestingAll schema parent (.field head nested :: rest) = nestingAll schema parent rest := by
  simp [nestingAll, nesting, isObjectField_of_shape kept shaped, flat]

theorem nestingAll_cons_of_scope (kept : Directive.drop head.name head.directives = .ok false)
    (shaped : head.shape schema parent = .ok .scope) (nested rest : List (Selection TypeRef)) :
    nestingAll schema parent (.field head nested :: rest) =
      max (nestingAll schema head.type.inner nested + 1) (nestingAll schema parent rest) := by
  simp [nestingAll, nesting, isObjectField_of_shape kept shaped]

theorem gather_of_dropped (dropped : Directive.drop head.name head.directives = .ok true)
    (target : Target) (depth : Nat) (parent : Name) (nested : List (Selection TypeRef)) :
    gather target depth parent (.field head nested) = .ok .none := by
  rw [gather, dropped, bind_ok, if_pos rfl]

theorem gather_of_shape (target : Target) {shape : Shape}
    (kept : Directive.drop head.name head.directives = .ok false)
    (shaped : head.shape target.schema.definitions parent = .ok shape) (depth : Nat)
    (nested : List (Selection TypeRef)) :
    gather target depth parent (.field head nested) =
      gatherShaped target depth parent head nested
        (gatherAll target (depth + 1) head.type.inner nested) shape := by
  rw [gather, kept, bind_ok, if_neg Bool.false_ne_true, shaped, bind_ok]

/-- A scope needs one level for itself, and what is selected on it the levels after that. -/
theorem gather_of_scope (target : Target) {plan : FieldPlan} {inner : Gathered} {fits : Prop}
    [Decidable fits] {depth limit : Nat} {nested : List (Selection TypeRef)}
    (limited : target.options.recursionLimit = limit)
    (kept : Directive.drop head.name head.directives = .ok false)
    (shaped : head.shape target.schema.definitions parent = .ok .scope)
    (planned : FieldPlan.make target.schema parent head = .ok plan)
    (selected : depth + 1 ≤ limit → gatherAll target (depth + 1) head.type.inner nested =
      if fits then .ok inner else .error (.recursionLimitExceeded limit)) :
    gather target depth parent (.field head nested) =
      if depth + 1 ≤ limit ∧ fits then
        .ok (Gathered.one head.responseKey
          (.scope (.atDepth (depth + 1))
            (plan.valueExpr target.options.emitAst ⟨head, nested⟩ (.atDepth depth))
            inner.properties (inner.awaits || plan.isAsync))
          (inner.awaits || plan.isAsync))
      else .error (.recursionLimitExceeded limit) := by
  rw [gather_of_shape target kept shaped, gatherShaped, limited]
  by_cases deep : depth + 1 ≤ limit
  · rw [if_neg (Nat.not_lt.mpr deep), selected deep, planned]
    by_cases inside : fits
    · simp only [inside, deep, and_self, if_true]
      rfl
    · simp only [inside, and_false, if_false]
      rfl
  · rw [if_pos (Nat.not_le.mp deep), if_neg (fun both => deep both.1)]

/-- Where every part fails with one error if at all, the whole does. -/
theorem gatherAll_cons_of_fits {target : Target} {depth : Nat} {selection : Selection TypeRef}
    {rest : List (Selection TypeRef)} {first others : Gathered} {fits fitsLater : Prop}
    [Decidable fits] [Decidable fitsLater] {error : CompileError}
    (one : gather target depth parent selection = if fits then .ok first else .error error)
    (later : gatherAll target depth parent rest = if fitsLater then .ok others else .error error) :
    gatherAll target depth parent (selection :: rest) =
      if fits ∧ fitsLater then .ok (first.append others) else .error error := by
  rw [gatherAll, one, later]
  by_cases firstFits : fits
  · by_cases restFits : fitsLater
    · simp [firstFits, restFits]
    · simp [firstFits, restFits]
  · simp [firstFits]

theorem gatherAll_cons_of_ok {target : Target} {depth : Nat} {selection : Selection TypeRef}
    {rest : List (Selection TypeRef)} {first others : Gathered} {fits : Prop} [Decidable fits]
    {error : CompileError} (one : gather target depth parent selection = .ok first)
    (later : gatherAll target depth parent rest = if fits then .ok others else .error error) :
    gatherAll target depth parent (selection :: rest) =
      if fits then .ok (first.append others) else .error error := by
  have whole := gatherAll_cons_of_fits (one.trans (if_pos trivial).symm) later
  simpa only [true_and] using whole

end Selection

def Target.withLimit (target : Target) (limit : Nat) : Target :=
  { target with options := { target.options with recursionLimit := limit } }

/-- Selections that compile under one limit compile to the same under another one, unless that is
too small for them. -/
theorem Gathers.gatherAll_withLimit {target : Target} {depth : Nat} {parent : Name}
    {selections : List (Selection TypeRef)} {gathered : Gathered}
    (compiled : Gathers target depth parent selections gathered) {limit : Nat}
    (within : depth ≤ limit) :
    Selection.gatherAll (target.withLimit limit) depth parent selections =
      if depth + Selection.nestingAll target.schema.definitions parent selections ≤ limit then
        .ok gathered
      else .error (.recursionLimitExceeded limit) := by
  induction compiled with
  | nil =>
      rw [Selection.nestingAll, Nat.add_zero, if_pos within]
      rfl
  | @dropped depth parent head nested rest others dropped _ ih =>
      rw [Selection.nestingAll_cons_of_dropped dropped, ← others.none_append]
      exact Selection.gatherAll_cons_of_ok
        (Selection.gather_of_dropped dropped _ depth parent nested) (ih within)
  | @typename depth parent head nested rest others kept shaped _ ih =>
      rw [Selection.nestingAll_cons_of_flat kept shaped (by decide)]
      exact Selection.gatherAll_cons_of_ok
        (Selection.gather_of_shape (target.withLimit limit) kept shaped depth nested) (ih within)
  | @leaf depth parent head nested rest plan others kept shaped planned _ ih =>
      rw [Selection.nestingAll_cons_of_flat kept shaped (by decide)]
      refine Selection.gatherAll_cons_of_ok ?_ (ih within)
      refine (Selection.gather_of_shape (target.withLimit limit) kept shaped depth nested).trans ?_
      simp only [Selection.gatherShaped, Target.withLimit, planned]
      rfl
  | @scope depth parent head nested rest inner plan others kept shaped _ _ planned _ ihInner
      ihRest =>
      have limited : (target.withLimit limit).options.recursionLimit = limit := rfl
      have one := Selection.gather_of_scope (target.withLimit limit) limited kept shaped planned
        ihInner
      rw [Selection.nestingAll_cons_of_scope kept shaped,
        Selection.gatherAll_cons_of_fits one (ihRest within)]
      -- Both levels of the field's selections and those of its siblings have to fit.
      refine if_congr ?_ rfl rfl
      omega

namespace Operation

theorem compile_withLimit {target : Target} {operation : Operation} {compiled : CompiledOperation}
    (compiles : operation.compile target = .ok compiled) (limit : Nat) :
    operation.compile (target.withLimit limit) =
      if operation.nesting target.schema.definitions ≤ limit then .ok compiled
      else .error (.recursionLimitExceeded limit) := by
  obtain ⟨query, named, gathers⟩ := compile_eq_ok compiles
  have data := gathers.gatherAll_withLimit (Nat.zero_le limit)
  rw [Nat.zero_add] at data
  simp only [compile, query, ne_eq, not_true_eq_false, if_false, named, data]
  rw [nesting]
  by_cases fits : Selection.nestingAll target.schema.definitions operation.rootType
      operation.selections ≤ limit
  · rw [if_pos fits, if_pos fits]
    rfl
  · rw [if_neg fits, if_neg fits]
    rfl

end Operation

/-- The recursion limit is a threshold and nothing else. Let a document compile under some limit.
Then under every limit it compiles to the same artifact if none of its chains of object fields is
longer than the limit, and otherwise fails for that reason. -/
theorem recursionLimit_is_threshold {document : Document} {schema : ExecutableSchema}
    {options : Options} {artifact : Artifact}
    (compiles : compileDocument document schema options = .ok artifact) :
    IsGreatest (document.chainLengths schema.definitions) (document.nesting schema.definitions) ∧
      ∀ limit, compileDocument document schema { options with recursionLimit := limit } =
        if document.nesting schema.definitions ≤ limit then .ok artifact
        else .error (.recursionLimitExceeded limit) := by
  refine ⟨document.isGreatest_nesting schema.definitions, ?_⟩
  intro limit
  obtain ⟨compiled, rfl, pairs⟩ := compileDocument_eq_ok compiles
  have limited : List.Forall₂ (fun operation result =>
      operation.compile ⟨schema, { options with recursionLimit := limit }⟩ =
        if operation.nesting schema.definitions ≤ limit then .ok result
        else .error (.recursionLimitExceeded limit)) document.operations compiled :=
    pairs.imp fun operation result compiles => Operation.compile_withLimit compiles limit
  rw [compileDocument_eq, mapM_of_fits limited]
  by_cases fits : document.nesting schema.definitions ≤ limit
  · rw [if_pos fits, if_pos (Document.nesting_le_iff.mp fits)]
    rfl
  · rw [if_neg fits, if_neg (Document.nesting_le_iff.not.mp fits)]
    rfl

namespace Sample

def friendly : ExecutableSchema :=
  .ofSchema { definitions with
    types := ⟨user, [], .object [] [⟨name, [], .named text false, []⟩,
      ⟨friend, [], .named user false, []⟩]⟩ :: definitions.types }

-- query People { viewer { name friend { name friend @skip(if: true) { name } } } }
def friends : Document where
  operations := [⟨.query, some people, query, [
    .field ⟨none, viewer, .named user false, [], []⟩ [nameField,
      .field ⟨none, friend, .named user false, [], []⟩ [nameField,
        .field ⟨none, friend, .named user false, [],
          [⟨skipping, [(.condition, .boolean true)]⟩]⟩ [nameField]]]]⟩]

end Sample

theorem recursionLimit_is_threshold_friends :
    ∃ artifact,
      compileDocument Sample.friends Sample.friendly {} = .ok artifact ∧
      IsGreatest (Sample.friends.chainLengths Sample.friendly.definitions) 2 ∧
      compileDocument Sample.friends Sample.friendly { recursionLimit := 2 } = .ok artifact ∧
      compileDocument Sample.friends Sample.friendly { recursionLimit := 1 } =
        .error (.recursionLimitExceeded 1) := by
  have compiles : compileDocument Sample.friends Sample.friendly {} = .ok _ := rfl
  obtain ⟨greatest, limited⟩ := recursionLimit_is_threshold compiles
  have nesting : Sample.friends.nesting Sample.friendly.definitions = 2 := by decide
  rw [nesting] at greatest limited
  exact ⟨_, compiles, greatest, limited 2, limited 1⟩

end StaticQuery
