import StaticQuery.Proofs.Compile.Artifact
import StaticQuery.Proofs.OrderedMap

/-!
Operations compile in isolation. A document compiles exactly if each of its operations does in a
document of its own. Its artifact then lists what they compile to there, and otherwise it fails as
the first of them that fails.
-/

namespace StaticQuery

def Operation.alone (operation : Operation) : Document :=
  ⟨[operation]⟩

def Document.DistinctlyNamed (document : Document) : Prop :=
  (document.operations.filterMap Operation.name?).Nodup

instance (document : Document) : Decidable document.DistinctlyNamed :=
  inferInstanceAs (Decidable (document.operations.filterMap Operation.name?).Nodup)

structure Artifact.HoldsEach (artifact : Artifact) (operations : List Operation)
    (schema : ExecutableSchema) (options : Options) : Prop where
  inOrder : List.Forall₂ (fun operation compiled => ∃ alone,
      compileDocument operation.alone schema options = .ok alone ∧ alone.toList = [compiled])
    operations artifact.toList
  byName : List.Forall₂ (fun operation compiled => operation.name? = some compiled.name ∧
      artifact.operation? compiled.name.text = some compiled)
    operations artifact.toList
  otherNames : ∀ text, (∀ operation ∈ operations, operation.name?.map Name.text ≠ some text) →
    artifact.operation? text = none
  size : artifact.size = operations.length

namespace Artifact

theorem operations_foldl (operations : List CompiledOperation) (artifact : Artifact) :
    (operations.foldl insert artifact).operations =
      artifact.operations.insertAll
        (operations.map fun operation => (operation.name, operation)) := by
  induction operations generalizing artifact with
  | nil => rfl
  | cons operation rest ih => exact ih (artifact.insert operation)

section

variable {operations : List CompiledOperation}
  (distinct : (operations.map CompiledOperation.name).Nodup)

include distinct

theorem operations_ofList_of_nodup :
    (ofList operations).operations =
      operations.map fun operation => (operation.name, operation) := by
  rw [ofList, operations_foldl]
  apply OrderedMap.insertAll_of_nodup
  simpa [OrderedMap.keys, empty, Function.comp_def] using distinct

theorem toList_ofList_of_nodup : (ofList operations).toList = operations := by
  simp [toList, operations_ofList_of_nodup distinct, Function.comp_def]

theorem operation?_ofList {text : String} {operation : CompiledOperation} :
    (ofList operations).operation? text = some operation ↔
      operation ∈ operations ∧ operation.name.text = text := by
  have keys : (ofList operations).operations.keys.Nodup := by
    simpa [operations_ofList_of_nodup distinct, OrderedMap.keys, Function.comp_def] using distinct
  have found (name : Name) : (ofList operations).operations.get? name = some operation ↔
      operation ∈ operations ∧ operation.name = name := by
    rw [OrderedMap.get?_eq_some_iff_of_nodup keys, operations_ofList_of_nodup distinct]
    simp [and_comm]
  rw [operation?, Option.bind_eq_some_iff]
  constructor
  · rintro ⟨name, read, held⟩
    obtain ⟨member, rfl⟩ := (found name).mp held
    exact ⟨member, Name.text_of_ofText? read⟩
  · rintro ⟨member, rfl⟩
    exact ⟨operation.name, Name.ofText?_text _, (found _).mpr ⟨member, rfl⟩⟩

end

end Artifact

section

variable {document : Document} {operation : Operation} {schema : ExecutableSchema}
  {options : Options}

theorem compileDocument_alone (operation : Operation) (schema : ExecutableSchema)
    (options : Options) :
    compileDocument operation.alone schema options =
      (operation.compile ⟨schema, options⟩).map fun compiled => .ofList [compiled] := by
  rw [compileDocument_eq, Operation.alone, List.mapM_cons]
  cases operation.compile ⟨schema, options⟩ with
  | error error => rfl
  | ok compiled => rfl

theorem alone_compiles_iff :
    (∃ artifact, compileDocument operation.alone schema options = .ok artifact) ↔
      ∃ compiled, operation.compile ⟨schema, options⟩ = .ok compiled := by
  rw [← failure?_eq_none, ← failure?_eq_none, compileDocument_alone, failure?_map]

theorem alone_fails_iff {error : CompileError} :
    compileDocument operation.alone schema options = .error error ↔
      operation.compile ⟨schema, options⟩ = .error error := by
  rw [← failure?_eq_some, ← failure?_eq_some, compileDocument_alone, failure?_map]

theorem compileDocument_compiles_iff :
    (∃ artifact, compileDocument document schema options = .ok artifact) ↔
      ∀ operation ∈ document.operations, ∃ artifact,
        compileDocument operation.alone schema options = .ok artifact := by
  rw [← failure?_eq_none, compileDocument_eq, failure?_map, failure?_eq_none,
    exists_mapM_eq_ok_iff]
  simp only [alone_compiles_iff]

theorem compileDocument_fails_iff {error : CompileError} :
    compileDocument document schema options = .error error ↔
      ∃ before failing after, document.operations = before ++ failing :: after ∧
        (∀ operation ∈ before, ∃ artifact,
          compileDocument operation.alone schema options = .ok artifact) ∧
        compileDocument failing.alone schema options = .error error := by
  rw [← failure?_eq_some, compileDocument_eq, failure?_map, failure?_eq_some, mapM_eq_error_iff]
  simp only [alone_compiles_iff, alone_fails_iff]

theorem filterMap_name?_eq {operations : List Operation} {compiled : List CompiledOperation}
    (pairs : List.Forall₂ (fun operation result => operation.compile ⟨schema, options⟩ = .ok result)
      operations compiled) :
    operations.filterMap Operation.name? = compiled.map CompiledOperation.name := by
  induction pairs with
  | nil => rfl
  | cons compiles _ ih =>
      obtain ⟨_, named, _⟩ := Operation.compile_eq_ok compiles
      rw [List.filterMap_cons_some named, ih, List.map_cons]

theorem compileDocument_holdsEach (distinct : document.DistinctlyNamed) {artifact : Artifact}
    (compiles : compileDocument document schema options = .ok artifact) :
    artifact.HoldsEach document.operations schema options := by
  obtain ⟨compiled, rfl, pairs⟩ := compileDocument_eq_ok compiles
  have names : (compiled.map CompiledOperation.name).Nodup := by
    rw [← filterMap_name?_eq pairs]
    exact distinct
  have listed := Artifact.toList_ofList_of_nodup names
  constructor
  · rw [listed]
    refine pairs.imp ?_
    intro operation result compiles
    refine ⟨.ofList [result], ?_, rfl⟩
    rw [compileDocument_alone, compiles]
    rfl
  · rw [listed]
    refine List.forall₂_iff_zip.mpr ⟨pairs.length_eq, ?_⟩
    intro operation result paired
    obtain ⟨_, named, _⟩ := Operation.compile_eq_ok (List.forall₂_zip pairs paired)
    refine ⟨named, ?_⟩
    exact (Artifact.operation?_ofList names).mpr ⟨(List.of_mem_zip paired).2, rfl⟩
  · intro text absent
    apply Option.eq_none_iff_forall_ne_some.mpr
    intro result found
    obtain ⟨member, rfl⟩ := (Artifact.operation?_ofList names).mp found
    obtain ⟨operation, listed, compiles⟩ := exists_left_of_forall₂ pairs member
    obtain ⟨_, named, _⟩ := Operation.compile_eq_ok compiles
    exact absent operation listed (by rw [named, Option.map_some])
  · rw [Artifact.size, Artifact.operations_ofList_of_nodup names, List.length_map,
      pairs.length_eq]

/-- Operations of a document do not affect each other: what a document compiles to, or fails with,
is settled by what each of its operations does in a document of its own. -/
theorem operations_compile_alone (distinct : document.DistinctlyNamed)
    (schema : ExecutableSchema) (options : Options) :
    ((∃ artifact, compileDocument document schema options = .ok artifact) ↔
        ∀ operation ∈ document.operations, ∃ artifact,
          compileDocument operation.alone schema options = .ok artifact) ∧
      (∀ artifact, compileDocument document schema options = .ok artifact →
        artifact.HoldsEach document.operations schema options) ∧
      ∀ error, compileDocument document schema options = .error error ↔
        ∃ before failing after, document.operations = before ++ failing :: after ∧
          (∀ operation ∈ before, ∃ artifact,
            compileDocument operation.alone schema options = .ok artifact) ∧
          compileDocument failing.alone schema options = .error error := by
  refine ⟨compileDocument_compiles_iff, ?_, ?_⟩
  · intro artifact compiles
    exact compileDocument_holdsEach distinct compiles
  · intro error
    exact compileDocument_fails_iff

end

-- query People { viewer { name } friend(number: 7) { name } } query viewer { viewer { name } }
def Sample.pair : Document where
  operations := Sample.document.operations ++ [⟨.query, some Sample.viewer, Sample.query,
    [.field ⟨none, Sample.viewer, .named Sample.user false, [], []⟩ [Sample.nameField]]⟩]

theorem operations_compile_alone_pair :
    ∃ artifact, Sample.pair.DistinctlyNamed ∧
      compileDocument Sample.pair (Sample.schema Sample.later) {} = .ok artifact ∧
      artifact.toList.map CompiledOperation.isAsync = [true, false] ∧
      artifact.HoldsEach Sample.pair.operations (Sample.schema Sample.later) {} := by
  have distinct : Sample.pair.DistinctlyNamed := by decide
  have compiles : compileDocument Sample.pair (Sample.schema Sample.later) {} = .ok _ :=
    (compileDocument_eq ..).trans rfl
  refine ⟨_, distinct, compiles, rfl, ?_⟩
  exact (operations_compile_alone distinct (Sample.schema Sample.later) {}).2.1 _ compiles

end StaticQuery
