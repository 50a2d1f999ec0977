import StaticQuery.Plan.Stock
import StaticQuery.Proofs.Compile.Gathering
import StaticQuery.Proofs.OrderedMap

/-!
The artifact of a document holds, under each operation's name, what that operation compiles to.
-/

namespace StaticQuery

namespace OrderedMap

variable {κ α β : Type} [DecidableEq κ]

/-- Writing related values under one key keeps two maps related entry by entry. -/
theorem forall₂_insert {related : α → β → Prop} {first : OrderedMap κ α} {second : OrderedMap κ β}
    (entries : List.Forall₂ (fun left right => left.1 = right.1 ∧ related left.2 right.2)
      first second)
    (key : κ) {left : α} {right : β} (values : related left right) :
    List.Forall₂ (fun left right => left.1 = right.1 ∧ related left.2 right.2)
      (first.insert key left) (second.insert key right) := by
  induction entries with
  | nil => exact List.Forall₂.cons ⟨rfl, values⟩ List.Forall₂.nil
  | cons entry rest ih =>
      rename_i leftEntry rightEntry leftRest rightRest
      obtain ⟨known, leftOld⟩ := leftEntry
      obtain ⟨_, rightOld⟩ := rightEntry
      obtain ⟨rfl, old⟩ := entry
      simp only [insert]
      split
      · exact List.Forall₂.cons ⟨rfl, values⟩ rest
      · exact List.Forall₂.cons ⟨rfl, old⟩ ih

end OrderedMap

namespace Artifact

/-- Whatever an artifact holds was written to it, and stands under its own name. -/
theorem mem_operations_ofList {operations : List CompiledOperation}
    {entry : Name × CompiledOperation} (member : entry ∈ (ofList operations).operations) :
    entry.1 = entry.2.name ∧ entry.2 ∈ operations := by
  have entries : ∀ entry ∈ (ofList operations).operations,
      entry.1 = entry.2.name ∧ entry.2 ∈ operations := by
    refine List.foldlRecOn (motive := fun artifact : Artifact => ∀ entry ∈ artifact.operations,
      entry.1 = entry.2.name ∧ entry.2 ∈ operations) operations insert
      (fun _ member => nomatch member) ?_
    intro artifact known operation written entry member
    rcases OrderedMap.mem_insert member with rfl | old
    · exact ⟨rfl, written⟩
    · exact known entry old
  exact entries entry member

theorem mem_of_mem_toList_ofList {operations : List CompiledOperation}
    {operation : CompiledOperation} (member : operation ∈ (ofList operations).toList) :
    operation ∈ operations := by
  obtain ⟨entry, found, rfl⟩ := List.mem_map.mp member
  exact (mem_operations_ofList found).2

theorem mem_keys_foldl {operations : List CompiledOperation} {artifact : Artifact} {name : Name}
    (known : name ∈ artifact.operations.keys ∨ name ∈ operations.map CompiledOperation.name) :
    name ∈ (operations.foldl Artifact.insert artifact).operations.keys := by
  induction operations generalizing artifact with
  | nil => simpa using known
  | cons operation rest ih =>
      apply ih
      simp only [insert, OrderedMap.keys_insert]
      rcases known with old | listed
      · left
        split
        · exact old
        · exact List.mem_append_left _ old
      · rcases List.mem_cons.mp listed with rfl | later
        · left
          split
          · assumption
          · exact List.mem_append_right _ (List.mem_singleton.mpr rfl)
        · exact Or.inr later

theorem exists_mem_toList_ofList {operations : List CompiledOperation}
    {operation : CompiledOperation} (member : operation ∈ operations) :
    ∃ kept ∈ (ofList operations).toList, kept.name = operation.name := by
  have key : operation.name ∈ (ofList operations).operations.keys :=
    mem_keys_foldl (Or.inr (List.mem_map_of_mem member))
  obtain ⟨entry, found, same⟩ := List.mem_map.mp key
  exact ⟨entry.2, List.mem_map_of_mem found, (mem_operations_ofList found).1.symm.trans same⟩

theorem forall₂_foldl_insert {related : CompiledOperation → CompiledOperation → Prop}
    (names : ∀ {left right}, related left right → left.name = right.name)
    {first second : List CompiledOperation} (pairs : List.Forall₂ related first second)
    (left right : Artifact)
    (entries : List.Forall₂ (fun left right => left.1 = right.1 ∧ related left.2 right.2)
      left.operations right.operations) :
    List.Forall₂ (fun left right => left.1 = right.1 ∧ related left.2 right.2)
      (first.foldl Artifact.insert left).operations
      (second.foldl Artifact.insert right).operations := by
  induction pairs generalizing left right with
  | nil => exact entries
  | cons pair rest ih =>
      apply ih
      simp only [insert, names pair]
      exact OrderedMap.forall₂_insert entries _ pair

theorem forall₂_operations_ofList {related : CompiledOperation → CompiledOperation → Prop}
    (names : ∀ {left right}, related left right → left.name = right.name)
    {first second : List CompiledOperation} (pairs : List.Forall₂ related first second) :
    List.Forall₂ (fun left right => left.1 = right.1 ∧ related left.2 right.2)
      (ofList first).operations (ofList second).operations :=
  forall₂_foldl_insert names pairs .empty .empty .nil

end Artifact

section

variable {document : Document} {schema : ExecutableSchema} {options : Options} {artifact : Artifact}

theorem compileDocument_eq_ok (compiles : compileDocument document schema options = .ok artifact) :
    ∃ compiled, artifact = .ofList compiled ∧
      List.Forall₂ (fun operation result => operation.compile ⟨schema, options⟩ = .ok result)
        document.operations compiled := by
  rw [compileDocument_eq] at compiles
  cases results : document.operations.mapM (Operation.compile ⟨schema, options⟩) with
  | error error => simp [results, Except.map] at compiles
  | ok compiled =>
      simp only [results, Except.map, Except.ok.injEq] at compiles
      exact ⟨compiled, compiles.symm, mapM_eq_ok_iff.mp results⟩

theorem exists_operation_of_mem (compiles : compileDocument document schema options = .ok artifact)
    {compiled : CompiledOperation} (member : compiled ∈ artifact.toList) :
    ∃ operation ∈ document.operations, operation.compile ⟨schema, options⟩ = .ok compiled := by
  obtain ⟨results, rfl, pairs⟩ := compileDocument_eq_ok compiles
  exact exists_left_of_forall₂ pairs (Artifact.mem_of_mem_toList_ofList member)

theorem exists_compiled_of_mem (compiles : compileDocument document schema options = .ok artifact)
    {operation : Operation} (member : operation ∈ document.operations) :
    ∃ compiled ∈ artifact.toList, operation.name? = some compiled.name := by
  obtain ⟨results, rfl, pairs⟩ := compileDocument_eq_ok compiles
  obtain ⟨result, listed, compiled⟩ := exists_left_of_forall₂ pairs.flip member
  obtain ⟨kept, found, same⟩ := Artifact.exists_mem_toList_ofList listed
  obtain ⟨_, named, _⟩ := Operation.compile_eq_ok compiled
  exact ⟨kept, found, by rw [named, same]⟩

end

/-! A small schema and document, for the cases in which later statements are tried. -/

namespace Sample

def query : Name := ⟨"Query", by decide⟩
def user : Name := ⟨"User", by decide⟩
def text : Name := ⟨"String", by decide⟩
def integer : Name := ⟨"Int", by decide⟩
def viewer : Name := ⟨"viewer", by decide⟩
def friend : Name := ⟨"friend", by decide⟩
def number : Name := ⟨"number", by decide⟩
def name : Name := ⟨"name", by decide⟩
def people : Name := ⟨"People", by decide⟩
def skipping : Name := ⟨"skip", by decide⟩
def including : Name := ⟨"include", by decide⟩

def definitions : Schema where
  types := [
    ⟨query, [], .object [] [
      ⟨viewer, [], .named user false, []⟩,
      ⟨friend, [⟨number, .named integer false, none, []⟩], .named user false, []⟩]⟩,
    ⟨user, [], .object [] [⟨name, [], .named text false, []⟩]⟩,
    ⟨text, [], .scalar⟩,
    ⟨integer, [], .scalar⟩]
  directives := []
  query? := some query
  mutation? := none
  subscription? := none

def schema (resolve : ResolveFn) : ExecutableSchema :=
  ⟨definitions, [(⟨query, friend⟩, ⟨some resolve⟩)]⟩

def atOnce : ResolveFn :=
  .sync Resolver.echoSource

def later : ResolveFn :=
  .async (Resolver.delayed 2 Resolver.echoSource)

def nameField : Selection TypeRef :=
  .field ⟨none, name, .named text false, [], []⟩ []

-- query People { viewer { name } friend(number: 7) { name } }
def document : Document where
  operations := [⟨.query, some people, query, [
    .field ⟨none, viewer, .named user false, [], []⟩ [nameField],
    .field ⟨none, friend, .named user false, [(number, .int "7")], []⟩ [nameField]]⟩]

end Sample

end StaticQuery
