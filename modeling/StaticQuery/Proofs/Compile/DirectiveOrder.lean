import Mathlib.Data.List.TakeWhile
import StaticQuery.Proofs.Compile.Acceptance
import StaticQuery.Proofs.Compile.Gathering

/-!
Documents that differ in the order of the directives on their fields. They compile alike, unless a
field has both a directive that drops it and one whose condition is left open: such a field is
dropped or refused by whichever stands first.
-/

namespace StaticQuery

namespace Directive

/-- If one of the directives drops the field, no condition is left open. -/
def Settled (directives : List Directive) : Prop :=
  (∃ directive ∈ directives, directive.omits = true) →
    ∀ directive ∈ directives, directive.unfixed? = none

instance (directives : List Directive) : Decidable (Settled directives) :=
  inferInstanceAs (Decidable ((∃ directive ∈ directives, directive.omits = true) →
    ∀ directive ∈ directives, directive.unfixed? = none))

variable {directives others : List Directive}

theorem Settled.perm (settled : Settled directives) (reordered : directives.Perm others) :
    Settled others := by
  rintro ⟨directive, listed, omits⟩ other member
  exact settled ⟨directive, reordered.mem_iff.mpr listed, omits⟩ other
    (reordered.mem_iff.mpr member)

theorem isDropped_of_settled (settled : Settled directives) :
    isDropped directives = directives.any omits := by
  cases omitted : directives.any omits with
  | true =>
      have fixed := settled (List.any_eq_true.mp omitted)
      have all :
          (directives.takeWhile fun directive => directive.unfixed?.isNone) = directives := by
        refine List.takeWhile_eq_self_iff.mpr fun directive listed => ?_
        rw [fixed directive listed]
        rfl
      rw [isDropped, all, omitted]
  | false =>
      rw [isDropped, List.any_eq_false]
      intro directive listed
      exact List.any_eq_false.mp omitted directive (List.takeWhile_subset _ listed)

theorem isDropped_of_unfixed {before after : List Directive} {directive : Directive}
    {kind : Value.Kind} (unfixed : directive.unfixed? = some kind)
    (kept : ∀ earlier ∈ before, earlier.omits = false) :
    isDropped (before ++ directive :: after) = false := by
  have stops : (directive :: after).takeWhile (fun other => other.unfixed?.isNone) = [] := by
    rw [List.takeWhile_cons, if_neg (by simp [unfixed])]
  rw [isDropped, List.takeWhile_append, stops, List.any_eq_false]
  intro other listed
  have among : other ∈ before := by
    split at listed
    · simpa using listed
    · exact List.takeWhile_subset _ listed
  simp [kept other among]

theorem isDropped_perm (settled : Settled directives) (reordered : directives.Perm others) :
    isDropped others = isDropped directives := by
  rw [isDropped_of_settled settled, isDropped_of_settled (settled.perm reordered)]
  exact (reordered.any_eq).symm

/-- Which way a field goes does not depend on the order, only which condition is blamed does. -/
theorem drop_perm {field : Name} {dropped : Bool} (settled : Settled directives)
    (reordered : directives.Perm others) (scanned : drop field directives = .ok dropped) :
    drop field others = .ok dropped := by
  rw [drop_eq, isDropped_perm settled reordered]
  rw [drop_eq] at scanned
  cases decided : isDropped directives with
  | true => simpa [decided] using scanned
  | false =>
      cases unfixed : directives.findSome? unfixed? with
      | some kind => simp [decided, unfixed] at scanned
      | none =>
          have fixed : others.findSome? unfixed? = none := by
            rw [List.findSome?_eq_none_iff] at unfixed ⊢
            intro directive listed
            exact unfixed directive (reordered.mem_iff.mpr listed)
          simpa [decided, unfixed, fixed] using scanned

end Directive

namespace Selection

mutual

inductive ReorderedAll : List (Selection TypeRef) → List (Selection TypeRef) → Prop
  | nil : ReorderedAll [] []
  | cons {selection other : Selection TypeRef} {rest others : List (Selection TypeRef)} :
      Reordered selection other → ReorderedAll rest others →
      ReorderedAll (selection :: rest) (other :: others)

inductive Reordered : Selection TypeRef → Selection TypeRef → Prop
  | field {head : FieldHead TypeRef} {directives : List Directive}
      {nested others : List (Selection TypeRef)} :
      head.directives.Perm directives → ReorderedAll nested others →
      Reordered (.field head nested) (.field { head with directives := directives } others)
  | fragmentSpread (fragment : Name) (directives : List Directive) :
      Reordered (.fragmentSpread fragment directives) (.fragmentSpread fragment directives)
  | inlineFragment (condition? : Option Name) (directives : List Directive)
      {selections others : List (Selection TypeRef)} :
      ReorderedAll selections others →
      Reordered (.inlineFragment condition? directives selections)
        (.inlineFragment condition? directives others)

end

mutual

theorem ReorderedAll.symm : ∀ {selections others : List (Selection TypeRef)},
    ReorderedAll selections others → ReorderedAll others selections
  | _, _, .nil => .nil
  | _, _, .cons one rest => .cons one.symm rest.symm

theorem Reordered.symm : ∀ {selection other : Selection TypeRef},
    Reordered selection other → Reordered other selection
  | .field _ _, .field _ _, .field directives nested => .field directives.symm nested.symm
  | _, _, .fragmentSpread fragment directives => .fragmentSpread fragment directives
  | _, _, .inlineFragment condition? directives selections =>
      .inlineFragment condition? directives selections.symm

end

end Selection

structure Operation.Reordered (first second : Operation) : Prop where
  kind : second.kind = first.kind
  name : second.name? = first.name?
  rootType : second.rootType = first.rootType
  selections : Selection.ReorderedAll first.selections second.selections

theorem Operation.Reordered.symm {first second : Operation} (reordered : first.Reordered second) :
    second.Reordered first :=
  ⟨reordered.kind.symm, reordered.name.symm, reordered.rootType.symm, reordered.selections.symm⟩

namespace Document

def Reordered (first second : Document) : Prop :=
  List.Forall₂ Operation.Reordered first.operations second.operations

def Settled (schema : Schema) (document : Document) : Prop :=
  ∀ {depth parent head nested}, document.Reaches schema depth parent (.field head nested) →
    Directive.Settled head.directives

variable {schema : Schema} {first second : Document}

theorem Reordered.symm (reordered : first.Reordered second) : second.Reordered first :=
  reordered.flip.imp fun _ _ operations => operations.symm

end Document

theorem Selection.ReorderedAll.exists_left {selections others : List (Selection TypeRef)}
    (reordered : ReorderedAll selections others) {other : Selection TypeRef}
    (member : other ∈ others) : ∃ selection ∈ selections, Reordered selection other := by
  induction others generalizing selections with
  | nil => cases member
  | cons head rest ih =>
      cases reordered with
      | cons one later =>
          rcases List.mem_cons.mp member with rfl | listed
          · exact ⟨_, List.mem_cons_self, one⟩
          · obtain ⟨selection, found, same⟩ := ih later listed
            exact ⟨selection, List.mem_cons_of_mem _ found, same⟩

/-- What is looked at in one order is looked at in the other. -/
theorem Document.Reaches.exists_reordered {schema : Schema} {first second : Document}
    (reordered : first.Reordered second) (settled : first.Settled schema) {depth : Nat}
    {parent : Name} {other : Selection TypeRef}
    (reached : second.Reaches schema depth parent other) :
    ∃ selection, first.Reaches schema depth parent selection ∧ selection.Reordered other := by
  induction reached with
  | @root operation selection listed selected =>
      obtain ⟨source, found, same⟩ := exists_left_of_forall₂ reordered listed
      obtain ⟨selection, among, related⟩ := same.selections.exists_left selected
      rw [same.rootType]
      exact ⟨selection, .root found among, related⟩
  | @nested depth parent head nested selection _ kept other isScope selected ih =>
      obtain ⟨_, reached, related⟩ := ih
      cases related with
      | @field source directives inner _ order within =>
          obtain ⟨selection, among, related⟩ := within.exists_left selected
          rw [Directive.isDropped_perm (settled reached) order] at kept
          have inside : first.Reaches schema (depth + 1) source.type.inner selection :=
            .nested reached kept other isScope among
          exact ⟨selection, inside, related⟩

theorem Document.Settled.of_reordered {schema : Schema} {first second : Document}
    (settled : first.Settled schema) (reordered : first.Reordered second) :
    second.Settled schema := by
  intro depth parent head nested reached
  obtain ⟨_, source, related⟩ := reached.exists_reordered reordered settled
  cases related with
  | field order _ => exact (settled source).perm order

/-! What compiles in one order of directives compiles to the same in another, if resolvers are not
told their fields. -/

namespace Selection

section

variable {document : Document} {schema : ExecutableSchema} {limit : Nat}

theorem gather_field_reordered {depth : Nat} {parent : Name} {head : FieldHead TypeRef}
    {directives : List Directive} {nested others : List (Selection TypeRef)}
    (settled : Directive.Settled head.directives) (order : head.directives.Perm directives)
    (inner : ∀ {gathered}, Directive.isDropped head.directives = false →
      head.isTypename schema.definitions parent = false →
      head.hasFields schema.definitions = true →
      gatherAll ⟨schema, ⟨false, limit⟩⟩ (depth + 1) head.type.inner nested = .ok gathered →
      gatherAll ⟨schema, ⟨false, limit⟩⟩ (depth + 1) head.type.inner others = .ok gathered)
    {gathered : Gathered}
    (compiled : gather ⟨schema, ⟨false, limit⟩⟩ depth parent (.field head nested) =
      .ok gathered) :
    gather ⟨schema, ⟨false, limit⟩⟩ depth parent
      (.field { head with directives := directives } others) = .ok gathered := by
  rw [gather] at compiled ⊢
  obtain ⟨dropped, scanned, compiled⟩ := bind_eq_ok.mp compiled
  rw [Directive.drop_perm settled order scanned, bind_ok]
  cases dropped with
  | true => exact compiled
  | false =>
      obtain ⟨shape, shaped, compiled⟩ := bind_eq_ok.mp compiled
      refine bind_eq_ok.mpr ⟨shape, shaped, ?_⟩
      -- Shape, plan and key do not look at directives, so `compiled` fits as it is.
      cases shape with
      | typename => exact compiled
      | leaf => exact compiled
      | scope =>
          obtain ⟨other, isScope⟩ := FieldHead.hasFields_of_shape shaped
          simp only [gatherShaped] at compiled ⊢
          split at compiled
          · cases compiled
          · rename_i within
            obtain ⟨selected, found, compiled⟩ := bind_eq_ok.mp compiled
            have same := inner (Directive.drop_eq_ok scanned) other isScope found
            rw [if_neg within]
            exact bind_eq_ok.mpr ⟨selected, same, compiled⟩

mutual

theorem gatherAll_reordered (settled : document.Settled schema.definitions) {depth : Nat}
    {parent : Name} :
    ∀ {selections others : List (Selection TypeRef)} {gathered : Gathered},
      (∀ selection ∈ selections,
        document.Reaches schema.definitions depth parent selection) →
      ReorderedAll selections others →
      gatherAll ⟨schema, ⟨false, limit⟩⟩ depth parent selections = .ok gathered →
      gatherAll ⟨schema, ⟨false, limit⟩⟩ depth parent others = .ok gathered
  | [], _, _, _, .nil, compiled => compiled
  | _ :: _, _, _, reached, .cons same rest, compiled => by
      obtain ⟨one, later⟩ := List.forall_mem_cons.mp reached
      rw [gatherAll] at compiled ⊢
      obtain ⟨first, firstOk, compiled⟩ := bind_eq_ok.mp compiled
      obtain ⟨others, othersOk, compiled⟩ := bind_eq_ok.mp compiled
      refine bind_eq_ok.mpr ⟨first, gather_reordered settled one same firstOk, ?_⟩
      exact bind_eq_ok.mpr ⟨others, gatherAll_reordered settled later rest othersOk, compiled⟩

theorem gather_reordered (settled : document.Settled schema.definitions) {depth : Nat}
    {parent : Name} :
    ∀ {selection other : Selection TypeRef} {gathered : Gathered},
      document.Reaches schema.definitions depth parent selection → Reordered selection other →
      gather ⟨schema, ⟨false, limit⟩⟩ depth parent selection = .ok gathered →
      gather ⟨schema, ⟨false, limit⟩⟩ depth parent other = .ok gathered
  | .fragmentSpread _ _, _, _, _, .fragmentSpread _ _, compiled => by simp [gather] at compiled
  | .inlineFragment _ _ _, _, _, _, .inlineFragment _ _ _, compiled => by
      simp [gather] at compiled
  | .field head nested, _, _, reached, .field order within, compiled => by
      refine gather_field_reordered (settled reached) order ?_ compiled
      intro gathered kept other isScope found
      exact gatherAll_reordered settled
        (fun _ listed => .nested reached kept other isScope listed) within found

end

end

end Selection

theorem Operation.compile_reordered {document : Document} {schema : ExecutableSchema} {limit : Nat}
    (settled : document.Settled schema.definitions) {first second : Operation}
    (listed : first ∈ document.operations) (reordered : first.Reordered second)
    {compiled : CompiledOperation}
    (compiles : first.compile ⟨schema, ⟨false, limit⟩⟩ = .ok compiled) :
    second.compile ⟨schema, ⟨false, limit⟩⟩ = .ok compiled := by
  unfold Operation.compile at compiles ⊢
  rw [reordered.kind, reordered.name, reordered.rootType]
  by_cases query : first.kind = .query
  · rw [if_neg (not_not_intro query)] at compiles ⊢
    cases named : first.name? with
    | none => simp [named] at compiles
    | some name =>
        simp only [named] at compiles ⊢
        obtain ⟨gathered, found, compiles⟩ := bind_eq_ok.mp compiles
        refine bind_eq_ok.mpr ⟨gathered, ?_, compiles⟩
        exact Selection.gatherAll_reordered settled (fun _ selected => .root listed selected)
          reordered.selections found
  · simp [query] at compiles

theorem Operation.compileAll_reordered {document : Document} {schema : ExecutableSchema}
    {limit : Nat} (settled : document.Settled schema.definitions)
    {operations others : List Operation} (listed : operations ⊆ document.operations)
    (pairs : List.Forall₂ Operation.Reordered operations others)
    {compiled : List CompiledOperation}
    (results : List.Forall₂ (fun operation result =>
      operation.compile ⟨schema, ⟨false, limit⟩⟩ = .ok result) operations compiled) :
    List.Forall₂ (fun operation result =>
      operation.compile ⟨schema, ⟨false, limit⟩⟩ = .ok result) others compiled := by
  induction pairs generalizing compiled with
  | nil => cases results; exact .nil
  | cons pair _ ih =>
      obtain ⟨one, later⟩ := List.cons_subset.mp listed
      cases results with
      | cons result rest =>
          exact .cons (compile_reordered settled one pair result) (ih later rest)

theorem compileDocument_reordered {first second : Document} {schema : ExecutableSchema}
    {limit : Nat} (reordered : first.Reordered second) (settled : first.Settled schema.definitions)
    {artifact : Artifact} (compiles : compileDocument first schema ⟨false, limit⟩ = .ok artifact) :
    compileDocument second schema ⟨false, limit⟩ = .ok artifact := by
  obtain ⟨compiled, rfl, results⟩ := compileDocument_eq_ok compiles
  have others := Operation.compileAll_reordered settled (List.Subset.refl _) reordered results
  rw [compileDocument_eq, mapM_eq_ok_iff.mpr others]
  rfl

/-- A condition that is left open is found unless a directive before it has dropped the field. -/
theorem compileDocument_fails_of_unfixed {document : Document} {schema : ExecutableSchema}
    {options : Options} {depth : Nat} {parent : Name} {head : FieldHead TypeRef}
    {nested : List (Selection TypeRef)}
    (reached : document.Reaches schema.definitions depth parent (.field head nested))
    {before after : List Directive} {directive : Directive} {kind : Value.Kind}
    (written : head.directives = before ++ directive :: after)
    (unfixed : directive.unfixed? = some kind)
    (kept : ∀ earlier ∈ before, earlier.omits = false) :
    ∃ error, compileDocument document schema options = .error error := by
  have notDropped : Directive.isDropped head.directives = false := by
    rw [written]
    exact Directive.isDropped_of_unfixed unfixed kept
  have fault : CompileError.unsupportedArgumentKind kind .condition head.name ∈
      head.conditionFaults := by
    refine List.mem_map_of_mem (List.mem_filterMap.mpr ⟨directive, ?_, unfixed⟩)
    simp [written]
  have found : CompileError.unsupportedArgumentKind kind .condition head.name ∈
      document.faults schema.definitions options.recursionLimit := by
    refine reached.faults_subset _ ?_
    simp [Selection.faults, notDropped, fault]
  obtain ⟨error, _, failed⟩ := compileDocument_fails_of_mem found
  exact ⟨error, failed⟩

/-- The order of directives does not matter where no field that is looked at has both a directive
that drops it and a condition that is left open. An open condition is refused wherever it stands,
except behind a directive that drops the field. -/
theorem directive_order_irrelevant_if_settled (schema : ExecutableSchema) (limit : Nat) :
    (∀ first second : Document, first.Reordered second → first.Settled schema.definitions →
      ∀ artifact, compileDocument first schema ⟨false, limit⟩ = .ok artifact ↔
        compileDocument second schema ⟨false, limit⟩ = .ok artifact) ∧
    ∀ (document : Document) (depth : Nat) (parent : Name) (head : FieldHead TypeRef)
      (nested : List (Selection TypeRef)),
      document.Reaches schema.definitions depth parent (.field head nested) →
      ∀ before directive after kind, head.directives = before ++ directive :: after →
        directive.unfixed? = some kind → (∀ earlier ∈ before, earlier.omits = false) →
        ∃ error, compileDocument document schema ⟨false, limit⟩ = .error error := by
  constructor
  · intro first second reordered settled artifact
    have settledToo : second.Settled schema.definitions := settled.of_reordered reordered
    exact ⟨compileDocument_reordered reordered settled,
      compileDocument_reordered reordered.symm settledToo⟩
  · intro document depth parent head nested reached before directive after kind written unfixed kept
    exact compileDocument_fails_of_unfixed reached written unfixed kept

namespace Sample

def skipTrue : Directive :=
  ⟨skipping, [(.condition, .boolean true)]⟩

def includeFalse : Directive :=
  ⟨including, [(.condition, .boolean false)]⟩

def includeLater : Directive :=
  ⟨including, [(.condition, .var name)]⟩

def directedViewer (directives : List Directive) : Selection TypeRef :=
  .field ⟨none, viewer, .named user false, [], directives⟩ [nameField]

-- query People { viewer … { name } }
def directed (directives : List Directive) : Document where
  operations := [⟨.query, some people, query, [directedViewer directives]⟩]

theorem directed_reordered {directives others : List Directive}
    (order : directives.Perm others) : (directed directives).Reordered (directed others) := by
  have viewer : Selection.Reordered (directedViewer directives) (directedViewer others) :=
    .field order (.cons (.field (.refl _) .nil) .nil)
  exact .cons ⟨rfl, rfl, rfl, .cons viewer .nil⟩ .nil

theorem directed_settled {directives : List Directive} (settled : Directive.Settled directives)
    (dropped : Directive.isDropped directives = true) :
    (directed directives).Settled definitions := by
  have only {depth parent selection}
      (reached : (directed directives).Reaches definitions depth parent selection) :
      selection = directedViewer directives := by
    induction reached with
    | root listed selected =>
        obtain rfl := List.mem_singleton.mp listed
        exact List.mem_singleton.mp selected
    | nested _ kept _ _ _ ih =>
        cases ih
        rw [dropped] at kept
        cases kept
  intro depth parent head nested reached
  cases only reached
  exact settled

end Sample

theorem directive_order_irrelevant_if_settled_viewer :
    (∃ artifact,
      compileDocument (Sample.directed [Sample.skipTrue, Sample.includeFalse])
        (.ofSchema Sample.definitions) ⟨false, 512⟩ = .ok artifact ∧
      compileDocument (Sample.directed [Sample.includeFalse, Sample.skipTrue])
        (.ofSchema Sample.definitions) ⟨false, 512⟩ = .ok artifact) ∧
    ∃ error, compileDocument (Sample.directed [Sample.includeLater, Sample.skipTrue])
      (.ofSchema Sample.definitions) ⟨false, 512⟩ = .error error := by
  obtain ⟨alike, refused⟩ :=
    directive_order_irrelevant_if_settled (.ofSchema Sample.definitions) 512
  constructor
  · have compiles : compileDocument (Sample.directed [Sample.skipTrue, Sample.includeFalse])
      (.ofSchema Sample.definitions) ⟨false, 512⟩ = .ok _ := rfl
    refine ⟨_, compiles, (alike _ _ (Sample.directed_reordered ?_) ?_ _).mp compiles⟩
    · exact List.Perm.swap _ _ []
    · exact Sample.directed_settled (by decide) (by decide)
  · exact refused _ 0 Sample.query _ _ (.root List.mem_cons_self List.mem_cons_self) []
      Sample.includeLater [Sample.skipTrue] .var rfl rfl (by simp)

theorem directive_order_matters :
    (Sample.directed [Sample.skipTrue, Sample.includeLater]).Reordered
      (Sample.directed [Sample.includeLater, Sample.skipTrue]) ∧
    (∃ artifact, compileDocument (Sample.directed [Sample.skipTrue, Sample.includeLater])
      (.ofSchema Sample.definitions) ⟨false, 512⟩ = .ok artifact) ∧
    compileDocument (Sample.directed [Sample.includeLater, Sample.skipTrue])
      (.ofSchema Sample.definitions) ⟨false, 512⟩ =
      .error (.unsupportedArgumentKind .var .condition Sample.viewer) :=
  ⟨Sample.directed_reordered (.swap _ _ []), ⟨_, rfl⟩, rfl⟩

end StaticQuery
