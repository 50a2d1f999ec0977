import StaticQuery.Proofs.Compile.Editing

/-!
Fields that are dropped by a literal condition leave no trace. A document compiles as it does
without them, and without the literal conditions on the fields that remain.
-/

namespace StaticQuery

namespace Directive

def isSettled (directive : Directive) : Bool :=
  match directive.dropsWhen?, directive.arguments.find? Name.condition.text with
  | some _, some (.boolean _) => true
  | _, _ => false

def unsettled (directives : List Directive) : List Directive :=
  directives.filter fun directive => !directive.isSettled

theorem unfixed?_of_isSettled {directive : Directive} (settled : directive.isSettled = true) :
    directive.unfixed? = none := by
  unfold isSettled at settled
  split at settled
  · rename_i given
    have condition : directive.arguments.find? "if" = some (.boolean _) := given
    simp [unfixed?, condition]
  · cases settled

/-- Where a field is not dropped, settled conditions have no part in what is found. -/
theorem drop_unsettled {field : Name} {directives : List Directive}
    (kept : drop field directives ≠ .ok true) :
    drop field (unsettled directives) = drop field directives := by
  induction directives with
  | nil => rfl
  | cons directive rest ih =>
      simp only [unsettled, List.filter_cons] at ih ⊢
      rw [drop_cons] at kept
      cases omitted : directive.omits with
      | true => simp [omitted] at kept
      | false =>
          rw [omitted, if_neg Bool.false_ne_true] at kept
          rw [drop_cons, omitted, if_neg Bool.false_ne_true]
          cases settled : directive.isSettled with
          | true =>
              rw [unfixed?_of_isSettled settled] at kept ⊢
              exact ih kept
          | false =>
              rw [Bool.not_false, if_pos rfl, drop_cons, omitted, if_neg Bool.false_ne_true]
              cases unfixed : directive.unfixed? with
              | some kind => rfl
              | none =>
                  rw [unfixed] at kept
                  exact ih kept

end Directive

namespace FieldHead

def pruned? : FieldEdit := fun head =>
  if Directive.drop head.name head.directives = .ok true then none
  else some { head with directives := Directive.unsettled head.directives }

theorem unseen_pruned? {emitAst : Bool} {change : ResolverCall → ResolverCall}
    (told : ∀ (site : ResolverCall) (node edited : FieldNode),
      change { site with info := ⟨if emitAst then [node] else []⟩ } =
        change { site with info := ⟨if emitAst then [edited] else []⟩ }) :
    pruned?.Unseen emitAst emitAst id change := by
  refine ⟨?_, ?_, told⟩
  · intro head removed
    simpa [pruned?] using removed
  · intro head edited kept
    unfold pruned? at kept
    split at kept
    · cases kept
    · rename_i remains
      cases kept
      exact ⟨head.alias?, _, rfl, Directive.drop_unsettled remains, rfl⟩

end FieldHead

namespace Document

def pruned (document : Document) : Document :=
  document.edit FieldHead.pruned?

/-- Both documents fail with the same error, or give the same artifact. What resolvers are told of
their fields is put aside. -/
structure CompilesLike (first second : Document) (schema : ExecutableSchema) (limit : Nat) :
    Prop where
  untold : compileDocument first schema { emitAst := false, recursionLimit := limit } =
    compileDocument second schema { emitAst := false, recursionLimit := limit }
  told : (compileDocument first schema { emitAst := true, recursionLimit := limit }).map
      Artifact.withoutInfo =
    (compileDocument second schema { emitAst := true, recursionLimit := limit }).map
      Artifact.withoutInfo

theorem compilesLike_pruned (document : Document) (schema : ExecutableSchema) (limit : Nat) :
    document.CompilesLike document.pruned schema limit := by
  have untold : FieldHead.pruned?.Unseen false false id id :=
    FieldHead.unseen_pruned? fun _ _ _ => rfl
  have told : FieldHead.pruned?.Unseen true true id ResolverCall.withoutInfo :=
    FieldHead.unseen_pruned? fun _ _ _ => rfl
  constructor
  · have compiled := untold.compileDocument_eq document schema limit
    rwa [Artifact.revise_id, Except.map_id, id, id] at compiled
  · exact told.compileDocument_eq document schema limit

end Document

/-- Dropped fields and literal conditions have no part in compilation. A document compiles as it
does without them, so whatever dropped fields select makes no difference. -/
theorem pruned_compiles_alike (document : Document) (schema : ExecutableSchema) (limit : Nat) :
    document.CompilesLike document.pruned schema limit ∧
      ∀ other : Document, other.pruned = document.pruned →
        document.CompilesLike other schema limit := by
  have own := document.compilesLike_pruned schema limit
  refine ⟨own, ?_⟩
  intro other same
  have others := other.compilesLike_pruned schema limit
  rw [same] at others
  exact ⟨own.untold.trans others.untold.symm, own.told.trans others.told.symm⟩

namespace Sample

def nameIncluded : Selection TypeRef :=
  .field ⟨none, name, .named text false, [], [⟨including, [(.condition, .boolean true)]⟩]⟩ []

def friendSkipped (nested : List (Selection TypeRef)) : Selection TypeRef :=
  .field ⟨none, friend, .named user false, [(number, .var number)],
    [⟨skipping, [(.condition, .boolean true)]⟩]⟩ nested

-- query People { viewer { name @include(if: true) } friend(number: $number) @skip(if: true) { … } }
def conditional (nested : List (Selection TypeRef)) : Document where
  operations := [⟨.query, some people, query,
    [.field ⟨none, viewer, .named user false, [], []⟩ [nameIncluded], friendSkipped nested]⟩]

end Sample

theorem pruned_compiles_alike_conditional :
    ∃ artifact,
      compileDocument (Sample.conditional [.fragmentSpread Sample.name []])
        (Sample.schema Sample.later) {} = .ok artifact ∧
      artifact.toList.map CompiledOperation.isAsync = [false] ∧
      (Sample.conditional [.fragmentSpread Sample.name []]).CompilesLike
        (Sample.conditional [.fragmentSpread Sample.name []]).pruned
        (Sample.schema Sample.later) 512 ∧
      (Sample.conditional [.fragmentSpread Sample.name []]).CompilesLike
        (Sample.conditional [Sample.nameField]) (Sample.schema Sample.later) 512 := by
  have compiles : compileDocument (Sample.conditional [.fragmentSpread Sample.name []])
      (Sample.schema Sample.later) {} = .ok _ := (compileDocument_eq ..).trans rfl
  obtain ⟨own, others⟩ := pruned_compiles_alike
    (Sample.conditional [.fragmentSpread Sample.name []]) (Sample.schema Sample.later) 512
  exact ⟨_, compiles, rfl, own, others _ rfl⟩

end StaticQuery
