import StaticQuery.Proofs.Compile.Artifact
import StaticQuery.Proofs.Compile.Field

/-!
Documents that are edited field by field, and compiled operations that are revised key by key and
call site by call site. An edit that touches nothing that compilation looks at leaves what comes
out of it as it was, up to a revision.
-/

namespace StaticQuery

namespace Expr

mutual

def revise (rename : Name → Name) (change : ResolverCall → ResolverCall) : Expr → Expr
  | .property source key => .property source key
  | .resolve site => .resolve (change site)
  | .literal value => .literal value
  | .scope binding value selection isAsync =>
      .scope binding (revise rename change value) (reviseAll rename change selection) isAsync

def reviseAll (rename : Name → Name) (change : ResolverCall → ResolverCall) :
    Properties → Properties
  | [] => []
  | (key, expr) :: rest => (rename key, revise rename change expr) :: reviseAll rename change rest

end

theorem reviseAll_append (rename : Name → Name) (change : ResolverCall → ResolverCall)
    (first second : Properties) :
    reviseAll rename change (first ++ second) =
      reviseAll rename change first ++ reviseAll rename change second := by
  induction first with
  | nil => rfl
  | cons property rest ih => simp [reviseAll, ih]

mutual

theorem revise_id : ∀ expr : Expr, expr.revise id id = expr
  | .property _ _ => rfl
  | .resolve _ => rfl
  | .literal _ => rfl
  | .scope binding value selection isAsync => by
      rw [revise, revise_id value, reviseAll_id selection]

theorem reviseAll_id : ∀ properties : Properties, reviseAll id id properties = properties
  | [] => rfl
  | (key, expr) :: rest => by rw [reviseAll, revise_id expr, reviseAll_id rest, id]

end

end Expr

def Gathered.revise (rename : Name → Name) (change : ResolverCall → ResolverCall)
    (gathered : Gathered) : Gathered :=
  ⟨Expr.reviseAll rename change gathered.properties, gathered.awaits⟩

def CompiledOperation.revise (rename : Name → Name) (change : ResolverCall → ResolverCall)
    (operation : CompiledOperation) : CompiledOperation :=
  ⟨operation.name, operation.isAsync, Expr.reviseAll rename change operation.data⟩

def Artifact.revise (rename : Name → Name) (change : ResolverCall → ResolverCall)
    (artifact : Artifact) : Artifact :=
  ⟨artifact.operations.map fun entry => (entry.1, entry.2.revise rename change)⟩

def ResolverCall.withoutInfo (site : ResolverCall) : ResolverCall :=
  { site with info := ⟨[]⟩ }

def Artifact.withoutInfo (artifact : Artifact) : Artifact :=
  artifact.revise id ResolverCall.withoutInfo

theorem CompiledOperation.name_eq_of_revise {rename : Name → Name}
    {change : ResolverCall → ResolverCall} {left right : CompiledOperation}
    (revised : left.revise rename change = right.revise rename change) : left.name = right.name :=
  (CompiledOperation.mk.inj revised).1

namespace Artifact

variable {rename : Name → Name} {change : ResolverCall → ResolverCall} {left right : Artifact}

theorem revise_id : Artifact.revise id id = id := by
  funext artifact
  simp [revise, CompiledOperation.revise, Expr.reviseAll_id]

theorem revise_eq_of_forall₂
    (entries : List.Forall₂ (fun left right => left.1 = right.1 ∧
      left.2.revise rename change = right.2.revise rename change)
      left.operations right.operations) :
    left.revise rename change = right.revise rename change := by
  simp only [revise, Artifact.mk.injEq, ← List.forall₂_eq_eq_eq, List.forall₂_map_left_iff,
    List.forall₂_map_right_iff]
  exact entries.imp fun left right entry => by rw [entry.1, entry.2]

end Artifact

abbrev FieldEdit := FieldHead TypeRef → Option (FieldHead TypeRef)

namespace Selection

mutual

def editAll (step : FieldEdit) : List (Selection TypeRef) → List (Selection TypeRef)
  | [] => []
  | selection :: rest => (edit step selection).toList ++ editAll step rest

def edit (step : FieldEdit) : Selection TypeRef → Option (Selection TypeRef)
  | .field head nested => (step head).map fun edited => .field edited (editAll step nested)
  | .fragmentSpread fragment directives => some (.fragmentSpread fragment directives)
  | .inlineFragment condition? directives selections =>
      some (.inlineFragment condition? directives (editAll step selections))

end

mutual

theorem editAll_some : ∀ selections : List (Selection TypeRef), editAll some selections = selections
  | [] => rfl
  | selection :: rest => by rw [editAll, edit_some selection, editAll_some rest]; rfl

theorem edit_some : ∀ selection : Selection TypeRef, edit some selection = some selection
  | .field head nested => by rw [edit, editAll_some nested]; rfl
  | .fragmentSpread _ _ => rfl
  | .inlineFragment _ _ selections => by rw [edit, editAll_some selections]

end

end Selection

def Operation.edit (step : FieldEdit) (operation : Operation) : Operation :=
  { operation with selections := Selection.editAll step operation.selections }

def Document.edit (step : FieldEdit) (document : Document) : Document :=
  ⟨document.operations.map (Operation.edit step)⟩

theorem Operation.edit_some (operation : Operation) : operation.edit some = operation := by
  rw [Operation.edit, Selection.editAll_some]

/-- An edit of fields that compilation does not see: it removes only fields that are dropped anyway,
and of the others it touches the alias and the directives only. `before` and `after` say whether
resolvers are told their fields, without the edit and with it. -/
structure FieldEdit.Unseen (edit : FieldEdit) (before after : Bool) (rename : Name → Name)
    (change : ResolverCall → ResolverCall) : Prop where
  removed : ∀ {head}, edit head = none → Directive.drop head.name head.directives = .ok true
  kept : ∀ {head edited}, edit head = some edited → ∃ alias? directives,
    edited = { head with alias? := alias?, directives := directives } ∧
      Directive.drop head.name directives = Directive.drop head.name head.directives ∧
      rename edited.responseKey = rename head.responseKey
  told : ∀ (site : ResolverCall) (node edited : FieldNode),
    change { site with info := ⟨if before then [node] else []⟩ } =
      change { site with info := ⟨if after then [edited] else []⟩ }

namespace FieldEdit.Unseen

variable {edit : FieldEdit} {before after : Bool} {rename : Name → Name}
  {change : ResolverCall → ResolverCall}

theorem revise_valueExpr (unseen : edit.Unseen before after rename change) (plan : FieldPlan)
    (node edited : FieldNode) (sameName : edited.head.name = node.head.name) (source : Binding) :
    (plan.valueExpr before node source).revise rename change =
      (plan.valueExpr after edited source).revise rename change := by
  unfold FieldPlan.valueExpr
  cases plan.resolver? with
  | none => rw [sameName]
  | some coordinate =>
      simp only [Expr.revise, Expr.resolve.injEq]
      exact unseen.told ⟨coordinate, source, plan.arguments, ⟨[]⟩, plan.isAsync⟩ node edited

/-- A kept field compiles as its edited form does, if what is selected on it does. -/
theorem gather_field_alike (unseen : edit.Unseen before after rename change)
    (schema : ExecutableSchema) (limit depth : Nat) (parent : Name)
    {head newHead : FieldHead TypeRef} (found : edit head = some newHead)
    {nested newNested : List (Selection TypeRef)}
    (inner : Alike (fun left right => left.revise rename change = right.revise rename change)
      (Selection.gatherAll ⟨schema, ⟨before, limit⟩⟩ (depth + 1) head.type.inner nested)
      (Selection.gatherAll ⟨schema, ⟨after, limit⟩⟩ (depth + 1) head.type.inner newNested)) :
    Alike (fun left right => left.revise rename change = right.revise rename change)
      (Selection.gather ⟨schema, ⟨before, limit⟩⟩ depth parent (.field head nested))
      (Selection.gather ⟨schema, ⟨after, limit⟩⟩ depth parent (.field newHead newNested)) := by
  obtain ⟨alias?, directives, rfl, drops, keys⟩ := unseen.kept found
  have values (plan : FieldPlan) := unseen.revise_valueExpr plan ⟨head, nested⟩
    ⟨{ head with alias? := alias?, directives := directives }, newNested⟩ rfl (.atDepth depth)
  simp only [Selection.gather, drops]
  refine (Alike.refl (fun _ => rfl) (Directive.drop head.name head.directives)).bind ?_
  rintro dropped _ rfl
  cases dropped with
  | true => exact .ok rfl
  | false =>
      refine (Alike.refl (fun _ => rfl) (head.shape schema.definitions parent)).bind ?_
      rintro shape _ rfl
      cases shape with
      | typename =>
          refine .ok ?_
          simp only [Gathered.revise, Gathered.one, Expr.reviseAll, keys]
      | leaf =>
          refine (Alike.refl (fun _ => rfl) (FieldPlan.make schema parent head)).bind ?_
          rintro plan _ rfl
          refine .ok ?_
          simp only [Gathered.revise, Gathered.one, Expr.reviseAll, keys, values]
      | scope =>
          simp only [Selection.gatherShaped]
          split
          · exact .error _
          · refine inner.bind fun selected => ?_
            refine (Alike.refl (fun _ => rfl) (FieldPlan.make schema parent head)).bind ?_
            rintro plan _ rfl
            obtain ⟨properties, awaits⟩ := Gathered.mk.inj selected
            refine .ok ?_
            simp only [Gathered.revise, Gathered.one, Expr.reviseAll, Expr.revise, keys, values,
              properties, awaits]

mutual

theorem gatherAll_alike (unseen : edit.Unseen before after rename change)
    (schema : ExecutableSchema) (limit depth : Nat) (parent : Name) :
    ∀ selections : List (Selection TypeRef),
      Alike (fun left right => left.revise rename change = right.revise rename change)
        (Selection.gatherAll ⟨schema, ⟨before, limit⟩⟩ depth parent selections)
        (Selection.gatherAll ⟨schema, ⟨after, limit⟩⟩ depth parent
          (Selection.editAll edit selections))
  | [] => .ok rfl
  | selection :: rest => by
      rw [Selection.editAll]
      exact unseen.gatherAll_cons_alike schema limit depth parent
        (unseen.gatherAll_alike schema limit depth parent rest) selection

theorem gatherAll_cons_alike (unseen : edit.Unseen before after rename change)
    (schema : ExecutableSchema) (limit depth : Nat) (parent : Name)
    {rest edited : List (Selection TypeRef)}
    (others : Alike (fun left right => left.revise rename change = right.revise rename change)
      (Selection.gatherAll ⟨schema, ⟨before, limit⟩⟩ depth parent rest)
      (Selection.gatherAll ⟨schema, ⟨after, limit⟩⟩ depth parent edited)) :
    ∀ selection : Selection TypeRef,
      Alike (fun left right => left.revise rename change = right.revise rename change)
        (Selection.gatherAll ⟨schema, ⟨before, limit⟩⟩ depth parent (selection :: rest))
        (Selection.gatherAll ⟨schema, ⟨after, limit⟩⟩ depth parent
          ((Selection.edit edit selection).toList ++ edited))
  | .fragmentSpread _ _ => by
      simp only [Selection.edit, Option.toList_some, List.singleton_append, Selection.gatherAll,
        Selection.gather]
      exact .error _
  | .inlineFragment _ _ _ => by
      simp only [Selection.edit, Option.toList_some, List.singleton_append, Selection.gatherAll,
        Selection.gather]
      exact .error _
  | .field head nested => by
      cases found : edit head with
      | none =>
          have dropped := unseen.removed found
          simp only [Selection.edit, found, Option.map_none, Option.toList_none, List.nil_append,
            Selection.gatherAll, Selection.gather, dropped, bind_ok, if_true,
            Gathered.none_append, bind_pure]
          exact others
      | some newHead =>
          have inner := unseen.gatherAll_alike schema limit (depth + 1) head.type.inner nested
          simp only [Selection.edit, found, Option.map_some, Option.toList_some,
            List.singleton_append, Selection.gatherAll]
          refine (unseen.gather_field_alike schema limit depth parent found inner).bind
            fun one => others.bind fun later => .ok ?_
          obtain ⟨oneProperties, oneAwaits⟩ := Gathered.mk.inj one
          obtain ⟨laterProperties, laterAwaits⟩ := Gathered.mk.inj later
          simp only [Gathered.revise, Gathered.append, Expr.reviseAll_append, oneProperties,
            oneAwaits, laterProperties, laterAwaits]

end

theorem compile_alike (unseen : edit.Unseen before after rename change)
    (schema : ExecutableSchema) (limit : Nat) (operation : Operation) :
    Alike (fun left right => left.revise rename change = right.revise rename change)
      (operation.compile ⟨schema, ⟨before, limit⟩⟩)
      ((operation.edit edit).compile ⟨schema, ⟨after, limit⟩⟩) := by
  simp only [Operation.compile, Operation.edit]
  by_cases query : operation.kind = .query
  · simp only [query, ne_eq, not_true_eq_false, if_false]
    cases operation.name? with
    | none => exact .error _
    | some name =>
        refine (unseen.gatherAll_alike schema limit 0 operation.rootType
          operation.selections).bind fun data => .ok ?_
        obtain ⟨properties, awaits⟩ := Gathered.mk.inj data
        simp only [CompiledOperation.revise, properties, awaits]
  · simp only [query, ne_eq, not_false_eq_true, if_true]
    exact .error _

end FieldEdit.Unseen

theorem compileDocument_alike_of_forall₂
    {related : CompiledOperation → CompiledOperation → Prop}
    (names : ∀ {left right}, related left right → left.name = right.name)
    {first second : Document} {schema other : ExecutableSchema} {options others : Options}
    (pairs : List.Forall₂ (fun left right => Alike related
      (left.compile ⟨schema, options⟩) (right.compile ⟨other, others⟩))
      first.operations second.operations) :
    Alike (fun left right => List.Forall₂ (fun left right => left.1 = right.1 ∧
        related left.2 right.2) left.operations right.operations)
      (compileDocument first schema options) (compileDocument second other others) := by
  rw [compileDocument_eq, compileDocument_eq]
  exact (Alike.mapM_of_forall₂ pairs).map fun compiled =>
    Artifact.forall₂_operations_ofList names compiled

/-- Up to a revision, a document compiles as its edited form does. -/
theorem FieldEdit.Unseen.compileDocument_eq {edit : FieldEdit} {before after : Bool}
    {rename : Name → Name} {change : ResolverCall → ResolverCall}
    (unseen : edit.Unseen before after rename change) (document : Document)
    (schema : ExecutableSchema) (limit : Nat) :
    (compileDocument document schema ⟨before, limit⟩).map (Artifact.revise rename change) =
      (compileDocument (document.edit edit) schema ⟨after, limit⟩).map
        (Artifact.revise rename change) := by
  have pairs : List.Forall₂ (fun left right => Alike
      (fun left right => left.revise rename change = right.revise rename change)
      (left.compile ⟨schema, ⟨before, limit⟩⟩) (right.compile ⟨schema, ⟨after, limit⟩⟩))
      document.operations (document.edit edit).operations := by
    refine List.forall₂_map_right_iff.mpr (List.forall₂_same.mpr ?_)
    intro operation _
    exact unseen.compile_alike schema limit operation
  have compiled := compileDocument_alike_of_forall₂ CompiledOperation.name_eq_of_revise pairs
  exact Alike.iff_map_eq.mp (compiled.imp fun _ _ entries => Artifact.revise_eq_of_forall₂ entries)

end StaticQuery
