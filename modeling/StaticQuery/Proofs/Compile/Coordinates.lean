import StaticQuery.Proofs.Compile.Artifact
import StaticQuery.Proofs.Compile.Field

/-!
What compilation reads of a schema's resolvers: at the coordinate of each field that it keeps,
whether there is a resolver and whether that is asynchronous. Nothing else in the table makes a
difference.
-/

namespace StaticQuery

def ExecutableSchema.capability? (schema : ExecutableSchema) (coordinate : Coordinate) :
    Option Bool :=
  (schema.resolveFn? coordinate).map ResolveFn.isAsync

namespace Selection

mutual

def coordinatesAll (schema : Schema) (parent : Name) :
    List (Selection TypeRef) → List Coordinate
  | [] => []
  | selection :: rest => coordinates schema parent selection ++ coordinatesAll schema parent rest

def coordinates (schema : Schema) (parent : Name) : Selection TypeRef → List Coordinate
  | .fragmentSpread _ _ => []
  | .inlineFragment _ _ _ => []
  | .field head nested =>
      if Directive.isDropped head.directives || head.isTypename schema parent then []
      else
        ⟨parent, head.name⟩ ::
          if head.hasFields schema then coordinatesAll schema head.type.inner nested else []

end

end Selection

def Document.coordinates (schema : Schema) (document : Document) : List Coordinate :=
  document.operations.flatMap fun operation =>
    Selection.coordinatesAll schema operation.rootType operation.selections

namespace ExecutableSchema

structure CapableAs (first second : ExecutableSchema) (coordinates : List Coordinate) : Prop where
  definitions : first.definitions = second.definitions
  capabilities : ∀ coordinate ∈ coordinates,
    first.capability? coordinate = second.capability? coordinate

namespace CapableAs

variable {first second : ExecutableSchema}

theorem of_subset {coordinates part : List Coordinate}
    (capable : first.CapableAs second coordinates) (among : part ⊆ coordinates) :
    first.CapableAs second part :=
  ⟨capable.definitions, fun coordinate member => capable.capabilities coordinate (among member)⟩

theorem make_eq {parent : Name} {head : FieldHead TypeRef} {rest : List Coordinate}
    (capable : first.CapableAs second (⟨parent, head.name⟩ :: rest)) :
    FieldPlan.make first parent head = FieldPlan.make second parent head := by
  unfold FieldPlan.make
  cases head.arguments.compile head.name with
  | error error => rfl
  | ok arguments =>
      have capability := capable.capabilities ⟨parent, head.name⟩ List.mem_cons_self
      unfold capability? at capability
      cases left : first.resolveFn? ⟨parent, head.name⟩ with
      | none =>
          rw [left, Option.map_none, eq_comm, Option.map_eq_none_iff] at capability
          simp only [left, capability]
      | some resolve =>
          rw [left, Option.map_some, eq_comm, Option.map_eq_some_iff] at capability
          obtain ⟨other, right, async⟩ := capability
          simp only [left, right, async]

mutual

theorem gatherAll_eq (options : Options) (depth : Nat) (parent : Name) :
    ∀ selections : List (Selection TypeRef),
      first.CapableAs second (Selection.coordinatesAll first.definitions parent selections) →
      Selection.gatherAll ⟨first, options⟩ depth parent selections =
        Selection.gatherAll ⟨second, options⟩ depth parent selections
  | [], _ => rfl
  | selection :: rest, capable => by
      rw [Selection.coordinatesAll] at capable
      have one := capable.of_subset (List.subset_append_left _ _)
      have others := capable.of_subset (List.subset_append_right _ _)
      rw [Selection.gatherAll, Selection.gatherAll, gather_eq options depth parent selection one,
        gatherAll_eq options depth parent rest others]

theorem gather_eq (options : Options) (depth : Nat) (parent : Name) :
    ∀ selection : Selection TypeRef,
      first.CapableAs second (Selection.coordinates first.definitions parent selection) →
      Selection.gather ⟨first, options⟩ depth parent selection =
        Selection.gather ⟨second, options⟩ depth parent selection
  | .fragmentSpread _ _, _ => rfl
  | .inlineFragment _ _ _, _ => rfl
  | .field head nested, capable => by
      simp only [Selection.gather, ← capable.definitions]
      refine bind_congr_of_ok fun dropped scanned => ?_
      cases dropped with
      | true => rfl
      | false =>
          simp only [Selection.coordinates, Directive.drop_eq_ok scanned, Bool.false_or] at capable
          rw [if_neg Bool.false_ne_true, if_neg Bool.false_ne_true]
          refine bind_congr_of_ok fun shape shaped => ?_
          cases shape with
          | typename => rfl
          | leaf =>
              obtain ⟨other, isLeaf⟩ := FieldHead.not_hasFields_of_shape shaped
              rw [other, if_neg Bool.false_ne_true] at capable
              simp only [Selection.gatherShaped, capable.make_eq]
          | scope =>
              obtain ⟨other, isScope⟩ := FieldHead.hasFields_of_shape shaped
              rw [other, isScope, if_neg Bool.false_ne_true, if_pos rfl] at capable
              have inner := gatherAll_eq options (depth + 1) head.type.inner nested
                (capable.of_subset (List.subset_cons_self _ _))
              simp only [Selection.gatherShaped, capable.make_eq, inner]

end

/-- A document compiles alike for schemas that are equally capable at its coordinates. -/
theorem compileDocument_eq {document : Document}
    (capable : first.CapableAs second (document.coordinates first.definitions))
    (options : Options) :
    compileDocument document first options = compileDocument document second options := by
  have compiled : ∀ operation ∈ document.operations,
      operation.compile ⟨first, options⟩ = operation.compile ⟨second, options⟩ := by
    intro operation listed
    have data := gatherAll_eq options 0 operation.rootType operation.selections
      (capable.of_subset fun coordinate member => List.mem_flatMap.mpr ⟨operation, listed, member⟩)
    simp only [Operation.compile, data]
  rw [StaticQuery.compileDocument_eq, StaticQuery.compileDocument_eq, mapM_congr compiled]

end CapableAs

end ExecutableSchema

end StaticQuery
