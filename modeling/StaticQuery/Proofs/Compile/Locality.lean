import StaticQuery.Proofs.Compile.Alignment
import StaticQuery.Proofs.Compile.Classification

/-!
On aligned stacks the depth is all that matters. Whatever else they hold, selections are compiled
to what the plain recursion gathers at their depth, or fail as it does, and nothing but marks is
left behind. So no selection is compiled differently for those beside it.
-/

namespace StaticQuery

theorem Binding.enclosing_eq (depth : Nat) :
    enclosing depth = .atDepth depth :: ((List.range depth).map atDepth).reverse := by
  induction depth with
  | zero => rfl
  | succ depth ih => simp [enclosing, ih, List.range_succ]

theorem Stacks.Framed.atDepth {state : Stacks} {depth : Nat} (framed : state.Framed (depth + 1))
    (opened : state.accumulators ≠ []) : state.AtDepth depth :=
  ⟨framed.sources_eq.trans (Binding.enclosing_eq depth).symm, framed.flags, opened⟩

/-- A selection gives one property, or none where it is dropped. -/
theorem Gathers.length_properties_le {target : Target} {depth : Nat} {parent : Name}
    {selections : List (Selection TypeRef)} {gathered : Gathered}
    (compiled : Gathers target depth parent selections gathered) :
    gathered.properties.length ≤ selections.length := by
  induction compiled with
  | nil => exact Nat.le_refl 0
  | dropped _ _ ih => exact Nat.le_succ_of_le ih
  | typename _ _ _ ih => exact Nat.succ_le_succ ih
  | leaf _ _ _ _ ih => exact Nat.succ_le_succ ih
  | scope _ _ _ _ _ _ _ ih => exact Nat.succ_le_succ ih

namespace Selection

variable {target : Target} {depth : Nat} {parent : Name}

theorem gatherAll_singleton (selection : Selection TypeRef) :
    gatherAll target depth parent [selection] = gather target depth parent selection := by
  simp only [gatherAll]
  cases gather target depth parent selection with
  | error error => rfl
  | ok gathered => simp [Gathered.append, Gathered.none]

theorem length_properties_le_one {selection : Selection TypeRef} {gathered : Gathered}
    (gathers : gather target depth parent selection = .ok gathered) :
    gathered.properties.length ≤ 1 := by
  rw [← gatherAll_singleton] at gathers
  exact (gathers_of_gatherAll gathers).length_properties_le

/-- Selections are gathered together just if each is on its own, and in their order. -/
theorem exists_gatherAll_iff {selections : List (Selection TypeRef)} {properties : Properties} :
    (∃ gathered, gatherAll target depth parent selections = .ok gathered ∧
        gathered.properties = properties) ↔
      ∃ parts : List Properties, properties = parts.flatten ∧
        List.Forall₂ (fun selection part => ∃ gathered,
          gather target depth parent selection = .ok gathered ∧ gathered.properties = part)
          selections parts := by
  induction selections generalizing properties with
  | nil => simp [gatherAll, Gathered.none, eq_comm]
  | cons selection rest ih =>
      constructor
      · rintro ⟨gathered, compiled, rfl⟩
        simp only [gatherAll, bind_eq_ok, pure_eq_ok, Except.ok.injEq] at compiled
        obtain ⟨first, firstOk, others, othersOk, rfl⟩ := compiled
        obtain ⟨parts, same, pairs⟩ := ih.mp ⟨others, othersOk, rfl⟩
        refine ⟨first.properties :: parts, ?_, .cons ⟨first, firstOk, rfl⟩ pairs⟩
        simp [Gathered.append, same]
      · rintro ⟨parts, rfl, pairs⟩
        cases pairs with
        | cons one pairs =>
            obtain ⟨first, firstOk, rfl⟩ := one
            obtain ⟨others, othersOk, same⟩ := ih.mpr ⟨_, rfl, pairs⟩
            refine ⟨first.append others, ?_, ?_⟩
            · simp [gatherAll, firstOk, othersOk]
            · simp [Gathered.append, same]

end Selection

namespace Machine

variable {target : Target} {state : Stacks} {depth : Nat} {parent : Name}

theorem compileSelectionSet_run (framed : state.Framed (depth + 1))
    (selections : List (Selection TypeRef)) :
    (compileSelectionSet target parent selections).run state = (do
      let gathered ← Selection.gatherAll target depth parent selections
      return (gathered.properties, state.mark gathered.awaits)) := by
  let opened : Stacks := { state with accumulators := [] :: state.accumulators }
  have placed : opened.AtDepth depth :=
    Stacks.Framed.atDepth ⟨framed.sources, framed.flags⟩ (List.cons_ne_nil _ _)
  have opens : openAccumulator.run state = .ok ((), opened) := rfl
  simp only [compileSelectionSet, withAccumulator, StateT.run_bind, opens, bind_ok,
    compileSelections_run target parent selections placed, bind_assoc, pure_bind]
  rfl

theorem exists_compileSelectionSet_iff (framed : state.Framed (depth + 1))
    {selections : List (Selection TypeRef)} {properties : Properties} :
    (∃ moved, (compileSelectionSet target parent selections).run state =
        .ok (properties, moved)) ↔
      ∃ gathered, Selection.gatherAll target depth parent selections = .ok gathered ∧
        gathered.properties = properties := by
  simp only [compileSelectionSet_run framed, bind_eq_ok, pure_eq_ok, Except.ok.injEq,
    Prod.mk.injEq]
  constructor
  · rintro ⟨moved, gathered, gathers, same, rfl⟩
    exact ⟨gathered, gathers, same⟩
  · rintro ⟨gathered, gathers, same⟩
    exact ⟨_, gathered, gathers, same, rfl⟩

/-- Compiling selections on these stacks is gathering them at a depth: it fails likewise, or ends
with what is gathered and the stacks as they were, every flag raised if a call is awaited. -/
structure FollowsRecursion (target : Target) (state : Stacks) (depth : Nat) (parent : Name) :
    Prop where
  selectionSet : ∀ selections,
    (compileSelectionSet target parent selections).run state = (do
      let gathered ← Selection.gatherAll target depth parent selections
      return (gathered.properties,
        { state with asyncFlags := state.asyncFlags.map (· || gathered.awaits) }))
  selection : ∀ selection top outer, state.accumulators = top :: outer →
    (compileSelection target parent selection).run state = (do
      let gathered ← Selection.gather target depth parent selection
      return ((), {
        sources := state.sources
        asyncFlags := state.asyncFlags.map (· || gathered.awaits)
        accumulators := (top ++ gathered.properties) :: outer }))
  atMostOne : ∀ selection gathered,
    Selection.gather target depth parent selection = .ok gathered →
      gathered.properties.length ≤ 1
  awaits : ∀ selections gathered,
    Selection.gatherAll target depth parent selections = .ok gathered →
      (gathered.awaits = true ↔
        ∃ site ∈ Expr.sitesAll gathered.properties, site.awaited = true)
  /-- A selection set compiles to what its selections do on their own, one after the other. -/
  siblings : ∀ selections properties,
    (∃ moved, (compileSelectionSet target parent selections).run state =
        .ok (properties, moved)) ↔
      ∃ parts : List Properties, properties = parts.flatten ∧
        List.Forall₂ (fun selection part => ∃ moved,
          (compileSelectionSet target parent [selection]).run state = .ok (part, moved))
          selections parts

theorem followsRecursion_of_framed (framed : state.Framed (depth + 1)) :
    FollowsRecursion target state depth parent where
  selectionSet := compileSelectionSet_run framed
  selection selection top outer opened := by
    have placed : state.AtDepth depth := framed.atDepth (by simp [opened])
    rw [compileSelection_run target parent selection placed]
    simp only [Stacks.record, opened, List.modifyHead_cons]
    rfl
  atMostOne _ _ := Selection.length_properties_le_one
  awaits _ _ gathers := (gathers_of_gatherAll gathers).classified.whole
  siblings selections properties := by
    simp only [exists_compileSelectionSet_iff framed, Selection.gatherAll_singleton]
    exact Selection.exists_gatherAll_iff

end Machine

open Machine

/-- The machine refines the plain recursion. Its stacks are aligned at every step from the start of
a document to its end, where the steps are those by which documents and selections are compiled.
On any aligned frames it compiles selections as the recursion does, and it never finds the stacks
out of balance. -/
theorem machine_refines_recursion (target : Target) :
    (∀ document outcome,
      compileDocument document target.schema target.options = outcome ↔
        (Configuration.start document).Leads target (outcome.map .finished)) ∧
    (∀ parent selection rest state,
      Configuration.Leads target ⟨.selection parent selection :: rest, state⟩
        ((compileSelection target parent selection).run state >>=
          fun moved => .ok ⟨rest, moved.2⟩)) ∧
    (∀ document configuration,
      (Configuration.start document).Reaches target configuration → configuration.Aligned) ∧
    (∀ (state : Stacks) (depth : Nat), state.Framed (depth + 1) →
      ∀ parent, FollowsRecursion target state depth parent) ∧
    ∀ document imbalance,
      compileDocument document target.schema target.options ≠
        .error (.stackImbalance imbalance) := by
  refine ⟨compileDocument_eq_iff_leads, ?_, ?_, ?_, compileDocument_ne_imbalance⟩
  · intro parent selection rest state
    exact leads_selection parent selection
  · intro document configuration reached
    exact (level_of_reaches reached).aligned
  · intro state depth framed parent
    exact followsRecursion_of_framed framed

theorem machine_refines_recursion_people :
    ∃ artifact properties,
      (Configuration.start Sample.document).Reaches ⟨Sample.schema Sample.later, {}⟩
        (.finished artifact) ∧
      (Configuration.finished artifact).Aligned ∧
      Stacks.Framed ⟨[.rootValue], [false], []⟩ 1 ∧
      (compileSelectionSet ⟨Sample.schema Sample.later, {}⟩ Sample.query
        (Sample.document.operations.flatMap Operation.selections)).run
          ⟨[.rootValue], [false], []⟩ = .ok (properties, ⟨[.rootValue], [true], []⟩) ∧
      properties.map Prod.fst = [Sample.viewer, Sample.friend] := by
  obtain ⟨ends, _, aligned, follows, _⟩ :=
    machine_refines_recursion ⟨Sample.schema Sample.later, {}⟩
  have reached : (Configuration.start Sample.document).Reaches ⟨Sample.schema Sample.later, {}⟩
      (.finished _) := (ends Sample.document (.ok _)).mp ((compileDocument_eq ..).trans rfl)
  have framed : Stacks.Framed ⟨[.rootValue], [false], []⟩ 1 := ⟨rfl, rfl⟩
  exact ⟨_, _, reached, aligned _ _ reached, framed,
    ((follows _ 0 framed Sample.query).selectionSet _).trans rfl, rfl⟩

end StaticQuery
