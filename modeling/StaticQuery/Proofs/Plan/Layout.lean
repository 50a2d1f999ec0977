import StaticQuery.Proofs.Plan.Brackets

/-!
The layout of source texts. Outside of string literals the brackets of a source are nested and
balanced, and each of its lines is indented by the braces that are open where it starts.
-/

namespace StaticQuery

theorem Name.inline_text (name : Name) : Inline name.text.toList :=
  .of_all rfl fun _ member => name.isNameContinue_of_mem member

theorem Binding.inline_render (binding : Binding) : Inline binding.render.toList :=
  .of_all rfl fun _ member => isNameContinue_of_mem member

/-- A name can stand at the start of a line. -/
theorem Name.exists_head (name : Name) :
    ∃ c, name.text.toList.head? = some c ∧ c ≠ ' ' ∧ c ≠ '}' := by
  have valid := name.valid
  cases text : name.text.toList with
  | nil => simp [isName, text] at valid
  | cons c rest =>
      have inName : isNameContinue c = true :=
        Name.isNameContinue_of_mem (by rw [text]; exact List.mem_cons_self)
      refine ⟨c, rfl, ?_, ?_⟩
      · rintro rfl
        cases inName
      · rintro rfl
        cases inName

namespace Source

theorem inline_quoted (text : String) : Inline (Json.quoted text).toList := by
  rw [toList_quoted]
  exact Json.inline_quotedChars text

theorem inline_render (value : Json) : Inline value.render.toList := by
  rw [toList_render]
  exact value.inline_chars

theorem inline_nodes (fieldNodes : List FieldNode) : Inline (nodes fieldNodes).toList := by
  induction fieldNodes with
  | nil => exact .nil
  | cons node fieldNodes ih =>
      have comma := (Inline.singleton (by decide : ',' ∉ '\n' :: Brackets.marks)).append
        (Inline.singleton (by decide : ' ' ∉ '\n' :: Brackets.marks))
      rw [toList_nodes_cons]
      exact (Json.inline_quotedChars node.render).append
        (.afterFirst (fun others => (nodes others).toList) comma ih)

variable {opened : Brackets}

theorem lays_info (info : ResolveInfo) (opened : Brackets) :
    Lays opened (Source.info info).toList opened := by
  obtain ⟨fieldNodes⟩ := info
  cases fieldNodes with
  | nil => exact .ofLine (by decide) rfl
  | cons node others =>
      have opening : Lays opened "\x7b fieldNodes: [".toList (.square :: .curly :: opened) :=
        .ofLine (by decide) rfl
      have closing : Lays (.square :: .curly :: opened) "] \x7d".toList opened :=
        .ofLine (by decide) rfl
      exact (opening.concat ((inline_nodes _).lays _)).concat closing

theorem lays_call (site : ResolverCall) (opened : Brackets) :
    Lays opened (call site).toList opened := by
  have await : Lays opened (if site.awaited then "await " else "").toList opened := by
    cases site.awaited with
    | true => exact .ofLine (by decide) rfl
    | false => exact .ofLine (by decide) rfl
  have getType : Lays opened "schema.getType(".toList (.round :: opened) := .ofLine (by decide) rfl
  have fields : Lays (.round :: opened) ").toConfig().fields.".toList opened :=
    .ofLine (by decide) rfl
  have resolve : Lays opened ".resolve(".toList (.round :: opened) := .ofLine (by decide) rfl
  have comma : Lays (.round :: opened) ", ".toList (.round :: opened) := .ofLine (by decide) rfl
  have undefined : Lays (.round :: opened) ", undefined, ".toList (.round :: opened) :=
    .ofLine (by decide) rfl
  have closing : Lays (.round :: opened) ")".toList opened := .ofLine (by decide) rfl
  have type := (inline_quoted site.coordinate.type.text).lays (.round :: opened)
  have resolver := ((((await.concat getType).concat type).concat fields).concat
    (site.coordinate.field.inline_text.lays opened)).concat resolve
  have source := (resolver.concat (site.source.inline_render.lays _)).concat comma
  exact (((source.concat ((inline_render _).lays _)).concat undefined).concat
    (lays_info site.info _)).concat closing

theorem head?_toList_append {text more : String} {c : Char} (lead : text.toList.head? = some c) :
    (text ++ more).toList.head? = some c := by
  rw [String.toList_append, List.head?_append, lead, Option.some_or]

/-- A block opens a brace at the end of its first line and closes it at the start of its last. -/
theorem lays_block {depth : Nat} {opened inner outer : Brackets} {opening body closing : String}
    (depths : inner.count .curly = depth + 1) (opens : Lays opened opening.toList inner)
    (lays : Lays inner body.toList inner) (closes : Lays inner closing.toList outer)
    (lead : ∃ c, body.toList.head? = some c ∧ c ≠ ' ' ∧ c ≠ '}')
    (last : closing.toList.head? = some '}') :
    Lays opened (block depth opening body closing).toList outer := by
  obtain ⟨c, first, visible, inside⟩ := lead
  have deeper : 2 * (depth + 1) + (if c = '}' then 2 else 0) = 2 * inner.count .curly := by
    rw [if_neg inside, depths, Nat.add_zero]
  have back : 2 * depth + (if '}' = '}' then 2 else 0) = 2 * inner.count .curly := by
    rw [if_pos rfl, depths, Nat.mul_succ]
  exact (opens.nextLine lays first visible deeper).nextLine closes last (by decide) back

theorem lays_mergeOpening (binding : Binding) (opened : Brackets) :
    Lays opened (mergeOpening binding.render).toList (.round :: opened) := by
  have bound (opened : Brackets) := binding.inline_render.lays opened
  have opening : Lays opened "return Object.assign(\x7b\x7d, typeof ".toList (.round :: opened) :=
    .ofLine (by decide) rfl
  have isObject : Lays (.round :: opened) " === \"object\" && !Array.isArray(".toList
      (.round :: .round :: opened) := .ofLine (by decide) rfl
  have question : Lays (.round :: .round :: opened) ") ? ".toList (.round :: opened) :=
    .ofLine (by decide) rfl
  have otherwise : Lays (.round :: opened) " : \x7b\x7d, ".toList (.round :: opened) :=
    .ofLine (by decide) rfl
  exact (((((opening.concat (bound _)).concat isObject).concat (bound _)).concat question).concat
    (bound _)).concat otherwise

theorem head_properties (depth : Nat) (key : Name) (value : Expr) (data : Properties) :
    ∃ c, (properties depth ((key, value) :: data)).toList.head? = some c ∧ c ≠ ' ' ∧ c ≠ '}' := by
  obtain ⟨c, lead, other⟩ := key.exists_head
  refine ⟨c, ?_, other⟩
  rw [toList_properties_cons, List.head?_append, lead, Option.some_or]

theorem lays_object {depth : Nat} {opened : Brackets} {data : Properties}
    (depths : opened.count .curly = depth)
    (lays : Lays (.curly :: opened) (properties (depth + 1) data).toList (.curly :: opened)) :
    Lays opened (object depth data.isEmpty (properties (depth + 1) data)).toList opened := by
  have opening : Lays opened "\x7b".toList (.curly :: opened) := .ofLine (by decide) rfl
  have closing : Lays (.curly :: opened) "\x7d".toList opened := .ofLine (by decide) rfl
  cases data with
  | nil =>
      have empty : Lays opened "\x7b\x7d".toList opened := .ofLine (by decide) rfl
      exact empty
  | cons property data =>
      have inside : List.count .curly (.curly :: opened) = depth + 1 := by
        rw [List.count_cons_self, depths]
      exact lays_block inside opening lays closing (head_properties ..) rfl

theorem lays_scopeTest {depth : Nat} {inner : Brackets} {selection : Properties} (binding : Binding)
    (depths : inner.count .curly = depth + 1)
    (selected : Lays (.curly :: .round :: .curly :: inner)
      (properties (depth + 3) selection).toList (.curly :: .round :: .curly :: inner)) :
    Lays inner (block (depth + 1) ("if (" ++ binding.render ++ ") \x7b")
      (mergeOpening binding.render ++
        object (depth + 2) selection.isEmpty (properties (depth + 3) selection) ++ ");")
      "\x7d").toList inner := by
  have tested : List.count .curly (.curly :: inner) = depth + 2 := by simp [depths]
  have merging : List.count .curly (.round :: .curly :: inner) = depth + 2 := by simp [depths]
  have condition : Lays inner "if (".toList (.round :: inner) := .ofLine (by decide) rfl
  have opening : Lays (.round :: inner) ") \x7b".toList (.curly :: inner) := .ofLine (by decide) rfl
  have merged : Lays (.round :: .curly :: inner) ");".toList (.curly :: inner) :=
    .ofLine (by decide) rfl
  have closing : Lays (.curly :: inner) "\x7d".toList inner := .ofLine (by decide) rfl
  have opens := (condition.concat (binding.inline_render.lays _)).concat opening
  have body := ((lays_mergeOpening binding (.curly :: inner)).concat
    (lays_object merging selected)).concat merged
  have lead : (mergeOpening binding.render).toList.head? = some 'r' := by
    unfold mergeOpening
    iterate 6 apply head?_toList_append
    decide
  exact lays_block tested opens body closing
    ⟨'r', head?_toList_append (head?_toList_append lead), by decide, by decide⟩ rfl

theorem lays_scopeBody {depth : Nat} {inner : Brackets} {value : Expr} {selection : Properties}
    (binding : Binding) (depths : inner.count .curly = depth + 1)
    (own : Lays inner (expr (depth + 1) value).toList inner)
    (selected : Lays (.curly :: .round :: .curly :: inner)
      (properties (depth + 3) selection).toList (.curly :: .round :: .curly :: inner)) :
    Lays inner ("const " ++ binding.render ++ " = " ++ expr (depth + 1) value ++ ";" ++
      newLine (depth + 1) ++
      block (depth + 1) ("if (" ++ binding.render ++ ") \x7b")
        (mergeOpening binding.render ++
          object (depth + 2) selection.isEmpty (properties (depth + 3) selection) ++ ");")
        "\x7d" ++
      newLine (depth + 1) ++ "return null;").toList inner := by
  have const : Lays inner "const ".toList inner := .ofLine (by decide) rfl
  have equals : Lays inner " = ".toList inner := .ofLine (by decide) rfl
  have semicolon : Lays inner ";".toList inner := .ofLine (by decide) rfl
  have null : Lays inner "return null;".toList inner := .ofLine (by decide) rfl
  have line {c : Char} (inside : c ≠ '}') :
      2 * (depth + 1) + (if c = '}' then 2 else 0) = 2 * inner.count .curly := by
    rw [if_neg inside, depths, Nat.add_zero]
  have binds := (((const.concat (binding.inline_render.lays _)).concat equals).concat own).concat
    semicolon
  have tests := binds.nextLine (lays_scopeTest binding depths selected)
    (by simp [block] : _ = some 'i') (by decide) (line (by decide))
  exact tests.nextLine null rfl (by decide) (line (by decide))

mutual

theorem lays_expr : ∀ (depth : Nat) (value : Expr) {opened : Brackets},
    opened.count .curly = depth → Lays opened (expr depth value).toList opened
  | _, .property source key, opened, _ => by
      have opening : Lays opened "[".toList (.square :: opened) := .ofLine (by decide) rfl
      have closing : Lays (.square :: opened) "]".toList opened := .ofLine (by decide) rfl
      exact (((source.inline_render.lays _).concat opening).concat
        ((inline_quoted key.text).lays _)).concat closing
  | _, .resolve site, opened, _ => lays_call site opened
  | _, .literal value, opened, _ => (inline_render value).lays opened
  | depth, .scope binding value selection isAsync, opened, depths => by
      have inner : List.count .curly (.curly :: .round :: opened) = depth + 1 := by
        simp [depths]
      have selected : List.count .curly (.curly :: .round :: .curly :: .curly :: .round :: opened) =
          depth + 3 := by
        simp [depths]
      have opening : Lays opened (closureOpening isAsync).toList (.curly :: .round :: opened) := by
        cases isAsync with
        | true => exact .ofLine (by decide) rfl
        | false => exact .ofLine (by decide) rfl
      have closing : Lays (.curly :: .round :: opened) "\x7d)()".toList opened :=
        .ofLine (by decide) rfl
      have body := lays_scopeBody binding inner (lays_expr (depth + 1) value inner)
        (lays_properties (depth + 3) selection selected)
      exact lays_block inner opening body closing ⟨'c', by simp, by decide, by decide⟩ rfl

theorem lays_properties : ∀ (depth : Nat) (data : Properties) {opened : Brackets},
    opened.count .curly = depth → Lays opened (properties depth data).toList opened
  | _, [], opened, _ => Inline.nil.lays opened
  | depth, (key, value) :: data, opened, depths => by
      have colon : Lays opened [':', ' '] opened := .ofLine (by decide) rfl
      have comma : Lays opened [','] opened := .ofLine (by decide) rfl
      have line := (key.inline_text.lays opened).append (colon.append
        ((lays_expr depth value depths).append comma))
      have others : Lays opened (afterFirst (newLine depth).toList
          (fun others => (properties depth others).toList) data) opened := by
        cases data with
        | nil => exact Inline.nil.lays opened
        | cons property data =>
            obtain ⟨c, lead, visible, inside⟩ := head_properties depth property.1 property.2 data
            exact (lays_properties depth (property :: data) depths).newLine lead visible
              (by rw [if_neg inside, depths, Nat.add_zero])
      rw [toList_properties_cons]
      simpa only [List.append_assoc, List.cons_append, List.nil_append] using line.append others

end

end Source

namespace CompiledOperation

theorem lays_source (operation : CompiledOperation) :
    Lays [] operation.source.toList [] := by
  have keyword : Lays [] (if operation.isAsync then "(async function " else "(function ").toList
      [.round] := by
    cases operation.isAsync with
    | true => exact .ofLine (by decide) rfl
    | false => exact .ofLine (by decide) rfl
  have list : Lays [.round] "(".toList [.round, .round] := .ofLine (by decide) rfl
  have parameters : Lays [.round, .round] (String.intercalate ", " parameters).toList
      [.round, .round] := .ofLine (by decide) rfl
  have opening : Lays [.round, .round] ") \x7b".toList [.curly, .round] := .ofLine (by decide) rfl
  have closing : Lays [.curly, .round] "\x7d)".toList [] := .ofLine (by decide) rfl
  have returns : Lays [.curly, .round] "return \x7b".toList [.curly, .curly, .round] :=
    .ofLine (by decide) rfl
  have returned : Lays [.curly, .curly, .round] "\x7d;".toList [.curly, .round] :=
    .ofLine (by decide) rfl
  have data : Lays [.curly, .curly, .round] "data: ".toList [.curly, .curly, .round] :=
    .ofLine (by decide) rfl
  have comma : Lays [.curly, .curly, .round] ",".toList [.curly, .curly, .round] :=
    .ofLine (by decide) rfl
  have properties : Lays [.curly, .curly, .curly, .round]
      (Source.properties 3 operation.data).toList [.curly, .curly, .curly, .round] :=
    Source.lays_properties 3 operation.data rfl
  have body := (data.concat (Source.lays_object rfl properties)).concat comma
  have block := Source.lays_block rfl returns body returned
    ⟨'d', Source.head?_toList_append (Source.head?_toList_append rfl), by decide, by decide⟩ rfl
  have head := (((keyword.concat (operation.name.inline_text.lays _)).concat list).concat
    parameters).concat opening
  exact Source.lays_block rfl head block closing
    ⟨'r', by simp [Source.block], by decide, by decide⟩ rfl

end CompiledOperation

namespace Artifact

theorem head_sources (operation : CompiledOperation) (others : List CompiledOperation) :
    (sources (operation :: others)).toList.head? = some '(' := by
  obtain ⟨more, text⟩ := operation.exists_toList_source
  rw [toList_sources_cons, text, List.cons_append, List.head?_cons]

theorem lays_sources (operations : List CompiledOperation) :
    Lays [] (sources operations).toList [] := by
  induction operations with
  | nil => exact Inline.nil.lays []
  | cons operation others ih =>
      rw [toList_sources_cons]
      refine operation.lays_source.append ?_
      cases others with
      | nil => exact Inline.nil.lays []
      | cons next others =>
          -- The blank line is a line of its own, indented by no brace.
          have line := ih.newLine (head_sources next others) (by decide) (rfl : 2 * 0 + 0 = 0)
          have blank := line.newLine (rfl : _ = some '\n') (by decide) (rfl : 2 * 0 + 0 = 0)
          exact blank

theorem sources_eq_intercalate (operations : List CompiledOperation) :
    sources operations = String.intercalate "\n\n" (operations.map CompiledOperation.source) := by
  induction operations with
  | nil => rfl
  | cons operation others ih =>
      cases others with
      | nil => rfl
      | cons next others =>
          rw [sources, ih]
          · exact String.intercalate_cons_cons.symm
          · simp

end Artifact

/-- The source of an artifact is that of its operations, a blank line apart. It is well bracketed,
as is that of each operation, and laid out by its braces. -/
theorem sources_well_laid_out (artifact : Artifact) :
    WellBracketed artifact.source.toList ∧ LaidOut artifact.source.toList ∧
      (∀ operation : CompiledOperation,
        WellBracketed operation.source.toList ∧ LaidOut operation.source.toList) ∧
      artifact.source =
        String.intercalate "\n\n" (artifact.toList.map CompiledOperation.source) := by
  have first : Indented [] artifact.source.toList := by
    rw [Artifact.source]
    cases artifact.toList with
    | nil => rfl
    | cons operation others => exact indented_of_parenthesis (Artifact.head_sources ..)
  have lays := Artifact.lays_sources artifact.toList
  refine ⟨lays.brackets, lays.laidOut first, ?_, Artifact.sources_eq_intercalate _⟩
  intro operation
  obtain ⟨more, text⟩ := operation.exists_toList_source
  have starts : Indented [] operation.source.toList :=
    indented_of_parenthesis (by rw [text, List.head?_cons])
  exact ⟨operation.lays_source.brackets, operation.lays_source.laidOut starts⟩

end StaticQuery
