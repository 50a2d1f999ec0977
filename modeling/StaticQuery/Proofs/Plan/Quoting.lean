import StaticQuery.Proofs.Json.Quoting
import StaticQuery.Proofs.Plan.Unambiguous

/-!
Texts of the document appear in the source of an operation between quotes only. Operations that
differ in such texts alone have the same source outside of their string literals, line by line.
-/

namespace StaticQuery

open Reading

structure ResolverCall.SameButTexts (left right : ResolverCall) : Prop where
  coordinate : left.coordinate = right.coordinate
  source : left.source = right.source
  arguments :
    (Json.object left.arguments).withoutTexts = (Json.object right.arguments).withoutTexts
  awaited : left.awaited = right.awaited
  nodes : left.info.fieldNodes.length = right.info.fieldNodes.length

theorem Expr.MatchesAll.isEmpty_eq {related : ResolverCall → ResolverCall → Prop}
    {left right : Properties} (same : Expr.MatchesAll related left right) :
    left.isEmpty = right.isEmpty := by
  cases same with
  | nil => rfl
  | cons key value rest => rfl

theorem Name.sealed_text (name : Name) : Sealed name.text.toList :=
  sealed_of_all (by decide) (by decide) fun _ member => name.isNameContinue_of_mem member

theorem Binding.sealed_render (binding : Binding) : Sealed binding.render.toList :=
  sealed_of_all (by decide) (by decide) fun _ member => isNameContinue_of_mem member

namespace Source

theorem sealed_newLine (depth : Nat) : Sealed (newLine depth).toList := by
  have blank (c : Char) (member : c ∈ (newLine depth).toList) : c.isWhitespace = true := by
    rw [newLine, String.toList_ofList, List.mem_cons, List.mem_replicate] at member
    rcases member with rfl | ⟨_, rfl⟩
    · rfl
    · rfl
  exact sealed_of_all (by decide) (by decide) blank

theorem sameCode_nodes {left right : List FieldNode} (lengths : left.length = right.length) :
    SameCode (nodes left).toList (nodes right).toList := by
  induction left generalizing right with
  | nil =>
      cases right with
      | nil => exact .refl (by decide)
      | cons node others => cases lengths
  | cons node fieldNodes ih =>
      cases right with
      | nil => cases lengths
      | cons node' others =>
          rw [toList_nodes_cons, toList_nodes_cons]
          have shorter : fieldNodes.length = others.length := Nat.succ.inj lengths
          have empty : fieldNodes.isEmpty = others.isEmpty := by
            rw [Bool.eq_iff_iff, List.isEmpty_iff_length_eq_zero, List.isEmpty_iff_length_eq_zero,
              shorter]
          exact (Json.sameCode_quotedChars node.render node'.render).append
            (.afterFirst (fun others => (nodes others).toList) (by decide) empty (ih shorter))

theorem sameCode_info {left right : ResolveInfo}
    (lengths : left.fieldNodes.length = right.fieldNodes.length) :
    SameCode (info left).toList (info right).toList := by
  obtain ⟨leftNodes⟩ := left
  obtain ⟨rightNodes⟩ := right
  cases leftNodes with
  | nil =>
      cases rightNodes with
      | nil => exact .refl (by decide)
      | cons node others => cases lengths
  | cons node fieldNodes =>
      cases rightNodes with
      | nil => cases lengths
      | cons node' others =>
          have opening : SameCode "\x7b fieldNodes: [".toList "\x7b fieldNodes: [".toList :=
            .refl (by decide)
          exact (opening.concat (sameCode_nodes lengths)).concat (.refl (by decide))

theorem sealed_await (awaited : Bool) : Sealed (if awaited then "await " else "").toList := by
  cases awaited with
  | true => decide
  | false => decide

theorem sealed_quoted (text : String) : Sealed (Json.quoted text).toList := by
  rw [toList_quoted]
  exact Json.sealed_quotedChars text

theorem sameCode_render {left right : Json} (same : left.withoutTexts = right.withoutTexts) :
    SameCode left.render.toList right.render.toList := by
  rw [toList_render, toList_render]
  exact Json.sameCode_chars same

theorem sameCode_call {left right : ResolverCall} (same : left.SameButTexts right) :
    SameCode (call left).toList (call right).toList := by
  obtain ⟨⟨type, field⟩, source, leftArguments, leftInfo, awaited⟩ := left
  obtain ⟨⟨_, _⟩, _, rightArguments, rightInfo, _⟩ := right
  obtain ⟨⟨rfl, rfl⟩, rfl, arguments, rfl, nodes⟩ := same
  have getType : Sealed "schema.getType(".toList := by decide
  have fields : Sealed ").toConfig().fields.".toList := by decide
  have resolve : Sealed ".resolve(".toList := by decide
  have comma : Sealed ", ".toList := by decide
  have undefined : Sealed ", undefined, ".toList := by decide
  have closing : Sealed ")".toList := by decide
  have resolver := (((((sealed_await awaited).concat getType).concat
    (sealed_quoted type.text)).concat fields).concat field.sealed_text).concat resolve
  have opening := SameCode.refl ((resolver.concat source.sealed_render).concat comma)
  exact (((opening.concat (sameCode_render arguments)).concat (.refl undefined)).concat
    (sameCode_info nodes)).concat (.refl closing)

theorem sealed_mergeOpening (binding : Binding) :
    Sealed (mergeOpening binding.render).toList := by
  have bound := binding.sealed_render
  have opening : Sealed "return Object.assign(\x7b\x7d, typeof ".toList := by decide
  have isObject : Sealed " === \"object\" && !Array.isArray(".toList := by decide
  have question : Sealed ") ? ".toList := by decide
  have otherwise : Sealed " : \x7b\x7d, ".toList := by decide
  exact (((((opening.concat bound).concat isObject).concat bound).concat question).concat
    bound).concat otherwise

theorem sealed_scopeLead (depth : Nat) (isAsync : Bool) :
    Sealed (scopeLead depth isAsync).toList := by
  have opening : Sealed (closureOpening isAsync).toList := by
    cases isAsync with
    | true => decide
    | false => decide
  have const : Sealed "const ".toList := by decide
  exact (opening.concat (sealed_newLine (depth + 1))).concat const

theorem sealed_scopeTest (depth : Nat) (binding : Binding) :
    Sealed (scopeTest depth binding).toList := by
  have semicolon : Sealed ";".toList := by decide
  have condition : Sealed "if (".toList := by decide
  have opening : Sealed ") \x7b".toList := by decide
  exact (((((semicolon.concat (sealed_newLine (depth + 1))).concat condition).concat
    binding.sealed_render).concat opening).concat (sealed_newLine (depth + 2))).concat
    (sealed_mergeOpening binding)

theorem sealed_scopeClosing (depth : Nat) : Sealed (scopeClosing depth).toList := by
  have merged : Sealed ");".toList := by decide
  have brace : Sealed "\x7d".toList := by decide
  have otherwise : Sealed "return null;".toList := by decide
  have called : Sealed "\x7d)()".toList := by decide
  exact (((((merged.concat (sealed_newLine (depth + 1))).concat brace).concat
    (sealed_newLine (depth + 1))).concat otherwise).concat (sealed_newLine depth)).concat called

theorem sameCode_object {depth : Nat} {left right : Properties}
    (lengths : left.isEmpty = right.isEmpty)
    (same : SameCode (properties (depth + 1) left).toList (properties (depth + 1) right).toList) :
    SameCode (object depth left.isEmpty (properties (depth + 1) left)).toList
      (object depth right.isEmpty (properties (depth + 1) right)).toList := by
  have opening : Sealed "\x7b".toList := by decide
  have closing : Sealed "\x7d".toList := by decide
  unfold object
  rw [lengths]
  split
  · exact .refl (by decide)
  · exact (((SameCode.refl (opening.concat (sealed_newLine (depth + 1)))).concat same).concat
      (.refl (sealed_newLine depth))).concat (.refl closing)

mutual

theorem sameCode_expr :
    ∀ (depth : Nat) {left right : Expr}, left.Matches ResolverCall.SameButTexts right →
      SameCode (expr depth left).toList (expr depth right).toList
  | _, _, _, .property source key => by
      have opening : Sealed "[".toList := by decide
      have closing : Sealed "]".toList := by decide
      exact .refl (((source.sealed_render.concat opening).concat (sealed_quoted key.text)).concat
        closing)
  | _, _, _, .literal value => sameCode_render rfl
  | _, _, _, .resolve same => sameCode_call same
  | depth, _, _, .scope binding isAsync values selections => by
      have equals : Sealed " = ".toList := by decide
      have opening := ((sealed_scopeLead depth isAsync).concat binding.sealed_render).concat equals
      have value := (SameCode.refl opening).concat (sameCode_expr (depth + 1) values)
      have selection := sameCode_object selections.isEmpty_eq
        (sameCode_properties (depth + 2 + 1) selections)
      rw [expr_scope, expr_scope]
      exact ((value.concat (.refl (sealed_scopeTest depth binding))).concat selection).concat
        (.refl (sealed_scopeClosing depth))

theorem sameCode_properties :
    ∀ (depth : Nat) {left right : Properties},
      Expr.MatchesAll ResolverCall.SameButTexts left right →
      SameCode (properties depth left).toList (properties depth right).toList
  | _, _, _, .nil => .refl .nil
  | depth, _, _, .cons key value rest => by
      have colon : Sealed [':', ' '] := by decide
      have comma : SameCode [','] [','] := .refl (by decide)
      have others := SameCode.afterFirst (fun others => (properties depth others).toList)
        (sealed_newLine depth) rest.isEmpty_eq (sameCode_properties depth rest)
      rw [toList_properties_cons, toList_properties_cons]
      exact (SameCode.refl key.sealed_text).append ((SameCode.refl colon).append
        ((sameCode_expr depth value).append (comma.append others)))

end

end Source

theorem CompiledOperation.sameCode_source {left right : CompiledOperation}
    (same : left.Matches ResolverCall.SameButTexts right) :
    SameCode left.source.toList right.source.toList := by
  have lead : Sealed (sourceLead right.isAsync).toList := by
    cases right.isAsync with
    | true => decide
    | false => decide
  have opening : Sealed sourceOpening.toList := by decide
  have closing : Sealed sourceClosing.toList := by decide
  have data := Source.sameCode_object same.data.isEmpty_eq
    (Source.sameCode_properties (2 + 1) same.data)
  rw [source_eq, source_eq, same.name, same.isAsync]
  exact ((SameCode.refl ((lead.concat right.name.sealed_text).concat opening)).concat data).concat
    (.refl closing)

/-- Operations that differ in texts of the document alone have the same source outside of string
literals, each of their lines as well, and no such text ends its literal. -/
theorem texts_stay_quoted {left right : CompiledOperation}
    (same : left.Matches ResolverCall.SameButTexts right) :
    Sealed left.source.toList ∧ Sealed right.source.toList ∧
      code.blanked left.source.toList = code.blanked right.source.toList ∧
      (left.source.toList.splitOn '\n').map code.blanked =
        (right.source.toList.splitOn '\n').map code.blanked := by
  have code := CompiledOperation.sameCode_source same
  exact ⟨code.leftSealed, code.rightSealed, code.blanked, code.lines⟩

def Sample.addressing (text : String) : CompiledOperation where
  name := people
  isAsync := true
  data :=
    let node : FieldNode := ⟨⟨none, friend, .named user false, [(name, .string text)], []⟩, []⟩
    let site : ResolverCall :=
      ⟨⟨query, friend⟩, .rootValue, [("name", .string text)], ⟨[node]⟩, true⟩
    [(friend, .scope (.result 1) (.resolve site) [(name, .property (.result 1) name)] true)]

theorem texts_stay_quoted_people :
    (Sample.addressing "\", \\\n;//").Matches ResolverCall.SameButTexts
        (Sample.addressing "Ada") ∧
      Sealed (Sample.addressing "\", \\\n;//").source.toList ∧
      Sealed (Sample.addressing "Ada").source.toList ∧
      code.blanked (Sample.addressing "\", \\\n;//").source.toList =
        code.blanked (Sample.addressing "Ada").source.toList ∧
      ((Sample.addressing "\", \\\n;//").source.toList.splitOn '\n').map code.blanked =
        ((Sample.addressing "Ada").source.toList.splitOn '\n').map code.blanked := by
  have same (text : String) : (Sample.addressing text).Matches ResolverCall.SameButTexts
      (Sample.addressing "Ada") :=
    ⟨rfl, rfl, .cons _ (.scope _ _ (.resolve ⟨rfl, rfl, rfl, rfl, rfl⟩)
      (.cons _ (.property _ _) .nil)) .nil⟩
  exact ⟨same _, texts_stay_quoted (same _)⟩

end StaticQuery
