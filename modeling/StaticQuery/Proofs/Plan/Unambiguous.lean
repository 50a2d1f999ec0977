import StaticQuery.Plan.Source
import StaticQuery.Proofs.Compile.Artifact
import StaticQuery.Proofs.Json.ValueText

/-!
The source text of a compiled operation tells the whole operation. Every piece of the text is
followed by something that cannot belong to it, so that two equal texts are cut into the same
pieces, from the outside in.
-/

namespace StaticQuery

namespace Expr

mutual

inductive Matches (related : ResolverCall → ResolverCall → Prop) : Expr → Expr → Prop
  | property (source : Binding) (key : Name) :
      Matches related (.property source key) (.property source key)
  | literal (value : Json) : Matches related (.literal value) (.literal value)
  | resolve {left right : ResolverCall} :
      related left right → Matches related (.resolve left) (.resolve right)
  | scope (binding : Binding) (isAsync : Bool) {value value' : Expr}
      {selection selection' : Properties} :
      Matches related value value' → MatchesAll related selection selection' →
      Matches related (.scope binding value selection isAsync)
        (.scope binding value' selection' isAsync)

inductive MatchesAll (related : ResolverCall → ResolverCall → Prop) : Properties → Properties → Prop
  | nil : MatchesAll related [] []
  | cons (key : Name) {expr expr' : Expr} {rest rest' : Properties} :
      Matches related expr expr' → MatchesAll related rest rest' →
      MatchesAll related ((key, expr) :: rest) ((key, expr') :: rest')

end

end Expr

structure CompiledOperation.Matches (related : ResolverCall → ResolverCall → Prop)
    (left right : CompiledOperation) : Prop where
  name : left.name = right.name
  isAsync : left.isAsync = right.isAsync
  data : Expr.MatchesAll related left.data right.data

structure ResolverCall.ReadsAlike (left right : ResolverCall) : Prop where
  coordinate : left.coordinate = right.coordinate
  source : left.source = right.source
  arguments : left.arguments = right.arguments
  awaited : left.awaited = right.awaited
  nodes : left.info.fieldNodes.map FieldNode.render = right.info.fieldNodes.map FieldNode.render

theorem Name.isNameContinue_of_mem {name : Name} {c : Char} (member : c ∈ name.text.toList) :
    isNameContinue c = true := by
  have valid := name.valid
  unfold isName at valid
  cases text : name.text.toList with
  | nil => simp [text] at member
  | cons first rest =>
      simp only [text, Bool.and_eq_true, List.all_eq_true] at valid
      rw [text] at member
      rcases List.mem_cons.mp member with rfl | later
      · simp [isNameContinue, valid.1]
      · exact valid.2 c later

theorem Name.append_inj {left right : Name} {rest rest' : List Char}
    (ends : Ends isNameContinue rest) (ends' : Ends isNameContinue rest')
    (same : left.text.toList ++ rest = right.text.toList ++ rest') :
    left = right ∧ rest = rest' := by
  obtain ⟨texts, rests⟩ := span_append_inj (fun _ member => left.isNameContinue_of_mem member)
    (fun _ member => right.isNameContinue_of_mem member) ends ends' same
  exact ⟨Name.eq_of_text (String.toList_injective texts), rests⟩

namespace Binding

theorem isNameContinue_of_mem {binding : Binding} {c : Char}
    (member : c ∈ binding.render.toList) : isNameContinue c = true := by
  cases binding with
  | rootValue =>
      have all : ∀ c ∈ "rootValue".toList, isNameContinue c = true :=
        List.all_eq_true.mp (by decide)
      exact all c member
  | result depth =>
      have all : ∀ c ∈ "result_".toList, isNameContinue c = true :=
        List.all_eq_true.mp (by decide)
      simp only [render, String.toList_append, String.toList_ofList, List.mem_append] at member
      rcases member with fixed | digit
      · exact all c fixed
      · have isDigit := isDigit_of_mem_decimalDigits digit
        simp [isNameContinue, isDigit]

theorem render_injective {left right : Binding} (same : left.render = right.render) :
    left = right := by
  have texts := congrArg String.toList same
  cases left with
  | rootValue =>
      cases right with
      | rootValue => rfl
      | result depth => simp [render] at texts
  | result depth =>
      cases right with
      | rootValue => simp [render] at texts
      | result other =>
          simp only [render, String.toList_append, String.toList_ofList,
            List.append_cancel_left_eq] at texts
          have values := congrArg digitsValue texts
          have depths := digitsValue_decimalDigits depth
          have others := digitsValue_decimalDigits other
          unfold decimalDigits at depths others
          rw [depths, others] at values
          rw [values]

theorem append_inj {left right : Binding} {rest rest' : List Char}
    (ends : Ends isNameContinue rest) (ends' : Ends isNameContinue rest')
    (same : left.render.toList ++ rest = right.render.toList ++ rest') :
    left = right ∧ rest = rest' := by
  obtain ⟨texts, rests⟩ := span_append_inj (fun _ member => isNameContinue_of_mem member)
    (fun _ member => isNameContinue_of_mem member) ends ends' same
  exact ⟨render_injective (String.toList_injective texts), rests⟩

end Binding

namespace Source

theorem toList_newLine_succ (depth : Nat) :
    (newLine (depth + 1)).toList = (newLine depth).toList ++ [' ', ' '] := by
  simp only [newLine, String.toList_ofList, List.cons_append, List.cons.injEq, true_and,
    Nat.mul_add, List.replicate_add]
  rfl

theorem toList_quoted (text : String) : (Json.quoted text).toList = Json.quotedChars text :=
  String.toList_ofList

theorem toList_render (value : Json) : value.render.toList = value.chars :=
  String.toList_ofList

theorem toList_nodes_cons (node : FieldNode) (fieldNodes : List FieldNode) :
    (nodes (node :: fieldNodes)).toList = Json.quotedChars node.render ++
      afterFirst [',', ' '] (fun others => (nodes others).toList) fieldNodes := by
  cases fieldNodes with
  | nil => simp [nodes, afterFirst, toList_quoted]
  | cons next fieldNodes => simp [nodes, afterFirst, toList_quoted]

theorem nodes_append_inj {left right : List FieldNode} {rest rest' : List Char}
    (same : (nodes left).toList ++ ']' :: rest = (nodes right).toList ++ ']' :: rest') :
    left.map FieldNode.render = right.map FieldNode.render ∧ rest = rest' := by
  induction left generalizing right with
  | nil =>
      cases right with
      | nil => exact ⟨rfl, by simpa [nodes] using same⟩
      | cons node others =>
          rw [toList_nodes_cons, List.append_assoc, Json.quotedChars_append] at same
          simp [nodes] at same
  | cons node fieldNodes ih =>
      rw [toList_nodes_cons, List.append_assoc] at same
      cases right with
      | nil =>
          rw [Json.quotedChars_append] at same
          simp [nodes] at same
      | cons node' others =>
          rw [toList_nodes_cons, List.append_assoc] at same
          obtain ⟨texts, more⟩ := Json.quotedChars_append_inj same
          obtain ⟨later, rests⟩ := ih (afterFirst_append_inj rfl (by simp) (by simp) more)
          exact ⟨by rw [List.map_cons, List.map_cons, texts, later], rests⟩

theorem info_append_inj {left right : ResolveInfo} {rest rest' : List Char}
    (same : (info left).toList ++ rest = (info right).toList ++ rest') :
    left.fieldNodes.map FieldNode.render = right.fieldNodes.map FieldNode.render ∧
      rest = rest' := by
  obtain ⟨leftNodes⟩ := left
  obtain ⟨rightNodes⟩ := right
  cases leftNodes with
  | nil =>
      cases rightNodes with
      | nil => exact ⟨rfl, by simpa [info] using same⟩
      | cons node others => simp [info] at same
  | cons node fieldNodes =>
      cases rightNodes with
      | nil => simp [info] at same
      | cons node' others =>
          simp only [info, String.toList_append, List.append_assoc,
            List.append_cancel_left_eq] at same
          obtain ⟨texts, rests⟩ := nodes_append_inj same
          exact ⟨texts, by simpa using rests⟩

theorem call_append_inj {left right : ResolverCall} (awaited : left.awaited = right.awaited)
    {rest rest' : List Char} (same : (call left).toList ++ rest = (call right).toList ++ rest') :
    left.ReadsAlike right ∧ rest = rest' := by
  simp only [call, awaited, String.toList_append, List.append_assoc, toList_quoted,
    toList_render] at same
  have same := List.append_cancel_left (List.append_cancel_left same)
  obtain ⟨types, same⟩ := Json.quotedChars_append_inj same
  have same := List.append_cancel_left same
  simp only [String.reduceToList, List.cons_append, List.nil_append] at same
  obtain ⟨fields, same⟩ := Name.append_inj (.cons (by decide) _) (.cons (by decide) _) same
  simp only [List.cons.injEq, true_and] at same
  obtain ⟨sources, same⟩ := Binding.append_inj (.cons (by decide) _) (.cons (by decide) _) same
  simp only [List.cons.injEq, true_and] at same
  obtain ⟨arguments, same⟩ :=
    Json.chars_append_inj (.cons (by decide) _) (.cons (by decide) _) same
  simp only [List.cons.injEq, true_and] at same
  obtain ⟨nodes, same⟩ := info_append_inj same
  have coordinates : left.coordinate = right.coordinate := by
    obtain ⟨⟨leftType, leftField⟩, _⟩ := left
    obtain ⟨⟨rightType, rightField⟩, _⟩ := right
    exact congrArg₂ Coordinate.mk (Name.eq_of_text types) fields
  refine ⟨⟨coordinates, sources, ?_, awaited, nodes⟩, by simpa using same⟩
  rwa [Json.object.injEq] at arguments

inductive Form where
  | property
  | literal
  | call (awaited : Bool)
  | scope (isAsync : Bool)

def Form.of : Expr → Form
  | .property _ _ => .property
  | .literal _ => .literal
  | .resolve site => .call site.awaited
  | .scope _ _ _ isAsync => .scope isAsync

def Form.ofText : List Char → Form
  | 'r' :: _ => .property
  | 's' :: _ => .call false
  | '(' :: _ => .scope false
  | 'a' :: 'w' :: 'a' :: 'i' :: 't' :: ' ' :: '(' :: _ => .scope true
  | 'a' :: _ => .call true
  | _ => .literal

theorem Form.ofText_expr (depth : Nat) (value : Expr) (rest : List Char) :
    Form.ofText ((expr depth value).toList ++ rest) = Form.of value := by
  cases value with
  | property source key =>
      cases source with
      | rootValue => simp [expr, Binding.render, Form.ofText, Form.of]
      | result depth => simp [expr, Binding.render, Form.ofText, Form.of]
  | literal value =>
      obtain ⟨c, more, text, lead⟩ := value.exists_lead
      rw [expr, toList_render, text, List.cons_append, Form.of]
      have different (other : Char) (plain : Json.Kind.ofLead other = none) : c ≠ other := by
        rintro rfl
        rw [plain] at lead
        cases lead
      simp [Form.ofText, different 'r' (by decide), different 's' (by decide),
        different '(' (by decide), different 'a' (by decide)]
  | resolve site =>
      cases awaited : site.awaited with
      | true => simp [expr, Source.call, awaited, Form.ofText, Form.of]
      | false => simp [expr, Source.call, awaited, Form.ofText, Form.of]
  | scope binding value selection isAsync =>
      cases isAsync with
      | true => simp [expr, block, closureOpening, Form.ofText, Form.of]
      | false => simp [expr, block, closureOpening, Form.ofText, Form.of]

theorem Form.eq_of_append {depth : Nat} {left right : Expr} {rest rest' : List Char}
    (same : (expr depth left).toList ++ rest = (expr depth right).toList ++ rest') :
    Form.of left = Form.of right := by
  rw [← Form.ofText_expr depth left rest, same, Form.ofText_expr]

def scopeLead (depth : Nat) (isAsync : Bool) : String :=
  closureOpening isAsync ++ newLine (depth + 1) ++ "const "

def scopeTest (depth : Nat) (binding : Binding) : String :=
  ";" ++ newLine (depth + 1) ++ "if (" ++ binding.render ++ ") \x7b" ++ newLine (depth + 2) ++
    mergeOpening binding.render

def scopeClosing (depth : Nat) : String :=
  ");" ++ newLine (depth + 1) ++ "\x7d" ++ newLine (depth + 1) ++ "return null;" ++
    newLine depth ++ "\x7d)()"

theorem endsNumber_scopeTest (depth : Nat) (binding : Binding) (rest : List Char) :
    Ends isNumeral ((scopeTest depth binding).toList ++ rest) := by
  simp only [scopeTest, String.toList_append, List.append_assoc, String.reduceToList,
    List.cons_append]
  exact .cons (by decide) _

theorem expr_scope (depth : Nat) (binding : Binding) (value : Expr) (selection : Properties)
    (isAsync : Bool) :
    expr depth (.scope binding value selection isAsync) =
      scopeLead depth isAsync ++ binding.render ++ " = " ++ expr (depth + 1) value ++
        scopeTest depth binding ++
        object (depth + 2) selection.isEmpty (properties (depth + 3) selection) ++
        scopeClosing depth := by
  simp only [expr, block, scopeLead, scopeTest, scopeClosing, String.append_assoc]

theorem toList_properties_cons (depth : Nat) (key : Name) (value : Expr) (data : Properties) :
    (properties depth ((key, value) :: data)).toList =
      key.text.toList ++ ':' :: ' ' :: ((expr depth value).toList ++ ',' ::
        afterFirst (newLine depth).toList (fun others => (properties depth others).toList)
          data) := by
  cases data with
  | nil => simp [properties, afterFirst]
  | cons next data => simp [properties, afterFirst]

theorem name_append_ne_newLine (key : Name) (depth : Nat) (rest rest' : List Char) :
    key.text.toList ++ rest ≠ (newLine depth).toList ++ rest' := by
  have valid := key.valid
  intro same
  cases text : key.text.toList with
  | nil => simp [isName, text] at valid
  | cons c more =>
      have inName : isNameContinue c = true :=
        Name.isNameContinue_of_mem (by rw [text]; exact List.mem_cons_self)
      rw [text, newLine, String.toList_ofList, List.cons_append, List.cons_append,
        List.cons.injEq] at same
      rw [same.1] at inName
      exact absurd inName (by decide)

/-- The end of an object is told from its next line by the indentation. -/
theorem newLine_succ_append_ne (depth : Nat) (more rest : List Char) :
    (newLine (depth + 1)).toList ++ more ≠ (newLine depth).toList ++ '}' :: rest := by
  intro same
  rw [toList_newLine_succ, List.append_assoc] at same
  have indented := List.append_cancel_left same
  simp at indented

theorem object_append_cases {depth : Nat} {left right : Properties} {rest rest' : List Char}
    (same : (object depth left.isEmpty (properties (depth + 1) left)).toList ++ rest =
      (object depth right.isEmpty (properties (depth + 1) right)).toList ++ rest') :
    (properties (depth + 1) left).toList ++ ((newLine depth).toList ++ '}' :: rest) =
      (properties (depth + 1) right).toList ++ ((newLine depth).toList ++ '}' :: rest') := by
  unfold object at same
  cases left with
  | nil =>
      cases right with
      | nil =>
          simp only [List.isEmpty_nil, if_true] at same
          rw [List.append_cancel_left same]
      | cons next data => simp [block, newLine] at same
  | cons first others =>
      cases right with
      | nil => simp [block, newLine] at same
      | cons next data =>
          simp only [List.isEmpty_cons, Bool.false_eq_true, if_false, block, String.toList_append,
            List.append_assoc] at same
          exact List.append_cancel_left (List.append_cancel_left same)

mutual

theorem expr_append_inj :
    ∀ {depth : Nat} {left right : Expr} {rest rest' : List Char},
      Ends isNumeral rest → Ends isNumeral rest' →
      (expr depth left).toList ++ rest = (expr depth right).toList ++ rest' →
        left.Matches ResolverCall.ReadsAlike right ∧ rest = rest'
  | depth, .property source key, right, rest, rest' => by
      intro _ _ same
      have forms := Form.eq_of_append same
      cases right with
      | property source' key' =>
          simp only [expr, String.toList_append, List.append_assoc, toList_quoted,
            String.reduceToList, List.cons_append, List.nil_append] at same
          obtain ⟨rfl, quoted⟩ :=
            Binding.append_inj (.cons (by decide) _) (.cons (by decide) _) same
          obtain ⟨keys, rests⟩ := Json.quotedChars_append_inj (List.tail_eq_of_cons_eq quoted)
          cases Name.eq_of_text keys
          exact ⟨.property source key, List.tail_eq_of_cons_eq rests⟩
      | _ => cases forms
  | depth, .literal value, right, rest, rest' => by
      intro ends ends' same
      have forms := Form.eq_of_append same
      cases right with
      | literal other =>
          rw [expr, expr, toList_render, toList_render] at same
          obtain ⟨rfl, rests⟩ := Json.chars_append_inj ends ends' same
          exact ⟨.literal value, rests⟩
      | _ => cases forms
  | depth, .resolve site, right, rest, rest' => by
      intro _ _ same
      have forms := Form.eq_of_append same
      cases right with
      | resolve other =>
          rw [Form.of, Form.of, Form.call.injEq] at forms
          rw [expr, expr] at same
          obtain ⟨alike, rests⟩ := call_append_inj forms same
          exact ⟨.resolve alike, rests⟩
      | _ => cases forms
  | depth, .scope binding value selection isAsync, right, rest, rest' => by
      intro _ _ same
      have forms := Form.eq_of_append same
      cases right with
      | scope binding' value' selection' isAsync' =>
          rw [Form.of, Form.of, Form.scope.injEq] at forms
          subst isAsync'
          simp only [expr_scope, String.toList_append, List.append_assoc,
            String.reduceToList, List.cons_append, List.nil_append] at same
          obtain ⟨rfl, bound⟩ := Binding.append_inj (.cons (by decide) _) (.cons (by decide) _)
            (List.append_cancel_left same)
          simp only [List.cons.injEq, true_and] at bound
          obtain ⟨values, tested⟩ := expr_append_inj (endsNumber_scopeTest depth binding _)
            (endsNumber_scopeTest depth binding _) bound
          obtain ⟨selections, rests⟩ :=
            properties_append_inj (object_append_cases (List.append_cancel_left tested))
          exact ⟨.scope binding isAsync values selections, List.append_cancel_left rests⟩
      | _ => cases forms

theorem properties_append_inj :
    ∀ {depth : Nat} {left right : Properties} {rest rest' : List Char},
      (properties (depth + 1) left).toList ++ ((newLine depth).toList ++ '}' :: rest) =
        (properties (depth + 1) right).toList ++ ((newLine depth).toList ++ '}' :: rest') →
      Expr.MatchesAll ResolverCall.ReadsAlike left right ∧ rest = rest'
  | depth, [], [], rest, rest' => by
      intro same
      have same := List.append_cancel_left (List.append_cancel_left same)
      rw [List.cons.injEq] at same
      exact ⟨.nil, same.2⟩
  | depth, [], (key, value) :: data, rest, rest' => by
      intro same
      rw [toList_properties_cons, List.append_assoc] at same
      exact absurd same.symm (name_append_ne_newLine key depth _ _)
  | depth, (key, value) :: data, [], rest, rest' => by
      intro same
      rw [toList_properties_cons, List.append_assoc] at same
      exact absurd same (name_append_ne_newLine key depth _ _)
  | depth, (key, value) :: data, (key', value') :: data', rest, rest' => by
      intro same
      simp only [toList_properties_cons, List.append_assoc, List.cons_append] at same
      obtain ⟨rfl, line⟩ := Name.append_inj (.cons (by decide) _) (.cons (by decide) _) same
      simp only [List.cons.injEq, true_and] at line
      obtain ⟨values, more⟩ := expr_append_inj (.cons (by decide) _) (.cons (by decide) _) line
      obtain ⟨others, rests⟩ := properties_append_inj (afterFirst_append_inj rfl
        (fun _ => newLine_succ_append_ne depth _ _) (fun _ => newLine_succ_append_ne depth _ _)
        (List.tail_eq_of_cons_eq more))
      exact ⟨.cons key values others, rests⟩

end

end Source

namespace CompiledOperation

def sourceLead (isAsync : Bool) : String :=
  if isAsync then "(async function " else "(function "

def sourceOpening : String :=
  "(" ++ String.intercalate ", " parameters ++ ") \x7b" ++ Source.newLine 1 ++ "return \x7b" ++
    Source.newLine 2 ++ "data: "

def sourceClosing : String :=
  "," ++ Source.newLine 1 ++ "\x7d;" ++ Source.newLine 0 ++ "\x7d)"

theorem source_eq (operation : CompiledOperation) :
    operation.source = sourceLead operation.isAsync ++ operation.name.text ++ sourceOpening ++
      Source.object 2 operation.data.isEmpty (Source.properties 3 operation.data) ++
      sourceClosing := by
  simp only [source, Source.block, sourceLead, sourceOpening, sourceClosing, String.append_assoc]

theorem endsName_sourceOpening (rest : List Char) :
    Ends isNameContinue (sourceOpening.toList ++ rest) := by
  simp only [sourceOpening, String.toList_append, List.append_assoc, String.reduceToList,
    List.cons_append]
  exact .cons (by decide) _

theorem source_append_inj {left right : CompiledOperation} {rest rest' : List Char}
    (same : left.source.toList ++ rest = right.source.toList ++ rest') :
    left.Matches ResolverCall.ReadsAlike right ∧ rest = rest' := by
  simp only [source_eq, String.toList_append, List.append_assoc] at same
  have flags : left.isAsync = right.isAsync := by
    cases leftFlag : left.isAsync with
    | true =>
        cases rightFlag : right.isAsync with
        | true => rfl
        | false => simp [leftFlag, rightFlag, sourceLead] at same
    | false =>
        cases rightFlag : right.isAsync with
        | true => simp [leftFlag, rightFlag, sourceLead] at same
        | false => rfl
  rw [flags] at same
  obtain ⟨names, body⟩ := Name.append_inj (endsName_sourceOpening _) (endsName_sourceOpening _)
    (List.append_cancel_left same)
  obtain ⟨data, rests⟩ := Source.properties_append_inj
    (Source.object_append_cases (List.append_cancel_left body))
  exact ⟨⟨names, flags, data⟩, List.append_cancel_left rests⟩

theorem exists_toList_source (operation : CompiledOperation) :
    ∃ more, operation.source.toList = '(' :: more := by
  cases flag : operation.isAsync with
  | true => simp [source_eq, flag, sourceLead]
  | false => simp [source_eq, flag, sourceLead]

end CompiledOperation

namespace Artifact

theorem toList_sources_cons (operation : CompiledOperation) (others : List CompiledOperation) :
    (sources (operation :: others)).toList = operation.source.toList ++
      afterFirst ['\n', '\n'] (fun others => (sources others).toList) others := by
  cases others with
  | nil => simp [sources, afterFirst]
  | cons next others => simp [sources, afterFirst]

theorem sources_inj {left right : List CompiledOperation}
    (same : (sources left).toList = (sources right).toList) :
    List.Forall₂ (CompiledOperation.Matches ResolverCall.ReadsAlike) left right := by
  induction left generalizing right with
  | nil =>
      cases right with
      | nil => exact .nil
      | cons operation others =>
          obtain ⟨more, text⟩ := operation.exists_toList_source
          rw [toList_sources_cons, text] at same
          simp [sources] at same
  | cons operation operations ih =>
      rw [toList_sources_cons] at same
      cases right with
      | nil =>
          obtain ⟨more, text⟩ := operation.exists_toList_source
          rw [text] at same
          simp [sources] at same
      | cons operation' others =>
          rw [toList_sources_cons] at same
          obtain ⟨matched, more⟩ := CompiledOperation.source_append_inj same
          rw [← List.append_nil (afterFirst _ _ operations),
            ← List.append_nil (afterFirst _ _ others)] at more
          have later := afterFirst_append_inj rfl (by simp) (by simp) more
          exact .cons matched (ih (by simpa using later))

theorem operations_ofList (operations : List CompiledOperation) :
    (ofList operations).operations =
      (ofList operations).toList.map fun operation => (operation.name, operation) := by
  rw [toList, List.map_map]
  refine (List.map_id _).symm.trans (List.map_congr_left ?_)
  intro entry member
  exact Prod.ext (mem_operations_ofList member).1 rfl

end Artifact

section

variable {document document' : Document} {schema schema' : ExecutableSchema}
  {options options' : Options} {left right : Artifact}

/-- Artifacts with the same source are the same, and so are single operations, up to the identity
of the field nodes that their resolvers are told. -/
theorem source_determines_artifact
    (leftCompiles : compileDocument document schema options = .ok left)
    (rightCompiles : compileDocument document' schema' options' = .ok right) :
    (left.source = right.source →
      List.Forall₂ (fun one other =>
          one.1 = other.1 ∧ one.2.Matches ResolverCall.ReadsAlike other.2)
        left.operations right.operations) ∧
    ∀ one other : CompiledOperation, one.source = other.source →
      one.Matches ResolverCall.ReadsAlike other := by
  obtain ⟨leftResults, rfl, _⟩ := compileDocument_eq_ok leftCompiles
  obtain ⟨rightResults, rfl, _⟩ := compileDocument_eq_ok rightCompiles
  constructor
  · intro same
    have matched := Artifact.sources_inj (congrArg String.toList same)
    rw [Artifact.operations_ofList, Artifact.operations_ofList, List.forall₂_map_left_iff,
      List.forall₂_map_right_iff]
    exact matched.imp fun _ _ pair => ⟨pair.name, pair⟩
  · intro one other same
    have texts : one.source.toList ++ [] = other.source.toList ++ [] := by rw [same]
    exact (CompiledOperation.source_append_inj texts).1

end

theorem source_determines_artifact_people :
    ∃ left right : Artifact,
      compileDocument Sample.document (Sample.schema Sample.atOnce) {} = .ok left ∧
      compileDocument Sample.document (Sample.schema (.sync Resolver.echoInfo)) {} = .ok right ∧
      left.source = right.source ∧
      List.Forall₂ (fun one other =>
          one.1 = other.1 ∧ one.2.Matches ResolverCall.ReadsAlike other.2)
        left.operations right.operations := by
  have leftCompiles :
      compileDocument Sample.document (Sample.schema Sample.atOnce) {} = .ok _ := rfl
  have rightCompiles : compileDocument Sample.document
      (Sample.schema (.sync Resolver.echoInfo)) {} = .ok _ := rfl
  have same := (source_determines_artifact leftCompiles rightCompiles).1 rfl
  exact ⟨_, _, leftCompiles, rightCompiles, rfl, same⟩

end StaticQuery
