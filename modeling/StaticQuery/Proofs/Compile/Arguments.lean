import Mathlib.Data.List.Nodup
import StaticQuery.Proofs.Compile.Acceptance
import StaticQuery.Proofs.Number.Literal
import StaticQuery.Proofs.OrderedMap

/-!
What is passed on for the arguments of a field. Each literal denotes a value, or is refused for its
kind or its size. The values are passed under the names of the arguments, as they are written, and
the first refusal is reported whether or not there is a resolver to pass them to.
-/

namespace StaticQuery

theorem Integer64.ofSigned?_eq_some_iff {value : Int} {word : Integer64} :
    ofSigned? value = some word ↔ value = word.value ∧ value < 2 ^ 63 := by
  have bound : (int64Bound : Int) = 2 ^ 63 := by decide
  unfold ofSigned?
  by_cases upper : value < int64Bound
  · rw [if_pos upper]
    constructor
    · intro found
      exact ⟨(value_of_ofInt? found).symm, by omega⟩
    · rintro ⟨rfl, _⟩
      exact ofInt?_value word
  · rw [if_neg upper]
    simp only [reduceCtorEq, false_iff, not_and]
    omega

theorem Integer64.ofSigned?_eq_none_iff {value : Int} :
    ofSigned? value = none ↔ value < -2 ^ 63 ∨ 2 ^ 63 ≤ value := by
  have bound : (int64Bound : Int) = 2 ^ 63 := by decide
  rw [← Option.isNone_iff_eq_none, ← Option.not_isSome, isSome_ofSigned?, fitsInt64,
    Bool.not_eq_true', Bool.and_eq_false_iff, decide_eq_false_iff_not, decide_eq_false_iff_not]
  omega

namespace Value

inductive Denotes : Value → Json → Prop
  | null : Denotes .null .null
  | boolean (value : Bool) : Denotes (.boolean value) (.bool value)
  | string (text : String) : Denotes (.string text) (.string text)
  | enum (name : Name) : Denotes (.enum name) (.string name.text)
  | int {text : String} {word : Integer64} :
      DecimalText text.toList word.value → -2 ^ 63 ≤ word.value → word.value < 2 ^ 63 →
      Denotes (.int text) (.number (.integer word))
  | float {text : String} {literal : NumberLiteral} {number : Binary64} :
      NumberLiteral.ofText? text = some literal → literal.toBinary64? = some number →
      Denotes (.float text) (.number (.float number))

inductive Refused (argument field : Name) : Value → CompileError → Prop
  | int {text : String} :
      (∀ value, DecimalText text.toList value → value < -2 ^ 63 ∨ 2 ^ 63 ≤ value) →
      Refused argument field (.int text) (.invalidArgumentLiteral .int text argument)
  | float {text : String} :
      (∀ literal, NumberLiteral.ofText? text = some literal →
        Binary64.overflow ≤ literal.magnitude) →
      Refused argument field (.float text) (.invalidArgumentLiteral .float text argument)
  | var (name : Name) :
      Refused argument field (.var name) (.unsupportedArgumentKind .var argument field)
  | list (items : List Value) :
      Refused argument field (.list items) (.unsupportedArgumentKind .list argument field)
  | object (fields : List (Name × Value)) :
      Refused argument field (.object fields) (.unsupportedArgumentKind .object argument field)

variable {argument field : Name} {value : Value}

theorem compile_eq_ok_iff {json : Json} :
    value.compile argument field = .ok json ↔ value.Denotes json := by
  constructor
  · intro compiled
    cases value with
    | int text =>
        simp only [compile] at compiled
        split at compiled
        · rename_i word found
          cases compiled
          obtain ⟨read, denoted, fits⟩ := Option.bind_eq_some_iff.mp found
          obtain ⟨rfl, upper⟩ := Integer64.ofSigned?_eq_some_iff.mp fits
          exact .int (intOfText?_eq_some_iff.mp denoted) word.lower upper
        · cases compiled
    | float text =>
        simp only [compile] at compiled
        split at compiled
        · rename_i number found
          cases compiled
          obtain ⟨literal, read, finite⟩ := Option.bind_eq_some_iff.mp found
          exact .float read finite
        · cases compiled
    | null => cases compiled; exact .null
    | boolean value => cases compiled; exact .boolean value
    | string text => cases compiled; exact .string text
    | enum name => cases compiled; exact .enum name
    | _ => cases compiled
  · intro denotes
    cases denotes with
    | @int text word denoted _ upper =>
        have fits : Integer64.ofSigned? word.value = some word :=
          Integer64.ofSigned?_eq_some_iff.mpr ⟨rfl, upper⟩
        simp [compile, intOfText?_eq_some_iff.mpr denoted, fits]
    | float read finite => simp [compile, floatOfText?, read, finite]
    | _ => rfl

theorem compile_eq_error_iff {error : CompileError} :
    value.compile argument field = .error error ↔ value.Refused argument field error := by
  constructor
  · intro failed
    cases value with
    | int text =>
        simp only [compile] at failed
        split at failed
        · cases failed
        · rename_i missing
          cases failed
          refine .int fun value denoted => Integer64.ofSigned?_eq_none_iff.mp ?_
          exact Option.bind_eq_none_iff.mp missing value (intOfText?_eq_some_iff.mpr denoted)
    | float text =>
        simp only [compile] at failed
        split at failed
        · cases failed
        · rename_i missing
          cases failed
          refine .float fun literal read => literal.toBinary64?_eq_none_iff.mp ?_
          exact Option.bind_eq_none_iff.mp missing literal read
    | var name => cases failed; exact .var name
    | list items => cases failed; exact .list items
    | object fields => cases failed; exact .object fields
    | _ => cases failed
  · intro refused
    cases refused with
    | @int text outside =>
        have missing : (intOfText? text).bind Integer64.ofSigned? = none := by
          refine Option.bind_eq_none_iff.mpr fun value read => ?_
          exact Integer64.ofSigned?_eq_none_iff.mpr (outside value (intOfText?_eq_some_iff.mp read))
        simp [compile, missing]
    | @float text large =>
        have missing : floatOfText? text = none := by
          refine Option.bind_eq_none_iff.mpr fun literal read => ?_
          exact literal.toBinary64?_eq_none_iff.mpr (large literal read)
        simp [compile, missing]
    | _ => rfl

end Value

namespace Arguments

def Denote (arguments : Arguments) (object : Json.Object) : Prop :=
  List.Forall₂ (fun argument member => argument.1.text = member.1 ∧ argument.2.Denotes member.2)
    arguments object

def Refused (field : Name) (arguments : Arguments) (error : CompileError) : Prop :=
  ∃ before argument after, arguments = before ++ argument :: after ∧
    (∀ earlier ∈ before, ∃ json, earlier.2.Denotes json) ∧
    argument.2.Refused argument.1 field error

def member (field : Name) (argument : Name × Value) : Except CompileError (String × Json) :=
  (argument.2.compile argument.1 field).map fun json => (argument.1.text, json)

theorem member_eq_ok_iff {field : Name} {argument : Name × Value} {found : String × Json} :
    member field argument = .ok found ↔
      argument.1.text = found.1 ∧ argument.2.Denotes found.2 := by
  obtain ⟨key, json⟩ := found
  rw [← @Value.compile_eq_ok_iff argument.1 field, member]
  cases argument.2.compile argument.1 field with
  | error error => simp [Except.map]
  | ok value => simp [Except.map]

theorem member_eq_error_iff {field : Name} {argument : Name × Value} {error : CompileError} :
    member field argument = .error error ↔ argument.2.Refused argument.1 field error := by
  rw [← Value.compile_eq_error_iff, ← failure?_eq_some, member, failure?_map, failure?_eq_some]

theorem compileFrom_eq (field : Name) (arguments : Arguments) (done : Json.Object) :
    arguments.compileFrom field done =
      (arguments.mapM (member field)).map (OrderedMap.insertAll done) := by
  induction arguments generalizing done with
  | nil => rfl
  | cons argument rest ih =>
      obtain ⟨name, value⟩ := argument
      rw [compileFrom, List.mapM_cons, member]
      cases value.compile name field with
      | error error => rfl
      | ok json =>
          simp only [ih]
          cases rest.mapM (member field) with
          | error error => rfl
          | ok members => rfl

theorem exists_member_iff {field : Name} {argument : Name × Value} :
    (∃ found, member field argument = .ok found) ↔ ∃ json, argument.2.Denotes json := by
  constructor
  · rintro ⟨found, passed⟩
    exact ⟨found.2, (member_eq_ok_iff.mp passed).2⟩
  · rintro ⟨json, denotes⟩
    exact ⟨(argument.1.text, json), member_eq_ok_iff.mpr ⟨rfl, denotes⟩⟩

variable {field : Name} {arguments : Arguments}

theorem compile_eq_error_iff {error : CompileError} :
    arguments.compile field = .error error ↔ arguments.Refused field error := by
  rw [compile, compileFrom_eq, ← failure?_eq_some, failure?_map, failure?_eq_some,
    mapM_eq_error_iff]
  simp only [exists_member_iff, member_eq_error_iff, Refused]

theorem Denote.keys_eq {object : Json.Object} (denoted : arguments.Denote object) :
    object.keys = (arguments.map Prod.fst).map Name.text := by
  induction denoted with
  | nil => rfl
  | cons pair _ ih => exact congrArg₂ List.cons pair.1.symm ih

theorem Denote.keys_nodup {object : Json.Object} (denoted : arguments.Denote object)
    (distinct : (arguments.map Prod.fst).Nodup) : object.keys.Nodup := by
  rw [denoted.keys_eq]
  exact List.Nodup.map (fun _ _ => Name.eq_of_text) distinct

theorem compile_eq_ok_iff {object : Json.Object} (distinct : (arguments.map Prod.fst).Nodup) :
    arguments.compile field = .ok object ↔ arguments.Denote object := by
  have traversed (members : Json.Object) :
      arguments.mapM (member field) = .ok members ↔ arguments.Denote members := by
    simp only [mapM_eq_ok_iff, member_eq_ok_iff, Denote]
  rw [compile, compileFrom_eq]
  constructor
  · cases found : arguments.mapM (member field) with
    | error error => simp [Except.map]
    | ok members =>
        have denoted := (traversed members).mp found
        rintro ⟨⟩
        rwa [OrderedMap.nil_insertAll (denoted.keys_nodup distinct)]
  · intro denoted
    rw [(traversed object).mpr denoted, Except.map,
      OrderedMap.nil_insertAll (denoted.keys_nodup distinct)]

end Arguments

namespace FieldPlan

theorem make_eq_error_iff {schema : ExecutableSchema} {parent : Name} {head : FieldHead TypeRef}
    {error : CompileError} :
    make schema parent head = .error error ↔ head.arguments.Refused head.name error := by
  rw [← Arguments.compile_eq_error_iff, make]
  cases head.arguments.compile head.name with
  | error other => simp
  | ok arguments =>
      cases registered : schema.resolveFn? ⟨parent, head.name⟩ with
      | none => simp [registered]
      | some resolve => simp [registered]

end FieldPlan

namespace FieldHead

theorem mem_argumentFaults {head : FieldHead TypeRef} {error : CompileError} :
    error ∈ head.argumentFaults ↔
      ∃ argument ∈ head.arguments, argument.2.Refused argument.1 head.name error := by
  have refusal (argument : Name × Value) :
      error ∈ faultIf (!argument.2.isPassable) (argument.2.refusal argument.1 head.name) ↔
        argument.2.Refused argument.1 head.name error := by
    rw [← Value.compile_eq_error_iff, ← failure?_eq_some, Value.failure?_compile]
    cases argument.2.isPassable with
    | true => simp
    | false => simp [eq_comm]
  simp only [argumentFaults, List.mem_flatMap, refusal]

end FieldHead

/-- A field is refused for its arguments whether or not a resolver takes them. -/
theorem compileDocument_refuses {document : Document} {schema : ExecutableSchema} {depth : Nat}
    {parent : Name} {head : FieldHead TypeRef} {nested : List (Selection TypeRef)}
    (reached : document.Reaches schema.definitions depth parent (.field head nested))
    (kept : Directive.isDropped head.directives = false)
    (other : head.isTypename schema.definitions parent = false) {argument : Name × Value}
    (listed : argument ∈ head.arguments) {error : CompileError}
    (refused : argument.2.Refused argument.1 head.name error) (options : Options) :
    error ∈ document.faults schema.definitions options.recursionLimit ∧
      ∃ first, (document.faults schema.definitions options.recursionLimit).head? = some first ∧
        compileDocument document schema options = .error first := by
  have own : error ∈ head.argumentFaults :=
    FieldHead.mem_argumentFaults.mpr ⟨argument, listed, refused⟩
  have found : error ∈ document.faults schema.definitions options.recursionLimit := by
    refine reached.faults_subset _ ?_
    simp [Selection.faults, kept, other, own]
  exact ⟨found, compileDocument_fails_of_mem found⟩

end StaticQuery
