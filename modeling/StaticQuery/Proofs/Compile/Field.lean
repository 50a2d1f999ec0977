import StaticQuery.Compile.Field

/-!
The decisions about a single field, in terms of what stands in the document and the schema. Each is
given as one equation, and later modules use only these.
-/

namespace StaticQuery

namespace Directive

def omits (directive : Directive) : Bool :=
  match directive.arguments.find? "if" with
  | some (.boolean true) => directive.name.text = "skip"
  | some (.boolean false) => directive.name.text = "include"
  | _ => false

def unfixed? (directive : Directive) : Option Value.Kind :=
  if directive.name.text = "skip" ∨ directive.name.text = "include" then
    match directive.arguments.find? "if" with
    | none => none
    | some (.boolean _) => none
    | some other => some other.kind
  else none

theorem drop_cons (field : Name) (directive : Directive) (rest : List Directive) :
    drop field (directive :: rest) =
      if directive.omits then .ok true
      else
        match directive.unfixed? with
        | some kind => .error (.unsupportedArgumentKind kind .condition field)
        | none => drop field rest := by
  have condition : Name.condition.text = "if" := rfl
  by_cases skip : directive.name.text = "skip"
  · cases given : directive.arguments.find? "if" with
    | none => simp [drop, dropsWhen?, omits, unfixed?, condition, skip, given]
    | some value =>
        cases value with
        | boolean value =>
            cases value <;> simp [drop, dropsWhen?, omits, unfixed?, condition, skip, given]
        | _ => simp [drop, dropsWhen?, omits, unfixed?, condition, skip, given]
  · by_cases includes : directive.name.text = "include"
    · cases given : directive.arguments.find? "if" with
      | none => simp [drop, dropsWhen?, omits, unfixed?, condition, includes, given]
      | some value =>
          cases value with
          | boolean value =>
              cases value <;> simp [drop, dropsWhen?, omits, unfixed?, condition, includes, given]
          | _ => simp [drop, dropsWhen?, omits, unfixed?, condition, includes, given]
    · have unconditional : directive.omits = false := by
        unfold omits
        split <;> simp [skip, includes]
      simp [drop, dropsWhen?, unfixed?, skip, includes, unconditional]

theorem unfixed?_of_omits {directive : Directive} (omitted : directive.omits = true) :
    directive.unfixed? = none := by
  unfold omits at omitted
  unfold unfixed?
  cases given : directive.arguments.find? "if" with
  | none => simp [given] at omitted
  | some value =>
      cases value with
      | boolean value => simp
      | _ => simp [given] at omitted

/-- Whether one of the directives omits what they stand on, and none before it is left open. -/
def isDropped (directives : List Directive) : Bool :=
  (directives.takeWhile fun directive => directive.unfixed?.isNone).any omits

theorem drop_eq (field : Name) (directives : List Directive) :
    drop field directives =
      if isDropped directives then .ok true
      else
        match directives.findSome? unfixed? with
        | some kind => .error (.unsupportedArgumentKind kind .condition field)
        | none => .ok false := by
  induction directives with
  | nil => rfl
  | cons directive rest ih =>
      rw [drop_cons]
      cases omitted : directive.omits with
      | true =>
          have fixed := unfixed?_of_omits omitted
          simp [isDropped, omitted, fixed]
      | false =>
          cases unfixed : directive.unfixed? with
          | some kind => simp [isDropped, unfixed]
          | none => simpa [isDropped, omitted, unfixed] using ih

theorem drop_eq_ok {field : Name} {directives : List Directive} {dropped : Bool}
    (scanned : drop field directives = .ok dropped) : isDropped directives = dropped := by
  rw [drop_eq] at scanned
  cases decided : isDropped directives with
  | true => simpa [decided] using scanned
  | false =>
      cases unfixed : directives.findSome? unfixed? with
      | some kind => simp [decided, unfixed] at scanned
      | none => simpa [decided, unfixed] using scanned

end Directive

namespace FieldHead

variable {schema : Schema} {parent : Name} {head : FieldHead TypeRef}

def isTypename (schema : Schema) (parent : Name) (head : FieldHead TypeRef) : Bool :=
  head.name = Name.typename && schema.typeIs TypeBody.isObject parent

def hasFields (schema : Schema) (head : FieldHead TypeRef) : Bool :=
  schema.typeIs (fun body => body.isObject || body.isInterface) head.type.inner

theorem shape_eq_ok {shape : Shape} (shaped : head.shape schema parent = .ok shape) :
    shape =
      if head.isTypename schema parent then .typename
      else if head.hasFields schema then .scope
      else .leaf := by
  unfold FieldHead.shape FieldHead.shape.composite at shaped
  unfold isTypename hasFields Schema.typeIs
  cases known : schema.body? parent with
  | none => simp [known] at shaped
  | some parentBody =>
      cases ownKnown : schema.body? head.type.inner with
      | none => simp [known, ownKnown] at shaped
      | some body =>
          simp only [known, ownKnown] at shaped ⊢
          by_cases typename : (head.name = Name.typename && parentBody.isObject) = true
          · simp only [typename, if_true, Except.ok.injEq] at shaped ⊢
            exact shaped.symm
          · simp only [typename, Bool.false_eq_true, if_false] at shaped ⊢
            cases body with
            | object _ _ =>
                by_cases list : head.type.isList
                · simp [list] at shaped
                · simpa [list, TypeBody.isObject, eq_comm] using shaped
            | interface _ _ =>
                by_cases list : head.type.isList
                · simp [list] at shaped
                · simpa [list, TypeBody.isObject, TypeBody.isInterface, eq_comm] using shaped
            | scalar => simpa [TypeBody.isObject, TypeBody.isInterface, eq_comm] using shaped
            | enum _ => simpa [TypeBody.isObject, TypeBody.isInterface, eq_comm] using shaped
            | union _ => simp at shaped
            | inputObject _ => simp at shaped

theorem isTypename_of_shape (shaped : head.shape schema parent = .ok .typename) :
    head.isTypename schema parent = true := by
  have decided := shape_eq_ok shaped
  grind

theorem not_hasFields_of_shape (shaped : head.shape schema parent = .ok .leaf) :
    head.isTypename schema parent = false ∧ head.hasFields schema = false := by
  have decided := shape_eq_ok shaped
  grind

theorem hasFields_of_shape (shaped : head.shape schema parent = .ok .scope) :
    head.isTypename schema parent = false ∧ head.hasFields schema = true := by
  have decided := shape_eq_ok shaped
  grind

end FieldHead

namespace Value

def decode? : Value → Option Json
  | .null => some .null
  | .boolean value => some (.bool value)
  | .string text => some (.string text)
  | .enum name => some (.string name.text)
  | .int text => ((intOfText? text).bind Integer64.ofInt?).map fun value => .number (.integer value)
  | .float text => (floatOfText? text).map fun value => .number (.float value)
  | .var _ => none
  | .list _ => none
  | .object _ => none

theorem decode?_of_compile {argument field : Name} {value : Value} {json : Json}
    (compiled : value.compile argument field = .ok json) : value.decode? = some json := by
  cases value with
  | int text =>
      simp only [compile] at compiled
      split at compiled
      · rename_i integer denoted
        obtain ⟨value, read, fits⟩ := Option.bind_eq_some_iff.mp denoted
        have bounded : Integer64.ofInt? value = some integer := by
          unfold Integer64.ofSigned? at fits
          split at fits
          · exact fits
          · cases fits
        simpa [decode?, read, bounded] using compiled
      · cases compiled
  | float text =>
      simp only [compile] at compiled
      split at compiled
      · rename_i number denoted
        simpa [decode?, denoted] using compiled
      · cases compiled
  | var name => simp [compile] at compiled
  | list items => simp [compile] at compiled
  | object fields => simp [compile] at compiled
  | _ => simpa [compile, decode?] using compiled

end Value

namespace Arguments

def decode (arguments : Arguments) : Json.Object :=
  OrderedMap.insertAll [] (arguments.filterMap fun argument =>
    argument.2.decode?.map fun value => (argument.1.text, value))

theorem compileFrom_eq_ok {field : Name} {arguments : Arguments} {done object : Json.Object}
    (compiled : arguments.compileFrom field done = .ok object) :
    object = OrderedMap.insertAll done (arguments.filterMap fun argument =>
      argument.2.decode?.map fun value => (argument.1.text, value)) := by
  induction arguments generalizing done with
  | nil => simpa [compileFrom, OrderedMap.insertAll, eq_comm] using compiled
  | cons argument rest ih =>
      obtain ⟨name, value⟩ := argument
      cases literal : value.compile name field with
      | error error => simp [compileFrom, literal] at compiled
      | ok json =>
          simp only [compileFrom, literal] at compiled
          rw [ih compiled]
          simp [Value.decode?_of_compile literal, OrderedMap.insertAll]

theorem compile_eq_ok {field : Name} {arguments : Arguments} {object : Json.Object}
    (compiled : arguments.compile field = .ok object) : object = arguments.decode :=
  compileFrom_eq_ok compiled

end Arguments

namespace FieldPlan

theorem make_eq_ok {schema : ExecutableSchema} {parent : Name} {head : FieldHead TypeRef}
    {plan : FieldPlan} (made : make schema parent head = .ok plan) :
    plan =
      match schema.resolveFn? ⟨parent, head.name⟩ with
      | none => ⟨none, false, []⟩
      | some resolve => ⟨some ⟨parent, head.name⟩, resolve.isAsync, head.arguments.decode⟩ := by
  unfold make at made
  cases compiled : head.arguments.compile head.name with
  | error error => simp [compiled] at made
  | ok arguments =>
      have decoded := Arguments.compile_eq_ok compiled
      cases registered : schema.resolveFn? ⟨parent, head.name⟩ with
      | none => simpa [compiled, registered, eq_comm] using made
      | some resolve => simpa [compiled, registered, decoded, eq_comm] using made

end FieldPlan

end StaticQuery
