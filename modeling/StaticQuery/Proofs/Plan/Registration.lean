import StaticQuery.Compile.Query
import StaticQuery.Proofs.Compile.Coordinates
import StaticQuery.Proofs.OrderedMap

/-!
Schemas after any history of registrations. Only coordinates that the schema defines are ever
written, each holds what was last registered for it, and registrations of different coordinates do
not depend on their order.
-/

namespace StaticQuery

def Schema.Defines (schema : Schema) (type field : String) : Prop :=
  ∃ (name : Name) (body : TypeBody), name.text = type ∧ schema.body? name = some body ∧
    (body.isObject = true ∨ body.isInterface = true) ∧
    ∃ definition ∈ body.fields, definition.name.text = field

theorem Coordinate.eq_of_texts {left right : Coordinate}
    (same : (left.type.text, left.field.text) = (right.type.text, right.field.text)) :
    left = right := by
  obtain ⟨type, field⟩ := Prod.mk.inj same
  have typeSame := Name.eq_of_text type
  have fieldSame := Name.eq_of_text field
  cases left
  cases right
  simp_all

inductive Registration.Entry where
  | config (config : FieldConfig)
  | resolver (resolve : Resolver (Except ResolverError Json))
  | asyncResolver (resolve : Resolver (Future (Except ResolverError Json)))

structure Registration where
  type : String
  field : String
  entry : Registration.Entry

namespace Registration

def apply (schema : ExecutableSchema) (registration : Registration) :
    Except SchemaError ExecutableSchema :=
  match registration.entry with
  | .config config => schema.register registration.type registration.field config
  | .resolver resolve => schema.registerSync registration.type registration.field resolve
  | .asyncResolver resolve => schema.registerAsync registration.type registration.field resolve

def config (registration : Registration) : FieldConfig :=
  match registration.entry with
  | .config config => config
  | .resolver resolve => ⟨some (.sync resolve)⟩
  | .asyncResolver resolve => ⟨some (.async resolve)⟩

def target (registration : Registration) : String × String :=
  (registration.type, registration.field)

theorem apply_eq_register (schema : ExecutableSchema) (registration : Registration) :
    registration.apply schema =
      schema.register registration.type registration.field registration.config := by
  obtain ⟨type, field, entry⟩ := registration
  cases entry with
  | config config => rfl
  | resolver resolve => rfl
  | asyncResolver resolve => rfl

end Registration

namespace ExecutableSchema

/-- The schema after a history of registrations. One that fails leaves it as it was. -/
def registerEach (schema : ExecutableSchema) : List Registration → ExecutableSchema
  | [] => schema
  | registration :: rest =>
      match registration.apply schema with
      | .ok next => next.registerEach rest
      | .error _ => schema.registerEach rest

def successes (schema : ExecutableSchema) : List Registration → List Registration
  | [] => []
  | registration :: rest =>
      match registration.apply schema with
      | .ok next => registration :: next.successes rest
      | .error _ => schema.successes rest

structure AnswersAfter (definitions : Schema) (history : List Registration)
    (schema : ExecutableSchema) : Prop where
  fails : ∀ (registration : Registration) error, registration.apply schema = .error error ↔
    ¬ definitions.Defines registration.type registration.field ∧
      error = .unknownField registration.type registration.field
  defined : ∀ coordinate ∈ schema.fields.keys,
    definitions.Defines coordinate.type.text coordinate.field.text
  config : ∀ type field, schema.fieldConfig? type field =
    ((((ofSchema definitions).successes history).filter fun registration =>
      registration.target = (type, field)).getLast?).map Registration.config
  noName : ∀ type field, isName type = false ∨ isName field = false →
    schema.fieldConfig? type field = none
  resolve : ∀ coordinate, schema.resolveFn? coordinate =
    (schema.fieldConfig? coordinate.type.text coordinate.field.text).bind FieldConfig.resolve?

structure AnswersAs (first second : ExecutableSchema) : Prop where
  fails : ∀ (registration : Registration) error,
    registration.apply first = .error error ↔ registration.apply second = .error error
  defined : ∀ coordinate, coordinate ∈ first.fields.keys ↔ coordinate ∈ second.fields.keys
  config : ∀ type field, first.fieldConfig? type field = second.fieldConfig? type field
  resolve : ∀ coordinate, first.resolveFn? coordinate = second.resolveFn? coordinate
  documents : ∀ document options,
    compileDocument document first options = compileDocument document second options
  texts : ∀ text options, compile text first options = compile text second options

/-! Which coordinates a schema defines. -/

theorem coordinateOf?_eq_some_iff {type field : String} {coordinate : Coordinate} :
    coordinateOf? type field = some coordinate ↔
      coordinate.type.text = type ∧ coordinate.field.text = field := by
  constructor
  · intro read
    unfold coordinateOf? at read
    split at read
    · rename_i typeName fieldName typeRead fieldRead
      cases read
      exact ⟨Name.text_of_ofText? typeRead, Name.text_of_ofText? fieldRead⟩
    · cases read
  · rintro ⟨rfl, rfl⟩
    simp only [coordinateOf?, Name.ofText?_text]

theorem definesField_iff {schema : Schema} {type field : Name} :
    schema.definesField type field = true ↔ schema.Defines type.text field.text := by
  unfold Schema.definesField Schema.Defines
  constructor
  · intro defined
    cases known : schema.body? type with
    | none => simp [known] at defined
    | some body =>
        simp only [known, List.any_eq_true, decide_eq_true_eq] at defined
        obtain ⟨definition, member, rfl⟩ := defined
        refine ⟨type, body, rfl, known, ?_, definition, member, rfl⟩
        cases body with
        | object _ _ => exact Or.inl rfl
        | interface _ _ => exact Or.inr rfl
        | _ => cases member
  · rintro ⟨name, body, same, known, _, definition, member, named⟩
    obtain rfl := Name.eq_of_text same
    simp only [known, List.any_eq_true, decide_eq_true_eq]
    exact ⟨definition, member, Name.eq_of_text named⟩

theorem definedCoordinate?_eq_some_iff {schema : ExecutableSchema} {type field : String}
    {coordinate : Coordinate} :
    schema.definedCoordinate? type field = some coordinate ↔
      (coordinate.type.text = type ∧ coordinate.field.text = field) ∧
        schema.definitions.Defines type field := by
  rw [definedCoordinate?, Option.filter_eq_some_iff, coordinateOf?_eq_some_iff, definesField_iff]
  apply and_congr_right
  rintro ⟨rfl, rfl⟩
  rfl

theorem definedCoordinate?_eq_none_iff {schema : ExecutableSchema} {type field : String} :
    schema.definedCoordinate? type field = none ↔ ¬ schema.definitions.Defines type field := by
  rw [Option.eq_none_iff_forall_ne_some]
  constructor
  · intro missing defined
    obtain ⟨name, body, rfl, known, kind, definition, member, rfl⟩ := defined
    exact missing ⟨name, definition.name⟩ (definedCoordinate?_eq_some_iff.mpr
      ⟨⟨rfl, rfl⟩, name, body, rfl, known, kind, definition, member, rfl⟩)
  · intro undefined coordinate found
    exact undefined (definedCoordinate?_eq_some_iff.mp found).2

/-! What one registration does, and what a history does. -/

def written? (definitions : Schema) (registration : Registration) :
    Option (Coordinate × FieldConfig) :=
  ((ofSchema definitions).definedCoordinate? registration.type registration.field).map
    fun coordinate => (coordinate, registration.config)

theorem apply_eq (schema : ExecutableSchema) (registration : Registration) :
    registration.apply schema =
      match written? schema.definitions registration with
      | some (coordinate, config) =>
          .ok ⟨schema.definitions, schema.fields.insert coordinate config⟩
      | none => .error (.unknownField registration.type registration.field) := by
  have same : written? schema.definitions registration =
      (schema.definedCoordinate? registration.type registration.field).map
        fun coordinate => (coordinate, registration.config) := rfl
  rw [Registration.apply_eq_register, register, same]
  cases schema.definedCoordinate? registration.type registration.field with
  | none => rfl
  | some coordinate => rfl

theorem written?_eq_some {definitions : Schema} {registration : Registration}
    {coordinate : Coordinate} {config : FieldConfig}
    (writes : written? definitions registration = some (coordinate, config)) :
    registration.target = (coordinate.type.text, coordinate.field.text) ∧
      config = registration.config ∧
      definitions.Defines coordinate.type.text coordinate.field.text := by
  obtain ⟨_, found, same⟩ := Option.map_eq_some_iff.mp writes
  cases same
  obtain ⟨⟨type, field⟩, defined⟩ := definedCoordinate?_eq_some_iff.mp found
  rw [type, field]
  exact ⟨rfl, rfl, defined⟩

theorem written?_eq_none_iff {definitions : Schema} {registration : Registration} :
    written? definitions registration = none ↔
      ¬ definitions.Defines registration.type registration.field := by
  rw [written?, Option.map_eq_none_iff, definedCoordinate?_eq_none_iff]
  rfl

theorem apply_eq_error_iff {schema : ExecutableSchema} {registration : Registration}
    {error : SchemaError} :
    registration.apply schema = .error error ↔
      ¬ schema.definitions.Defines registration.type registration.field ∧
        error = .unknownField registration.type registration.field := by
  rw [← written?_eq_none_iff, apply_eq]
  cases written? schema.definitions registration with
  | none => simp [eq_comm]
  | some entry => simp

theorem registerEach_eq (schema : ExecutableSchema) (history : List Registration) :
    schema.registerEach history =
      ⟨schema.definitions,
        schema.fields.insertAll (history.filterMap (written? schema.definitions))⟩ := by
  induction history generalizing schema with
  | nil => rfl
  | cons registration rest ih =>
      rw [registerEach, apply_eq]
      cases writes : written? schema.definitions registration with
      | none => rw [List.filterMap_cons_none writes, ih]
      | some entry =>
          rw [List.filterMap_cons_some writes]
          exact ih _

theorem successes_eq_filter (schema : ExecutableSchema) (history : List Registration) :
    schema.successes history =
      history.filter fun registration => (written? schema.definitions registration).isSome := by
  induction history generalizing schema with
  | nil => rfl
  | cons registration rest ih =>
      rw [successes, apply_eq, List.filter_cons]
      cases written? schema.definitions registration with
      | none => exact ih schema
      | some entry => exact congrArg _ (ih _)

def writtenTo (definitions : Schema) (coordinate : Coordinate) (history : List Registration) :
    List (Coordinate × FieldConfig) :=
  (history.filterMap (written? definitions)).filter fun entry => entry.1 = coordinate

/-- What a history writes to a coordinate are its successful registrations of just that one. -/
theorem writtenTo_eq (definitions : Schema) (coordinate : Coordinate)
    (history : List Registration) :
    writtenTo definitions coordinate history =
      (((ofSchema definitions).successes history).filter fun registration =>
        registration.target = (coordinate.type.text, coordinate.field.text)).map
          fun registration => (coordinate, registration.config) := by
  have succeeded : (ofSchema definitions).successes history =
      history.filter fun registration => (written? definitions registration).isSome :=
    successes_eq_filter _ history
  rw [succeeded, writtenTo]
  clear succeeded
  induction history with
  | nil => rfl
  | cons registration rest ih =>
      cases writes : written? definitions registration with
      | none =>
          simp only [List.filterMap_cons, List.filter_cons, writes, Option.isSome_none,
            Bool.false_eq_true, if_false, ih]
      | some entry =>
          obtain ⟨known, config⟩ := entry
          obtain ⟨target, rfl, _⟩ := written?_eq_some writes
          simp only [List.filterMap_cons, List.filter_cons, writes, Option.isSome_some, if_true]
          by_cases here : known = coordinate
          · simp only [here, target, decide_true, if_true, List.map_cons, ih]
          · have elsewhere : registration.target ≠
                (coordinate.type.text, coordinate.field.text) := by
              intro same
              exact here (Coordinate.eq_of_texts (target.symm.trans same))
            simp only [here, elsewhere, decide_false, Bool.false_eq_true, if_false, ih]

theorem fieldConfig?_registerEach (definitions : Schema) (history : List Registration)
    (type field : String) :
    ((ofSchema definitions).registerEach history).fieldConfig? type field =
      ((((ofSchema definitions).successes history).filter fun registration =>
        registration.target = (type, field)).getLast?).map Registration.config := by
  rw [registerEach_eq, fieldConfig?]
  cases read : coordinateOf? type field with
  | none =>
      have unregistered : (((ofSchema definitions).successes history).filter fun registration =>
          registration.target = (type, field)) = [] := by
        apply List.filter_eq_nil_iff.mpr
        intro registration member same
        rw [successes_eq_filter, List.mem_filter, Option.isSome_iff_exists] at member
        obtain ⟨⟨coordinate, config⟩, writes⟩ := member.2
        obtain ⟨typeText, fieldText⟩ := Prod.mk.inj
          ((of_decide_eq_true same).symm.trans (written?_eq_some writes).1)
        have known := coordinateOf?_eq_some_iff.mpr ⟨typeText.symm, fieldText.symm⟩
        rw [read] at known
        cases known
      rw [unregistered]
      rfl
  | some coordinate =>
      obtain ⟨rfl, rfl⟩ := coordinateOf?_eq_some_iff.mp read
      have held : OrderedMap.get? ((ofSchema definitions).fields.insertAll
          (history.filterMap (written? definitions))) coordinate =
            (writtenTo definitions coordinate history).getLast?.map Prod.snd := by
        rw [OrderedMap.get?_insertAll]
        exact Option.or_none
      refine held.trans ?_
      rw [writtenTo_eq, List.getLast?_map, Option.map_map]
      rfl

theorem answersAfter_registerEach (definitions : Schema) (history : List Registration) :
    AnswersAfter definitions history ((ofSchema definitions).registerEach history) := by
  have eq := registerEach_eq (ofSchema definitions) history
  constructor
  · intro registration error
    rw [apply_eq_error_iff, eq]
    rfl
  · intro coordinate member
    rw [eq, OrderedMap.keys_insertAll, List.mem_append, List.mem_eraseDups] at member
    rcases member with old | new
    · cases old
    · obtain ⟨entry, written, rfl⟩ := List.mem_map.mp (List.mem_of_mem_filter new)
      obtain ⟨registration, _, writes⟩ := List.mem_filterMap.mp written
      exact (written?_eq_some writes).2.2
  · exact fieldConfig?_registerEach definitions history
  · intro type field invalid
    have unread : coordinateOf? type field = none := by
      unfold coordinateOf?
      rcases invalid with invalid | invalid
      · rw [Name.ofText?_eq_none_iff.mpr invalid]
      · rw [Name.ofText?_eq_none_iff.mpr invalid]
        cases Name.ofText? type with
        | none => rfl
        | some name => rfl
    rw [fieldConfig?, unread]
    rfl
  · intro coordinate
    have read := coordinateOf?_eq_some_iff.mpr
      (⟨rfl, rfl⟩ : coordinate.type.text = _ ∧ coordinate.field.text = _)
    rw [fieldConfig?, read]
    rfl

theorem answersAs_of_get?_eq {first second : ExecutableSchema}
    (same : first.definitions = second.definitions)
    (entries : ∀ coordinate, first.fields.get? coordinate = second.fields.get? coordinate) :
    first.AnswersAs second := by
  have resolvers (coordinate : Coordinate) :
      first.resolveFn? coordinate = second.resolveFn? coordinate := by
    rw [resolveFn?, entries, resolveFn?]
  have capable (coordinates : List Coordinate) : first.CapableAs second coordinates := by
    refine ⟨same, ?_⟩
    intro coordinate _
    rw [capability?, resolvers, capability?]
  constructor
  · intro registration error
    rw [apply_eq_error_iff, apply_eq_error_iff, same]
  · intro coordinate
    rw [← OrderedMap.get?_isSome_iff, ← OrderedMap.get?_isSome_iff, entries]
  · intro type field
    unfold fieldConfig?
    cases coordinateOf? type field with
    | none => rfl
    | some coordinate => exact entries coordinate
  · exact resolvers
  · intro document options
    exact (capable _).compileDocument_eq options
  · intro text options
    unfold compile
    rw [same]
    cases Document.parse? second.definitions text with
    | none => rfl
    | some document => exact (capable _).compileDocument_eq options

/-- Histories that write the same to each coordinate, in the same order, leave schemas that answer
alike. -/
theorem answersAs_registerEach {definitions : Schema} {history other : List Registration}
    (written : ∀ coordinate,
      writtenTo definitions coordinate history = writtenTo definitions coordinate other) :
    ((ofSchema definitions).registerEach history).AnswersAs
      ((ofSchema definitions).registerEach other) := by
  rw [registerEach_eq, registerEach_eq]
  refine answersAs_of_get?_eq (Eq.refl definitions) ?_
  intro coordinate
  have latest : OrderedMap.last? (history.filterMap (written? definitions)) coordinate =
      OrderedMap.last? (other.filterMap (written? definitions)) coordinate :=
    congrArg (fun entries => entries.getLast?.map Prod.snd) (written coordinate)
  rw [OrderedMap.get?_insertAll, OrderedMap.get?_insertAll]
  exact congrArg (Option.or · _) latest

theorem writtenTo_append (definitions : Schema) (coordinate : Coordinate)
    (first second : List Registration) :
    writtenTo definitions coordinate (first ++ second) =
      writtenTo definitions coordinate first ++ writtenTo definitions coordinate second := by
  rw [writtenTo, List.filterMap_append, List.filter_append]
  rfl

theorem writtenTo_eq_nil {definitions : Schema} {coordinate : Coordinate}
    {history : List Registration}
    (elsewhere : ∀ registration ∈ history, registration.target ≠
      (coordinate.type.text, coordinate.field.text)) :
    writtenTo definitions coordinate history = [] := by
  apply List.filter_eq_nil_iff.mpr
  intro entry member here
  obtain ⟨registration, listed, writes⟩ := List.mem_filterMap.mp member
  have target := (written?_eq_some writes).1
  rw [of_decide_eq_true here] at target
  exact elsewhere registration listed target

theorem answersAs_swap (definitions : Schema) (before between after : List Registration)
    {first second : Registration} (different : first.target ≠ second.target)
    (others : ∀ registration ∈ between,
      registration.target ≠ first.target ∧ registration.target ≠ second.target) :
    ((ofSchema definitions).registerEach
      (before ++ [first] ++ between ++ [second] ++ after)).AnswersAs
      ((ofSchema definitions).registerEach
        (before ++ [second] ++ between ++ [first] ++ after)) := by
  apply answersAs_registerEach
  intro coordinate
  have nothing {registration : Registration}
      (elsewhere : registration.target ≠ (coordinate.type.text, coordinate.field.text)) :
      writtenTo definitions coordinate [registration] = [] :=
    writtenTo_eq_nil (List.forall_mem_singleton.mpr elsewhere)
  simp only [writtenTo_append]
  -- At most one of the two is written to the coordinate, and then nothing between them is.
  by_cases here : first.target = (coordinate.type.text, coordinate.field.text)
  · rw [here] at different others
    have unwritten : writtenTo definitions coordinate between = [] :=
      writtenTo_eq_nil fun registration member => (others registration member).1
    rw [nothing different.symm, unwritten]
    simp only [List.append_nil]
  · by_cases there : second.target = (coordinate.type.text, coordinate.field.text)
    · rw [there] at others
      have unwritten : writtenTo definitions coordinate between = [] :=
        writtenTo_eq_nil fun registration member => (others registration member).2
      rw [nothing here, unwritten]
      simp only [List.append_nil]
    · rw [nothing here, nothing there]

end ExecutableSchema

/-- After any history of registrations a schema answers by the last successful one of each
coordinate, and nothing depends on the order of registrations of different coordinates: two of them
can be exchanged wherever they stand, also across registrations of other coordinates. -/
theorem registrations_last_wins (definitions : Schema) :
    (∀ history, ExecutableSchema.AnswersAfter definitions history
      ((ExecutableSchema.ofSchema definitions).registerEach history)) ∧
    (∀ type field, (SchemaError.unknownField type field).message =
      "cannot register a resolver for unknown field " ++ type ++ "." ++ field) ∧
    ∀ (before between after : List Registration) (first second : Registration),
      first.target ≠ second.target →
      (∀ registration ∈ between,
        registration.target ≠ first.target ∧ registration.target ≠ second.target) →
      ((ExecutableSchema.ofSchema definitions).registerEach
        (before ++ [first] ++ between ++ [second] ++ after)).AnswersAs
        ((ExecutableSchema.ofSchema definitions).registerEach
          (before ++ [second] ++ between ++ [first] ++ after)) := by
  refine ⟨ExecutableSchema.answersAfter_registerEach definitions, fun _ _ => rfl, ?_⟩
  intro before between after first second different others
  exact ExecutableSchema.answersAs_swap definitions before between after different others

/-! A resolver, a field that is not defined, and a field left without resolver. -/

def Sample.registrations : List Registration :=
  [⟨"Query", "friend", .resolver Resolver.echoSource⟩,
    ⟨"Query", "name", .resolver Resolver.echoSource⟩,
    ⟨"User", "name", .config ⟨none⟩⟩]

theorem registrations_last_wins_people :
    (((ExecutableSchema.ofSchema Sample.definitions).successes Sample.registrations).map
      Registration.target) = [("Query", "friend"), ("User", "name")] ∧
    ExecutableSchema.AnswersAfter Sample.definitions Sample.registrations
      ((ExecutableSchema.ofSchema Sample.definitions).registerEach Sample.registrations) ∧
    ((ExecutableSchema.ofSchema Sample.definitions).registerEach Sample.registrations).AnswersAs
      ((ExecutableSchema.ofSchema Sample.definitions).registerEach
        Sample.registrations.reverse) := by
  obtain ⟨answers, _, swap⟩ := registrations_last_wins Sample.definitions
  refine ⟨rfl, answers Sample.registrations, ?_⟩
  have different : ("Query", "friend") ≠ ("User", "name") := by decide
  have others : ("Query", "name") ≠ ("Query", "friend") ∧ ("Query", "name") ≠ ("User", "name") := by
    decide
  exact swap [] [⟨"Query", "name", .resolver Resolver.echoSource⟩] []
    ⟨"Query", "friend", .resolver Resolver.echoSource⟩ ⟨"User", "name", .config ⟨none⟩⟩ different
    (List.forall_mem_singleton.mpr others)

end StaticQuery
