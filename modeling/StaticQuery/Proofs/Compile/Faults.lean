import StaticQuery.Proofs.Compile.Artifact
import StaticQuery.Proofs.Compile.Field

/-!
Everything that is wrong with a document, in the order in which it is found. Compilation fails with
the first of these faults, and with no fault it succeeds.
-/

namespace StaticQuery

def faultIf (condition : Bool) (error : CompileError) : List CompileError :=
  if condition then [error] else []

@[simp] theorem faultIf_true (error : CompileError) : faultIf true error = [error] := rfl

@[simp] theorem faultIf_false (error : CompileError) : faultIf false error = [] := rfl

@[simp] theorem faultIf_eq_nil {condition : Bool} {error : CompileError} :
    faultIf condition error = [] ↔ condition = false := by
  cases condition with
  | true => simp
  | false => simp

def fitsInt64 (value : Int) : Bool :=
  -int64Bound ≤ value && value < int64Bound

theorem Integer64.isSome_ofSigned? (value : Int) :
    (Integer64.ofSigned? value).isSome = fitsInt64 value := by
  have bounds : int64Bound ≤ uint64Bound := by decide
  unfold ofSigned? ofInt? fitsInt64
  by_cases upper : value < int64Bound
  · by_cases lower : -int64Bound ≤ value
    · have fits : -int64Bound ≤ value ∧ value < uint64Bound := by omega
      simp [upper, lower, fits]
    · simp [upper, lower]
  · simp [upper]

namespace TypeBody

def isUnion : TypeBody → Bool
  | .union _ => true
  | _ => false

def isInputObject : TypeBody → Bool
  | .inputObject _ => true
  | _ => false

end TypeBody

namespace Value

def isPassable : Value → Bool
  | .null => true
  | .boolean _ => true
  | .string _ => true
  | .enum _ => true
  | .int text => (intOfText? text).any fitsInt64
  | .float text => (floatOfText? text).isSome
  | .var _ => false
  | .list _ => false
  | .object _ => false

def refusal (argument field : Name) : Value → CompileError
  | .int text => .invalidArgumentLiteral .int text argument
  | .float text => .invalidArgumentLiteral .float text argument
  | value => .unsupportedArgumentKind value.kind argument field

theorem failure?_compile (argument field : Name) (value : Value) :
    failure? (value.compile argument field) =
      (faultIf (!value.isPassable) (value.refusal argument field)).head? := by
  cases value with
  | int text =>
      simp only [compile, isPassable, refusal]
      cases intOfText? text with
      | none => rfl
      | some integer =>
          simp only [Option.bind_some, Option.any_some, ← Integer64.isSome_ofSigned?]
          cases Integer64.ofSigned? integer with
          | none => rfl
          | some word => rfl
  | float text =>
      simp only [compile, isPassable, refusal]
      cases floatOfText? text with
      | none => rfl
      | some number => rfl
  | _ => rfl

end Value

namespace FieldHead

variable (schema : Schema) (parent : Name) (head : FieldHead TypeRef)

def conditionFaults : List CompileError :=
  (head.directives.filterMap Directive.unfixed?).map fun kind =>
    .unsupportedArgumentKind kind .condition head.name

def typeFaults : List CompileError :=
  faultIf (!((schema.type? parent).isSome && (schema.type? head.type.inner).isSome))
      (.missingTypeBinding head.name parent) ++
    if head.isTypename schema parent then []
    else
      faultIf (schema.typeIs TypeBody.isUnion head.type.inner)
          (.unsupportedAbstractType head.name head.type.inner) ++
        faultIf (schema.typeIs TypeBody.isInputObject head.type.inner)
          (.missingTypeBinding head.name head.type.inner) ++
        faultIf (head.hasFields schema && head.type.isList)
          (.unsupportedListField head.name head.type)

def argumentFaults : List CompileError :=
  head.arguments.flatMap fun argument =>
    faultIf (!argument.2.isPassable) (argument.2.refusal argument.1 head.name)

theorem failure?_drop (kept : Directive.isDropped head.directives = false) :
    failure? (Directive.drop head.name head.directives) = head.conditionFaults.head? := by
  rw [Directive.drop_eq, kept, conditionFaults, List.head?_map, List.head?_filterMap]
  cases head.directives.findSome? Directive.unfixed? with
  | none => rfl
  | some kind => rfl

theorem failure?_shape :
    failure? (head.shape schema parent) = (head.typeFaults schema parent).head? := by
  unfold FieldHead.shape FieldHead.shape.composite typeFaults isTypename hasFields Schema.typeIs
  have knownParent : (schema.type? parent).isSome = (schema.body? parent).isSome := by
    rw [Schema.body?, Option.isSome_map]
  have knownType : (schema.type? head.type.inner).isSome =
      (schema.body? head.type.inner).isSome := by
    rw [Schema.body?, Option.isSome_map]
  rw [knownParent, knownType]
  cases schema.body? parent with
  | none => simp
  | some parentBody =>
      cases schema.body? head.type.inner with
      | none => simp
      | some body =>
          by_cases typename : (head.name = Name.typename && parentBody.isObject) = true
          · simp [typename]
          · simp only [typename]
            cases body with
            | object _ _ => cases head.type.isList <;> rfl
            | interface _ _ => cases head.type.isList <;> rfl
            | scalar => rfl
            | enum _ => rfl
            | union _ => rfl
            | inputObject _ => rfl

theorem failure?_compileFrom (arguments : Arguments) (field : Name) (done : Json.Object) :
    failure? (arguments.compileFrom field done) =
      (arguments.flatMap fun argument =>
        faultIf (!argument.2.isPassable) (argument.2.refusal argument.1 field)).head? := by
  induction arguments generalizing done with
  | nil => rfl
  | cons argument rest ih =>
      obtain ⟨name, value⟩ := argument
      rw [List.flatMap_cons, List.head?_append, ← Value.failure?_compile, Arguments.compileFrom]
      cases value.compile name field with
      | error error => rfl
      | ok json => simpa using ih (done.insert name.text json)

theorem failure?_make (executable : ExecutableSchema) :
    failure? (FieldPlan.make executable parent head) = head.argumentFaults.head? := by
  rw [argumentFaults, ← failure?_compileFrom head.arguments head.name []]
  unfold FieldPlan.make Arguments.compile
  cases head.arguments.compileFrom head.name [] with
  | error error => rfl
  | ok arguments =>
      cases registered : executable.resolveFn? ⟨parent, head.name⟩ with
      | none => simp [registered]
      | some resolve => simp [registered]

end FieldHead

namespace Selection

mutual

def faultsAll (schema : Schema) (limit depth : Nat) (parent : Name) :
    List (Selection TypeRef) → List CompileError
  | [] => []
  | selection :: rest =>
      faults schema limit depth parent selection ++ faultsAll schema limit depth parent rest

/-- The arguments of a field come after everything that is selected on it. -/
def faults (schema : Schema) (limit depth : Nat) (parent : Name) :
    Selection TypeRef → List CompileError
  | .fragmentSpread _ _ => [.unsupportedSelection .spread]
  | .inlineFragment _ _ _ => [.unsupportedSelection .inline]
  | .field head nested =>
      if Directive.isDropped head.directives then []
      else
        head.conditionFaults ++ head.typeFaults schema parent ++
          if head.isTypename schema parent then []
          else
            (if head.hasFields schema then
              faultIf (limit < depth + 1) (.recursionLimitExceeded limit) ++
                faultsAll schema limit (depth + 1) head.type.inner nested
            else []) ++ head.argumentFaults

end

theorem faultsAll_eq_flatMap (schema : Schema) (limit depth : Nat) (parent : Name)
    (selections : List (Selection TypeRef)) :
    faultsAll schema limit depth parent selections =
      selections.flatMap (faults schema limit depth parent) := by
  induction selections with
  | nil => rfl
  | cons selection rest ih => rw [faultsAll, ih, List.flatMap_cons]

mutual

theorem failure?_gatherAll (target : Target) (depth : Nat) (parent : Name) :
    ∀ selections : List (Selection TypeRef),
      failure? (gatherAll target depth parent selections) =
        (faultsAll target.schema.definitions target.options.recursionLimit depth parent
          selections).head?
  | [] => rfl
  | selection :: rest => by
      rw [faultsAll, List.head?_append, ← failure?_gather target depth parent selection,
        ← failure?_gatherAll target depth parent rest, gatherAll]
      exact failure?_bind fun first _ => failure?_bind_pure first.append _

theorem failure?_gather (target : Target) (depth : Nat) (parent : Name) :
    ∀ selection : Selection TypeRef,
      failure? (gather target depth parent selection) =
        (faults target.schema.definitions target.options.recursionLimit depth parent
          selection).head?
  | .fragmentSpread _ _ => rfl
  | .inlineFragment _ _ _ => rfl
  | .field head nested => by
      rw [gather, faults]
      cases dropped : Directive.isDropped head.directives with
      | true => simp [Directive.drop_eq, dropped]
      | false =>
          rw [if_neg Bool.false_ne_true, List.append_assoc, List.head?_append, List.head?_append,
            ← head.failure?_drop dropped, ← head.failure?_shape]
          refine failure?_bind fun kept scanned => ?_
          obtain rfl : false = kept := dropped.symm.trans (Directive.drop_eq_ok scanned)
          refine failure?_bind fun shape shaped => ?_
          cases shape with
          | typename => simp [gatherShaped, FieldHead.isTypename_of_shape shaped]
          | leaf =>
              obtain ⟨other, isLeaf⟩ := FieldHead.not_hasFields_of_shape shaped
              simp only [other, isLeaf, Bool.false_eq_true, if_false, List.nil_append]
              rw [← head.failure?_make parent target.schema]
              exact failure?_bind_pure _ _
          | scope =>
              obtain ⟨other, isScope⟩ := FieldHead.hasFields_of_shape shaped
              simp only [other, isScope, Bool.false_eq_true, if_false, if_true, gatherShaped]
              by_cases exceeded : target.options.recursionLimit < depth + 1
              · simp [exceeded]
              · simp only [exceeded, if_false, decide_false, faultIf_false, List.nil_append]
                rw [List.head?_append, ← head.failure?_make parent target.schema,
                  ← failure?_gatherAll target (depth + 1) head.type.inner nested]
                exact failure?_bind fun inner _ => failure?_bind_pure _ _

end

end Selection

def Operation.faults (schema : Schema) (limit : Nat) (operation : Operation) : List CompileError :=
  faultIf (operation.kind ≠ .query) (.unsupportedOperationKind operation.kind) ++
    faultIf operation.name?.isNone .missingOperationName ++
    Selection.faultsAll schema limit 0 operation.rootType operation.selections

def Document.faults (schema : Schema) (limit : Nat) (document : Document) : List CompileError :=
  document.operations.flatMap (Operation.faults schema limit)

theorem Operation.failure?_compile (target : Target) (operation : Operation) :
    failure? (operation.compile target) =
      (operation.faults target.schema.definitions target.options.recursionLimit).head? := by
  unfold Operation.compile Operation.faults
  by_cases query : operation.kind = .query
  · cases operation.name? with
    | none => simp [query]
    | some name =>
        simp only [query, ne_eq, not_true_eq_false, if_false, decide_false, faultIf_false,
          Option.isNone_some, List.nil_append]
        rw [← Selection.failure?_gatherAll target]
        exact failure?_bind_pure _ _
  · simp [query]

/-- Compilation fails with the first fault, whatever resolvers are registered. -/
theorem failure?_compileDocument (document : Document) (schema : ExecutableSchema)
    (options : Options) :
    failure? (compileDocument document schema options) =
      (document.faults schema.definitions options.recursionLimit).head? := by
  rw [compileDocument_eq, failure?_map]
  exact failure?_mapM (Operation.failure?_compile ⟨schema, options⟩) document.operations

theorem compileDocument_fails_of_mem {document : Document} {schema : ExecutableSchema}
    {options : Options} {error : CompileError}
    (found : error ∈ document.faults schema.definitions options.recursionLimit) :
    ∃ first, (document.faults schema.definitions options.recursionLimit).head? = some first ∧
      compileDocument document schema options = .error first := by
  have outcome := failure?_compileDocument document schema options
  cases faults : document.faults schema.definitions options.recursionLimit with
  | nil => simp [faults] at found
  | cons first rest =>
      rw [faults, List.head?_cons, failure?_eq_some] at outcome
      exact ⟨first, rfl, outcome⟩

end StaticQuery
