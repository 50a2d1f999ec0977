import StaticQuery.Proofs.Compile.Arguments
import StaticQuery.Proofs.Run.Coordinates
import StaticQuery.Proofs.Run.ResolveInfo

/-!
The arguments that resolvers receive: what is written for their fields, value by value, in every
run.
-/

namespace StaticQuery

structure ResolverCall.Passes (site : ResolverCall) (field : Name × FieldNode) : Prop where
  coordinate : site.coordinate = ⟨field.1, field.2.head.name⟩
  arguments : (field.2.head.arguments.map Prod.fst).Nodup →
    field.2.head.arguments.Denote site.arguments

theorem FieldPlan.passes_valueExpr {schema : ExecutableSchema} {parent : Name}
    {head : FieldHead TypeRef} {plan : FieldPlan}
    (made : FieldPlan.make schema parent head = .ok plan) (emitAst : Bool)
    (nested : List (Selection TypeRef)) (source : Binding) :
    List.Forall₂ ResolverCall.Passes (plan.valueExpr emitAst ⟨head, nested⟩ source).sites
      (if (schema.resolveFn? ⟨parent, head.name⟩).isSome then [(parent, ⟨head, nested⟩)]
      else []) := by
  unfold make at made
  cases compiled : head.arguments.compile head.name with
  | error error => simp [compiled] at made
  | ok arguments =>
      cases registered : schema.resolveFn? ⟨parent, head.name⟩ with
      | none =>
          simp only [compiled, registered, Except.ok.injEq] at made
          subst plan
          exact .nil
      | some resolve =>
          simp only [compiled, registered, Except.ok.injEq] at made
          subst plan
          refine .cons ⟨rfl, ?_⟩ .nil
          intro distinct
          exact (Arguments.compile_eq_ok_iff distinct).mp compiled

/-- A literal compiles to the value that it denotes, or is refused for its kind or its size, with a
resolver to take it or without. Call sites pass on what is written for their fields, and every run
hands that to the resolvers as it is. -/
theorem resolvers_observe_written_arguments (document : Document) (schema : ExecutableSchema)
    (options : Options) :
    (∀ (value : Value) (argument field : Name),
      (∀ json, value.compile argument field = .ok json ↔ value.Denotes json) ∧
        ∀ error, value.compile argument field = .error error ↔
          value.Refused argument field error) ∧
    (∀ artifact, compileDocument document schema options = .ok artifact →
      ∀ compiled ∈ artifact.toList,
        (∃ operation ∈ document.operations, operation.name? = some compiled.name ∧
          List.Forall₂ ResolverCall.Passes (Expr.sitesAll compiled.data)
            (operation.resolvedFields schema)) ∧
        ∀ runtime root call,
          call ∈ (compiled.executeAsync runtime root).calls ∨
            call ∈ (compiled.execute runtime root).calls →
          ∃ site ∈ Expr.sitesAll compiled.data, ∃ source, call = site.on source) ∧
    (∀ parent head error, FieldPlan.make schema parent head = .error error ↔
      head.arguments.Refused head.name error) ∧
    ∀ depth parent head nested,
      document.Reaches schema.definitions depth parent (.field head nested) →
      Directive.isDropped head.directives = false →
      head.isTypename schema.definitions parent = false →
      ∀ argument ∈ head.arguments, ∀ error, argument.2.Refused argument.1 head.name error →
        error ∈ document.faults schema.definitions options.recursionLimit ∧
          ∃ first, (document.faults schema.definitions options.recursionLimit).head? = some first ∧
            compileDocument document schema options = .error first := by
  refine ⟨?_, ?_, ?_, ?_⟩
  · intro value argument field
    exact ⟨fun _ => Value.compile_eq_ok_iff, fun _ => Value.compile_eq_error_iff⟩
  · intro artifact compiles compiled member
    constructor
    · obtain ⟨operation, listed, compiledFrom⟩ := exists_operation_of_mem compiles member
      obtain ⟨_, named, gathers⟩ := Operation.compile_eq_ok compiledFrom
      refine ⟨operation, listed, named, gathers.sites_related ?_⟩
      intro parent head plan made nested source
      exact FieldPlan.passes_valueExpr made _ nested source
    · intro runtime root call called
      rcases called with awaited | atOnce
      · exact exists_site_of_call compiles member awaited
      · exact exists_site_of_call compiles member
          (compiled.calls_execute_subset runtime root atOnce)
  · intro parent head error
    exact FieldPlan.make_eq_error_iff
  · intro depth parent head nested reached kept other argument listed error refused
    exact compileDocument_refuses reached kept other listed refused options

namespace Sample

def long : Name := ⟨"Long", by decide⟩
def low : Name := ⟨"low", by decide⟩
def high : Name := ⟨"high", by decide⟩
def colour : Name := ⟨"colour", by decide⟩
def note : Name := ⟨"note", by decide⟩
def red : Name := ⟨"RED", by decide⟩

def ranged (fields : OrderedMap Coordinate FieldConfig) : ExecutableSchema where
  definitions := { definitions with
    types := [
      ⟨query, [], .object [] [⟨viewer, [
        ⟨low, .named long false, none, []⟩,
        ⟨high, .named long false, none, []⟩,
        ⟨colour, .named long false, none, []⟩,
        ⟨note, .named text false, none, []⟩], .named text false, []⟩]⟩,
      ⟨text, [], .scalar⟩,
      ⟨long, [], .scalar⟩] }
  fields := fields

def bounds (upper : String) : Arguments :=
  [(low, .int "-9223372036854775808"), (high, .int upper), (colour, .enum red), (note, .null)]

def bounded (upper : String) : FieldHead TypeRef :=
  ⟨none, viewer, .named text false, bounds upper, []⟩

-- query People { viewer(low: -9223372036854775808, high: …, colour: RED, note: null) }
def lookup (upper : String) : Document where
  operations := [⟨.query, some people, query, [.field (bounded upper) []]⟩]

def resolved : ExecutableSchema :=
  ranged [(⟨query, viewer⟩, ⟨some later⟩)]

end Sample

theorem resolvers_observe_written_arguments_bounds :
    (Value.int "-9223372036854775808").Denotes
      (.number (.integer ⟨-9223372036854775808, by decide, by decide⟩)) ∧
    (∃ artifact,
      compileDocument (Sample.lookup "9223372036854775807") Sample.resolved {} = .ok artifact ∧
      ∃ compiled ∈ artifact.toList, ∃ site, Expr.sitesAll compiled.data = [site] ∧
        (Sample.bounds "9223372036854775807").Denote site.arguments ∧
        ∀ runtime root, ∀ call ∈ (compiled.executeAsync runtime root).calls,
          ∃ source, call = site.on source) ∧
    compileDocument (Sample.lookup "9223372036854775808") (Sample.ranged []) {} =
      .error (.invalidArgumentLiteral .int "9223372036854775808" Sample.high) := by
  refine ⟨?_, ?_, ?_⟩
  · obtain ⟨literals, _⟩ := resolvers_observe_written_arguments ⟨[]⟩ Sample.resolved {}
    exact ((literals _ Sample.low Sample.viewer).1 _).mp rfl
  · -- The faults are computed in place of the artifact, where the numbers are too large to unfold.
    have faultless : (Sample.lookup "9223372036854775807").faults
        Sample.resolved.definitions 512 = [] := by decide +kernel
    obtain ⟨artifact, compiles⟩ := failure?_eq_none.mp
      ((failure?_compileDocument _ Sample.resolved {}).trans (congrArg List.head? faultless))
    obtain ⟨_, passed, _⟩ := resolvers_observe_written_arguments
      (Sample.lookup "9223372036854775807") Sample.resolved {}
    obtain ⟨compiled, member, _⟩ := exists_compiled_of_mem compiles (List.mem_singleton.mpr rfl)
    obtain ⟨⟨operation, listed, _, sites⟩, calls⟩ := passed artifact compiles compiled member
    obtain rfl := List.mem_singleton.mp listed
    have fields : Operation.resolvedFields
        ⟨.query, some Sample.people, Sample.query, [.field (Sample.bounded _) []]⟩
        Sample.resolved = [(Sample.query, ⟨Sample.bounded "9223372036854775807", []⟩)] := rfl
    rw [fields] at sites
    obtain ⟨site, rest, passes, none, single⟩ := List.forall₂_cons_right_iff.mp sites
    obtain rfl := List.forall₂_nil_right_iff.mp none
    refine ⟨artifact, compiles, compiled, member, site, single, passes.arguments (by decide), ?_⟩
    intro runtime root call called
    obtain ⟨_, found, source, made⟩ := calls runtime root call (.inl called)
    rw [single, List.mem_singleton] at found
    exact ⟨source, found ▸ made⟩
  · obtain ⟨_, _, _, refused⟩ := resolvers_observe_written_arguments
      (Sample.lookup "9223372036854775808") (Sample.ranged []) {}
    have faults : (Sample.lookup "9223372036854775808").faults (Sample.ranged []).definitions 512 =
        [.invalidArgumentLiteral .int "9223372036854775808" Sample.high] := by decide +kernel
    have outside : (Value.int "9223372036854775808").Refused Sample.high Sample.viewer
        (.invalidArgumentLiteral .int "9223372036854775808" Sample.high) :=
      Value.compile_eq_error_iff.mp rfl
    obtain ⟨_, first, found, failed⟩ := refused 0 Sample.query
      (Sample.bounded "9223372036854775808") []
      (.root (List.mem_singleton.mpr rfl) (List.mem_singleton.mpr rfl)) (by decide) (by decide)
      (Sample.high, .int "9223372036854775808") (by simp [Sample.bounded, Sample.bounds]) _ outside
    rw [faults, List.head?_cons, Option.some.injEq] at found
    rw [failed, found]

end StaticQuery
