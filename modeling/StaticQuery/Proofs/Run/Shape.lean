import StaticQuery.Proofs.OrderedMap
import StaticQuery.Proofs.Run.CallOrder

/-!
The shape of responses: which keys an object has, in which order, and what each of them holds. The
properties of an object are evaluated into an object of their own, which is then merged over the
value that they were selected on.
-/

namespace StaticQuery

def Expr.outcomes (schema : ExecutableSchema) (canWait : Bool) (environment : Environment)
    (properties : Properties) : List (String × Except ExecutionError Json) :=
  properties.map fun property =>
    (property.1.text, (property.2.evaluate schema canWait environment).outcome)

/-- Each response key once, where it is first asked for, with what it comes to where it is last
asked for. -/
structure Shaped (schema : ExecutableSchema) (canWait : Bool) (environment : Environment)
    (properties : Properties) (object : Json.Object) : Prop where
  keys : object.keys = (properties.map fun property => property.1.text).eraseDups
  values : ∀ key, (object.get? key).map .ok =
    OrderedMap.last? (Expr.outcomes schema canWait environment properties) key

structure Merged (own selected members : Json.Object) : Prop where
  keys : members.keys = own.keys ++ selected.keys.filter fun key => key ∉ own.keys
  chosen : ∀ key ∈ selected.keys, members.get? key = selected.get? key
  kept : ∀ key ∉ selected.keys, members.get? key = own.get? key

structure ScopeAnswered (schema : ExecutableSchema) (canWait : Bool) (environment : Environment)
    (binding : Binding) (selection : Properties) (own answer : Json) : Prop where
  absent : own.Falsy → answer = .null
  present : ¬ own.Falsy → ∃ selected members, answer = .object members ∧
    Shaped schema canWait ((binding, own) :: environment) selection selected ∧
    (∀ ownMembers, own = .object ownMembers → Merged ownMembers selected members) ∧
    ((∀ ownMembers, own ≠ .object ownMembers) → members = selected)

namespace Expr

variable {schema : ExecutableSchema} {canWait : Bool} {environment : Environment}

theorem evaluateAll_eq_ok {properties : Properties} {done object : Json.Object}
    (evaluated : (evaluateAll schema canWait environment done properties).outcome = .ok object) :
    ∃ entries : List (String × Json),
      outcomes schema canWait environment properties = entries.map (Prod.map id .ok) ∧
        object = done.insertAll entries := by
  induction properties generalizing done with
  | nil =>
      rw [evaluateAll] at evaluated
      cases evaluated
      exact ⟨[], rfl, rfl⟩
  | cons property rest ih =>
      rw [evaluateAll, Run.outcome_bind, bind_eq_ok] at evaluated
      obtain ⟨value, first, others⟩ := evaluated
      obtain ⟨entries, come, written⟩ := ih others
      refine ⟨(property.1.text, value) :: entries, ?_, written⟩
      rw [outcomes, List.map_cons, first, ← outcomes, come]
      rfl

theorem evaluateAll_shaped {properties : Properties} {object : Json.Object}
    (evaluated : (evaluateAll schema canWait environment [] properties).outcome = .ok object) :
    Shaped schema canWait environment properties object := by
  obtain ⟨entries, come, rfl⟩ := evaluateAll_eq_ok evaluated
  constructor
  · have listed : entries.map Prod.fst = properties.map fun property => property.1.text := by
      simpa [outcomes, Function.comp_def] using (congrArg (List.map Prod.fst) come).symm
    rw [OrderedMap.keys_insertAll, ← listed]
    simp [OrderedMap.keys]
  · intro key
    rw [OrderedMap.get?_insertAll, come, OrderedMap.last?_map]
    simp

end Expr

theorem merged_insertAll {own selected : Json.Object} (distinct : selected.keys.Nodup) :
    Merged own selected (own.insertAll selected) where
  keys := OrderedMap.keys_insertAll_of_nodup distinct
  chosen := by
    intro key member
    rw [OrderedMap.get?_insertAll_of_nodup distinct]
    obtain ⟨value, held⟩ := Option.isSome_iff_exists.mp ((selected.get?_isSome_iff key).mpr member)
    rw [held, Option.some_or]
  kept := by
    intro key absent
    rw [OrderedMap.get?_insertAll_of_nodup distinct, OrderedMap.get?_eq_none_iff.mpr absent,
      Option.none_or]

theorem Json.ownMembers_eq_nil {own : Json} (other : ∀ members, own ≠ .object members) :
    own.ownMembers = [] := by
  cases own with
  | object members => exact absurd rfl (other members)
  | null | bool | number | string | array => rfl

theorem Expr.scope_answered {schema : ExecutableSchema} {canWait : Bool}
    {environment : Environment} {binding : Binding} {value : Expr} {selection : Properties}
    {isAsync : Bool} {answer : Json}
    (evaluated : ((Expr.scope binding value selection isAsync).evaluate schema canWait
      environment).outcome = .ok answer) :
    ∃ own, (value.evaluate schema (canWait && isAsync) environment).outcome = .ok own ∧
      ScopeAnswered schema (canWait && isAsync) environment binding selection own answer := by
  rw [evaluate, Run.outcome_bind, bind_eq_ok] at evaluated
  obtain ⟨own, owned, evaluated⟩ := evaluated
  refine ⟨own, owned, ?_, ?_⟩
  · intro falsy
    rw [Json.truthy_eq_false_iff.mpr falsy, if_neg Bool.false_ne_true] at evaluated
    cases evaluated
    rfl
  · intro present
    rw [Json.truthy_iff.mpr present, if_pos rfl, Run.outcome_bind, bind_eq_ok] at evaluated
    obtain ⟨selected, made, merged⟩ := evaluated
    cases merged
    have distinct := nodup_keys_evaluateAll OrderedMap.nodup_keys_nil made
    refine ⟨selected, own.ownMembers.insertAll selected, rfl, evaluateAll_shaped made, ?_, ?_⟩
    · rintro ownMembers rfl
      exact merged_insertAll distinct
    · intro other
      rw [Json.ownMembers_eq_nil other, OrderedMap.nil_insertAll distinct]

/-- Responses, and every object inside of them, have the keys that were asked for. A scope puts them
over the members of its own value, and computes them from that value as it was. -/
theorem evaluated_shaped (schema : ExecutableSchema) :
    (∀ canWait environment properties object,
      (Expr.evaluateAll schema canWait environment [] properties).outcome = .ok object →
      Shaped schema canWait environment properties object) ∧
    (∀ canWait environment binding value selection isAsync answer,
      ((Expr.scope binding value selection isAsync).evaluate schema canWait environment).outcome =
        .ok answer →
      ∃ own, (value.evaluate schema (canWait && isAsync) environment).outcome = .ok own ∧
        ScopeAnswered schema (canWait && isAsync) environment binding selection own answer) ∧
    ∀ (operation : CompiledOperation) root response,
      (operation.executeAsync schema root).outcome = .ok response →
      Shaped schema operation.isAsync [(.rootValue, root)] operation.data response.data := by
  refine ⟨?_, ?_, ?_⟩
  · intro canWait environment properties object evaluated
    exact Expr.evaluateAll_shaped evaluated
  · intro canWait environment binding value selection isAsync answer evaluated
    exact Expr.scope_answered evaluated
  · intro operation root response evaluated
    rw [operation.executeAsync_eq_run, CompiledOperation.run, Run.outcome_bind, bind_eq_ok]
      at evaluated
    obtain ⟨data, made, whole⟩ := evaluated
    cases whole
    exact Expr.evaluateAll_shaped made

namespace Sample

-- The key `friend` is asked for twice, and `number` hides a member that is read after it.
def overlappingSelection : Properties := [
  (friend, .property (.result 1) name),
  (number, .property (.result 1) name),
  (friend, .property (.result 1) number)]

def overlapping : CompiledOperation where
  name := people
  isAsync := false
  data := [
    (name, .property .rootValue viewer),
    (viewer, .scope (.result 1) (.property .rootValue viewer) overlappingSelection false),
    (name, .property .rootValue name)]

def mergedGrace : Json :=
  .object [("number", .string "Grace"), ("name", .string "Grace"), ("friend", .string "7")]

end Sample

theorem evaluated_shaped_overlapping :
    (Sample.overlapping.executeAsync (Sample.schema Sample.atOnce) Sample.root).outcome =
      .ok ⟨[("name", .string "Ada"), ("viewer", Sample.mergedGrace)]⟩ ∧
    Shaped (Sample.schema Sample.atOnce) false [(.rootValue, Sample.root)]
      Sample.overlapping.data [("name", .string "Ada"), ("viewer", Sample.mergedGrace)] ∧
    Shaped (Sample.schema Sample.atOnce) false [(.result 1, Sample.grace)]
      Sample.overlappingSelection [("friend", .string "7"), ("number", .string "Grace")] ∧
    ∃ own, ((Expr.property .rootValue Sample.viewer).evaluate (Sample.schema Sample.atOnce) false
        [(.rootValue, Sample.root)]).outcome = .ok own ∧
      ScopeAnswered (Sample.schema Sample.atOnce) false [(.rootValue, Sample.root)] (.result 1)
        Sample.overlappingSelection own Sample.mergedGrace := by
  obtain ⟨properties, scopes, responses⟩ := evaluated_shaped (Sample.schema Sample.atOnce)
  have answered : (Sample.overlapping.executeAsync (Sample.schema Sample.atOnce)
      Sample.root).outcome = .ok ⟨_⟩ := rfl
  exact ⟨answered, responses _ _ _ answered, properties _ _ _ _ rfl,
    scopes false _ _ _ _ false _ rfl⟩

end StaticQuery
