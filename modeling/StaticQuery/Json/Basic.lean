import StaticQuery.Number.Binary64
import StaticQuery.Number.Word
import StaticQuery.OrderedMap

/-!
JSON values. Objects keep the order of their members. A number is an integer of the 64-bit ranges,
signed or unsigned, or a finite binary64 number, and the two kinds stay apart: `2` and `2.0` are
different values.
-/

namespace StaticQuery

inductive Json.Number where
  | integer (value : Integer64)
  | float (value : Binary64)
deriving DecidableEq

inductive Json where
  | null
  | bool (value : Bool)
  | number (value : Json.Number)
  | string (text : String)
  | array (items : List Json)
  | object (members : List (String × Json))

namespace Json

abbrev Object := OrderedMap String Json

def Number.isZero : Number → Bool
  | .integer whole => whole.value == 0
  | .float real => real.isZero

def truthy : Json → Bool
  | .null => false
  | .bool value => value
  | .number value => !value.isZero
  | .string text => text != ""
  | .array _ => true
  | .object _ => true

inductive Falsy : Json → Prop
  | null : Falsy .null
  | bool : Falsy (.bool false)
  | integer {whole : Integer64} : whole.value = 0 → Falsy (.number (.integer whole))
  | float {real : Binary64} : real.units = 0 → Falsy (.number (.float real))
  | string : Falsy (.string "")

theorem truthy_eq_false_iff {value : Json} : value.truthy = false ↔ value.Falsy := by
  constructor
  · intro absent
    match value with
    | .null => exact .null
    | .bool false => exact .bool
    | .number (.integer whole) =>
        simp only [truthy, Number.isZero, Bool.not_eq_false', beq_iff_eq] at absent
        exact .integer absent
    | .number (.float real) =>
        simp only [truthy, Number.isZero, Bool.not_eq_false'] at absent
        exact .float (Binary64.isZero_iff.mp absent)
    | .string text =>
        simp only [truthy, bne_eq_false_iff_eq] at absent
        subst text
        exact .string
  · intro falsy
    cases falsy with
    | null | bool | string => rfl
    | integer zero => simp [truthy, Number.isZero, zero]
    | float zero => simp [truthy, Number.isZero, Binary64.isZero_iff.mpr zero]

theorem truthy_iff {value : Json} : value.truthy = true ↔ ¬ value.Falsy := by
  rw [← truthy_eq_false_iff, Bool.not_eq_false]

instance : DecidablePred Falsy :=
  fun _ => decidable_of_iff _ truthy_eq_false_iff

def property (source : Json) (key : String) : Json :=
  match source with
  | .object members => (OrderedMap.get? members key).getD .null
  | _ => .null

theorem property_of_get? {members : Object} {key : String} {value : Json}
    (found : members.get? key = some value) : (object members).property key = value := by
  rw [property, found, Option.getD_some]

theorem property_of_not_mem {members : Object} {key : String} (missing : key ∉ members.keys) :
    (object members).property key = .null := by
  rw [property, OrderedMap.get?_eq_none_iff.mpr missing, Option.getD_none]

theorem property_of_not_object {source : Json} (other : ∀ members, source ≠ .object members)
    (key : String) : source.property key = .null := by
  cases source with
  | object members => exact absurd rfl (other members)
  | null | bool | number | string | array => rfl

def ownMembers : Json → Object
  | .object members => members
  | _ => []

def merge (own : Json) (selected : Object) : Json :=
  .object (OrderedMap.insertAll own.ownMembers selected)

instance : Inhabited Json := ⟨.null⟩

end Json

end StaticQuery
