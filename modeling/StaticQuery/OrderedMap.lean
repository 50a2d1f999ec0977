/-!
Maps that remember the order of insertion. Writing to a key that is already present replaces its
value where it stands; a new key goes to the end. JSON objects, artifacts and resolver tables all
follow this rule.
-/

namespace StaticQuery

abbrev OrderedMap (κ α : Type) := List (κ × α)

namespace OrderedMap

variable {κ α : Type} [DecidableEq κ]

def get? : OrderedMap κ α → κ → Option α
  | [], _ => none
  | (known, value) :: rest, key => if known = key then some value else get? rest key

def insert : OrderedMap κ α → κ → α → OrderedMap κ α
  | [], key, value => [(key, value)]
  | (known, old) :: rest, key, value =>
      if known = key then (known, value) :: rest else (known, old) :: insert rest key value

def insertAll (target : OrderedMap κ α) (entries : List (κ × α)) : OrderedMap κ α :=
  entries.foldl (fun map entry => map.insert entry.1 entry.2) target

def keys (map : OrderedMap κ α) : List κ :=
  map.map Prod.fst

def contains (map : OrderedMap κ α) (key : κ) : Bool :=
  (map.get? key).isSome

@[simp] theorem get?_nil (key : κ) : get? ([] : OrderedMap κ α) key = none := rfl

@[simp] theorem get?_insert_self (map : OrderedMap κ α) (key : κ) (value : α) :
    (map.insert key value).get? key = some value := by
  induction map with
  | nil => simp [insert, get?]
  | cons entry rest ih =>
      obtain ⟨known, old⟩ := entry
      by_cases same : known = key <;> simp [insert, get?, same, ih]

theorem get?_insert_of_ne (map : OrderedMap κ α) {key other : κ} (value : α)
    (different : key ≠ other) : (map.insert key value).get? other = map.get? other := by
  induction map with
  | nil => simp [insert, get?, different]
  | cons entry rest ih =>
      obtain ⟨known, old⟩ := entry
      by_cases same : known = key
      · subst same; simp [insert, get?, different]
      · simp only [insert, same, if_false, get?, ih]

theorem get?_isSome_iff (map : OrderedMap κ α) (key : κ) :
    (map.get? key).isSome = true ↔ key ∈ map.keys := by
  induction map with
  | nil => simp [keys]
  | cons entry rest ih =>
      obtain ⟨known, old⟩ := entry
      by_cases same : known = key
      · simp [get?, keys, same]
      · simp only [get?, same, if_false, ih]
        simp [keys, Ne.symm same]

theorem get?_eq_none_iff {map : OrderedMap κ α} {key : κ} :
    map.get? key = none ↔ key ∉ map.keys := by
  rw [← get?_isSome_iff, Bool.not_eq_true, Option.isSome_eq_false_iff, Option.isNone_iff_eq_none]

theorem keys_insert (map : OrderedMap κ α) (key : κ) (value : α) :
    (map.insert key value).keys = if key ∈ map.keys then map.keys else map.keys ++ [key] := by
  induction map with
  | nil => simp [insert, keys]
  | cons entry rest ih =>
      obtain ⟨known, old⟩ := entry
      by_cases same : known = key
      · simp [insert, keys, same]
      · simp only [keys] at ih
        simp only [insert, same, if_false, keys, List.map_cons, List.mem_cons, Ne.symm same,
          false_or, ih]
        split <;> simp_all

end OrderedMap

end StaticQuery
