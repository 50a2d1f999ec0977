import StaticQuery.Document.Fragments

/-!
Whether the fields of a selection set can be answered under one key. Fields with the same response
key must have types of one shape, and fields that may be selected on the same object must be the
same field with the same arguments. Fields nest at most `Merging.depthLimit` deep below a root
field. A set of fields that has been looked at, anywhere in the document, is not looked into again.
-/

namespace StaticQuery

namespace Value

mutual

/-- Whether two values are the same as written, up to the order of object fields. Lists are
compared as far as both go. -/
def same : Value → Value → Bool
  | .null, .null => true
  | .boolean left, .boolean right => left = right
  | .int left, .int right => left = right
  | .float left, .float right => left = right
  | .string left, .string right => left = right
  | .enum left, .enum right => left = right
  | .var left, .var right => left = right
  | .list left, .list right => sameItems left right
  | .object left, .object right => left.length = right.length && sameFields left right
  | _, _ => false

def sameItems : List Value → List Value → Bool
  | left :: lefts, right :: rights => same left right && sameItems lefts rights
  | _, _ => true

def sameFields : List (Name × Value) → List (Name × Value) → Bool
  | [], _ => true
  | (name, left) :: rest, rights =>
      (match rights.find? fun right => right.1 = name with
        | some right => same left right.2
        | none => false) &&
      sameFields rest rights

end

end Value

namespace Merging

def depthLimit : Nat :=
  128

structure Use where
  parent : Name
  head : FieldHead TypeRef
  selections : List (Selection TypeRef)

def Use.key (use : Use) : Name × String :=
  (use.parent, (Selection.field use.head use.selections).render)

structure SelectionSet where
  parent : Name
  selections : List (Selection TypeRef)

/-- One pass over selection sets: the fields found, the sets inside fragments, which are for the
next pass, and the fragments that have had their turn. -/
structure Sweep where
  uses : List Use
  inner : List SelectionSet
  entered : List Name

namespace Sweep

def add (fragments : Fragments) (parent : Name) (sweep : Sweep) : Selection TypeRef → Sweep
  | .field head selections =>
      { sweep with uses := sweep.uses ++ [⟨parent, head, selections⟩] }
  | .inlineFragment condition? _ selections =>
      { sweep with inner := sweep.inner ++ [⟨condition?.getD parent, selections⟩] }
  | .fragmentSpread name _ =>
      if sweep.entered.contains name then sweep
      else
        match fragments.get? name with
        | none => sweep
        | some fragment => { sweep with
            inner := sweep.inner ++ [⟨fragment.condition, fragment.selections⟩]
            entered := name :: sweep.entered }

def addSet (fragments : Fragments) (sweep : Sweep) (set : SelectionSet) : Sweep :=
  set.selections.foldl (add fragments set.parent) sweep

end Sweep

def usesFrom (fragments : Fragments) (entered : List Name) :
    Nat → List SelectionSet → List Use
  | _, [] => []
  | 0, _ => []
  | passes + 1, sets =>
      let sweep := sets.foldl (Sweep.addSet fragments) ⟨[], [], entered⟩
      sweep.uses ++ usesFrom fragments sweep.entered passes sweep.inner

def uses (fragments : Fragments) (sets : List SelectionSet) : List Use :=
  usesFrom fragments [] (Fragments.depthLimit + 1) sets

def responseGroups : List Use → List (Name × List Use)
  | [] => []
  | use :: rest =>
      let groups := responseGroups rest
      let key := use.head.responseKey
      let own := (groups.find? fun group => group.1 = key).map Prod.snd
      (key, use :: own.getD []) :: groups.filter fun group => group.1 ≠ key

def subselections (fields : List Use) : List SelectionSet :=
  (fields.filter fun use => !use.selections.isEmpty).map fun use =>
    ⟨use.head.type.inner, use.selections⟩

def sameShape (schema : Schema) : TypeRef → TypeRef → Bool
  | .named left leftNonNull, .named right rightNonNull =>
      leftNonNull = rightNonNull &&
      (left = right ||
        (schema.typeIs TypeBody.isComposite left && schema.typeIs TypeBody.isComposite right))
  | .list left leftNonNull, .list right rightNonNull =>
      leftNonNull = rightNonNull && sameShape schema left right
  | _, _ => false

def firstAgrees (test : FieldHead TypeRef → FieldHead TypeRef → Bool) : List Use → Bool
  | [] => true
  | first :: rest => rest.all fun use => test first.head use.head

abbrev Seen := List (List (Name × String))

def shapesAgree? (schema : Schema) (fragments : Fragments) :
    Nat → Seen → List Use → Option Seen
  | 0, _, _ => none
  | room + 1, seen, fields =>
      let key := fields.map Use.key
      if seen.contains key then some seen
      else
        (responseGroups fields).foldlM (fun seen (_, sharers) =>
          if firstAgrees (fun first other => sameShape schema first.type other.type) sharers then
            match subselections sharers with
            | [] => some seen
            | sets => shapesAgree? schema fragments room seen (uses fragments sets)
          else none) (key :: seen)

/-- Splits fields into those that may meet on one object: for each object type its own fields and
those of all abstract types. -/
def commonParents (schema : Schema) (fields : List Use) : List (List Use) :=
  let (concrete, abstract) :=
    fields.partition fun use => schema.typeIs TypeBody.isObject use.parent
  match (concrete.map (·.parent)).eraseDups with
  | [] => [abstract]
  | objects => objects.map fun object =>
      (concrete.filter fun use => use.parent = object) ++ abstract

def sameArguments (left right : Arguments) : Bool :=
  left.length = right.length && Value.sameFields left right

def sameField (left right : FieldHead TypeRef) : Bool :=
  left.name = right.name && sameArguments left.arguments right.arguments

/-- Whether fields with one response key that may meet on one object are one field, as deep as
there is room. -/
def fieldsAgree? (schema : Schema) (fragments : Fragments) :
    Nat → Seen → List Use → Option Seen
  | 0, _, _ => none
  | room + 1, seen, fields =>
      let key := fields.map Use.key
      if seen.contains key then some seen
      else
        ((responseGroups fields).flatMap fun (_, sharers) => commonParents schema sharers).foldlM
          (fun seen shared =>
            if firstAgrees sameField shared then
              match subselections shared with
              | [] => some seen
              | sets => fieldsAgree? schema fragments room seen (uses fragments sets)
            else none) (key :: seen)

def merge? (schema : Schema) (fragments : Fragments) (seen : Seen × Seen)
    (operation : Operation) : Option (Seen × Seen) := do
  let roots := uses fragments [⟨operation.rootType, operation.selections⟩]
  let shapes ← shapesAgree? schema fragments (depthLimit + 1) seen.1 roots
  let fields ← fieldsAgree? schema fragments (depthLimit + 1) seen.2 roots
  return (shapes, fields)

def mergeable (schema : Schema) (fragments : Fragments) (operations : List Operation) : Bool :=
  (operations.foldlM (merge? schema fragments) ([], [])).isSome

end Merging

end StaticQuery
