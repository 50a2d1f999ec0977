import StaticQuery.Document.Basic

/-!
The fragments of a document and how they hang together: which of them an operation reaches, whether
they end, and how deep selections nest once fragments stand in place of their spreads.
-/

namespace StaticQuery

structure BoundFragment where
  name : Name
  condition : Name
  directives : List Directive
  selections : List (Selection TypeRef)

abbrev Fragments := List BoundFragment

namespace Fragments

def get? (fragments : Fragments) (name : Name) : Option BoundFragment :=
  fragments.find? fun fragment => fragment.name = name

def chainLimit : Nat :=
  100

def spreadsOf (fragments : Fragments) (name : Name) : List Name :=
  match fragments.get? name with
  | some fragment => Selection.spreadsAll fragment.selections
  | none => []

/-- All fragments that can be reached from those given, where `next` says which ones a fragment
leads to, provided that every way ends within the limit. -/
def reach? (next : Name → List Name) : Nat → List Name → Option (List Name)
  | 0, names => if names.isEmpty then some [] else none
  | limit + 1, names => (reach? next limit (names.flatMap next).eraseDups).map (names ++ ·)

def reachedBy? (fragments : Fragments) (operation : Operation) : Option Fragments := do
  let direct := (Selection.spreadsAll operation.selections).eraseDups
  let names ← reach? fragments.spreadsOf chainLimit direct
  names.eraseDups.mapM fragments.get?

end Fragments

namespace Selection

mutual

/-- Goes down a selection as far as there is room. A fragment is entered where it is spread first;
the result is the list of those entered. -/
def nest? (enter : Nat → Name → List Name → Option (List Name)) (room : Nat)
    (entered : List Name) : Selection TypeRef → Option (List Name)
  | .field _ selections =>
      match room with
      | 0 => none
      | room + 1 => nestAll? enter room entered selections
  | .inlineFragment _ _ selections =>
      match room with
      | 0 => none
      | room + 1 => nestAll? enter room entered selections
  | .fragmentSpread fragment _ =>
      if entered.contains fragment then some entered
      else
        match room with
        | 0 => none
        | room + 1 => enter room fragment (fragment :: entered)

def nestAll? (enter : Nat → Name → List Name → Option (List Name)) (room : Nat)
    (entered : List Name) : List (Selection TypeRef) → Option (List Name)
  | [] => some entered
  | selection :: rest =>
      match nest? enter room entered selection with
      | none => none
      | some entered => nestAll? enter room entered rest

end

end Selection

namespace Fragments

def depthLimit : Nat :=
  500

def nest? (fragments : Fragments) : Nat → Nat → Name → List Name → Option (List Name)
  | 0, _, _, _ => none
  | fuel + 1, room, name, entered =>
      match fragments.get? name with
      | none => some entered
      | some fragment => Selection.nestAll? (fragments.nest? fuel) room entered fragment.selections

/-- Whether the selections of an operation nest within the limit. No fragment is entered twice, so
fragments are not entered within each other more often than there are fragments. -/
def nestsWithinLimit (fragments : Fragments) (operation : Operation) : Bool :=
  (Selection.nestAll? (fragments.nest? (fragments.length + 1)) depthLimit []
    operation.selections).isSome

end Fragments

end StaticQuery
