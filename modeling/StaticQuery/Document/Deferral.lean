import StaticQuery.Document.Fragments

/-!
Rules for fragments whose answer may be deferred by a directive. Labels tell deferred parts of one
answer apart. The root fields of mutations and subscriptions come at once, and so does everything
in a subscription unless the directive can be turned off.
-/

namespace StaticQuery

structure Deferral where
  parent : Name
  arguments : Arguments

namespace Deferral

def ofDirectives (parent : Name) (directives : List Directive) : List Deferral :=
  (directives.filter fun directive => directive.name.text = "defer").map fun directive =>
    ⟨parent, directive.arguments⟩

mutual

def ofSelection (parent : Name) : Selection TypeRef → List Deferral
  | .field head selections => ofSelections head.type.inner selections
  | .fragmentSpread _ directives => ofDirectives parent directives
  | .inlineFragment condition? directives selections =>
      ofDirectives parent directives ++ ofSelections (condition?.getD parent) selections

def ofSelections (parent : Name) : List (Selection TypeRef) → List Deferral
  | [] => []
  | selection :: rest => ofSelection parent selection ++ ofSelections parent rest

end

def ofOperation (reached : Fragments) (operation : Operation) : List Deferral :=
  ofSelections operation.rootType operation.selections ++
    reached.flatMap fun fragment => ofSelections fragment.condition fragment.selections

def label? (deferral : Deferral) : Option String :=
  match deferral.arguments.find? "label" with
  | some (.string label) => some label
  | _ => none

def hasFixedLabel (deferral : Deferral) : Bool :=
  match deferral.arguments.find? "label" with
  | some (.var _) => false
  | _ => true

def canBeOff (deferral : Deferral) : Bool :=
  match deferral.arguments.find? "if" with
  | some (.boolean on) => !on
  | some (.var _) => true
  | _ => false

def accepted (reached : Fragments) (operation : Operation) : Bool :=
  let deferrals := ofOperation reached operation
  deferrals.all hasFixedLabel &&
  decide (deferrals.filterMap label?).Nodup &&
  (operation.kind = .query ||
    deferrals.all fun deferral => deferral.parent ≠ operation.rootType) &&
  (operation.kind ≠ .subscription || deferrals.all canBeOff)

end Deferral

end StaticQuery
