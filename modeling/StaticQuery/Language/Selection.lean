import StaticQuery.Language.Value

/-!
Selections of an operation. The parameter is what each field carries about its type: nothing when
parsed, a type reference once the document is bound to a schema.
-/

namespace StaticQuery

structure FieldHead (τ : Type) where
  alias? : Option Name
  name : Name
  type : τ
  arguments : Arguments
  directives : List Directive

def FieldHead.responseKey {τ : Type} (head : FieldHead τ) : Name :=
  head.alias?.getD head.name

inductive Selection (τ : Type) where
  | field (head : FieldHead τ) (selections : List (Selection τ))
  | fragmentSpread (fragment : Name) (directives : List Directive)
  | inlineFragment (condition? : Option Name) (directives : List Directive)
      (selections : List (Selection τ))

structure FieldNode where
  head : FieldHead TypeRef
  selections : List (Selection TypeRef)

namespace FieldHead

variable {τ : Type}

def render (head : FieldHead τ) : String :=
  (match head.alias? with
    | some alternative => alternative.text ++ ": "
    | none => "") ++
  head.name.text ++ head.arguments.render ++ Directive.renderAll head.directives

end FieldHead

namespace Selection

variable {τ : Type}

mutual

def render : Selection τ → String
  | .field head [] => head.render
  | .field head selections => head.render ++ " \x7b " ++ renderAll selections ++ " \x7d"
  | .fragmentSpread fragment directives =>
      "..." ++ fragment.text ++ Directive.renderAll directives
  | .inlineFragment (some condition) directives selections =>
      "... on " ++ condition.text ++ Directive.renderAll directives ++
        " \x7b " ++ renderAll selections ++ " \x7d"
  | .inlineFragment none directives selections =>
      "..." ++ Directive.renderAll directives ++ " \x7b " ++ renderAll selections ++ " \x7d"

def renderAll : List (Selection τ) → String
  | [] => ""
  | [selection] => render selection
  | selection :: rest => render selection ++ " " ++ renderAll rest

end

end Selection

def FieldNode.render (node : FieldNode) : String :=
  (Selection.field node.head node.selections).render

inductive OperationKind where
  | query
  | mutation
  | subscription
deriving DecidableEq

def OperationKind.text : OperationKind → String
  | .query => "query"
  | .mutation => "mutation"
  | .subscription => "subscription"

end StaticQuery
