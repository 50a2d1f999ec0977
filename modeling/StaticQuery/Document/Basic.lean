import StaticQuery.TypeSystem.BuiltIn
import StaticQuery.TypeSystem.Schema

/-!
Documents bound to a schema: every field carries the type that the schema gives it. Fragments have
done their part once a document is validated, and only operations are kept.
-/

namespace StaticQuery

structure Operation where
  kind : OperationKind
  name? : Option Name
  rootType : Name
  selections : List (Selection TypeRef)

structure Document where
  operations : List Operation

def Schema.field? (schema : Schema) (parent field : Name) : Option FieldDefinition :=
  match schema.body? parent with
  | none => none
  | some body =>
      match body.fields.find? fun definition => definition.name = field with
      | some definition => some definition
      | none =>
          if field.text = "__typename" then
            if body.isComposite then BuiltIn.metaField? field.text else none
          else if schema.query? = some parent then BuiltIn.metaField? field.text
          else none

namespace Selection

mutual

def bind (schema : Schema) (parent : Name) : Selection Unit → Option (Selection TypeRef)
  | .field head selections =>
      match schema.field? parent head.name with
      | none => none
      | some definition =>
          if selections.isEmpty || schema.typeIs TypeBody.isComposite definition.type.inner then
            (bindAll schema definition.type.inner selections).map fun bound =>
              .field ⟨head.alias?, head.name, definition.type, head.arguments, head.directives⟩
                bound
          else none
  | .fragmentSpread fragment directives => some (.fragmentSpread fragment directives)
  | .inlineFragment condition? directives selections =>
      if (schema.type? (condition?.getD parent)).isSome then
        (bindAll schema (condition?.getD parent) selections).map fun bound =>
          .inlineFragment condition? directives bound
      else none

def bindAll (schema : Schema) (parent : Name) :
    List (Selection Unit) → Option (List (Selection TypeRef))
  | [] => some []
  | selection :: rest =>
      match bind schema parent selection with
      | none => none
      | some bound => (bindAll schema parent rest).map (bound :: ·)

end

mutual

def spreads {τ : Type} : Selection τ → List Name
  | .field _ selections => spreadsAll selections
  | .fragmentSpread fragment _ => [fragment]
  | .inlineFragment _ _ selections => spreadsAll selections

def spreadsAll {τ : Type} : List (Selection τ) → List Name
  | [] => []
  | selection :: rest => spreads selection ++ spreadsAll rest

end

mutual

/-- The variables used in arguments and directives, at any depth outside fragments that are
spread. -/
def usedVariables {τ : Type} : Selection τ → List Name
  | .field head selections =>
      head.arguments.usedVariables ++ Directive.usedVariables head.directives ++
        usedVariablesAll selections
  | .fragmentSpread _ directives => Directive.usedVariables directives
  | .inlineFragment _ directives selections =>
      Directive.usedVariables directives ++ usedVariablesAll selections

def usedVariablesAll {τ : Type} : List (Selection τ) → List Name
  | [] => []
  | selection :: rest => usedVariables selection ++ usedVariablesAll rest

end

end Selection

end StaticQuery
