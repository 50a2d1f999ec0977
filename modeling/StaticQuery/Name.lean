/-!
Names of the query language: a letter or underscore, then letters, digits and underscores.
Every name in a schema, a document or a compiled operation is one of these, so the property is
part of the type.
-/

namespace StaticQuery

def isNameStart (c : Char) : Bool :=
  c.isAlpha || c == '_'

def isNameContinue (c : Char) : Bool :=
  isNameStart c || c.isDigit

def isName (text : String) : Bool :=
  match text.toList with
  | [] => false
  | first :: rest => isNameStart first && rest.all isNameContinue

structure Name where
  text : String
  valid : isName text = true
deriving DecidableEq

namespace Name

def ofText? (text : String) : Option Name :=
  if valid : isName text = true then some ⟨text, valid⟩ else none

theorem ofText?_text (name : Name) : ofText? name.text = some name := by
  simp [ofText?, name.valid]

theorem text_of_ofText? {text : String} {name : Name} (found : ofText? text = some name) :
    name.text = text := by
  unfold ofText? at found
  split at found
  · cases found; rfl
  · cases found

theorem ofText?_eq_none_iff {text : String} : ofText? text = none ↔ isName text = false := by
  unfold ofText?
  split <;> simp_all

theorem eq_of_text {left right : Name} (same : left.text = right.text) : left = right := by
  cases left; cases right; simp_all

def isReserved (name : Name) : Bool :=
  match name.text.toList with
  | '_' :: '_' :: _ => true
  | _ => false

def typename : Name := ⟨"__typename", by decide⟩

end Name

end StaticQuery
