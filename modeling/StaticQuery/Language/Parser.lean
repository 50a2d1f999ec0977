import StaticQuery.Language.Definition
import StaticQuery.Language.Token

/-!
The grammar of documents, by recursive descent over tokens. Selection sets, list types, items of
lists and fields of objects nest at most `nestingLimit` deep; the room that is left is what the
recursion decreases. Commas are passed over together with the token before them, except where the
grammar looks at two tokens at once.
-/

namespace StaticQuery

abbrev Parser := StateT (List Token) Option

namespace Parser

def nestingLimit : Nat :=
  500

def peek? : Parser (Option Token) := do
  return (← get).head?

def second? : Parser (Option Token) := do
  return ((← get).drop 1).head?

def next : Parser Token := do
  match ← get with
  | token :: rest => set (Token.skipCommas rest); return token
  | [] => failure

def isNext (token : Token) : Parser Bool := do
  return (← peek?) == some token

def accept (token : Token) : Parser Bool := do
  match ← get with
  | first :: rest =>
      if first = token then
        set (Token.skipCommas rest)
        return true
      else return false
  | [] => return false

def expect (token : Token) : Parser Unit := do
  if ← accept token then return () else failure

def name : Parser Name := do
  match ← next with
  | .name name => return name
  | _ => failure

def isKeyword (word : String) : Parser Bool := do
  match ← peek? with
  | some (.name name) => return name.text == word
  | _ => return false

def acceptKeyword (word : String) : Parser Bool := do
  if ← isKeyword word then
    let _ ← next
    return true
  else return false

def expectKeyword (word : String) : Parser Unit := do
  if ← acceptKeyword word then return () else failure

def itemsUntil {α : Type} (close : Token) (item : Parser α) : Nat → Parser (List α)
  | 0 => failure
  | fuel + 1 => do
      if ← accept close then return []
      else
        let first ← item
        let rest ← itemsUntil close item fuel
        return first :: rest

def anyUntil {α : Type} (close : Token) (item : Parser α) : Parser (List α) := do
  itemsUntil close item ((← get).length + 1)

def someUntil {α : Type} (close : Token) (item : Parser α) : Parser (List α) := do
  let items ← anyUntil close item
  if items.isEmpty then failure else return items

def itemsWhile {α : Type} (test : Parser Bool) (item : Parser α) : Nat → Parser (List α)
  | 0 => failure
  | fuel + 1 => do
      if ← test then
        let first ← item
        let rest ← itemsWhile test item fuel
        return first :: rest
      else return []

def anyWhile {α : Type} (test : Parser Bool) (item : Parser α) : Parser (List α) := do
  itemsWhile test item ((← get).length + 1)

def optionalList {α : Type} (openMark closeMark : Char) (item : Parser α) : Parser (List α) := do
  if ← accept (.punctuator openMark) then someUntil (.punctuator closeMark) item else return []

def wordValue (word : Name) : Value :=
  if word.text = "true" then .boolean true
  else if word.text = "false" then .boolean false
  else if word.text = "null" then .null
  else .enum word

/-- A name and, after a colon, something. A name alone labels nothing. -/
def labelled? {α : Type} (body : Parser α) : Parser (Option (Name × α)) := do
  let label ← name
  if ← accept (.punctuator ':') then return some (label, ← body) else return none

def labelled {α : Type} (body : Parser α) : Parser (Name × α) := do
  let label ← name
  expect (.punctuator ':')
  return (label, ← body)

def value (constant : Bool) (room : Nat) : Parser Value := do
  match ← next with
  | .int text => return .int text
  | .float text => return .float text
  | .string text => return .string text
  | .name word => return wordValue word
  | .punctuator '$' => if constant then failure else return .var (← name)
  | .punctuator '[' =>
      return .list (← anyUntil (.punctuator ']')
        (match room with
          | 0 => failure
          | room + 1 => value constant room))
  | .punctuator '{' =>
      let fields ← anyUntil (.punctuator '}')
        (match room with
          | 0 => failure
          | room + 1 => labelled? (value constant room))
      return .object (fields.filterMap id)
  | _ => failure

def arguments (constant : Bool) (room : Nat) : Parser Arguments := do
  let given ← optionalList '(' ')' (labelled? (value constant room))
  return given.filterMap id

def directive (constant : Bool) (room : Nat) : Parser Directive := do
  expect (.punctuator '@')
  let name ← name
  return ⟨name, ← arguments constant room⟩

def directives (constant : Bool) (room : Nat) : Parser (List Directive) :=
  anyWhile (isNext (.punctuator '@')) (directive constant room)

def typeRef (room : Nat) : Parser TypeRef := do
  match ← next with
  | .name name => return .named name (← accept (.punctuator '!'))
  | .punctuator '[' =>
      match room with
      | 0 => failure
      | room + 1 =>
          let item ← typeRef room
          expect (.punctuator ']')
          return .list item (← accept (.punctuator '!'))
  | _ => failure

/-- A field: an alias or name, arguments, directives and an optional selection set. No comma
stands between an alias and its colon. -/
def field (room : Nat) (nested : Parser (List (Selection Unit))) : Parser (Selection Unit) := do
  let aliased := (← second?) = some (.punctuator ':')
  let first ← name
  let own ← if aliased then expect (.punctuator ':'); name else pure first
  let arguments ← arguments false room
  let directives ← directives false room
  let selections ← if ← isNext (.punctuator '{') then nested else pure []
  let alias? := if aliased then some first else none
  return .field ⟨alias?, own, (), arguments, directives⟩ selections

def fragment (room : Nat) (nested : Parser (List (Selection Unit))) :
    Parser (Selection Unit) := do
  match ← peek? with
  | some (.name word) =>
      let _ ← next
      if word.text = "on" then
        let condition ← name
        let directives ← directives false room
        return .inlineFragment (some condition) directives (← nested)
      else return .fragmentSpread word (← directives false room)
  | _ =>
      let directives ← directives false room
      return .inlineFragment none directives (← nested)

def selectionSet : Nat → Parser (List (Selection Unit))
  | 0 => failure
  | room + 1 => do
      expect (.punctuator '{')
      someUntil (.punctuator '}') do
        let after? ← second?
        if ← accept .spread then
          if after? = some .comma then failure else fragment room (selectionSet room)
        else field room (selectionSet room)

def defaultValue : Parser (Option Value) := do
  if ← accept (.punctuator '=') then return some (← value true nestingLimit) else return none

def variableDefinition : Parser VariableDefinition := do
  expect (.punctuator '$')
  let (name, type) ← labelled (typeRef nestingLimit)
  let default? ← defaultValue
  return ⟨name, type, default?, ← directives true nestingLimit⟩

def operationKind (word : Name) : Option OperationKind :=
  if word.text = "query" then some .query
  else if word.text = "mutation" then some .mutation
  else if word.text = "subscription" then some .subscription
  else none

def operation (kind : OperationKind) : Parser Definition := do
  let name? ← match ← peek? with
    | some (.name word) => let _ ← next; pure (some word)
    | _ => pure none
  let declared ← optionalList '(' ')' variableDefinition
  let directives ← directives false nestingLimit
  return .operation ⟨kind, name?, declared, directives, ← selectionSet nestingLimit⟩

def fragmentDefinition : Parser Definition := do
  let label ← name
  if label.text = "on" then failure
  expectKeyword "on"
  let condition ← name
  let directives ← directives false nestingLimit
  return .fragment ⟨label, condition, directives, ← selectionSet nestingLimit⟩

def skipDescription : Parser Unit := do
  match ← peek? with
  | some (.string _) => let _ ← next
  | _ => return ()

def inputValue : Parser InputValueDefinition := do
  skipDescription
  let (name, type) ← labelled (typeRef nestingLimit)
  let default? ← defaultValue
  return ⟨name, type, default?, ← directives true nestingLimit⟩

def fieldDefinition : Parser FieldDefinition := do
  skipDescription
  let label ← name
  let arguments ← optionalList '(' ')' inputValue
  expect (.punctuator ':')
  let type ← typeRef nestingLimit
  return ⟨label, arguments, type, ← directives true nestingLimit⟩

def enumValue : Parser EnumValueDefinition := do
  skipDescription
  let label ← name
  if label.text = "true" || label.text = "false" || label.text = "null" then failure
  return ⟨label, ← directives true nestingLimit⟩

def separated {α : Type} (mark : Char) (item : Parser α) : Parser (List α) := do
  let _ ← accept (.punctuator mark)
  let first ← item
  let rest ← anyWhile (isNext (.punctuator mark)) do
    expect (.punctuator mark)
    item
  return first :: rest

def implementsClause : Parser (List Name) := do
  if ← acceptKeyword "implements" then separated '&' name else return []

def rootOperation? : Parser (Option (OperationKind × Name)) := do
  let word ← name
  expect (.punctuator ':')
  match operationKind word, ← peek? with
  | some kind, some (.name _) => return some (kind, ← name)
  | some _, _ => return none
  | none, _ => failure

def schemaDefinition : Parser SchemaBlock := do
  let directives ← directives true nestingLimit
  let operations ← optionalList '{' '}' rootOperation?
  return ⟨directives, operations.filterMap id⟩

def schemaExtension : Parser SchemaBlock := do
  let directives ← directives true nestingLimit
  let operations ←
    if ← accept (.punctuator '{') then anyUntil (.punctuator '}') rootOperation? else pure []
  if directives.isEmpty && operations.isEmpty then failure
  return ⟨directives, operations.filterMap id⟩

def typeDefinition (keyword : String) : Parser TypeDefinition := do
  let label ← name
  match keyword with
  | "scalar" => return ⟨label, ← directives true nestingLimit, .scalar⟩
  | "type" =>
      let interfaces ← implementsClause
      let directives ← directives true nestingLimit
      return ⟨label, directives, .object interfaces (← optionalList '{' '}' fieldDefinition)⟩
  | "interface" =>
      let interfaces ← implementsClause
      let directives ← directives true nestingLimit
      return ⟨label, directives, .interface interfaces (← optionalList '{' '}' fieldDefinition)⟩
  | "union" =>
      let directives ← directives true nestingLimit
      let members ← if ← accept (.punctuator '=') then separated '|' name else pure []
      return ⟨label, directives, .union members⟩
  | "enum" =>
      let directives ← directives true nestingLimit
      return ⟨label, directives, .enum (← optionalList '{' '}' enumValue)⟩
  | "input" =>
      let directives ← directives true nestingLimit
      return ⟨label, directives, .inputObject (← optionalList '{' '}' inputValue)⟩
  | _ => failure

def addsSomething (extension : TypeDefinition) : Bool :=
  !extension.directives.isEmpty ||
    match extension.body with
    | .scalar => false
    | .object interfaces fields => !interfaces.isEmpty || !fields.isEmpty
    | .interface interfaces fields => !interfaces.isEmpty || !fields.isEmpty
    | .union members => !members.isEmpty
    | .enum values => !values.isEmpty
    | .inputObject fields => !fields.isEmpty

def directiveLocation : Parser DirectiveLocation := do
  match DirectiveLocation.ofText? (← name).text with
  | some location => return location
  | none => failure

def directiveDefinition : Parser DirectiveDefinition := do
  expect (.punctuator '@')
  let label ← name
  let arguments ← optionalList '(' ')' inputValue
  let repeatable ← acceptKeyword "repeatable"
  expectKeyword "on"
  return ⟨label, arguments, repeatable, ← separated '|' directiveLocation⟩

def typeSystemDefinition (keyword : String) : Parser Definition := do
  match keyword with
  | "schema" => return .schema (← schemaDefinition)
  | "directive" => return .directive (← directiveDefinition)
  | _ => return .type (← typeDefinition keyword)

def extensionDefinition : Parser Definition := do
  let keyword ← name
  if keyword.text = "schema" then return .schemaExtension (← schemaExtension)
  let extension ← typeDefinition keyword.text
  if addsSomething extension then return .typeExtension extension else failure

/-- A definition with a description. Before a fragment a text stands in the place of the keyword,
so that the word after it is the name. -/
def describedDefinition : Parser Definition := do
  match ← second? with
  | some (.name keyword) =>
      let _ ← next
      if keyword.text = "fragment" then fragmentDefinition
      else
        let _ ← next
        typeSystemDefinition keyword.text
  | _ => failure

def definition : Parser Definition := do
  match ← peek? with
  | some (.punctuator _) =>
      return .operation ⟨.query, none, [], [], ← selectionSet nestingLimit⟩
  | some (.string _) => describedDefinition
  | _ =>
      let after? ← second?
      let keyword ← name
      match operationKind keyword with
      | some kind => operation kind
      | none =>
          if keyword.text = "fragment" then fragmentDefinition
          else if keyword.text = "extend" then
            if after? = some .comma then failure else extensionDefinition
          else typeSystemDefinition keyword.text

def document : Parser (List Definition) := do
  modify Token.skipCommas
  anyWhile (return !(← get).isEmpty) definition

end Parser

def Definition.parseAll? (text : String) : Option (List Definition) := do
  let tokens ← Token.scan? text
  let (definitions, _) ← (Parser.document.run tokens : Option _)
  return definitions

end StaticQuery
