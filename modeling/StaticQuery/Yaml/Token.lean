import StaticQuery.Yaml.Scalar

/-!
Tokens of YAML. Collections in block style have no brackets in the text: their ends follow from
indentation, and a mapping key shows only when its colon is reached. A place where a key may have
begun is remembered, so that the tokens before it can be put in afterwards.
-/

namespace StaticQuery.Yaml

structure Tag where
  handle : String
  suffix : String
deriving DecidableEq

inductive Token where
  | directive
  | documentStart
  | documentEnd
  | blockSequenceStart
  | blockMappingStart
  | blockEnd
  | flowSequenceStart
  | flowSequenceEnd
  | flowMappingStart
  | flowMappingEnd
  | blockEntry
  | flowEntry
  | key
  | value
  | reference (name : String)
  | anchor (name : String)
  | tag (tag : Tag)
  | scalar (text : String) (plain : Bool)
deriving DecidableEq

structure SimpleKey where
  possible : Bool
  /-- Whether something other than a key here would be an error. -/
  required : Bool
  /-- How many tokens stand before it. -/
  position : Nat
  index : Nat
  line : Nat
  column : Nat

def SimpleKey.none : SimpleKey :=
  ⟨false, false, 0, 0, 0, 0⟩

structure Scanner where
  cursor : Cursor
  tokens : List Token
  /-- The column of the innermost open block; -1 outside all blocks. -/
  indent : Int
  indents : List Int
  /-- One place for each open flow collection, and one for the block around them. -/
  keys : List SimpleKey
  keyAllowed : Bool
  /-- Where a colon may follow a quoted key without a blank after it. -/
  adjacentAt : Nat

abbrev Scan := StateT Scanner Option

namespace Scan

def cursor : Scan Cursor := do
  return (← get).cursor

def moveTo (cursor : Cursor) : Scan Unit :=
  modify fun scanner => { scanner with cursor := cursor }

def push (token : Token) : Scan Unit :=
  modify fun scanner => { scanner with tokens := scanner.tokens ++ [token] }

def inFlow : Scan Bool := do
  return 1 < (← get).keys.length

def allowKey (allowed : Bool) : Scan Unit :=
  modify fun scanner => { scanner with keyAllowed := allowed }

def removeKey : Scan Unit := do
  match (← get).keys with
  | key :: rest =>
      if key.possible && key.required then failure
      modify fun scanner => { scanner with keys := { key with possible := false } :: rest }
  | [] => failure

def saveKey : Scan Unit := do
  let scanner ← get
  if scanner.keyAllowed then
    removeKey
    let cursor := scanner.cursor
    let key : SimpleKey := {
      possible := true
      required := (← inFlow) && scanner.indent == cursor.column
      position := scanner.tokens.length
      index := cursor.index
      line := cursor.line
      column := cursor.column }
    modify fun scanner => { scanner with keys := key :: scanner.keys.drop 1 }

def isStale (cursor : Cursor) (key : SimpleKey) : Bool :=
  key.possible && (key.line < cursor.line || key.index + 1024 < cursor.index)

def dropStaleKeys : Scan Unit := do
  let scanner ← get
  if scanner.keys.any fun key => isStale scanner.cursor key && key.required then failure
  set { scanner with
    keys := scanner.keys.map fun key =>
      if isStale scanner.cursor key then { key with possible := false } else key }

def insertAt (position : Nat) (token : Token) : Scan Unit :=
  modify fun scanner => { scanner with
    tokens := scanner.tokens.take position ++ token :: scanner.tokens.drop position }

def openBlock (column : Nat) (position : Nat) (token : Token) : Scan Unit := do
  if !(← inFlow) && (← get).indent < column then
    modify fun scanner => { scanner with
      indents := scanner.indent :: scanner.indents
      indent := column }
    insertAt position token

def closeBlocksFrom (column : Int) : List Int → Scan Unit
  | [] => return ()
  | outer :: rest => do
      if column < (← get).indent then
        push .blockEnd
        modify fun scanner => { scanner with indent := outer, indents := rest }
        closeBlocksFrom column rest

def closeBlocks (column : Int) : Scan Unit := do
  if !(← inFlow) then closeBlocksFrom column (← get).indents

/-- Skips blanks, breaks and comments between tokens. After a break in block style a key may
begin. A tab is no indentation. -/
def skipToToken : Nat → Scan Unit
  | 0 => failure
  | fuel + 1 => do
      let scanner ← get
      let cursor := scanner.cursor
      let c := cursor.head
      if c == ' ' || (c == '\t' && ((← inFlow) || !scanner.keyAllowed)) then
        moveTo cursor.next
        skipToToken fuel
      else if isBreak c then
        moveTo cursor.nextLine
        if !(← inFlow) then allowKey true
        skipToToken fuel
      else if c == '#' then
        moveTo cursor.skipComment
        skipToToken fuel

def finish : Scan Unit := do
  closeBlocks (-1)
  removeKey
  allowKey false

def marker (token : Token) : Scan Unit := do
  finish
  moveTo ((← cursor).skip 3)
  push token

def endDirective (cursor : Cursor) : Scan Unit := do
  let cursor := (cursor.skipWhile isBlank).skipComment
  if !isBreakOrEnd cursor.head then failure
  moveTo cursor.nextLine
  push .directive

def skipVersionNumber (cursor : Cursor) : Scan Cursor := do
  let (digits, cursor) := cursor.takeWhile Char.isDigit
  if digits.isEmpty || 9 < digits.length then failure
  return cursor

def skipVersion (cursor : Cursor) : Scan Cursor := do
  let cursor ← skipVersionNumber (cursor.skipWhile isBlank)
  if cursor.head != '.' then failure
  skipVersionNumber cursor.next

def isTagChar (c : Char) : Bool :=
  isWordChar c || c ∈ [';', '/', '?', ':', '@', '&', '=', '+', '$', ',', '.', '!', '~', '*', '\'',
    '(', ')', '[', ']', '%']

/-- A character written as percent escapes: one byte below 128, or two of which the first is below
216 and the second continues it. The two are put side by side, not decoded. -/
def percentEscape? (cursor : Cursor) : Option (Char × Cursor) := do
  let (first, cursor) ← byte cursor
  if first < 0x80 then return (Char.ofNat first, cursor)
  if !(0xC0 ≤ first && first < 0xD8) then failure
  let (second, cursor) ← byte cursor
  if !(0x80 ≤ second && second < 0xC0) then failure
  return (Char.ofNat (256 * first + second), cursor)
where
  byte (cursor : Cursor) : Option (Nat × Cursor) := do
    let digits := cursor.rest.drop 1 |>.take 2
    if cursor.head != '%' || digits.length ≠ 2 then failure
    return (← hexNumber? digits, cursor.skip 3)

def tagText : Nat → List Char → Cursor → Option (List Char × Cursor)
  | 0, _, _ => none
  | fuel + 1, done, cursor =>
      if !isTagChar cursor.head then some (done.reverse, cursor)
      else if cursor.head == '%' then
        match percentEscape? cursor with
        | some (value, cursor) => tagText fuel (value :: done) cursor
        | none => none
      else tagText fuel (cursor.head :: done) cursor.next

def skipTagDirective (cursor : Cursor) : Scan Cursor := do
  let cursor := cursor.skipWhile isBlank
  if cursor.head != '!' then failure
  let (word, cursor) := cursor.next.takeWhile isWordChar
  if cursor.head != '!' && !word.isEmpty then failure
  let cursor := if cursor.head == '!' then cursor.next else cursor
  let (tag, cursor) ← tagText cursor.fuel [] (cursor.skipWhile isBlank)
  if tag.isEmpty || !isGap cursor.head then failure
  return cursor

def directive : Scan Unit := do
  finish
  let (name, after) := (← cursor).next.takeWhile isWordChar
  if name.isEmpty || !isGap after.head then failure
  match String.ofList name with
  | "YAML" => endDirective (← skipVersion after)
  | "TAG" => endDirective (← skipTagDirective after)
  | _ => endDirective (after.skipWhile fun c => !isBreak c)

def flowStart (token : Token) : Scan Unit := do
  saveKey
  modify fun scanner => { scanner with keys := .none :: scanner.keys }
  allowKey true
  moveTo (← cursor).next
  push token

def flowEnd (token : Token) : Scan Unit := do
  removeKey
  if ← inFlow then modify fun scanner => { scanner with keys := scanner.keys.drop 1 }
  allowKey false
  moveTo (← cursor).next
  push token

def flowEntry : Scan Unit := do
  removeKey
  allowKey true
  moveTo (← cursor).next
  push .flowEntry

def blockEntry : Scan Unit := do
  let scanner ← get
  if (← inFlow) || !scanner.keyAllowed then failure
  openBlock scanner.cursor.column scanner.tokens.length .blockSequenceStart
  removeKey
  allowKey true
  moveTo scanner.cursor.next
  push .blockEntry

def explicitKey : Scan Unit := do
  let scanner ← get
  let inFlow ← inFlow
  if !inFlow then
    if !scanner.keyAllowed then failure
    openBlock scanner.cursor.column scanner.tokens.length .blockMappingStart
  removeKey
  allowKey (!inFlow)
  moveTo scanner.cursor.next
  push .key

def mappingValue : Scan Unit := do
  let scanner ← get
  let inFlow ← inFlow
  match scanner.keys with
  | [] => failure
  | key :: rest =>
      if key.possible then
        insertAt key.position .key
        openBlock key.column key.position .blockMappingStart
        modify fun scanner => { scanner with keys := { key with possible := false } :: rest }
        allowKey false
      else
        if !inFlow then
          if !scanner.keyAllowed then failure
          openBlock scanner.cursor.column scanner.tokens.length .blockMappingStart
        allowKey (!inFlow)
      moveTo scanner.cursor.next
      push .value

def anchorName : Scan String := do
  saveKey
  allowKey false
  let (name, after) := (← cursor).next.takeWhile isWordChar
  if name.isEmpty ||
      !(isGap after.head || after.head ∈ ['?', ':', ',', ']', '}', '%', '@', '\x60']) then failure
  moveTo after
  return String.ofList name

def readTag (cursor : Cursor) : Option (Tag × Cursor) := do
  if cursor.peek 1 == '<' then
    let (suffix, cursor) ← tagText cursor.fuel [] (cursor.skip 2)
    if suffix.isEmpty || cursor.head != '>' then failure
    return (⟨"", String.ofList suffix⟩, cursor.next)
  else
    let (word, after) := cursor.next.takeWhile isWordChar
    if after.head == '!' then
      let (suffix, cursor) ← tagText cursor.fuel [] after.next
      if suffix.isEmpty then failure
      return (⟨String.ofList ('!' :: word ++ ['!']), String.ofList suffix⟩, cursor)
    else
      let (suffix, cursor) ← tagText cursor.fuel word.reverse after
      if suffix.isEmpty then return (⟨"", "!"⟩, cursor)
      return (⟨"!", String.ofList suffix⟩, cursor)

def tag : Scan Unit := do
  saveKey
  allowKey false
  let (tag, after) ← readTag (← cursor)
  if !isGap after.head then failure
  moveTo after
  push (.tag tag)

def plainScalar : Scan Unit := do
  saveKey
  allowKey false
  let scanner ← get
  let start := scanner.cursor
  let (text, sawBreak, after) ←
    readPlain (← inFlow) (scanner.indent + 1) start.fuel [] (.blanks []) start
  moveTo after
  if sawBreak then allowKey true
  push (.scalar (String.ofList text) true)

def quotedScalar (quote : Char) : Scan Unit := do
  saveKey
  allowKey false
  let start ← cursor
  let (text, after) ← readQuoted quote start.fuel [] start.next
  moveTo after
  modify fun scanner => { scanner with adjacentAt := after.index }
  push (.scalar (String.ofList text) false)

def blockScalar (literal : Bool) : Scan Unit := do
  saveKey
  allowKey true
  let scanner ← get
  let (text, after) ← readBlock literal scanner.indent scanner.cursor.next
  moveTo after
  push (.scalar (String.ofList text) false)

def isValueMark (follower : Char) : Scan Bool := do
  let scanner ← get
  return isGap follower ||
    ((← inFlow) && (isFlowMark follower || scanner.cursor.index == scanner.adjacentAt))

def readToken : Scan Unit := do
  let cursor ← cursor
  let inFlow ← inFlow
  let follower := cursor.peek 1
  if cursor.column == 0 && cursor.head == '%' then directive
  else if cursor.isAtMarker '-' then marker .documentStart
  else if cursor.isAtMarker '.' then marker .documentEnd
  else
    match cursor.head with
    | '[' => flowStart .flowSequenceStart
    | '{' => flowStart .flowMappingStart
    | ']' => flowEnd .flowSequenceEnd
    | '}' => flowEnd .flowMappingEnd
    | ',' => flowEntry
    | '-' => if isGap follower then blockEntry else plainScalar
    | '?' => if inFlow || isGap follower then explicitKey else plainScalar
    | ':' => if ← isValueMark follower then mappingValue else plainScalar
    | '*' => push (.reference (← anchorName))
    | '&' => push (.anchor (← anchorName))
    | '!' => tag
    | '|' => if inFlow then plainScalar else blockScalar true
    | '>' => if inFlow then plainScalar else blockScalar false
    | '\'' => quotedScalar '\''
    | '"' => quotedScalar '"'
    | '%' => failure
    | '@' => failure
    | '\x60' => failure
    | _ => plainScalar

def readAll : Nat → Scan Unit
  | 0 => failure
  | fuel + 1 => do
      skipToToken (← cursor).fuel
      dropStaleKeys
      closeBlocks (← cursor).column
      if isEnd (← cursor).head then finish
      else
        readToken
        readAll fuel

end Scan

def Token.scan? (text : String) : Option (List Token) :=
  let cursor := Cursor.ofText text
  let start : Scanner := ⟨cursor, [], -1, [], [.none], true, 0⟩
  ((Scan.readAll cursor.fuel).run start).map fun (_, scanner) => scanner.tokens

end StaticQuery.Yaml
