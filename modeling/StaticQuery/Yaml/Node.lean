import StaticQuery.OrderedMap
import StaticQuery.Yaml.Token

/-!
YAML documents as trees. An alias stands for the node with its anchor, which has to be complete.
-/

namespace StaticQuery.Yaml

inductive Node where
  | scalar (text : String) (plain : Bool) (tag? : Option Tag)
  | sequence (items : List Node)
  | mapping (members : List (Node × Node))

def Node.empty : Node :=
  .scalar "~" true none

structure Reader where
  tokens : List Token
  anchors : List (String × Node)

abbrev Read := StateT Reader Option

namespace Read

def peek? : Read (Option Token) := do
  return (← get).tokens.head?

def advance : Read Unit :=
  modify fun reader => { reader with tokens := reader.tokens.drop 1 }

def accept (token : Token) : Read Bool := do
  if (← peek?) = some token then
    advance
    return true
  else return false

def isNext (tokens : List Token) : Read Bool := do
  match ← peek? with
  | some token => return token ∈ tokens
  | none => return false

def resolveAlias (name : String) : Read Node := do
  match (← get).anchors.find? fun anchor => anchor.1 = name with
  | some anchor => return anchor.2
  | none => failure

def properties : Read (Option String × Option Tag) := do
  match ← peek? with
  | some (.anchor name) =>
      advance
      match ← peek? with
      | some (.tag tag) => advance; return (some name, some tag)
      | _ => return (some name, none)
  | some (.tag tag) =>
      advance
      match ← peek? with
      | some (.anchor name) => advance; return (some name, some tag)
      | _ => return (none, some tag)
  | _ => return (none, none)

def emptyBefore (tokens : List Token) (node : Read Node) : Read Node := do
  if ← isNext tokens then return .empty else node

def followsBlockKey : List Token := [.key, .value, .blockEnd]
def followsFlowKey : List Token := [.value, .flowEntry, .flowMappingEnd]

mutual

def node (inBlock indentless : Bool) : Nat → Read Node
  | 0 => failure
  | fuel + 1 => do
      match ← peek? with
      | some (.reference name) =>
          advance
          resolveAlias name
      | _ =>
          let (anchor?, tag?) ← properties
          let content ← content inBlock indentless (anchor?, tag?) fuel
          match anchor? with
          | some name =>
              modify fun reader => { reader with anchors := (name, content) :: reader.anchors }
          | none => pure ()
          return content

def content (inBlock indentless : Bool) (properties : Option String × Option Tag) :
    Nat → Read Node
  | 0 => failure
  | fuel + 1 => do
      match ← peek? with
      | some (.scalar text plain) =>
          advance
          return .scalar text plain properties.2
      | some .flowSequenceStart => advance; return .sequence (← flowItems true fuel)
      | some .flowMappingStart => advance; return .mapping (← flowMembers true fuel)
      | some .blockSequenceStart =>
          if !inBlock then failure
          advance
          return .sequence (← blockItems fuel)
      | some .blockMappingStart =>
          if !inBlock then failure
          advance
          return .mapping (← blockMembers fuel)
      | some .blockEntry =>
          if indentless then return .sequence (← indentlessItems fuel) else nothing
      | _ => nothing
where
  nothing : Read Node :=
    if properties.1.isSome || properties.2.isSome then
      return .scalar "~" true properties.2
    else failure

def blockItems : Nat → Read (List Node)
  | 0 => failure
  | fuel + 1 => do
      if ← accept .blockEnd then return []
      else if ← accept .blockEntry then
        let item ← emptyBefore [.blockEntry, .blockEnd] (node true false fuel)
        return item :: (← blockItems fuel)
      else failure

def indentlessItems : Nat → Read (List Node)
  | 0 => failure
  | fuel + 1 => do
      if ← accept .blockEntry then
        let item ← emptyBefore (.blockEntry :: followsBlockKey) (node true false fuel)
        return item :: (← indentlessItems fuel)
      else return []

def blockMembers : Nat → Read (List (Node × Node))
  | 0 => failure
  | fuel + 1 => do
      if ← accept .blockEnd then return []
      let key ←
        if ← accept .key then emptyBefore followsBlockKey (node true true fuel)
        else if ← isNext [.value] then pure .empty
        else failure
      let value ←
        if ← accept .value then emptyBefore followsBlockKey (node true true fuel) else pure .empty
      return (key, value) :: (← blockMembers fuel)

def flowItems (first : Bool) : Nat → Read (List Node)
  | 0 => failure
  | fuel + 1 => do
      if ← accept .flowSequenceEnd then return []
      if !first then
        if !(← accept .flowEntry) then failure
      if ← accept .flowSequenceEnd then return []
      let item ← if ← accept .key then pairItem fuel else node false false fuel
      return item :: (← flowItems false fuel)

def pairItem : Nat → Read Node
  | 0 => failure
  | fuel + 1 => do
      let stops : List Token := [.flowEntry, .flowSequenceEnd]
      let key ← emptyBefore (.value :: stops) (node false false fuel)
      let value ← if ← accept .value then emptyBefore stops (node false false fuel) else pure .empty
      return .mapping [(key, value)]

def flowMembers (first : Bool) : Nat → Read (List (Node × Node))
  | 0 => failure
  | fuel + 1 => do
      if ← accept .flowMappingEnd then return []
      if !first then
        if !(← accept .flowEntry) then failure
      if ← accept .flowMappingEnd then return []
      let member ←
        if ← accept .key then
          let key ← emptyBefore followsFlowKey (node false false fuel)
          pure (key, ← flowValue fuel)
        else if ← isNext [.value] then pure (.empty, ← flowValue fuel)
        else pure (← node false false fuel, .empty)
      return member :: (← flowMembers false fuel)

def flowValue : Nat → Read Node
  | 0 => failure
  | fuel + 1 => do
      if ← accept .value then emptyBefore [.flowEntry, .flowMappingEnd] (node false false fuel)
      else return .empty

end

def skipAll (token : Token) : Nat → Read Unit
  | 0 => return ()
  | fuel + 1 => do
      if ← accept token then skipAll token fuel

def document (fuel : Nat) : Read Node := do
  let hasDirectives ← isNext [.directive]
  skipAll .directive fuel
  let explicit ← accept .documentStart
  if hasDirectives && !explicit then failure
  let root ←
    if explicit && ((← get).tokens.isEmpty || (← isNext [.directive, .documentStart, .documentEnd]))
    then pure .empty
    else node true false fuel
  skipAll .documentEnd fuel
  if (← get).tokens.isEmpty then return root else failure

end Read

def Node.parse? (text : String) : Option Node := do
  let tokens ← Token.scan? text
  if tokens.isEmpty then failure
  let (root, _) ← (Read.document (6 * tokens.length + 6)).run ⟨tokens, []⟩
  return root

end StaticQuery.Yaml
