import StaticQuery.Json.Printer
import StaticQuery.Json.Reader

/-!
Responses and their JSON text. Reading takes an object whose one `data` member is an object,
members of other names aside, or an array of just that object.
-/

namespace StaticQuery

structure Response where
  data : Json.Object

namespace Response

def dataKey : String :=
  "data"

def render (response : Response) : String :=
  (Json.object [(dataKey, .object response.data)]).render

def nestingLimit : Nat :=
  Json.nestingLimit - 1

def readData (text : List Char) : Option (Json.Object × List Char) :=
  match Json.readKept nestingLimit text with
  | some (.object members, rest) => some (members, rest)
  | _ => none

/-- Reads one member of a response, given the data found before it. -/
def readMember (found : Option Json.Object) (text : List Char) :
    Option (Option Json.Object × List Char) :=
  match Json.readKey false text with
  | none => none
  | some (key, rest) =>
      match Json.skipBlanks rest with
      | ':' :: rest =>
          if key = dataKey then
            match found, readData rest with
            | none, some (members, rest) => some (some members, rest)
            | _, _ => none
          else (Json.skipValue rest).map fun rest => (found, rest)
      | _ => none

def readMembers (found : Option Json.Object) :
    Nat → List Char → Option (Json.Object × List Char)
  | 0, _ => none
  | fuel + 1, text =>
      match readMember found text with
      | none => none
      | some (found, rest) =>
          match Json.skipBlanks rest with
          | ',' :: rest => readMembers found fuel rest
          | '}' :: rest => found.map fun members => (members, rest)
          | _ => none

def read (text : List Char) : Option (Json.Object × List Char) :=
  match Json.skipBlanks text with
  | '{' :: rest => readMembers none (rest.length + 1) rest
  | '[' :: rest =>
      match readData rest with
      | some (members, rest) =>
          match Json.skipBlanks rest with
          | ']' :: rest => some (members, rest)
          | _ => none
      | none => none
  | _ => none

def parse? (text : String) : Option Response :=
  match read text.toList with
  | some (members, rest) => if (Json.skipBlanks rest).isEmpty then some ⟨members⟩ else none
  | none => none

end Response

end StaticQuery
