import StaticQuery.Proofs.Json.RoundTrip
import StaticQuery.Run.Response

/-!
Responses and their text. A response that can be read at all is read back from its own text,
with every member in its place, whatever the text looked like from which it was read first.
-/

namespace StaticQuery

namespace Response

def toJson (response : Response) : Json :=
  .object [(dataKey, .object response.data)]

theorem readable_toJson_iff {response : Response} :
    response.toJson.Readable Json.nestingLimit ↔
      (Json.object response.data).Readable nestingLimit := by
  constructor
  · intro readable
    cases readable with
    | object _ each => exact each _ List.mem_cons_self
  · intro readable
    exact .object (List.pairwise_singleton _ dataKey) (List.forall_mem_singleton.mpr readable)

theorem readData_chars {members : Json.Object}
    (readable : (Json.object members).Readable nestingLimit) {rest : List Char}
    (ends : Ends isNumeral rest) :
    readData ((Json.object members).chars ++ rest) = some (members, rest) := by
  have read := readable.readsBack (Json.readFuel ((Json.object members).chars ++ rest)) rest
    (by rw [Json.readFuel, List.length_append]; omega) ends
  rw [readData, Json.readKept, read]

theorem parse?_render {response : Response}
    (readable : (Json.object response.data).Readable nestingLimit) :
    parse? response.render = some response := by
  have colon : Json.isBlank ':' = false := by decide
  have brace : Json.isBlank '}' = false := by decide
  have data := readData_chars readable (.cons (by decide) [] : Ends isNumeral ['}'])
  have member : readMember none
      (Json.quotedChars dataKey ++ ':' :: ((Json.object response.data).chars ++ ['}'])) =
        some (some response.data, ['}']) := by
    simp only [readMember, Json.readKey_quotedChars, Json.skipBlanks_cons colon, if_true, data]
  have text : response.render.toList = '{' ::
      (Json.quotedChars dataKey ++ ':' :: ((Json.object response.data).chars ++ ['}'])) := by
    simp [render, Json.render, Json.chars, Json.memberChars]
  have whole : read response.render.toList = some (response.data, []) := by
    rw [text, read, Json.skipBlanks_cons (by decide)]
    simp only [readMembers, member, Json.skipBlanks_cons brace, Option.map_some]
  rw [parse?, whole]
  rfl

theorem readable_readData {text rest : List Char} {members : Json.Object}
    (read : readData text = some (members, rest)) :
    (Json.object members).Readable nestingLimit := by
  unfold readData at read
  split at read
  · rename_i value
    cases read
    exact Json.readable_readValue value
  · cases read

/-- What a member other than the data holds is skipped, so it leaves what was found as it was. -/
theorem readable_readMember {found found' : Option Json.Object} {text rest : List Char}
    (readable : ∀ members ∈ found, (Json.object members).Readable nestingLimit)
    (read : readMember found text = some (found', rest)) :
    ∀ members ∈ found', (Json.object members).Readable nestingLimit := by
  unfold readMember at read
  split at read
  · cases read
  · split at read
    · split at read
      · split at read
        · rename_i data
          cases read
          intro members same
          rw [Option.mem_some_iff.mp same] at data
          exact readable_readData data
        · cases read
      · obtain ⟨after, _, same⟩ := Option.map_eq_some_iff.mp read
        cases same
        exact readable
    · cases read

theorem readable_readMembers {fuel : Nat} {found : Option Json.Object} {text rest : List Char}
    {members : Json.Object}
    (readable : ∀ earlier ∈ found, (Json.object earlier).Readable nestingLimit)
    (read : readMembers found fuel text = some (members, rest)) :
    (Json.object members).Readable nestingLimit := by
  induction fuel generalizing found text with
  | zero => cases read
  | succ fuel ih =>
      rw [readMembers] at read
      split at read
      · cases read
      · rename_i member
        have later := readable_readMember readable member
        split at read
        · exact ih later read
        · obtain ⟨data, same, pair⟩ := Option.map_eq_some_iff.mp read
          cases pair
          exact later members same
        · cases read

theorem readable_read {text rest : List Char} {members : Json.Object}
    (found : read text = some (members, rest)) :
    (Json.object members).Readable nestingLimit := by
  unfold read at found
  split at found
  · exact readable_readMembers (by simp) found
  · split at found
    · rename_i data
      split at found
      · cases found
        exact readable_readData data
      · cases found
    · cases found
  · cases found

theorem readable_of_parse? {text : String} {response : Response}
    (parsed : parse? text = some response) :
    (Json.object response.data).Readable nestingLimit := by
  unfold parse? at parsed
  split at parsed
  · rename_i members rest found
    split at parsed
    · cases parsed
      exact readable_read found
    · cases parsed
  · cases parsed

end Response

/-- A response is read back from its text exactly if it repeats no key and nests within the limit
of the reader. Every response that was read is one of these, so reading and writing it again
changes neither the response nor its text. -/
theorem responses_read_back :
    (∀ response : Response, Response.parse? response.render = some response ↔
      response.toJson.Readable Json.nestingLimit) ∧
    ∀ (text : String) (response : Response), Response.parse? text = some response →
      (Response.parse? response.render).map (fun again => (again, again.render)) =
        some (response, response.render) := by
  constructor
  · intro response
    rw [Response.readable_toJson_iff]
    exact ⟨Response.readable_of_parse?, Response.parse?_render⟩
  · intro text response parsed
    rw [Response.parse?_render (Response.readable_of_parse? parsed), Option.map_some]

namespace Sample

def plainText : String :=
  "\x7b\"data\":\x7b\"id\":null,\"tags\":[-0.0,\"\u00e9\\n\"]\x7d\x7d"

-- A member that is skipped, blanks, a key twice, and minus zero, which is no integer.
def looseText : String :=
  " \x7b \"errors\" : [ 1e999 ] , \"data\" : \x7b \"id\" : 7 , " ++
    "\"tags\" : [ -0 , \"\\u00e9\\n\" ] , \"id\" : null \x7d \x7d "

def positionalText : String :=
  "[\x7b\"id\":null,\"tags\":[-0.0,\"\u00e9\\n\"]\x7d]"

end Sample

theorem responses_read_back_loose :
    ∃ loose positional : Response,
      Response.parse? Sample.looseText = some loose ∧ loose.render = Sample.plainText ∧
      Response.parse? Sample.positionalText = some positional ∧
      positional.render = Sample.plainText ∧
      loose.toJson.Readable Json.nestingLimit ∧
      (Response.parse? loose.render).map (fun again => (again, again.render)) =
        some (loose, loose.render) ∧
      (Response.parse? positional.render).map (fun again => (again, again.render)) =
        some (positional, positional.render) := by
  have looseWritten : (Response.parse? Sample.looseText).map Response.render =
      some Sample.plainText := by
    decide +kernel
  have positionalWritten : (Response.parse? Sample.positionalText).map Response.render =
      some Sample.plainText := by
    decide +kernel
  obtain ⟨loose, looseParsed, looseRendered⟩ := Option.map_eq_some_iff.mp looseWritten
  obtain ⟨positional, parsed, rendered⟩ := Option.map_eq_some_iff.mp positionalWritten
  have again := responses_read_back.2 Sample.looseText loose looseParsed
  obtain ⟨same, read, pair⟩ := Option.map_eq_some_iff.mp again
  cases pair
  exact ⟨loose, positional, looseParsed, looseRendered, parsed, rendered,
    (responses_read_back.1 loose).mp read, again,
    responses_read_back.2 Sample.positionalText positional parsed⟩

end StaticQuery
