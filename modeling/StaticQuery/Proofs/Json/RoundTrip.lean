import StaticQuery.Proofs.Json.ValueText
import StaticQuery.Proofs.OrderedMap

/-!
Reading the text of a value gives the value back exactly if no object in it repeats a key and its
containers do not nest too deep; and whatever is read has these two properties.
-/

namespace StaticQuery

namespace Json

/-- Values in which no object repeats a key and containers nest at most `depth` deep. -/
inductive Readable : Nat → Json → Prop
  | null {depth} : Readable depth .null
  | bool {depth} (value : Bool) : Readable depth (.bool value)
  | number {depth} (value : Number) : Readable depth (.number value)
  | string {depth} (text : String) : Readable depth (.string text)
  | array {depth items} :
      (∀ item ∈ items, Readable depth item) → Readable (depth + 1) (.array items)
  | object {depth members} : (OrderedMap.keys members).Nodup →
      (∀ member ∈ members, Readable depth member.2) → Readable (depth + 1) (.object members)

theorem skipBlanks_cons {c : Char} (visible : isBlank c = false) (rest : List Char) :
    skipBlanks (c :: rest) = c :: rest := by
  rw [skipBlanks, List.dropWhile_cons, if_neg (by simp [visible])]

theorem isBlank_of_lead {c : Char} {kind : Kind} (lead : Kind.ofLead c = some kind) :
    isBlank c = false := by
  have different (other : Char) (plain : Kind.ofLead other = none) : c ≠ other := by
    rintro rfl
    rw [plain] at lead
    cases lead
  simp [isBlank, different ' ' (by decide), different '\t' (by decide),
    different '\n' (by decide), different '\r' (by decide)]

theorem skipBlanks_chars (value : Json) (rest : List Char) :
    skipBlanks (value.chars ++ rest) = value.chars ++ rest := by
  obtain ⟨c, more, text, lead⟩ := value.exists_lead
  rw [text, List.cons_append, skipBlanks_cons (isBlank_of_lead lead)]

theorem chars_length_pos (value : Json) : 0 < value.chars.length := by
  obtain ⟨c, more, text, _⟩ := value.exists_lead
  simp [text]

theorem readNumber_chars (skipping : Bool) (value : Number) {rest : List Char}
    (ends : Ends isNumeral rest) :
    readNumber skipping (value.chars ++ rest) = some (.number value, rest) := by
  have scanned := NumberLiteral.scan_chars value.proper_literal ends
  rw [Number.chars_literal] at scanned
  simp only [readNumber, scanned, Number.ofLiteral?_literal]

theorem readValue_of_isNumeral (skipping : Bool) (fuel depth : Nat) {c : Char}
    (numeral : isNumeral c = true) (rest : List Char) :
    readValue skipping (fuel + 1) depth (c :: rest) = readNumber skipping (c :: rest) := by
  have different (other : Char) (plain : isNumeral other = false) : c ≠ other := by
    rintro rfl
    rw [numeral] at plain
    cases plain
  rw [readValue, skipBlanks_cons (isBlank_of_lead (Kind.ofLead_of_isNumeral numeral))]
  split
  · rename_i same
    exact absurd (List.cons.inj same).1 (different 'n' (by decide))
  · rename_i same
    exact absurd (List.cons.inj same).1 (different 't' (by decide))
  · rename_i same
    exact absurd (List.cons.inj same).1 (different 'f' (by decide))
  · rename_i same
    exact absurd (List.cons.inj same).1 (different '"' (by decide))
  · rename_i same
    exact absurd (List.cons.inj same).1 (different '[' (by decide))
  · rename_i same
    exact absurd (List.cons.inj same).1 (different '{' (by decide))
  · rfl

theorem readKey_quotedChars (skipping : Bool) (key : String) (rest : List Char) :
    readKey skipping (quotedChars key ++ rest) = some (key, rest) := by
  rw [readKey, quotedChars_append, skipBlanks_cons (by decide)]
  simpa using readText_flatMap skipping key.toList [] rest

/-- A value that is read off its own text, whatever comes after it. Two units of fuel for each
character are enough. -/
def ReadsBack (depth : Nat) (value : Json) : Prop :=
  ∀ (fuel : Nat) (rest : List Char), 2 * value.chars.length ≤ fuel → Ends isNumeral rest →
    readValue false fuel depth (value.chars ++ rest) = some (value, rest)

section

variable {depth : Nat}

theorem readItems_itemChars {items : List Json} (present : items ≠ [])
    (each : ∀ item ∈ items, ReadsBack depth item) {fuel : Nat}
    (enough : 2 * (itemChars items).length < fuel) (rest : List Char) :
    readItems false fuel depth (itemChars items ++ ']' :: rest) = some (items, rest) := by
  induction items generalizing fuel with
  | nil => exact absurd rfl present
  | cons item items ih =>
      obtain ⟨first, others⟩ := List.forall_mem_cons.mp each
      obtain ⟨fuel, rfl⟩ := Nat.exists_eq_succ_of_ne_zero (Nat.ne_zero_of_lt enough)
      have nonempty := item.chars_length_pos
      rw [itemChars_cons, List.length_append] at enough
      have read := first fuel (afterFirst [','] itemChars items ++ ']' :: rest) (by omega)
        (ends_afterFirst (by decide) (.cons (by decide) rest))
      rw [itemChars_cons, List.append_assoc, readItems, read]
      cases items with
      | nil => rfl
      | cons next items =>
          simp only [afterFirst, List.cons_append, List.nil_append, List.length_cons] at enough ⊢
          have more := ih (List.cons_ne_nil _ _) others (by omega : _ < fuel)
          rw [skipBlanks_cons (by decide)]
          simp only [more, Option.map_some]

theorem readMembers_memberChars {members : List (String × Json)} (present : members ≠ [])
    (each : ∀ member ∈ members, ReadsBack depth member.2) {fuel : Nat}
    (enough : 2 * (memberChars members).length < fuel) (done : Object) (rest : List Char) :
    readMembers false fuel depth done (memberChars members ++ '}' :: rest) =
      some (done.insertAll members, rest) := by
  induction members generalizing fuel done with
  | nil => exact absurd rfl present
  | cons member members ih =>
      obtain ⟨key, value⟩ := member
      obtain ⟨first, others⟩ := List.forall_mem_cons.mp each
      obtain ⟨fuel, rfl⟩ := Nat.exists_eq_succ_of_ne_zero (Nat.ne_zero_of_lt enough)
      have colon : isBlank ':' = false := by decide
      rw [memberChars_cons, List.length_append, List.length_cons, List.length_append] at enough
      have read := first fuel (afterFirst [','] memberChars members ++ '}' :: rest)
        (by dsimp only; omega) (ends_afterFirst (by decide) (.cons (by decide) rest))
      rw [memberChars_cons, List.append_assoc, readMembers, readKey_quotedChars]
      simp only [List.cons_append, List.append_assoc, skipBlanks_cons colon, read]
      cases members with
      | nil => rfl
      | cons next members =>
          simp only [afterFirst, List.cons_append, List.nil_append, List.length_cons] at enough ⊢
          rw [skipBlanks_cons (by decide)]
          exact ih (List.cons_ne_nil _ _) others (by omega) _

end

theorem readsBack_of_succ {depth : Nat} {value : Json}
    (reads : ∀ (fuel : Nat) (rest : List Char), 2 * value.chars.length ≤ fuel + 1 →
      Ends isNumeral rest →
      readValue false (fuel + 1) depth (value.chars ++ rest) = some (value, rest)) :
    ReadsBack depth value := by
  intro fuel rest enough ends
  have nonempty := value.chars_length_pos
  obtain ⟨fuel, rfl⟩ := Nat.exists_eq_succ_of_ne_zero (by omega : fuel ≠ 0)
  exact reads fuel rest enough ends

theorem readsBack_array {depth : Nat} {items : List Json}
    (each : ∀ item ∈ items, ReadsBack depth item) : ReadsBack (depth + 1) (.array items) := by
  apply readsBack_of_succ
  intro fuel rest enough _
  rw [readValue, skipBlanks_chars]
  cases items with
  | nil => rfl
  | cons item items =>
      simp only [chars, List.length_append, List.length_cons, List.cons_append,
        List.append_assoc, List.nil_append] at enough ⊢
      have shown : skipBlanks (itemChars (item :: items) ++ ']' :: rest) =
          itemChars (item :: items) ++ ']' :: rest := by
        rw [itemChars_cons, List.append_assoc, skipBlanks_chars]
      have read := readItems_itemChars (List.cons_ne_nil item items) each
        (by omega : _ < fuel) rest
      rw [shown]
      split
      · rename_i closed
        rw [itemChars_cons, List.append_assoc] at closed
        exact absurd closed (chars_append_ne_cons (by decide))
      · rw [read, Option.map_some]

theorem readsBack_object {depth : Nat} {members : List (String × Json)}
    (distinct : (OrderedMap.keys members).Nodup)
    (each : ∀ member ∈ members, ReadsBack depth member.2) :
    ReadsBack (depth + 1) (.object members) := by
  apply readsBack_of_succ
  intro fuel rest enough _
  rw [readValue, skipBlanks_chars]
  cases members with
  | nil => rfl
  | cons member members =>
      obtain ⟨key, value⟩ := member
      simp only [chars, List.length_append, List.length_cons, List.cons_append,
        List.append_assoc, List.nil_append] at enough ⊢
      have shown : skipBlanks (memberChars ((key, value) :: members) ++ '}' :: rest) =
          memberChars ((key, value) :: members) ++ '}' :: rest := by
        rw [memberChars_cons, List.append_assoc, quotedChars_append, skipBlanks_cons (by decide)]
      have read := readMembers_memberChars (List.cons_ne_nil (key, value) members) each
        (by omega : _ < fuel) [] rest
      rw [shown]
      split
      · rename_i closed
        simp [memberChars_cons, quotedChars_append] at closed
      · rw [read, Option.map_some, OrderedMap.nil_insertAll distinct]

theorem Readable.readsBack {depth : Nat} {value : Json} (readable : value.Readable depth) :
    ReadsBack depth value := by
  induction readable with
  | null =>
      apply readsBack_of_succ
      intro fuel rest _ _
      rw [readValue, skipBlanks_chars]
      rfl
  | bool value =>
      apply readsBack_of_succ
      intro fuel rest _ _
      rw [readValue, skipBlanks_chars]
      cases value with
      | true => rfl
      | false => rfl
  | number value =>
      apply readsBack_of_succ
      intro fuel rest _ ends
      obtain ⟨c, more, found⟩ := List.exists_cons_of_ne_nil value.chars_ne_nil
      have numeral : isNumeral c = true :=
        Number.isNumeral_of_mem_chars (by rw [found]; exact List.mem_cons_self)
      have read := readNumber_chars false value ends
      rw [chars]
      rw [found, List.cons_append] at read ⊢
      rw [readValue_of_isNumeral false fuel _ numeral, read]
  | string text =>
      apply readsBack_of_succ
      intro fuel rest _ _
      have read := readText_flatMap false text.toList [] rest
      rw [readValue, skipBlanks_chars, chars, quotedChars_append]
      simp only [read]
      simp
  | array _ ih => exact readsBack_array ih
  | object distinct _ ih => exact readsBack_object distinct ih

/-! What is read is readable: the reader never enters more containers than it may, and writes the
members of an object into a map. -/

theorem readable_readNumber {skipping : Bool} {text rest : List Char} {value : Json}
    (read : readNumber skipping text = some (value, rest)) (depth : Nat) :
    value.Readable depth := by
  unfold readNumber at read
  split at read
  · cases read
  · split at read
    · cases read
      exact .number _
    · split at read
      · cases read
        exact .null
      · cases read

theorem readable_insert {depth : Nat} {done : Object} (key : String) {value : Json}
    (members : ∀ member ∈ done, member.2.Readable depth) (readable : value.Readable depth) :
    ∀ member ∈ done.insert key value, member.2.Readable depth := by
  intro member found
  rcases OrderedMap.mem_insert found with rfl | old
  · exact readable
  · exact members member old

mutual

theorem readable_readValue {skipping : Bool} :
    ∀ {fuel depth : Nat} {text rest : List Char} {value : Json},
      readValue skipping fuel depth text = some (value, rest) → value.Readable depth
  | 0, depth, text, rest, value, read => by simp [readValue] at read
  | fuel + 1, depth, text, rest, value, read => by
      rw [readValue] at read
      split at read
      · cases read
        exact .null
      · cases read
        exact .bool true
      · cases read
        exact .bool false
      · obtain ⟨⟨written, after⟩, _, same⟩ := Option.map_eq_some_iff.mp read
        cases same
        exact .string written
      · cases depth with
        | zero => cases read
        | succ depth =>
            dsimp only at read
            split at read
            · cases read
              exact .array (by simp)
            · obtain ⟨⟨items, after⟩, inside, same⟩ := Option.map_eq_some_iff.mp read
              cases same
              exact .array (readable_readItems inside)
      · cases depth with
        | zero => cases read
        | succ depth =>
            dsimp only at read
            split at read
            · cases read
              exact .object List.nodup_nil (by simp)
            · obtain ⟨⟨members, after⟩, inside, same⟩ := Option.map_eq_some_iff.mp read
              cases same
              have none : (OrderedMap.keys ([] : Object)).Nodup := List.nodup_nil
              obtain ⟨distinct, each⟩ := readable_readMembers none (by simp) inside
              exact .object distinct each
      · exact readable_readNumber read depth

theorem readable_readItems {skipping : Bool} :
    ∀ {fuel depth : Nat} {text rest : List Char} {items : List Json},
      readItems skipping fuel depth text = some (items, rest) →
        ∀ item ∈ items, item.Readable depth
  | 0, depth, text, rest, items, read => by simp [readItems] at read
  | fuel + 1, depth, text, rest, items, read => by
      rw [readItems] at read
      split at read
      · cases read
      · rename_i item after first
        have readable := readable_readValue first
        split at read
        · obtain ⟨⟨others, last⟩, more, same⟩ := Option.map_eq_some_iff.mp read
          cases same
          exact List.forall_mem_cons.mpr ⟨readable, readable_readItems more⟩
        · cases read
          exact List.forall_mem_singleton.mpr readable
        · cases read

theorem readable_readMembers {skipping : Bool} :
    ∀ {fuel depth : Nat} {done : Object} {text rest : List Char} {members : Object},
      done.keys.Nodup → (∀ member ∈ done, member.2.Readable depth) →
      readMembers skipping fuel depth done text = some (members, rest) →
        members.keys.Nodup ∧ ∀ member ∈ members, member.2.Readable depth
  | 0, depth, done, text, rest, members, _, _, read => by simp [readMembers] at read
  | fuel + 1, depth, done, text, rest, members, distinct, readable, read => by
      rw [readMembers] at read
      split at read
      · cases read
      · split at read
        · split at read
          · cases read
          · rename_i key _ _ _ _ _ _ value _ first
            have stillDistinct := OrderedMap.nodup_keys_insert distinct key value
            have stillReadable := readable_insert key readable (readable_readValue first)
            dsimp only at read
            split at read
            · exact readable_readMembers stillDistinct stillReadable read
            · cases read
              exact ⟨stillDistinct, stillReadable⟩
            · cases read
        · cases read

end

end Json

end StaticQuery
