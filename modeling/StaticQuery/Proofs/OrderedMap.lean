import StaticQuery.OrderedMap

/-!
Maps after any number of insertions. A key stands where it was first written, and holds what was
written to it last.
-/

namespace StaticQuery

namespace OrderedMap

variable {κ α : Type} [DecidableEq κ]

theorem get?_insert (map : OrderedMap κ α) (key other : κ) (value : α) :
    (map.insert key value).get? other = if key = other then some value else map.get? other := by
  by_cases same : key = other
  · subst other
    simp
  · rw [get?_insert_of_ne map value same, if_neg same]

theorem mem_insert {map : OrderedMap κ α} {key : κ} {value : α} {entry : κ × α}
    (member : entry ∈ map.insert key value) : entry = (key, value) ∨ entry ∈ map := by
  induction map with
  | nil => exact Or.inl (by simpa [insert] using member)
  | cons first rest ih =>
      obtain ⟨known, old⟩ := first
      simp only [insert] at member
      split at member
      · rename_i same
        subst known
        rcases List.mem_cons.mp member with replaced | later
        · exact Or.inl replaced
        · exact Or.inr (List.mem_cons_of_mem _ later)
      · rcases List.mem_cons.mp member with kept | later
        · exact Or.inr (by simp [kept])
        · rcases ih later with written | old
          · exact Or.inl written
          · exact Or.inr (List.mem_cons_of_mem _ old)

theorem insert_of_not_mem {map : OrderedMap κ α} {key : κ} (fresh : key ∉ map.keys) (value : α) :
    map.insert key value = map ++ [(key, value)] := by
  induction map with
  | nil => rfl
  | cons entry rest ih =>
      simp only [keys, List.map_cons, List.mem_cons, not_or] at fresh
      rw [insert, if_neg (Ne.symm fresh.1), ih fresh.2, List.cons_append]

theorem insertAll_cons (target : OrderedMap κ α) (entry : κ × α) (rest : List (κ × α)) :
    target.insertAll (entry :: rest) = (target.insert entry.1 entry.2).insertAll rest := rfl

/-- Keys that are all new, and differ from each other, are appended as they are. -/
theorem insertAll_of_nodup {target entries : OrderedMap κ α}
    (distinct : (target.keys ++ entries.keys).Nodup) :
    target.insertAll entries = target ++ entries := by
  induction entries generalizing target with
  | nil => exact (List.append_nil target).symm
  | cons entry rest ih =>
      have fresh : entry.1 ∉ target.keys := by
        intro member
        exact (List.nodup_append.mp distinct).2.2 _ member _ List.mem_cons_self rfl
      have moved : keys (target ++ [entry]) ++ keys rest = target.keys ++ keys (entry :: rest) := by
        simp [keys]
      have inserted : target.insert entry.1 entry.2 = target ++ [entry] :=
        insert_of_not_mem fresh entry.2
      calc target.insertAll (entry :: rest)
          = (target.insert entry.1 entry.2).insertAll rest := insertAll_cons target entry rest
        _ = (target ++ [entry]).insertAll rest := by rw [inserted]
        _ = target ++ [entry] ++ rest := ih (moved ▸ distinct)
        _ = target ++ entry :: rest := (List.append_cons target entry rest).symm

theorem get?_eq_some_iff_of_nodup {map : OrderedMap κ α} (distinct : map.keys.Nodup) {key : κ}
    {value : α} : map.get? key = some value ↔ (key, value) ∈ map := by
  induction map with
  | nil => simp
  | cons entry rest ih =>
      obtain ⟨known, old⟩ := entry
      simp only [keys, List.map_cons, List.nodup_cons] at distinct
      by_cases same : known = key
      · subst known
        have absent : (key, value) ∉ rest := fun member =>
          distinct.1 (List.mem_map_of_mem member)
        simp [get?, absent, eq_comm]
      · simp [get?, same, Ne.symm same, ih distinct.2]

def last? (entries : List (κ × α)) (key : κ) : Option α :=
  ((entries.filter fun entry => entry.1 = key).getLast?).map Prod.snd

theorem last?_cons (entry : κ × α) (rest : List (κ × α)) (key : κ) :
    last? (entry :: rest) key =
      (last? rest key).or (if entry.1 = key then some entry.2 else none) := by
  by_cases same : entry.1 = key
  · simp only [last?, List.filter_cons, same, decide_true, if_true, List.getLast?_cons]
    cases (rest.filter fun entry => entry.1 = key).getLast? with
    | none => rfl
    | some later => rfl
  · simp [last?, same]

theorem last?_map {β : Type} (convert : α → β) (entries : List (κ × α)) (key : κ) :
    last? (entries.map (Prod.map id convert)) key = (last? entries key).map convert := by
  simp [last?, List.filter_map, Function.comp_def]

theorem get?_insertAll (target : OrderedMap κ α) (entries : List (κ × α)) (key : κ) :
    (target.insertAll entries).get? key = (last? entries key).or (target.get? key) := by
  induction entries generalizing target with
  | nil => rfl
  | cons entry rest ih =>
      rw [insertAll_cons, ih, get?_insert, last?_cons, Option.or_assoc]
      by_cases same : entry.1 = key
      · rw [if_pos same, if_pos same, Option.some_or]
      · rw [if_neg same, if_neg same, Option.none_or]

/-- Insertion seen from a key of the target: it stays first, and the entries under other keys go
into the rest. -/
theorem cons_insertAll (key : κ) (value : α) (rest : OrderedMap κ α) (entries : List (κ × α)) :
    insertAll ((key, value) :: rest) entries =
      (key, (last? entries key).getD value) ::
        rest.insertAll (entries.filter fun entry => entry.1 ≠ key) := by
  induction entries generalizing value rest with
  | nil => rfl
  | cons entry entries ih =>
      rw [insertAll_cons, insert, last?_cons]
      by_cases same : key = entry.1
      · rw [if_pos same, ih, List.filter_cons_of_neg (by simp [same]), if_pos same.symm]
        cases last? entries key with
        | none => rfl
        | some later => rfl
      · rw [if_neg same, ih, List.filter_cons_of_pos (by simp [Ne.symm same]), insertAll_cons,
          if_neg (Ne.symm same), Option.or_none]

theorem keys_insertAll (target : OrderedMap κ α) (entries : List (κ × α)) :
    (target.insertAll entries).keys =
      target.keys ++ ((keys entries).filter fun key => key ∉ target.keys).eraseDups := by
  induction entries generalizing target with
  | nil => simp [insertAll, keys]
  | cons entry rest ih =>
      have listed : keys (entry :: rest) = entry.1 :: keys rest := rfl
      rw [insertAll_cons, ih, keys_insert, listed]
      by_cases known : entry.1 ∈ target.keys
      · simp [known]
      · simp only [known, if_false, not_false_eq_true, decide_true, List.filter_cons, if_true,
          List.eraseDups_cons, List.filter_filter, List.append_assoc, List.singleton_append]
        congr 4
        funext key
        by_cases same : key = entry.1 <;> simp [same]

omit [DecidableEq κ] in
theorem nodup_keys_nil : (keys ([] : OrderedMap κ α)).Nodup := List.nodup_nil

theorem nodup_keys_insert {map : OrderedMap κ α} (distinct : map.keys.Nodup) (key : κ)
    (value : α) : (map.insert key value).keys.Nodup := by
  by_cases known : key ∈ map.keys
  · rw [keys_insert, if_pos known]
    exact distinct
  · rw [keys_insert, if_neg known]
    refine List.nodup_append.mpr ⟨distinct, List.pairwise_singleton _ key, ?_⟩
    intro old member new appended same
    rw [same, List.mem_singleton.mp appended] at member
    exact known member

theorem eraseDups_of_nodup {items : List κ} (distinct : items.Nodup) : items.eraseDups = items := by
  induction items with
  | nil => rfl
  | cons item rest ih =>
      obtain ⟨fresh, distinct⟩ := List.nodup_cons.mp distinct
      have kept : (rest.filter fun other => !other == item) = rest := by
        apply List.filter_eq_self.mpr
        intro other member
        simpa using fun same : other = item => fresh (same ▸ member)
      rw [List.eraseDups_cons, kept, ih distinct]

section

variable {target entries : OrderedMap κ α} (distinct : entries.keys.Nodup)

include distinct

theorem nil_insertAll : insertAll [] entries = entries :=
  insertAll_of_nodup distinct

theorem last?_of_nodup (key : κ) : last? entries key = entries.get? key := by
  simpa [nil_insertAll distinct] using (get?_insertAll [] entries key).symm

theorem get?_insertAll_of_nodup (key : κ) :
    (target.insertAll entries).get? key = (entries.get? key).or (target.get? key) := by
  rw [get?_insertAll, last?_of_nodup distinct]

theorem keys_insertAll_of_nodup :
    (target.insertAll entries).keys =
      target.keys ++ entries.keys.filter fun key => key ∉ target.keys := by
  rw [keys_insertAll, eraseDups_of_nodup (distinct.filter _)]

end

end OrderedMap

end StaticQuery
