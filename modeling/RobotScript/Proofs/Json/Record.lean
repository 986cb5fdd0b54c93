import RobotScript.Proofs.Json.Decoding

namespace RobotScript

/-- The part of a record that is written under a key: the first field of that name, or the item at the place of
the key. -/
def JsonText.field? (keys : List String) (key : String) : JsonText → Option JsonText
  | .object fields => (fields.find? fun field => JsonPiece.text? field.1 == some key).map (·.2)
  | .array items => items[keys.idxOf key]?
  | _ => none

def JsonEntry.value? : JsonEntry → Option JsonText
  | .given value => some value
  | _ => none

theorem JsonEntry.required_eq_bind {α : Type} (entry : JsonEntry) (decode : JsonDecoder α) (depth : Nat) :
    entry.required decode depth = entry.value?.bind (decode · depth) := by
  cases entry <;> rfl

theorem JsonEntry.withDefault_of_value? {α : Type} {entry : JsonEntry} (absent : entry.value? = none) (default : α)
    (decode : JsonDecoder α) (depth : Nat) : entry.withDefault default decode depth = some default := by
  cases entry with
  | given value => simp [value?] at absent
  | missing | cutOff => rfl

namespace JsonDecoder

theorem named_eq_some {key : String} {fields : List (String × JsonText)} {entry : JsonEntry}
    (found : named key fields = some entry) :
    entry.value? = (fields.find? (·.1 == key)).map (·.2) := by
  rw [← List.head?_filter]
  unfold named at found
  split at found
  · rename_i none
    cases Option.some.inj found
    rw [none]
    rfl
  · rename_i one
    cases Option.some.inj found
    rw [one]
    rfl
  · simp at found

theorem mapM_named_eq_some {keys : List String} {fields : List (String × JsonText)} {entries : List JsonEntry}
    (found : keys.mapM (named · fields) = some entries) :
    entries.map JsonEntry.value? = keys.map fun key => (fields.find? (·.1 == key)).map (·.2) := by
  induction keys generalizing entries with
  | nil =>
    cases Option.some.inj found
    rfl
  | cons key keys ih =>
    rw [List.mapM_cons] at found
    obtain ⟨first, foundFirst, found⟩ := Option.bind_eq_some_iff.mp found
    obtain ⟨others, foundOthers, same⟩ := Option.bind_eq_some_iff.mp found
    cases Option.some.inj same
    rw [List.map_cons, List.map_cons, named_eq_some foundFirst, ih foundOthers]

theorem field?_object {fields : List (List JsonPiece × JsonText)} {decoded : List (String × JsonText)}
    (read : fields.mapM (fun (key, value) => do return (← JsonPiece.text? key, value)) = some decoded)
    (keys : List String) (key : String) :
    JsonText.field? keys key (.object fields) = (decoded.find? (·.1 == key)).map (·.2) := by
  unfold JsonText.field?
  induction fields generalizing decoded with
  | nil =>
    cases Option.some.inj read
    rfl
  | cons field fields ih =>
    obtain ⟨written, value⟩ := field
    rw [List.mapM_cons] at read
    obtain ⟨first, readFirst, read⟩ := Option.bind_eq_some_iff.mp read
    obtain ⟨others, readOthers, same⟩ := Option.bind_eq_some_iff.mp read
    obtain ⟨name, readName, pair⟩ := Option.bind_eq_some_iff.mp readFirst
    cases Option.some.inj same
    cases Option.some.inj pair
    have same : (some name == some key) = (name == key) := rfl
    simp only [List.find?_cons, readName, same]
    cases name == key with
    | true => rfl
    | false => exact ih readOthers

theorem field?_array {keys : List String} (distinct : keys.Nodup) {items : List JsonText}
    (short : items.length ≤ keys.length) :
    (items.map some ++ List.replicate (keys.length - items.length) none) =
      keys.map fun key => JsonText.field? keys key (.array items) := by
  unfold JsonText.field?
  induction keys generalizing items with
  | nil => simp [List.length_eq_zero_iff.mp (Nat.le_zero.mp short)]
  | cons key keys ih =>
    obtain ⟨fresh, distinct⟩ := List.nodup_cons.mp distinct
    have later {items : List JsonText} : (keys.map fun other => items[(key :: keys).idxOf other]?) =
        keys.map fun other => items.tail[keys.idxOf other]? := by
      refine List.map_congr_left fun other member => ?_
      have different : (key == other) = false := beq_false_of_ne fun same => fresh (same ▸ member)
      rw [List.idxOf_cons, different, cond_false, List.getElem?_tail]
    rw [List.map_cons, later, List.idxOf_cons_self]
    cases items with
    | nil => simp [List.replicate_succ, List.map_const']
    | cons item items => simpa using ih distinct (Nat.le_of_succ_le_succ short)

/-- A record gives each key what is written under it. -/
theorem record_eq_some {keys : List String} (distinct : keys.Nodup) {json : JsonText} {depth rest : Nat}
    {entries : List JsonEntry} (found : record keys json depth = some (entries, rest)) :
    entries.map JsonEntry.value? = keys.map (json.field? keys) := by
  unfold record at found
  split at found
  · obtain ⟨decoded, read, found⟩ := Option.bind_eq_some_iff.mp found
    obtain ⟨each, named, same⟩ := Option.bind_eq_some_iff.mp found
    cases Option.some.inj same
    rw [mapM_named_eq_some named]
    exact List.map_congr_left fun key _ => (field?_object read keys key).symm
  · rename_i items depth
    split at found
    · rename_i short
      cases Option.some.inj found
      rw [← field?_array distinct short]
      simp [JsonEntry.value?, Function.comp_def]
    · simp at found
  · simp at found

/-- The entry of a record for a key. -/
def entryOf (fields : List (String × Json)) (key : String) : JsonEntry :=
  match fields.lookup key with
  | some value => .given value.text
  | none => .missing

/-- The same for fields that are read already. -/
def entryIn (fields : List (String × JsonText)) (key : String) : JsonEntry :=
  match fields.lookup key with
  | some value => .given value
  | none => .missing

theorem entryIn_text (fields : List (String × Json)) (key : String) :
    entryIn (fields.map fun field => (field.1, field.2.text)) key = entryOf fields key := by
  induction fields with
  | nil => rfl
  | cons field fields ih =>
    obtain ⟨name, value⟩ := field
    simp only [entryIn, entryOf, List.map_cons, List.lookup_cons] at ih ⊢
    cases key == name with
    | true => rfl
    | false => exact ih

theorem filter_eq_lookup {fields : List (String × JsonText)} (distinct : (fields.map (·.1)).Nodup) (key : String) :
    fields.filter (·.1 == key) = ((fields.lookup key).map fun value => (key, value)).toList := by
  induction fields with
  | nil => rfl
  | cons field fields ih =>
    obtain ⟨name, value⟩ := field
    obtain ⟨fresh, distinct⟩ := List.nodup_cons.mp distinct
    rw [List.filter_cons, List.lookup_cons, ih distinct]
    by_cases same : key = name
    · subst same
      have absent : fields.lookup key = none := by
        rw [List.lookup_eq_none_iff]
        intro field member
        exact bne_iff_ne.mpr fun equal => fresh (List.mem_map.mpr ⟨field, member, equal.symm⟩)
      simp [absent]
    · simp [beq_false_of_ne same, Ne.symm same]

theorem named_eq_entryIn {fields : List (String × JsonText)} (distinct : (fields.map (·.1)).Nodup) (key : String) :
    named key fields = some (entryIn fields key) := by
  rw [named, filter_eq_lookup distinct, entryIn]
  cases fields.lookup key <;> rfl

theorem record_object {fields : List (String × JsonText)} (distinct : (fields.map (·.1)).Nodup) (keys : List String)
    (depth : Nat) :
    record keys (.object (fields.map fun field => (Json.spelling field.1, field.2))) (depth + 1) =
      some (keys.map (entryIn fields), depth) := by
  have read : (fields.map fun field => (Json.spelling field.1, field.2)).mapM
      (fun (key, value) => do return (← JsonPiece.text? key, value)) = some (fields.map id) :=
    mapM_map_eq_some fun field _ => by simp [Json.text?_spelling]
  have entries : keys.mapM (named · (fields.map id)) = some (keys.map (entryIn fields)) := by
    simpa only [List.map_id] using
      @mapM_map_eq_some _ _ _ keys id _ _ fun key _ => named_eq_entryIn distinct key
  rw [record]
  refine (congrArg (Option.bind · _) read).trans ?_
  exact congrArg (Option.bind · _) entries

/-- A record that is written and read again has an entry for each of its fields. -/
theorem record_reread {fields : List (String × JsonText)} (distinct : (fields.map (·.1)).Nodup) (keys : List String)
    (depth : Nat) :
    record keys (JsonText.object (fields.map fun field => (JsonText.pieces field.1, field.2))).reread (depth + 1) =
      some (keys.map (entryIn (fields.map fun field => (field.1, field.2.reread))), depth) := by
  have found := @record_object (fields.map fun field => (field.1, field.2.reread))
    (by simpa [Function.comp_def] using distinct) keys depth
  rw [List.map_map] at found
  rw [JsonText.reread, JsonText.rereadFields_eq_map, List.map_map]
  exact found

theorem record_text {fields : List (String × Json)} (distinct : (fields.map (·.1)).Nodup) (keys : List String)
    (depth : Nat) :
    record keys (Json.text (.object fields)) (depth + 1) = some (keys.map (entryOf fields), depth) := by
  have found := @record_object (fields.map fun field => (field.1, field.2.text))
    (by simpa [Function.comp_def] using distinct) keys depth
  rw [List.map_map] at found
  rw [Json.text_object]
  refine found.trans ?_
  rw [List.map_congr_left fun key _ => entryIn_text fields key]

end JsonDecoder

end RobotScript
