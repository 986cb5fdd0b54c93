import RobotScript.Block.Map
import RobotScript.Proofs.Block.Descriptor
import RobotScript.Proofs.Json.Record

namespace RobotScript.Block

namespace Descriptor

theorem inputsToJson_eq {bound : Option String} (inputs : Ascending Descriptor bound) :
    inputsToJson inputs = (inputs.map toJson).toList := by
  induction inputs with
  | nil => rfl
  | cons name _ child inputs ih => rw [inputsToJson, ih, Ascending.map, Ascending.toList]

theorem chainToJson_eq_map (chain : List Descriptor) : chainToJson chain = chain.map toJson := by
  induction chain with
  | nil => rfl
  | cons block chain ih => rw [chainToJson, ih, List.map_cons]

theorem statementsToJson_eq {bound : Option String} (statements : Ascending (List Descriptor) bound) :
    statementsToJson statements = (statements.map fun chain => .array (chain.map toJson)).toList := by
  induction statements with
  | nil => rfl
  | cons name _ chain statements ih =>
    rw [statementsToJson, ih, chainToJson_eq_map, Ascending.map, Ascending.toList]

theorem toJson_eq (d : Descriptor) :
    toJson d = .object (("type", .string d.kind) :: part "fields" (d.fields.map .string).toList ++
      part "inputs" (d.inputs.map toJson).toList ++
      part "statements" (d.statements.map fun chain => .array (chain.map toJson)).toList) := by
  obtain ⟨kind, fields, inputs, statements⟩ := d
  rw [toJson, inputsToJson_eq, statementsToJson_eq]
  rfl

theorem mem_part {key : String} {fields : List (String × Json)} {field : String × Json} :
    field ∈ part key fields ↔ fields ≠ [] ∧ field = (key, .object fields) := by
  unfold part
  cases fields <;> simp

/-- The entry of a record for a part that is left out where it is empty. -/
def partEntry (fields : List (String × Json)) : JsonEntry :=
  if fields.isEmpty then .missing else .given (Json.text (.object fields))

theorem record_parts (kind : String) (fields inputs statements : List (String × Json)) (depth : Nat) :
    JsonDecoder.record ["type", "fields", "inputs", "statements"]
        (Json.text (.object (("type", .string kind) ::
          part "fields" fields ++ part "inputs" inputs ++ part "statements" statements))) (depth + 1) =
      some ([.given (Json.text (.string kind)), partEntry fields, partEntry inputs, partEntry statements], depth) := by
  rw [JsonDecoder.record_text]
  · cases fields <;> cases inputs <;> cases statements <;>
      simp [part, partEntry, JsonDecoder.entryOf, List.lookup_cons]
  · cases fields <;> cases inputs <;> cases statements <;> simp [part]

theorem withDefault_partEntry {α : Type} {decode : JsonDecoder α} (toJson : α → Json) {entries : Dictionary α}
    {depth : Nat}
    (shallow : (entries.map toJson).toList ≠ [] → (Json.object (entries.map toJson).toList).nesting ≤ depth)
    (each : ∀ entry ∈ entries.toList, ∀ inner < depth, (toJson entry.2).nesting ≤ inner →
      decode (toJson entry.2).text inner = some entry.2) :
    (partEntry (entries.map toJson).toList).withDefault .nil (JsonDecoder.dictionary decode) depth = some entries := by
  by_cases empty : (entries.map toJson).toList = []
  · cases entries with
    | nil => rfl
    | cons => exact nomatch empty
  · obtain ⟨inner, rfl, below⟩ := Json.exists_of_nesting_object_le (shallow empty)
    rw [entries.toList_map, List.forall_mem_map] at below
    rw [partEntry, if_neg (by simpa using empty)]
    exact JsonDecoder.dictionary_text fun entry member =>
      each entry member inner (Nat.lt_succ_self inner) (below entry member)

/-- A block reads back from its text, given room for its depth. -/
theorem decodeUpTo_text {d : Descriptor} {levels depth : Nat} (within : depth ≤ levels)
    (shallow : d.toJson.nesting ≤ depth) : decodeUpTo levels d.toJson.text depth = some d := by
  induction d using children_induction generalizing levels depth with
  | step d inside =>
    rw [toJson_eq] at shallow ⊢
    obtain ⟨inner, rfl, below⟩ := Json.exists_of_nesting_object_le shallow
    obtain ⟨levels, rfl⟩ := Nat.exists_eq_succ_of_ne_zero (Nat.ne_zero_of_lt within)
    simp only [List.mem_cons, List.mem_append, mem_part] at below
    -- A dictionary and a chain each take one from the depth that is left, so that it stays within the levels.
    have readFields : (partEntry (d.fields.map .string).toList).withDefault .nil
        (JsonDecoder.dictionary JsonDecoder.text) inner = some d.fields := by
      refine withDefault_partEntry Json.string (fun nonempty => ?_) fun entry _ inner _ _ =>
        JsonDecoder.text_text entry.2 inner
      exact below (_, _) (.inl (.inl (.inr ⟨nonempty, rfl⟩)))
    have readInputs : (partEntry (d.inputs.map toJson).toList).withDefault .nil
        (JsonDecoder.dictionary (decodeUpTo levels)) inner = some d.inputs := by
      refine withDefault_partEntry toJson (fun nonempty => ?_) fun entry member depth less nests =>
        inside entry.2 (input_mem_children member) (by omega) nests
      exact below (_, _) (.inl (.inr ⟨nonempty, rfl⟩))
    have readStatements : (partEntry (d.statements.map fun chain => .array (chain.map toJson)).toList).withDefault
        .nil (JsonDecoder.dictionary (JsonDecoder.list (decodeUpTo levels))) inner = some d.statements := by
      refine withDefault_partEntry (fun chain : List Descriptor => .array (chain.map toJson))
        (fun nonempty => below (_, _) (.inr ⟨nonempty, rfl⟩)) fun entry member depth less nests => ?_
      obtain ⟨innermost, rfl, below⟩ := Json.exists_of_nesting_array_le nests
      rw [List.forall_mem_map] at below
      exact JsonDecoder.list_text fun block isBlock =>
        inside block (statement_mem_children member isBlock) (by omega) (below block isBlock)
    refine Option.bind_eq_some_iff.mpr ⟨_, record_parts d.kind _ _ _ inner, ?_⟩
    refine Option.bind_eq_some_iff.mpr ⟨_, JsonDecoder.text_text d.kind inner, ?_⟩
    refine Option.bind_eq_some_iff.mpr ⟨_, readFields, ?_⟩
    refine Option.bind_eq_some_iff.mpr ⟨_, readInputs, ?_⟩
    exact Option.bind_eq_some_iff.mpr ⟨_, readStatements, by cases d; rfl⟩

theorem textual (d : Descriptor) : d.toJson.Textual := by
  induction d using children_induction with
  | step d inside =>
    rw [toJson_eq]
    refine .object fun field member => ?_
    simp only [List.mem_cons, List.mem_append, mem_part, Ascending.toList_map] at member
    rcases member with ((rfl | ⟨-, rfl⟩) | ⟨-, rfl⟩) | ⟨-, rfl⟩
    · exact .string d.kind
    · exact .object (List.forall_mem_map.mpr fun entry _ => .string entry.2)
    · exact .object (List.forall_mem_map.mpr fun entry member => inside entry.2 (input_mem_children member))
    · exact .object (List.forall_mem_map.mpr fun entry member => .array (List.forall_mem_map.mpr fun block isBlock =>
        inside block (statement_mem_children member isBlock)))

theorem text_toJson (d : Descriptor) (depth : Nat) : JsonDecoder.text d.toJson.text depth = none := by
  rw [toJson_eq, Json.text_object]
  rfl

/-- A chain is no block: a block that is written as an array starts with a text. -/
theorem decodeUpTo_chain (levels depth : Nat) (chain : List Descriptor) :
    decodeUpTo levels (Json.text (.array (chain.map toJson))) depth = none := by
  cases levels with
  | zero => rfl
  | succ levels =>
    refine Option.eq_none_iff_forall_ne_some.mpr fun d found => ?_
    obtain ⟨⟨entries, rest⟩, record, found⟩ := Option.bind_eq_some_iff.mp found
    have written := JsonDecoder.record_eq_some (by decide) record
    split at found
    · rename_i kind fields inputs statements inner same
      cases same
      obtain ⟨name, isText, -⟩ := Option.bind_eq_some_iff.mp found
      rw [JsonEntry.required_eq_bind, (List.cons.inj written).1, Json.text_array] at isText
      cases chain with
      | nil => simp [JsonText.field?] at isText
      | cons block chain => exact Option.some_ne_none name (isText.symm.trans (text_toJson block rest))
    · simp at found

end Descriptor

namespace Expansion

theorem toJson_chain (blocks : List Descriptor) :
    (Expansion.chain blocks).toJson = .array (blocks.map Descriptor.toJson) := by
  rw [toJson, Descriptor.chainToJson_eq_map]

theorem textual (expansion : Expansion) : expansion.toJson.Textual := by
  cases expansion with
  | single block => exact block.textual
  | chain blocks =>
    rw [toJson_chain]
    exact .array (List.forall_mem_map.mpr fun block _ => block.textual)

/-- A single block comes back as one, and a chain as a chain. -/
theorem decode_text {expansion : Expansion} {depth : Nat} (shallow : expansion.toJson.nesting ≤ depth) :
    decode expansion.toJson.text depth = some expansion := by
  obtain ⟨value, hasValue⟩ := Option.isSome_iff_exists.mp (expansion.textual.value?_text shallow)
  refine Option.bind_eq_some_iff.mpr ⟨value, hasValue, ?_⟩
  cases expansion with
  | single block =>
    have read : Descriptor.decode block.toJson.text depth = some block :=
      Descriptor.decodeUpTo_text (Nat.le_refl depth) shallow
    rw [toJson, read]
    rfl
  | chain blocks =>
    rw [toJson_chain] at shallow ⊢
    obtain ⟨inner, rfl, below⟩ := Json.exists_of_nesting_array_le shallow
    rw [List.forall_mem_map] at below
    have notBlock : Descriptor.decode (Json.text (.array (blocks.map Descriptor.toJson))) (inner + 1) = none :=
      Descriptor.decodeUpTo_chain _ _ blocks
    have read : JsonDecoder.list Descriptor.decode (Json.text (.array (blocks.map Descriptor.toJson))) (inner + 1) =
        some blocks :=
      JsonDecoder.list_text fun block member =>
        Descriptor.decodeUpTo_text (Nat.le_refl inner) (below block member)
    rw [notBlock, read]
    rfl

end Expansion

namespace BlockMap

theorem entryOf_zip {keys values : List String} (distinct : keys.Nodup) (paired : keys.length = values.length) :
    keys.map (JsonDecoder.entryOf (keys.zip (values.map .string))) =
      values.map fun value => .given (Json.text (.string value)) := by
  induction keys generalizing values with
  | nil => rw [List.length_eq_zero_iff.mp paired.symm]; rfl
  | cons key keys ih =>
    obtain ⟨fresh, distinct⟩ := List.nodup_cons.mp distinct
    cases values with
    | nil => simp at paired
    | cons value values =>
      rw [List.map_cons, List.map_cons, List.map_cons, ← ih distinct (Nat.succ.inj paired)]
      refine congrArg₂ List.cons (by simp [JsonDecoder.entryOf, List.zip_cons_cons]) ?_
      refine List.map_congr_left fun other member => ?_
      have different : (other == key) = false := beq_false_of_ne fun same => fresh (same ▸ member)
      simp [JsonDecoder.entryOf, List.zip_cons_cons, List.lookup_cons, different]

theorem decodeTexts_text {keys values : List String} (distinct : keys.Nodup) (paired : keys.length = values.length)
    {depth : Nat} (shallow : (textsToJson keys values).nesting ≤ depth) :
    decodeTexts keys (textsToJson keys values).text depth = some values := by
  obtain ⟨inner, rfl, -⟩ := Json.exists_of_nesting_object_le shallow
  have names : ((keys.zip (values.map Json.string)).map (·.1)).Nodup := by
    rwa [List.map_fst_zip (by simp [paired])]
  refine Option.bind_eq_some_iff.mpr ⟨_, JsonDecoder.record_text names keys inner, ?_⟩
  rw [entryOf_zip distinct paired]
  refine (JsonDecoder.mapM_map_eq_some fun value _ => ?_).trans (congrArg some (List.map_id values))
  exact JsonDecoder.text_text value inner

theorem textsToJson_textual (keys values : List String) : (textsToJson keys values).Textual := by
  refine .object fun field member => ?_
  obtain ⟨value, -, same⟩ := List.mem_map.mp (List.of_mem_zip member).2
  rw [← same]
  exact .string value

theorem textual (map : BlockMap) : map.toJson.Textual := by
  refine .object ?_
  simp only [List.forall_mem_cons, textsToJson_textual, true_and, Ascending.toList_map]
  exact ⟨.object (List.forall_mem_map.mpr fun entry _ => entry.2.textual), by simp⟩

theorem decode_text {map : BlockMap} {depth : Nat} (shallow : map.toJson.nesting ≤ depth) :
    decode map.toJson.text depth = some map := by
  obtain ⟨inner, rfl, below⟩ := Json.exists_of_nesting_object_le shallow
  simp only [List.forall_mem_cons] at below
  obtain ⟨base, structural, value, commands, -⟩ := below
  obtain ⟨innermost, rfl, each⟩ := Json.exists_of_nesting_object_le commands
  rw [Ascending.toList_map, List.forall_mem_map] at each
  have names : ((map.toJson.fields?.getD []).map (·.1)).Nodup := by
    change ["base", "blocks", "value", "commandMap"].Nodup
    decide
  have record : JsonDecoder.record _ map.toJson.text _ = _ :=
    JsonDecoder.record_text names ["base", "blocks", "value", "commandMap"] (innermost + 1)
  -- From here on only the record of the text matters, not the text.
  generalize map.toJson.text = json at record ⊢
  refine Option.bind_eq_some_iff.mpr ⟨_, record, ?_⟩
  refine Option.bind_eq_some_iff.mpr ⟨map.base, ?_, ?_⟩
  · exact Option.bind_eq_some_iff.mpr ⟨_, decodeTexts_text (by decide) (by rfl) base, rfl⟩
  refine Option.bind_eq_some_iff.mpr ⟨map.structural, ?_, ?_⟩
  · exact Option.bind_eq_some_iff.mpr ⟨_, decodeTexts_text (by decide) (by rfl) structural, rfl⟩
  refine Option.bind_eq_some_iff.mpr ⟨map.value, ?_, ?_⟩
  · exact Option.bind_eq_some_iff.mpr ⟨_, decodeTexts_text (by decide) (by rfl) value, rfl⟩
  refine Option.bind_eq_some_iff.mpr ⟨map.commands, ?_, rfl⟩
  exact JsonDecoder.dictionary_text fun entry member => Expansion.decode_text (each entry member)

/-- A map reads back from either text of it, as long as the text is not nested too deeply to be read. -/
theorem read?_toJson {map : BlockMap} (shallow : map.toJson.nesting ≤ JsonText.maxDepth) :
    read? map.toJson.compact = some map ∧ read? map.toJson.pretty = some map := by
  rw [read?, read?, JsonDecoder.read?_compact _ map.textual, JsonDecoder.read?_pretty _ map.textual]
  exact ⟨decode_text shallow, decode_text shallow⟩

/-- A chain of one block, an empty chain and a single block, with blocks inside and a control character. -/
theorem read?_toJson_nested :
    let leaf := (Descriptor.new "leaf").withField "NAME" "\x01\n\""
    let nest := Descriptor.mk "nest" .nil (Dictionary.ofList [("A", leaf), ("B", leaf)])
      (Dictionary.ofList [("DO", [leaf, leaf]), ("ELSE", [])])
    let map : BlockMap :=
      { builtin with commands := Dictionary.ofList [("A", .chain [nest]), ("B", .chain []), ("C", .single nest)] }
    map.toJson.nesting ≤ JsonText.maxDepth ∧ read? map.toJson.compact = some map ∧
      read? map.toJson.pretty = some map := by
  intro leaf nest map
  have shallow : map.toJson.nesting ≤ JsonText.maxDepth := by decide
  exact ⟨shallow, read?_toJson shallow⟩

end BlockMap

end RobotScript.Block
