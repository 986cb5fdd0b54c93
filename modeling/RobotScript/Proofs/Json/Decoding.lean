import RobotScript.Json.Decode
import RobotScript.Proofs.Dictionary
import RobotScript.Proofs.Json.ReadBack

namespace RobotScript

namespace JsonText

theorem ofItems_eq_map (items : List Json) : ofItems items = items.map ofJson := by
  induction items with
  | nil => rfl
  | cons item items ih => rw [ofItems, ih, List.map_cons]

theorem ofFields_eq_map (fields : List (String × Json)) :
    ofFields fields = fields.map fun field => (pieces field.1, ofJson field.2) := by
  induction fields with
  | nil => rfl
  | cons field fields ih => rw [ofFields, ih, List.map_cons]

theorem rereadItems_eq_map (items : List JsonText) : rereadItems items = items.map reread := by
  induction items with
  | nil => rfl
  | cons item items ih => rw [rereadItems, ih, List.map_cons]

theorem rereadFields_eq_map (fields : List (List JsonPiece × JsonText)) :
    rereadFields fields = fields.map fun field => (field.1.map JsonPiece.reread, reread field.2) := by
  induction fields with
  | nil => rfl
  | cons field fields ih => rw [rereadFields, ih, List.map_cons]

theorem values?_isSome {items : List JsonText} {depth : Nat} (each : ∀ item ∈ items, (item.value? depth).isSome) :
    (values? items depth).isSome := by
  induction items with
  | nil => rfl
  | cons item items ih =>
    obtain ⟨first, others⟩ := List.forall_mem_cons.mp each
    obtain ⟨value, found⟩ := Option.isSome_iff_exists.mp first
    obtain ⟨values, rest⟩ := Option.isSome_iff_exists.mp (ih others)
    simp [values?, found, rest]

theorem fieldValues?_isSome {fields : List (List JsonPiece × JsonText)} {depth : Nat}
    (keys : ∀ field ∈ fields, (JsonPiece.text? field.1).isSome)
    (each : ∀ field ∈ fields, (field.2.value? depth).isSome) : (fieldValues? fields depth).isSome := by
  induction fields with
  | nil => rfl
  | cons field fields ih =>
    obtain ⟨firstKey, otherKeys⟩ := List.forall_mem_cons.mp keys
    obtain ⟨first, others⟩ := List.forall_mem_cons.mp each
    obtain ⟨key, decoded⟩ := Option.isSome_iff_exists.mp firstKey
    obtain ⟨value, found⟩ := Option.isSome_iff_exists.mp first
    obtain ⟨values, rest⟩ := Option.isSome_iff_exists.mp (ih otherKeys others)
    simp [fieldValues?, decoded, found, rest]

end JsonText

namespace Json

mutual

/-- How many arrays and objects stand inside one another. -/
def nesting : Json → Nat
  | .array items => nestingAll items + 1
  | .object fields => nestingFields fields + 1
  | _ => 0

def nestingAll : List Json → Nat
  | [] => 0
  | item :: items => max (nesting item) (nestingAll items)

def nestingFields : List (String × Json) → Nat
  | [] => 0
  | (_, value) :: fields => max (nesting value) (nestingFields fields)

end

theorem nestingAll_le_iff {items : List Json} {n : Nat} : nestingAll items ≤ n ↔ ∀ item ∈ items, item.nesting ≤ n := by
  induction items with
  | nil => simp [nestingAll]
  | cons item items ih => simp only [nestingAll, Nat.max_le, ih, List.forall_mem_cons]

theorem nestingFields_le_iff {fields : List (String × Json)} {n : Nat} :
    nestingFields fields ≤ n ↔ ∀ field ∈ fields, field.2.nesting ≤ n := by
  induction fields with
  | nil => simp [nestingFields]
  | cons field fields ih => simp only [nestingFields, Nat.max_le, ih, List.forall_mem_cons]

theorem exists_of_nesting_array_le {items : List Json} {depth : Nat} (shallow : (Json.array items).nesting ≤ depth) :
    ∃ inner, depth = inner + 1 ∧ ∀ item ∈ items, item.nesting ≤ inner := by
  rw [nesting] at shallow
  exact ⟨depth - 1, by omega, nestingAll_le_iff.mp (by omega)⟩

theorem exists_of_nesting_object_le {fields : List (String × Json)} {depth : Nat}
    (shallow : (Json.object fields).nesting ≤ depth) :
    ∃ inner, depth = inner + 1 ∧ ∀ field ∈ fields, field.2.nesting ≤ inner := by
  rw [nesting] at shallow
  exact ⟨depth - 1, by omega, nestingFields_le_iff.mp (by omega)⟩

/-- Made of texts, arrays and objects. -/
inductive Textual : Json → Prop
  | string (s : String) : Textual (.string s)
  | array {items : List Json} : (∀ item ∈ items, Textual item) → Textual (.array items)
  | object {fields : List (String × Json)} : (∀ field ∈ fields, Textual field.2) → Textual (.object fields)

@[simp] theorem textual_string (s : String) : (Json.string s).Textual := .string s

@[simp] theorem textual_object {fields : List (String × Json)} :
    (Json.object fields).Textual ↔ ∀ field ∈ fields, field.2.Textual := by
  refine ⟨fun textual => ?_, .object⟩
  cases textual with
  | object each => exact each

/-- What is read where a value was written. -/
def text (value : Json) : JsonText := (JsonText.ofJson value).reread

def spelling (s : String) : List JsonPiece := (JsonText.pieces s).map JsonPiece.reread

theorem text?_spelling (s : String) : JsonPiece.text? (spelling s) = some s := JsonPiece.text?_reread s

theorem text_string (s : String) : text (.string s) = .string (spelling s) := rfl

theorem text_array (items : List Json) : text (.array items) = .array (items.map text) := by
  unfold text
  rw [JsonText.ofJson, JsonText.reread, JsonText.ofItems_eq_map, JsonText.rereadItems_eq_map, List.map_map]
  rfl

theorem text_object (fields : List (String × Json)) :
    text (.object fields) = .object (fields.map fun field => (spelling field.1, text field.2)) := by
  unfold text
  rw [JsonText.ofJson, JsonText.reread, JsonText.ofFields_eq_map, JsonText.rereadFields_eq_map, List.map_map]
  rfl

theorem Textual.sound {value : Json} (textual : value.Textual) : (JsonText.ofJson value).Sound := by
  induction textual with
  | string s => exact .string s
  | array each ih =>
    rw [JsonText.ofJson, JsonText.ofItems_eq_map]
    exact .array (List.forall_mem_map.mpr ih)
  | object each ih =>
    rw [JsonText.ofJson, JsonText.ofFields_eq_map]
    exact .object (List.forall_mem_map.mpr fun field _ => ⟨field.1, rfl⟩) (List.forall_mem_map.mpr ih)

/-- What is shallow enough has a value. -/
theorem Textual.value?_text {value : Json} (textual : value.Textual) {depth : Nat} (shallow : value.nesting ≤ depth) :
    ((text value).value? depth).isSome := by
  induction textual generalizing depth with
  | string s => simp [text_string, JsonText.value?, text?_spelling]
  | array each ih =>
    obtain ⟨inner, rfl, below⟩ := exists_of_nesting_array_le shallow
    rw [text_array, JsonText.value?, if_neg (Nat.succ_ne_zero inner), Option.isSome_map]
    exact JsonText.values?_isSome (List.forall_mem_map.mpr fun item member => ih item member (below item member))
  | object each ih =>
    obtain ⟨inner, rfl, below⟩ := exists_of_nesting_object_le shallow
    rw [text_object, JsonText.value?, if_neg (Nat.succ_ne_zero inner), Option.isSome_map]
    refine JsonText.fieldValues?_isSome (List.forall_mem_map.mpr fun field _ => ?_)
      (List.forall_mem_map.mpr fun field member => ih field member (below field member))
    simp [text?_spelling]

end Json

namespace JsonDecoder

variable {α β : Type} {decode : JsonDecoder α}

theorem read?_compact (decode : JsonDecoder α) {value : Json} (textual : value.Textual) :
    decode.read? value.compact = decode value.text JsonText.maxDepth := by
  rw [read?, Json.compact, String.toList_ofList, textual.sound.read?_compact]
  rfl

theorem read?_pretty (decode : JsonDecoder α) {value : Json} (textual : value.Textual) :
    decode.read? value.pretty = decode value.text JsonText.maxDepth := by
  rw [read?, Json.pretty, String.toList_ofList, textual.sound.read?_pretty]
  rfl

theorem text_text (s : String) (depth : Nat) : text (Json.text (.string s)) depth = some s := Json.text?_spelling s

theorem mapM_map_eq_some {γ : Type} {items : List α} {write : α → β} {read : β → Option γ} {result : α → γ}
    (each : ∀ item ∈ items, read (write item) = some (result item)) :
    (items.map write).mapM read = some (items.map result) := by
  induction items with
  | nil => rfl
  | cons item items ih =>
    obtain ⟨first, others⟩ := List.forall_mem_cons.mp each
    rw [List.map_cons, List.mapM_cons, first, ih others]
    rfl

theorem list_text {items : List α} {toJson : α → Json} {depth : Nat}
    (each : ∀ item ∈ items, decode (toJson item).text depth = some item) :
    list decode (Json.text (.array (items.map toJson))) (depth + 1) = some items := by
  rw [Json.text_array, List.map_map, list, mapM_map_eq_some each, List.map_id']

theorem dictionary_text {entries : Dictionary α} {toJson : α → Json} {depth : Nat}
    (each : ∀ entry ∈ entries.toList, decode (toJson entry.2).text depth = some entry.2) :
    dictionary decode (Json.text (.object (entries.map toJson).toList)) (depth + 1) = some entries := by
  have read : (entries.toList.map fun entry => (Json.spelling entry.1, (toJson entry.2).text)).mapM
      (fun field => do return (← JsonPiece.text? field.1, ← decode field.2 depth)) = some (entries.toList.map id) :=
    mapM_map_eq_some fun entry member => by simp [Json.text?_spelling, each entry member]
  rw [entries.toList_map, Json.text_object, List.map_map, dictionary]
  refine (congrArg (Option.bind · _) read).trans ?_
  rw [List.map_id]
  exact congrArg some entries.ofList_toList

end JsonDecoder

end RobotScript
