import Mathlib.Data.List.Forall2
import RobotScript.Proofs.Description.Whitelist

namespace RobotScript.Description

/-- The items of a list in a description correspond one to one and in order to what was made of them. A list that
is absent counts as empty. -/
inductive Listed {α : Type} (R : Json → α → Prop) : Option Json → List α → Prop
  | absent : Listed R none []
  | array {items : List Json} {results : List α} : List.Forall₂ R items results →
    Listed R (some (.array items)) results

/-- The kind of instruction that an object in a description names. -/
def namedType (fields : JsonFields) : String := String.ofList (trimmedField fields "type")

mutual

/-- An instruction is of the kind that its description names, and its bodies hold an instruction for each one that
is described there. -/
inductive Mirrors : Json → Node → Prop
  | command {fields : JsonFields} {token : String} :
    namedType fields = "cmd" → Mirrors (.object fields) (.command token)
  | delay {fields : JsonFields} {ms : UInt32} :
    namedType fields = "delay" → Mirrors (.object fields) (.delay ms)
  | assign {fields : JsonFields} {target : Slot} {op : AssignOp} {value : Value} :
    namedType fields = "set_var" → Mirrors (.object fields) (.assign target op value)
  | branch {fields : JsonFields} {condition : Condition} {yes no : List Node} :
    namedType fields = "if" → Listed Mirrors (fields.field? "then") yes → Listed Mirrors (fields.field? "else") no →
    Mirrors (.object fields) (.branch condition yes no)
  | repeatWhile {fields : JsonFields} {condition : Condition} {body : List Node} :
    namedType fields = "while" → Listed Mirrors (fields.field? "body") body →
    Mirrors (.object fields) (.repeatWhile condition body)
  | count {fields : JsonFields} {start stop step : Int32} {body : List Node} :
    namedType fields = "for" → Listed Mirrors (fields.field? "body") body →
    Mirrors (.object fields) (.count start stop step body)
  | select {fields : JsonFields} {value : Value} {cases : List (Value × List Node)} {default : List Node} :
    namedType fields = "switch" → Listed MirrorsCase (fields.field? "cases") cases →
    Listed Mirrors (fields.field? "default") default → Mirrors (.object fields) (.select value cases default)
  | leave {fields : JsonFields} : namedType fields = "break" → Mirrors (.object fields) .leave

inductive MirrorsCase : Json → Value × List Node → Prop
  | mk {fields : JsonFields} {value : Value} {body : List Node} :
    Listed Mirrors (fields.field? "body") body → MirrorsCase (.object fields) (value, body)

end

section Silence

variable {α β : Type}

theorem silent_bind {x : Cleaned α} {f : α → Cleaned β} :
    (x >>= f).warnings = [] ↔ x.warnings = [] ∧ (f x.value).warnings = [] := List.append_eq_nil_iff

theorem not_silent_replace {path : Path} {repair : Repair} {a : α} : (replace path repair a).warnings ≠ [] :=
  List.cons_ne_nil _ _

theorem silent_mapM {f : α → Cleaned β} {items : List α} :
    (items.mapM f).warnings = [] ↔ ∀ item ∈ items, (f item).warnings = [] := by
  have loop (done : List β) :
      (List.mapM.loop f items done).warnings = [] ↔ ∀ item ∈ items, (f item).warnings = [] := by
    induction items generalizing done with
    | nil => simp [List.mapM.loop, pure]
    | cons item items ih => simp [List.mapM.loop, silent_bind, ih]
  exact loop []

theorem forall₂_mapM {f : α → Cleaned β} {R : α → β → Prop}
    (each : ∀ item, (f item).warnings = [] → R item (f item).value) {items : List α}
    (silent : (items.mapM f).warnings = []) : List.Forall₂ R items (items.mapM f).value := by
  rw [Cleaned.value_mapM]
  refine List.forall₂_map_right_iff.mpr (List.forall₂_same.mpr fun item member => ?_)
  exact each item (silent_mapM.mp silent item member)

end Silence

theorem map_snd_located (path : Path) (items : List Json) : (located path items).map Prod.snd = items := by
  refine List.ext_getElem? fun index => ?_
  simp [located, Function.comp_def]

theorem forall₂_of_located {α : Type} {R : Json → α → Prop} {path : Path} {items : List Json} {results : List α}
    (each : List.Forall₂ (fun item result => R item.2 result) (located path items) results) :
    List.Forall₂ R items results := by
  rw [← map_snd_located path items]
  exact List.forall₂_map_left_iff.mpr each

/-- Where there is room for all items and none is dropped, each has its instruction. -/
theorem keepUpTo_forall₂ {clean : Path × Json → Cleaned (Option Node)} {R : Path × Json → Node → Prop}
    (each : ∀ item, (clean item).warnings = [] → ∃ node, (clean item).value = some node ∧ R item node) {room : Nat}
    {items : List (Path × Json)} (few : items.length ≤ room) (silent : (keepUpTo clean room items).warnings = []) :
    List.Forall₂ R items (keepUpTo clean room items).value := by
  induction items generalizing room with
  | nil =>
    cases room <;> exact .nil
  | cons item items ih =>
    obtain ⟨room, rfl⟩ : ∃ less, room = less + 1 := Nat.exists_eq_succ_of_ne_zero (by simp at few; omega)
    rw [keepUpTo] at silent ⊢
    obtain ⟨ofItem, ofItems⟩ := silent_bind.mp silent
    obtain ⟨node, kept, mirrors⟩ := each item ofItem
    simp only [kept] at ofItems
    simp only [Cleaned.value_bind, kept, Cleaned.value_pure]
    exact .cons mirrors (ih (Nat.le_of_succ_le_succ few) (silent_bind.mp ofItems).1)

theorem cleanCommand_of_silent {path : Path} {fields : JsonFields}
    (silent : (cleanCommand path fields).warnings = []) :
    ∃ token, (cleanCommand path fields).value = some (.command token) := by
  unfold cleanCommand at silent ⊢
  dsimp only at silent ⊢
  split at silent
  · exact absurd silent not_silent_replace
  · rename_i present
    split at silent
    · rename_i legal
      rw [if_neg present, if_pos legal]
      exact ⟨_, rfl⟩
    · exact absurd silent not_silent_replace

theorem cleanCaseList_listed {α : Type} {R : Json → α → Prop} {path : Path} {raw : Option Json} {results : List α}
    (silent : (cleanCaseList path raw).warnings = [])
    (each : List.Forall₂ R (cleanCaseList path raw).value results) : Listed R raw results := by
  unfold cleanCaseList at silent each
  split at silent
  · cases each
    exact .absent
  · split at silent
    · rename_i few
      simp only [few, if_true] at each
      exact .array each
    · exact absurd silent not_silent_replace
  · exact absurd silent not_silent_replace

/-- An instruction that is cleaned without a remark is kept and mirrors its description, if the lists in it do. -/
theorem cleanNodeWith_mirrors {nodes : Path → Option Json → Cleaned (List Node)}
    (lists : ∀ path raw, (nodes path raw).warnings = [] → Listed Mirrors raw (nodes path raw).value)
    {item : Path × Json} (silent : (cleanNodeWith nodes item).warnings = []) :
    ∃ node, (cleanNodeWith nodes item).value = some node ∧ Mirrors item.2 node := by
  obtain ⟨path, raw⟩ := item
  cases raw with
  | object fields =>
    unfold cleanNodeWith at silent ⊢
    simp only [Json.fields?] at silent ⊢
    split at silent
    · rename_i named
      obtain ⟨token, kept⟩ := cleanCommand_of_silent silent
      exact ⟨_, kept, .command named⟩
    · rename_i named
      exact ⟨_, rfl, .delay named⟩
    · rename_i named
      exact ⟨_, rfl, .assign named⟩
    · rename_i named
      obtain ⟨-, silent⟩ := silent_bind.mp silent
      obtain ⟨ofYes, silent⟩ := silent_bind.mp silent
      exact ⟨_, rfl, .branch named (lists _ _ ofYes) (lists _ _ (silent_bind.mp silent).1)⟩
    · rename_i named
      obtain ⟨-, silent⟩ := silent_bind.mp silent
      exact ⟨_, rfl, .repeatWhile named (lists _ _ (silent_bind.mp silent).1)⟩
    · rename_i named
      obtain ⟨-, silent⟩ := silent_bind.mp silent
      obtain ⟨-, silent⟩ := silent_bind.mp silent
      obtain ⟨-, silent⟩ := silent_bind.mp silent
      exact ⟨_, rfl, .count named (lists _ _ (silent_bind.mp silent).1)⟩
    · rename_i named
      obtain ⟨-, silent⟩ := silent_bind.mp silent
      obtain ⟨ofList, silent⟩ := silent_bind.mp silent
      obtain ⟨ofCases, silent⟩ := silent_bind.mp silent
      refine ⟨_, rfl, .select named (cleanCaseList_listed ofList (forall₂_of_located (forall₂_mapM ?_ ofCases)))
        (lists _ _ (silent_bind.mp silent).1)⟩
      rintro ⟨place, raw⟩ silent
      obtain ⟨ofMatch, silent⟩ := silent_bind.mp silent
      -- What is not an object has no value to match, which is remarked on.
      cases raw with
      | object case => exact .mk (lists _ _ (silent_bind.mp silent).1)
      | _ => exact absurd ofMatch not_silent_replace
    · rename_i named
      exact ⟨_, rfl, .leave named⟩
    · exact absurd silent not_silent_replace
    · exact absurd silent not_silent_replace
  | _ => exact absurd silent not_silent_replace

theorem cleanNodes_listed {levels : Nat} {path : Path} {raw : Option Json}
    (silent : (cleanNodes levels path raw).warnings = []) :
    Listed Mirrors raw (cleanNodes levels path raw).value := by
  induction levels generalizing path raw with
  | zero =>
    match raw with
    | none => exact .absent
    | some (.array []) => exact .array .nil
    | some (.array (_ :: _)) | some .null | some (.bool _) | some (.integer ..) | some (.float _) | some (.string _)
    | some (.object _) => exact absurd silent not_silent_replace
  | succ levels ih =>
    match raw with
    | none => exact .absent
    | some (.array items) =>
      rw [cleanNodes] at silent ⊢
      obtain ⟨ofItems, silent⟩ := silent_bind.mp silent
      split at silent
      · exact absurd (silent_bind.mp silent).1 (List.cons_ne_nil _ _)
      · rename_i fits
        have few : (located path items).length ≤ maxNodes := by simpa [located] using fits
        have kept := keepUpTo_forall₂ (fun _ => cleanNodeWith_mirrors fun _ _ => ih) few ofItems
        simp only [Cleaned.value_bind, if_neg fits]
        exact .array (forall₂_of_located kept)
    | some .null | some (.bool _) | some (.integer ..) | some (.float _) | some (.string _) | some (.object _) =>
      exact absurd silent not_silent_replace

/-- Where cleaning has nothing to remark on, nothing is dropped: the description has an object for the program, and
each phase has an instruction for each one that is described, of the kind that is named, in order and all the way
down. -/
theorem clean_mirrors {raw : Json} (silent : (clean raw).warnings = []) :
    ∃ fields : JsonFields, programOf raw = .object fields ∧
      Listed Mirrors (fields.field? "setup") (clean raw).value.setup ∧
      Listed Mirrors (fields.field? "loop") (clean raw).value.loop := by
  unfold clean at silent ⊢
  cases source : programOf raw with
  | object fields =>
    simp only [source, Json.fields?] at silent ⊢
    obtain ⟨-, silent⟩ := silent_bind.mp silent
    obtain ⟨ofSetup, silent⟩ := silent_bind.mp silent
    exact ⟨fields, rfl, cleanNodes_listed ofSetup, cleanNodes_listed (silent_bind.mp silent).1⟩
  | _ =>
    simp only [source, Json.fields?] at silent
    exact absurd silent not_silent_replace

/-- A description inside another object, with blanks around the names of its kinds and lists that are absent or
null. -/
def spaced : Json :=
  .object [("program", .object [("loop", .array [
    .object [("type", .string " switch "), ("value", .string "TR"), ("default", .null), ("cases", .array [
      .object [("match", .ofInt 1), ("body", .array [
        .object [("type", .string "if\n"), ("then", .array [.object [("type", .string "break")]]),
          ("expr", .object [("op", .string "=="), ("left", .string "I1"), ("right", .ofInt 0)])]])]])],
    .object [("type", .string "cmd"), ("cmd", .string " ern ")]])])]

theorem clean_mirrors_spaced :
    (clean spaced).warnings = [] ∧ ∃ fields : JsonFields, programOf spaced = .object fields ∧
      Listed Mirrors (fields.field? "setup") [] ∧
      Listed Mirrors (fields.field? "loop") [.select (.symbol (.sensor .touch)) [(.integer 1,
        [.branch ⟨.eq, .symbol (.slot (.clamped .int 1)), .integer 0⟩ [.leave] []])] [], .command "ERN"] := by
  have silent : (clean spaced).warnings = [] := rfl
  exact ⟨silent, clean_mirrors silent⟩

end RobotScript.Description
