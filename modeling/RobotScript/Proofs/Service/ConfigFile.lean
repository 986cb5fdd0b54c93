import RobotScript.Proofs.Folder.Writing
import RobotScript.Proofs.Json.Numerals
import RobotScript.Proofs.Service.KeySource

namespace RobotScript

namespace Service

theorem Provider.decode_text (provider : Provider) (depth : Nat) :
    decode (Json.text (.string provider.name)) depth = some provider := by
  refine (congrArg (Option.bind · ofFileName?) (Json.text?_spelling provider.name)).trans ?_
  cases provider <;> decide

namespace Settings

variable {settings : Settings} {x : FiniteFloat .binary32}

/-- The fields of settings with a finite temperature, as they are written. -/
def fields (settings : Settings) (x : FiniteFloat .binary32) : List (String × JsonText) :=
  [("provider", .ofJson (.string settings.provider.name)), ("endpoint", .ofJson (.string settings.endpoint)),
    ("model", .ofJson (.string settings.model)), ("temperature", .number (.ofFloat .single x)),
    ("max_tokens", .ofJson ((settings.maxTokens.map fun n => Json.ofInt n.toNat).getD .null)),
    ("timeout_secs", .ofJson (.ofInt settings.timeoutSecs.toNat)),
    ("site_url", .ofJson (Json.ofText? settings.siteUrl)), ("app_name", .ofJson (Json.ofText? settings.appName))]

theorem toText_eq (finite : settings.temperature = .finite x) :
    settings.toText = .object ((settings.fields x).map fun field => (JsonText.pieces field.1, field.2)) := by
  unfold toText
  rw [finite]
  rfl

theorem sound_toText (finite : settings.temperature = .finite x) : settings.toText.Sound := by
  have limit : (JsonText.ofJson ((settings.maxTokens.map fun n => Json.ofInt n.toNat).getD .null)).Sound := by
    cases settings.maxTokens with
    | none => exact .null
    | some n => exact JsonText.sound_integer (.uint32 n)
  rw [toText_eq finite]
  refine JsonText.sound_object ?_
  simp only [fields, List.forall_mem_cons]
  exact ⟨.string _, .string _, .string _, .number (JsonNumeral.sound_ofDecimal _ _), limit,
    JsonText.sound_integer (.uint64 _), JsonText.sound_ofText? _, JsonText.sound_ofText? _, by simp⟩

theorem optional_maxTokens (n : Option UInt32) (depth : Nat) :
    JsonDecoder.optional (JsonDecoder.natBelow UInt32.size)
      (Json.text ((n.map fun n => Json.ofInt n.toNat).getD .null)) depth = some (n.map (·.toNat)) := by
  cases n with
  | none => rfl
  | some n =>
    have read := JsonDecoder.natBelow_text (.uint32 n) n.toNat_lt depth
    rw [Option.map_some, Option.getD_some]
    rw [Json.ofInt_eq (.uint32 n)] at read ⊢
    exact congrArg (Option.map some) read

/-- The entries that a record of settings is read into. Nothing but the key is missing. -/
theorem record_toText (finite : settings.temperature = .finite x) (depth : Nat) :
    JsonDecoder.record keys settings.toText.reread (depth + 1) =
      some ([.given (Json.text (.string settings.provider.name)), .given (Json.text (.string settings.endpoint)),
        .given (Json.text (.string settings.model)), .missing, .given (.number (.ofFloat .single x)),
        .given (Json.text ((settings.maxTokens.map fun n => Json.ofInt n.toNat).getD .null)),
        .given (Json.text (.ofInt settings.timeoutSecs.toNat)), .given (Json.text (Json.ofText? settings.siteUrl)),
        .given (Json.text (Json.ofText? settings.appName))], depth) := by
  have distinct : ((settings.fields x).map (·.1)).Nodup :=
    List.nodup_iff_pairwise_ne.mpr (by decide : ["provider", "endpoint", "model", "temperature", "max_tokens",
      "timeout_secs", "site_url", "app_name"].Pairwise (· ≠ ·))
  rw [toText_eq finite]
  exact JsonDecoder.record_reread distinct keys depth

/-- Settings read back from their own text have everything but the key from there. -/
theorem decode_toText (finite : settings.temperature = .finite x)
    (reads : JsonDecoder.single (.number (.ofFloat .single x)) 0 = some (.finite x)) (default : Settings)
    (depth : Nat) :
    decode default settings.toText.reread (depth + 1) = some { settings with apiKey := default.apiKey } := by
  have timeout := JsonDecoder.natBelow_text (.uint64 settings.timeoutSecs) settings.timeoutSecs.toNat_lt depth
  have temperature : JsonDecoder.single (.number (.ofFloat .single x)) depth = some settings.temperature :=
    finite ▸ reads
  unfold decode
  rw [record_toText finite]
  simp only [JsonEntry.withDefault, Provider.decode_text, JsonDecoder.text_text, JsonDecoder.optional_text,
    optional_maxTokens, timeout, temperature, Option.bind_eq_bind, Option.bind_some, pure]
  simp [Function.comp_def]

end Settings

end Service

namespace Config

open Service

/-- A configuration with another key. -/
def withKey (config : Config) (key : Option String) : Config :=
  { config with service := { config.service with apiKey := key } }

variable {config : Config} {x : FiniteFloat .binary32}

/-- The fields of a configuration, as they are written. -/
def fields (config : Config) : List (String × JsonText) :=
  [("reasoner", config.service.toText), ("offline", .bool config.offline),
    ("heuristic_fallback", .bool config.keywords), ("block_map", .ofJson (Json.ofText? config.blockMap))]

theorem toText_eq (config : Config) :
    config.toText = .object (config.fields.map fun field => (JsonText.pieces field.1, field.2)) := rfl

theorem toText_withKey (config : Config) (key : Option String) : (config.withKey key).toText = config.toText := rfl

theorem sound_toText (finite : config.service.temperature = .finite x) : config.toText.Sound := by
  rw [toText_eq]
  refine JsonText.sound_object ?_
  simp only [fields, List.forall_mem_cons]
  exact ⟨Settings.sound_toText finite, .bool _, .bool _, JsonText.sound_ofText? _, by simp⟩

theorem record_toText (config : Config) (depth : Nat) :
    JsonDecoder.record keys config.toText.reread (depth + 1) =
      some ([.given config.service.toText.reread, .given (.bool config.offline), .given (.bool config.keywords),
        .given (Json.text (Json.ofText? config.blockMap))], depth) := by
  have distinct : (config.fields.map (·.1)).Nodup :=
    List.nodup_iff_pairwise_ne.mpr
      (by decide : ["reasoner", "offline", "heuristic_fallback", "block_map"].Pairwise (· ≠ ·))
  rw [toText_eq]
  exact JsonDecoder.record_reread distinct keys depth

/-- A configuration read back from its own text has everything but the key from there. -/
theorem decode_toText (finite : config.service.temperature = .finite x)
    (reads : JsonDecoder.single (.number (.ofFloat .single x)) 0 = some (.finite x)) (default : Config) (depth : Nat) :
    decode default config.toText.reread (depth + 2) = some (config.withKey default.service.apiKey) := by
  unfold decode
  rw [record_toText]
  simp only [JsonEntry.withDefault, Settings.decode_toText finite reads, JsonDecoder.bool, JsonDecoder.optional_text,
    Option.bind_eq_bind, Option.bind_some, pure]
  rfl

theorem load_fileText (finite : config.service.temperature = .finite x)
    (reads : JsonDecoder.single (.number (.ofFloat .single x)) 0 = some (.finite x))
    (environment : String → Option String) {entry : String → Entry} {path : String}
    (held : (entry path).text? = some config.fileText) :
    load environment entry path = .ok (config.withKey (Settings.ofVariables environment).apiKey) := by
  rw [load_eq_ok held, JsonDecoder.read?, fileText, String.toList_ofList, (sound_toText finite).read?_pretty]
  exact decode_toText finite reads (ofVariables environment) 125

theorem save_eq_ok {folder : Folder} {path : String} (saved : (config.save folder path).1 = .ok ()) :
    folder.write path config.fileText = (.ok (), (config.save folder path).2) := by
  unfold save at saved ⊢
  generalize folder.write path config.fileText = outcome at saved ⊢
  obtain ⟨_ | _, after⟩ := outcome
  · simp [Except.mapError] at saved
  · rfl

/-- What is saved does not depend on the key, and what is loaded again is the configuration itself with the key of the
variables, which say nothing else. -/
theorem load_save (finite : config.service.temperature = .finite x)
    (reads : JsonDecoder.single (.number (.ofFloat .single x)) 0 = some (.finite x)) :
    (∀ key folder path, (config.withKey key).save folder path = config.save folder path) ∧
      ∀ environment,
        (∀ entry path, (entry path).text? = some config.fileText →
          load environment entry path = .ok (config.withKey (Settings.ofVariables environment).apiKey)) ∧
        ∀ folder path, (config.save folder path).1 = .ok () →
          load environment (config.save folder path).2.entry path =
            .ok (config.withKey (Settings.ofVariables environment).apiKey) := by
  refine ⟨fun key folder path => ?_, fun environment => ⟨fun entry path held => ?_, fun folder path saved => ?_⟩⟩
  · rw [save, save, fileText, fileText, toText_withKey]
  · exact load_fileText finite reads environment held
  · refine load_fileText finite reads environment ?_
    rw [Folder.entry_of_write (save_eq_ok saved)]
    rfl

/-- The variables would set every field, and the key is not the one that was held. -/
theorem load_save_guarded :
    let config : Config :=
      { service := { Settings.ofProvider .openRouter with apiKey := some "sk-secret", appName := some "EMMI" }
        offline := true, keywords := false, blockMap := some "blocks.json" }
    let environment : String → Option String := fun name =>
      if name = "OPENAI_API_KEY" then some " sk-other\n" else some "1"
    let folder := Folder.ofList [("conf/emmi.json", "old")]
    (config.save folder "conf/emmi.json").1 = .ok () ∧
      load environment (config.save folder "conf/emmi.json").2.entry "conf/emmi.json" =
        .ok (config.withKey (some "sk-other")) := by
  intro config environment folder
  obtain ⟨x, finite, reads⟩ : ∃ x, config.service.temperature = .finite x ∧
      JsonDecoder.single (.number (.ofFloat .single x)) 0 = some (.finite x) := ⟨_, rfl, by decide⟩
  have saved : (config.save folder "conf/emmi.json").1 = .ok () := rfl
  exact ⟨saved, ((load_save finite reads).2 environment).2 folder _ saved⟩

end Config

end RobotScript
