import RobotScript.Config
import RobotScript.Proofs.Json.Record

namespace RobotScript

namespace Service.Settings

/-- The provider that the variables ask for. -/
def askedProvider (environment : String → Option String) : Provider := (ofVariables environment).provider

theorem ofVariables_apiKey (environment : String → Option String) :
    (ofVariables environment).apiKey = setting? environment (askedProvider environment).keyVariable := rfl

/-- Settings without a key of their own have the key of the defaults. -/
theorem decode_apiKey {default settings : Settings} {json : JsonText} {depth : Nat}
    (found : decode default json depth = some settings) (absent : json.field? keys "api_key" = none) :
    settings.apiKey = default.apiKey := by
  unfold decode at found
  obtain ⟨⟨entries, rest⟩, record, found⟩ := Option.bind_eq_some_iff.mp found
  have written := JsonDecoder.record_eq_some (by decide) record
  split at found
  · rename_i provider endpoint model apiKey temperature maxTokens timeoutSecs siteUrl appName depth same
    cases same
    have own : apiKey.value? = json.field? keys "api_key" :=
      Option.some.inj (congrArg (fun values => values[3]?) written)
    dsimp only at found
    rw [JsonEntry.withDefault_of_value? (own.trans absent)] at found
    simp only [Option.bind_eq_bind, Option.bind_eq_some_iff, Option.bind_some] at found
    obtain ⟨_, -, _, -, _, -, _, -, _, -, _, -, _, -, _, -, same⟩ := found
    rw [← Option.some.inj same]
  · simp at found

end Service.Settings

namespace Config

open Service

/-- The settings in a configuration are the defaults, or read with the defaults behind them. -/
theorem decode_service {default config : Config} {json : JsonText} {depth : Nat}
    (found : decode default json depth = some config) :
    (json.field? keys "reasoner" = none ∧ config.service = default.service) ∨
      ∃ service depth, json.field? keys "reasoner" = some service ∧
        Settings.decode default.service service depth = some config.service := by
  unfold decode at found
  obtain ⟨⟨entries, rest⟩, record, found⟩ := Option.bind_eq_some_iff.mp found
  have written := JsonDecoder.record_eq_some (by decide) record
  split at found
  · rename_i service offline keywords blockMap depth same
    cases same
    have own : service.value? = json.field? keys "reasoner" :=
      Option.some.inj (congrArg (fun values => values[0]?) written)
    simp only [Option.bind_eq_bind, Option.bind_eq_some_iff] at found
    obtain ⟨settings, read, _, -, _, -, _, -, same⟩ := found
    rw [← Option.some.inj same, ← own]
    cases service with
    | given service => exact .inr ⟨service, rest, rfl, read⟩
    | missing | cutOff => exact .inl ⟨rfl, (Option.some.inj read).symm⟩
  · simp at found

theorem load_eq_ok {environment : String → Option String} {entry : String → Entry} {path text : String}
    (held : (entry path).text? = some text) {config : Config} :
    load environment entry path = .ok config ↔ (decode (ofVariables environment)).read? text = some config := by
  unfold load
  rw [held]
  dsimp only
  cases (decode (ofVariables environment)).read? text <;> simp

/-- Where a file leaves the key out, the key is that of the provider that the variables ask for, whichever
provider is loaded. -/
theorem load_apiKey {environment : String → Option String} {entry : String → Entry} {path : String} {config : Config}
    (loaded : load environment entry path = .ok config) {text : String} (held : (entry path).text? = some text)
    {json : JsonText} (read : JsonText.read? text.toList = some json)
    (absent : ∀ service ∈ json.field? keys "reasoner", service.field? Settings.keys "api_key" = none) :
    config.service.apiKey =
        Settings.setting? environment (Settings.askedProvider environment).keyVariable ∧
      (config.service.apiKey = Settings.setting? environment config.service.provider.keyVariable ↔
        config.service.provider = Settings.askedProvider environment ∨
          Settings.setting? environment Provider.openAi.keyVariable =
            Settings.setting? environment Provider.openRouter.keyVariable) := by
  have decoded : decode (ofVariables environment) json JsonText.maxDepth = some config := by
    simpa [JsonDecoder.read?, read] using (load_eq_ok held).mp loaded
  have asked : config.service.apiKey =
      Settings.setting? environment (Settings.askedProvider environment).keyVariable := by
    rw [← Settings.ofVariables_apiKey]
    rcases decode_service decoded with ⟨-, same⟩ | ⟨service, depth, given, settings⟩
    · rw [same]
      rfl
    · exact Settings.decode_apiKey settings (absent service given)
  refine ⟨asked, ?_⟩
  rw [asked]
  cases Settings.askedProvider environment <;> cases config.service.provider <;> simp [eq_comm]

/-- The file asks for the provider that the variables ask for as well. -/
theorem load_apiKey_asked :
    let environment : String → Option String := fun name =>
      if name = "AI_PROVIDER" then some " OpenRouter" else if name = "OPENAI_API_KEY" then some "sk-openai"
      else if name = "OPENROUTER_API_KEY" then some "sk-openrouter\n" else none
    let file : Json := .object [("reasoner", .object [("model", .string "m"), ("provider", .string "openrouter")])]
    ∃ config json, load environment (fun _ => .file file.compact) "emmi.json" = .ok config ∧
      JsonText.read? file.compact.toList = some json ∧
      (∀ service ∈ json.field? keys "reasoner", service.field? Settings.keys "api_key" = none) ∧
      config.service.apiKey = some "sk-openrouter" ∧
      config.service.apiKey = Settings.setting? environment config.service.provider.keyVariable := by
  intro environment file
  have textual : file.Textual := by simp [file]
  have read : JsonText.read? file.compact.toList = some file.text := by
    rw [Json.compact, String.toList_ofList]
    exact textual.sound.read?_compact
  have absent : ∀ service ∈ file.text.field? keys "reasoner", service.field? Settings.keys "api_key" = none := by
    intro service found
    cases found
    rfl
  obtain ⟨config, decoded, provider, key⟩ : ∃ config,
      decode (ofVariables environment) file.text JsonText.maxDepth = some config ∧
        config.service.provider = Settings.askedProvider environment ∧
        config.service.apiKey = some "sk-openrouter" := ⟨_, rfl, rfl, rfl⟩
  have loaded : load environment (fun _ => .file file.compact) "emmi.json" = .ok config :=
    (load_eq_ok rfl).mpr (((decode _).read?_compact textual).trans decoded)
  exact ⟨config, file.text, loaded, read, absent, key, (load_apiKey loaded rfl read absent).2.mpr (.inl provider)⟩

/-- The file asks for one provider and gets the key of the other. -/
theorem load_apiKey_of_other_provider :
    let environment : String → Option String := fun name =>
      if name = "OPENAI_API_KEY" then some "sk-openai"
      else if name = "OPENROUTER_API_KEY" then some "sk-openrouter" else none
    let file : Json := .object [("reasoner", .object [("provider", .string "openrouter")])]
    ∃ config, load environment (fun _ => .file file.compact) "emmi.json" = .ok config ∧
      config.service.provider = .openRouter ∧ config.service.apiKey = some "sk-openai" ∧
      Settings.setting? environment Provider.openRouter.keyVariable = some "sk-openrouter" := by
  intro environment file
  have textual : file.Textual := by simp [file]
  obtain ⟨config, decoded, provider, key⟩ : ∃ config,
      decode (ofVariables environment) file.text JsonText.maxDepth = some config ∧
        config.service.provider = .openRouter ∧ config.service.apiKey = some "sk-openai" := ⟨_, rfl, rfl, rfl⟩
  exact ⟨config, (load_eq_ok rfl).mpr (((decode _).read?_compact textual).trans decoded), provider, key, rfl⟩

end Config

end RobotScript
