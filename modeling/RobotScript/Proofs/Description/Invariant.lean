import Mathlib.Data.Set.List
import RobotScript.Proofs.Description.Whitelist
import RobotScript.Proofs.Program.Symbol

namespace RobotScript

open Description

/-- What a program is after cleaning: each instruction is clean where it stands, no list is too long, and the
flags are those that the instructions need, with distinct pairing names behind them. -/
structure Program.Clean (p : Program) : Prop where
  within : ∀ k node, Within p.nodes k node → node.Clean ∧ k ≤ maxDepth
  setup : p.setup.length ≤ maxNodes
  loop : p.loop.length ≤ maxNodes
  flags : ∃ names : List String, p.initFlags = inferFlags p.setup p.loop ++ names.map .pairing ∧ names.Nodup ∧
    ∀ name ∈ names, (InitFlag.pairing name).Valid

theorem Program.Clean.flags_valid {p : Program} (clean : p.Clean) : ∀ flag ∈ p.initFlags, flag.Valid := by
  obtain ⟨names, flags, -, valid⟩ := clean.flags
  rw [flags]
  exact List.forall_mem_append.mpr ⟨inferFlags_valid _ _, List.forall_mem_map.mpr valid⟩

namespace Description

theorem cleanFlags_names (raw : Option Json) :
    ∃ names : List String, (cleanFlags raw).value = names.map .pairing ∧ names.Nodup ∧
      ∀ name ∈ names, (InitFlag.pairing name).Valid := by
  have pairings : (cleanFlags raw).value ∈ Set.range (List.map InitFlag.pairing) := by
    rw [Set.range_list_map]
    intro flag member
    obtain ⟨-, name, rfl⟩ := cleanFlags_spec member
    exact ⟨name, rfl⟩
  obtain ⟨names, same⟩ := pairings
  have distinct := cleanFlags_nodup raw
  rw [← same] at distinct
  refine ⟨names, same.symm, distinct.of_map, fun name member => ?_⟩
  have kept : InitFlag.pairing name ∈ (cleanFlags raw).value := same ▸ List.mem_map_of_mem member
  exact (cleanFlags_spec kept).1

/-- Whatever the description is, the program that comes out of it is clean. -/
theorem clean_program (raw : Json) : (clean raw).value.Clean := by
  refine ⟨fun k node within => within_clean within, ?_, ?_, ?_⟩
  · unfold clean
    split
    · exact Nat.zero_le _
    · exact cleanNodes_length _ _ _
  · unfold clean
    split
    · exact Nat.zero_le _
    · exact cleanNodes_length _ _ _
  · unfold clean
    split
    · exact ⟨[], rfl, List.nodup_nil, by simp⟩
    · rename_i fields _
      obtain ⟨names, same, distinct, valid⟩ := cleanFlags_names (fields.field? "initFlags")
      refine ⟨names, ?_, distinct, valid⟩
      simp only [Cleaned.value_bind, Cleaned.value_pure, same]

end Description

/-- The rules for what may reach the robot, one by one. Each holds at every depth. -/
structure Program.Whitelisted (p : Program) : Prop where
  command : ∀ k token, Within p.nodes k (.command token) → isCommandToken token.toList = true
  step : ∀ k start stop step body, Within p.nodes k (.count start stop step body) → step ≠ 0
  target : ∀ k slot op value, Within p.nodes k (.assign slot op value) → 1 ≤ slot.index ∧ slot.index ≤ 5
  slot : ∀ k node place, Within p.nodes k node → .symbol (.slot place) ∈ node.values →
    1 ≤ place.index ∧ place.index ≤ 5
  float : ∀ k node x, Within p.nodes k node → .float x ∈ node.values → x.isFinite = true
  text : ∀ k node s, Within p.nodes k node → .text s ∈ node.values →
    Text.trim s.toList = s.toList ∧ s.toList.length ≤ 120 ∧
      (∀ c ∈ s.toList, Text.isControl c = false ∧ c ∉ ['|', '{', '}', '(', ')', ',']) ∧
      ∀ name : Symbol, s.toList ≠ name.chars
  phases : p.setup.length ≤ 200 ∧ p.loop.length ≤ 200
  bodies : ∀ k node body, Within p.nodes k node → body ∈ node.bodies → body.length ≤ 200
  cases : ∀ k value cases default, Within p.nodes k (.select value cases default) → cases.length ≤ 12
  depth : ∀ k node, Within p.nodes k node → k ≤ 6
  flags : ∃ names : List String, p.initFlags = inferFlags p.setup p.loop ++ names.map .pairing ∧ names.Nodup ∧
    ∀ name ∈ names, 1 ≤ name.toList.length ∧ name.toList.length ≤ 32 ∧ ∀ c ∈ name.toList,
      Text.isControl c = false ∧ c ∉ ['"', '\\', '|', '{', '}', '(', ')']

namespace Description

theorem isReserved_eq_false_iff {c : Char} :
    isReserved c = false ↔ Text.isControl c = false ∧ c ∉ ['|', '{', '}', '(', ')', ','] := by
  rw [isReserved, Bool.or_eq_false_iff, decide_eq_false_iff_not]

/-- Whatever the description is, its program keeps to the whitelist. -/
theorem clean_whitelisted (raw : Json) : (clean raw).value.Whitelisted := by
  obtain ⟨within, setup, loop, names, flags, distinct, valid⟩ := clean_program raw
  have legal (k : Nat) (node : Node) (stands : Within (clean raw).value.nodes k node) := (within k node stands).1.legal
  have values (k : Nat) (node : Node) (v : Value) (stands : Within (clean raw).value.nodes k node)
      (member : v ∈ node.values) := (within k node stands).1.values v member
  constructor
  case command => exact fun k token => legal k (.command token)
  case step => exact fun k start stop step body => legal k (.count start stop step body)
  case target => exact fun _ slot _ _ _ => ⟨slot.one_le, slot.le_max⟩
  case slot => exact fun _ _ place _ _ => ⟨place.one_le, place.le_max⟩
  case float => exact fun k node x => values k node (.float x)
  case text =>
    intro k node s stands member
    obtain ⟨trimmed, short, unreserved, noName⟩ := values k node (.text s) stands member
    refine ⟨trimmed, short, fun c inText => isReserved_eq_false_iff.mp (unreserved c inText), fun name same => ?_⟩
    rw [same, Symbol.ofChars?_chars] at noName
    cases noName
  case phases => exact ⟨setup, loop⟩
  case bodies => exact fun k node body stands => (within k node stands).1.bodies body
  case cases => exact fun k value cases default => legal k (.select value cases default)
  case depth => exact fun k node stands => (within k node stands).2
  case flags =>
    refine ⟨names, flags, distinct, fun name member => ?_⟩
    obtain ⟨nonempty, short, allowed⟩ := valid name member
    refine ⟨List.length_pos_of_ne_nil nonempty, short, fun c inName => ?_⟩
    have ok := List.all_eq_true.mp allowed c inName
    simpa only [InitFlag.isPairingChar, Bool.and_eq_true, Bool.not_eq_true', decide_eq_false_iff_not] using ok

end Description

end RobotScript
