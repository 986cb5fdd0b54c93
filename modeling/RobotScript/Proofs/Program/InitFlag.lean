import Mathlib.Data.List.Basic
import RobotScript.Program.Basic

namespace RobotScript.InitFlag

/-- The flags that can stand in a script: a pairing name is short, not empty, and keeps clear of all
that delimits a script. -/
def Valid : InitFlag → Prop
  | .pairing name => name.toList ≠ [] ∧ name.toList.length ≤ maxPairingLength ∧
      name.toList.all isPairingChar = true
  | _ => True

theorem pairingName?_eq_some_iff {s name : List Char} :
    pairingName? s = some name ↔ s = "R\"".toList ++ name ++ ['"'] ∧
      name ≠ [] ∧ name.length ≤ maxPairingLength ∧ name.all isPairingChar = true := by
  constructor
  · intro found
    unfold pairingName? at found
    split at found
    · split at found
      · rename_i s closed
        dsimp only at found
        split at found
        · rename_i rule
          cases found
          obtain ⟨start, rfl⟩ := List.getLast?_eq_some_iff.mp closed
          rw [List.dropLast_concat] at rule ⊢
          exact ⟨rfl, rule⟩
        · cases found
      · cases found
    · cases found
  · rintro ⟨rfl, rule⟩
    show pairingName? ('R' :: '"' :: (name ++ ['"'])) = some name
    simp only [pairingName?, List.getLast?_concat, if_true, List.dropLast_concat]
    rw [if_pos rule]

theorem ofChars?_chars {flag : InitFlag} (valid : flag.Valid) : ofChars? flag.chars = some flag := by
  cases flag with
  | pairing name =>
    have found : pairingName? (chars (.pairing name)) = some name.toList :=
      pairingName?_eq_some_iff.mpr ⟨rfl, valid⟩
    show (pairingName? (chars (.pairing name))).map _ = _
    rw [found, Option.map_some, String.ofList_toList]
  | _ => rfl

theorem of_ofChars? {s : List Char} {flag : InitFlag} (found : ofChars? s = some flag) :
    flag.Valid ∧ s = flag.chars := by
  unfold ofChars? at found
  split at found
  case h_7 =>
    obtain ⟨name, isName, rfl⟩ := Option.map_eq_some_iff.mp found
    obtain ⟨split, rule⟩ := pairingName?_eq_some_iff.mp isName
    refine ⟨?_, ?_⟩
    · simpa only [Valid, String.toList_ofList] using rule
    · simpa only [chars, String.toList_ofList] using split
  all_goals
    cases found
    exact ⟨trivial, rfl⟩

/-- No bar stands in a flag, so the bars around flags separate them. -/
theorem bar_not_mem_chars {flag : InitFlag} (valid : flag.Valid) : ∀ c ∈ flag.chars, (c != '|') = true := by
  intro c member
  cases flag with
  | pairing name =>
    simp only [chars, List.mem_append, List.mem_singleton] at member
    rcases member with (opening | inName) | rfl
    · have unbarred : "R\"".toList.all (· != '|') = true := by decide
      exact List.all_eq_true.mp unbarred c opening
    · have allowed := List.all_eq_true.mp valid.2.2 c inName
      simp only [bne_iff_ne]
      rintro rfl
      exact absurd allowed (by decide)
    · decide
  | _ =>
    rw [List.mem_singleton.mp member]
    rfl

theorem chars_ne_nil (flag : InitFlag) : flag.chars ≠ [] := by
  cases flag <;> simp [chars]

/-- No flag is taken for the mark of a section. -/
theorem chars_ne_section {flag : InitFlag} : flag.chars ≠ ['S'] ∧ flag.chars ≠ ['L'] := by
  cases flag <;> simp [chars]

end RobotScript.InitFlag
