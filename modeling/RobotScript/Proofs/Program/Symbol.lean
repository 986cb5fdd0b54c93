import RobotScript.Program.Basic
import RobotScript.Proofs.Number.Digits

namespace RobotScript

/-- A digit is the only digit of its own value. -/
theorem digits_ofDigits_singleton {c : Char} (digit : isDigit c = true) : digits (ofDigits [c]) = [c] := by
  have bounds : 48 ≤ c.toNat ∧ c.toNat ≤ 57 := by
    simpa [isDigit, Char.le_def, UInt32.le_iff_toNat_le] using digit
  have small : c.toNat - 48 < 10 := by omega
  have value : ofDigits [c] = c.toNat - 48 := by simp [ofDigits]
  have same : (c.toNat - 48).digitChar = c := by
    apply Char.toNat_inj.mp
    rw [Nat.toNat_digitChar_of_lt_ten small]
    omega
  rw [value, digits, Nat.toDigits_of_lt_base small, same]

namespace SlotType

theorem ofCode?_code (type : SlotType) : ofCode? type.code = some type := by
  cases type <;> rfl

theorem code_of_ofCode? {c : Char} {type : SlotType} (found : ofCode? c = some type) : type.code = c := by
  simpa using List.find?_some found

end SlotType

namespace Slot

/-- The index is a single digit. -/
theorem digits_index (slot : Slot) :
    ∃ c, digits slot.index = [c] ∧ isDigit c = true ∧ ofDigits [c] = slot.index := by
  obtain ⟨type, index, lower, upper⟩ := slot
  have small : index < 10 := Nat.lt_of_le_of_lt upper (by decide)
  have single : digits index = [index.digitChar] := Nat.toDigits_of_lt_base small
  refine ⟨index.digitChar, single, ?_, ?_⟩
  · exact isDigit_of_mem_digits (n := index) (by simp [single])
  · rw [← single, ofDigits_digits]

theorem ofIndex?_index (slot : Slot) : ofIndex? slot.type slot.index = some slot := by
  obtain ⟨type, index, lower, upper⟩ := slot
  simp [ofIndex?, lower, upper]

theorem eq_of_ofIndex? {type : SlotType} {n : Nat} {slot : Slot}
    (found : ofIndex? type n = some slot) : slot.type = type ∧ slot.index = n := by
  unfold ofIndex? at found
  split at found
  · cases Option.some.inj found
    exact ⟨rfl, Int.toNat_natCast n⟩
  · simp at found

end Slot

namespace Symbol

theorem ofChars?_chars (name : Symbol) : ofChars? name.chars = some name := by
  cases name with
  | sensor source => cases source <;> rfl
  | slot place =>
    obtain ⟨c, single, digit, value⟩ := place.digits_index
    have notSensor : c ≠ 'R' := by
      rintro rfl
      exact absurd digit (by decide)
    simp only [chars, Slot.chars, single]
    rw [ofChars?.eq_4 place.type.code c (fun _ same => notSensor same) (fun _ same => notSensor same)
      (fun _ same => notSensor same)]
    simp [SlotType.ofCode?_code, digit, value, Slot.ofIndex?_index]

theorem chars_of_ofChars? {s : List Char} {name : Symbol} (found : ofChars? s = some name) :
    s = name.chars := by
  unfold ofChars? at found
  split at found
  · cases Option.some.inj found; rfl
  · cases Option.some.inj found; rfl
  · cases Option.some.inj found; rfl
  · rename_i code index _ _ _
    obtain ⟨type, atCode, found⟩ := Option.bind_eq_some_iff.mp found
    split at found
    · rename_i digit
      obtain ⟨place, atIndex, same⟩ := Option.map_eq_some_iff.mp found
      obtain ⟨sameType, sameIndex⟩ := Slot.eq_of_ofIndex? atIndex
      rw [← same, chars, Slot.chars, sameType, sameIndex, SlotType.code_of_ofCode? atCode,
        digits_ofDigits_singleton digit]
    · simp at found
  · simp at found

/-- A name is an upper-case letter and a letter or a digit. -/
theorem chars_shape (name : Symbol) :
    ∃ letter c, name.chars = [letter, c] ∧ letter ∈ ['I', 'F', 'C', 'S', 'B', 'T', 'A', 'V'] ∧
      (isDigit c = true ∨ c = 'R') := by
  cases name with
  | sensor source => cases source <;> exact ⟨_, _, rfl, by decide, .inr rfl⟩
  | slot place =>
    obtain ⟨c, single, digit, _⟩ := place.digits_index
    refine ⟨place.type.code, c, by simp [chars, Slot.chars, single], ?_, .inl digit⟩
    cases place.type <;> decide

theorem isCommandChar_of_mem {name : Symbol} {c : Char} (member : c ∈ name.chars) :
    isCommandChar c = true := by
  obtain ⟨letter, d, shape, isLetter, last⟩ := name.chars_shape
  simp only [shape, List.mem_cons, List.not_mem_nil, or_false] at member isLetter
  rcases member with rfl | rfl
  · rcases isLetter with rfl | rfl | rfl | rfl | rfl | rfl | rfl | rfl <;> rfl
  · rcases last with digit | rfl
    · simp [isCommandChar, digit]
    · decide

end Symbol

end RobotScript
