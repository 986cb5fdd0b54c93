import Mathlib.Algebra.Group.Nat.Defs
import RobotScript.Number.Numeral

namespace RobotScript

theorem isDigit_eq (c : Char) : isDigit c = c.isDigit := by
  rfl

theorem digits_ne_nil (n : Nat) : digits n ≠ [] := Nat.toDigits_ne_nil

theorem isDigit_of_mem_digits {n : Nat} {c : Char} (member : c ∈ digits n) : isDigit c = true := by
  rw [isDigit_eq]
  exact Nat.isDigit_of_mem_toDigits (by decide) (by decide) member

theorem ofDigits_eq (s : List Char) : ofDigits s = Nat.ofDigitChars 10 s 0 := by
  rw [Nat.ofDigitChars_eq_foldl]
  rfl

theorem ofDigits_digits (n : Nat) : ofDigits (digits n) = n := by
  rw [ofDigits_eq]
  exact Nat.ofDigitChars_ten_toDigits

theorem ofDigits_append (s t : List Char) :
    ofDigits (s ++ t) = ofDigits s * 10 ^ t.length + ofDigits t := by
  simp only [ofDigits_eq, Nat.ofDigitChars_append]
  rw [Nat.ofDigitChars_eq_ofDigitChars_zero, Nat.mul_comm]

theorem ofDigits_zeros (n : Nat) : ofDigits (List.replicate n '0') = 0 := by
  simp [ofDigits_eq, Nat.ofDigitChars_replicate_zero]

theorem toNat_digit_le {c : Char} (digit : isDigit c = true) : c.toNat - '0'.toNat ≤ 9 := by
  simp only [isDigit, Bool.and_eq_true, decide_eq_true_eq, Char.le_def, UInt32.le_iff_toNat_le] at digit
  exact Nat.sub_le_iff_le_add.mpr digit.2

theorem ofDigits_lt {s : List Char} (digit : ∀ c ∈ s, isDigit c = true) : ofDigits s < 10 ^ s.length := by
  induction s with
  | nil => decide
  | cons c s ih =>
    obtain ⟨first, others⟩ := List.forall_mem_cons.mp digit
    have value : ofDigits [c] ≤ 9 := by simpa [ofDigits] using toNat_digit_le first
    have tail := ih others
    rw [← List.singleton_append, ofDigits_append, List.length_append, List.length_singleton, Nat.pow_add]
    have scaled := Nat.mul_le_mul_right (10 ^ s.length) value
    omega

/-- The last digits of a number are what is left of it modulo a power of ten. -/
theorem ofDigits_drop {s : List Char} (digit : ∀ c ∈ s, isDigit c = true) (most : Nat) :
    ofDigits (s.drop (s.length - most)) = ofDigits s % 10 ^ most := by
  have small : ofDigits (s.drop (s.length - most)) < 10 ^ (s.drop (s.length - most)).length :=
    ofDigits_lt fun c member => digit c (List.mem_of_mem_drop member)
  rw [List.length_drop] at small
  rcases Nat.le_total s.length most with short | long
  · rw [Nat.sub_eq_zero_of_le short, List.drop_zero] at small ⊢
    exact (Nat.mod_eq_of_lt (Nat.lt_of_lt_of_le small (Nat.pow_le_pow_right (by decide) (by omega)))).symm
  · have whole := ofDigits_append (s.take (s.length - most)) (s.drop (s.length - most))
    have kept : s.length - (s.length - most) = most := by omega
    rw [kept] at small
    rw [List.take_append_drop, List.length_drop, kept] at whole
    rw [whole, Nat.mul_add_mod_of_lt small]

/-- A number of `k` digits lies below `10 ^ k` and, if it is not zero, not below `10 ^ (k - 1)`. -/
theorem digits_length_le_iff {n k : Nat} (positive : 0 < k) : (digits n).length ≤ k ↔ n < 10 ^ k :=
  Nat.length_toDigits_le_iff (by decide) positive

theorem readDigits?_eq_some_iff {s : List Char} {n : Nat} :
    readDigits? s = some n ↔ s ≠ [] ∧ (∀ c ∈ s, isDigit c = true) ∧ ofDigits s = n := by
  simp [readDigits?, and_assoc]

theorem readDigits?_digits (n : Nat) : readDigits? (digits n) = some n :=
  readDigits?_eq_some_iff.mpr ⟨digits_ne_nil n, fun _ => isDigit_of_mem_digits, ofDigits_digits n⟩

theorem ne_sign_of_isDigit {c : Char} (digit : isDigit c = true) : c ≠ '-' ∧ c ≠ '+' := by
  constructor <;> rintro rfl <;> exact absurd digit (by decide)

theorem splitSign_of_isDigit {c : Char} (s : List Char) (digit : isDigit c = true) :
    splitSign (c :: s) = (false, c :: s) := by
  obtain ⟨minus, plus⟩ := ne_sign_of_isDigit digit
  unfold splitSign
  split
  · rename_i same
    exact absurd (List.cons.inj same).1 minus
  · rename_i same
    exact absurd (List.cons.inj same).1 plus
  · rfl

theorem digits_eq_cons (n : Nat) : ∃ c s, digits n = c :: s ∧ isDigit c = true := by
  obtain ⟨c, s, split⟩ := List.exists_cons_of_ne_nil (digits_ne_nil n)
  exact ⟨c, s, split, isDigit_of_mem_digits (n := n) (by simp [split])⟩

theorem readNat?_digits (n : Nat) : readNat? (digits n) = some n := by
  obtain ⟨c, s, split, digit⟩ := digits_eq_cons n
  have plus := (ne_sign_of_isDigit digit).2
  have read := readDigits?_digits n
  rw [split] at read ⊢
  unfold readNat?
  split
  · rename_i same
    exact absurd (List.cons.inj same).1 plus
  · exact read

theorem readInt?_of_isDigit {s : List Char} (nonempty : s ≠ []) (digit : ∀ c ∈ s, isDigit c = true) :
    readInt? s = some (ofDigits s : Int) ∧ readInt? ('-' :: s) = some (-(ofDigits s : Int)) := by
  have read : readDigits? s = some (ofDigits s) := readDigits?_eq_some_iff.mpr ⟨nonempty, digit, rfl⟩
  obtain ⟨c, t, rfl⟩ := List.exists_cons_of_ne_nil nonempty
  constructor
  · simp only [readInt?, splitSign_of_isDigit t (digit c (by simp)), read, Bool.false_eq_true, if_false]
    rfl
  · simp only [readInt?, splitSign, read, if_true]
    rfl

theorem readInt?_intDigits (n : Int) : readInt? (intDigits n) = some n := by
  obtain ⟨positive, negative⟩ := readInt?_of_isDigit (digits_ne_nil n.natAbs) fun _ => isDigit_of_mem_digits
  rw [ofDigits_digits] at positive negative
  unfold intDigits
  split
  · rw [negative]
    exact congrArg some (by omega)
  · rw [positive]
    exact congrArg some (by omega)

theorem readUInt32?_digits (n : UInt32) : readUInt32? (digits n.toNat) = some n := by
  simp [readUInt32?, readNat?_digits, n.toNat_lt_size]

theorem readInt32?_eq_some_iff {s : List Char} {n : Int32} :
    readInt32? s = some n ↔ readInt? s = some n.toInt := by
  constructor
  · intro found
    obtain ⟨m, read, found⟩ := Option.bind_eq_some_iff.mp found
    split at found
    · rename_i bounds
      rw [read, ← Option.some.inj found, Int32.toInt_ofInt_of_le bounds.1 (Int.lt_add_one_of_le bounds.2)]
    · cases found
  · intro read
    rw [readInt32?, read, Option.bind_some, if_pos ⟨n.minValue_le_toInt, n.toInt_le⟩, Int32.ofInt_toInt]

theorem readInt32?_intDigits (n : Int32) : readInt32? (intDigits n.toInt) = some n :=
  readInt32?_eq_some_iff.mpr (readInt?_intDigits n.toInt)

theorem readInt64?_intDigits (n : Int64) : readInt64? (intDigits n.toInt) = some n := by
  have lower := n.minValue_le_toInt
  have upper := n.toInt_le
  rw [readInt64?, readInt?_intDigits, Option.bind_some, if_pos ⟨lower, upper⟩, Int64.ofInt_toInt]

end RobotScript
