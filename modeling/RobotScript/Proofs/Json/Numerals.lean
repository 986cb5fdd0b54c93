import RobotScript.Proofs.Json.Decoding
import RobotScript.Proofs.Number.ReadBack

namespace RobotScript

namespace InWord

@[simp] theorem uint32 (n : UInt32) : InWord n.toNat := by
  have upper := n.toNat_lt
  exact ⟨by omega, by omega⟩

@[simp] theorem uint64 (n : UInt64) : InWord n.toNat := by
  have upper := n.toNat_lt
  exact ⟨by omega, by omega⟩

@[simp] theorem int32 (n : Int32) : InWord n.toInt := by
  have lower := n.le_toInt
  have upper := n.toInt_lt
  exact ⟨by omega, by omega⟩

@[simp] theorem int64 (n : Int64) : InWord n.toInt := by
  have lower := n.le_toInt
  have upper := n.toInt_lt
  exact ⟨by omega, by omega⟩

end InWord

namespace Json

variable {n : Int}

theorem ofInt_eq (word : InWord n) : ofInt n = .integer n word := dif_pos word

@[simp] theorem isNull_ofInt (word : InWord n) : (ofInt n).isNull = false := by
  rw [ofInt_eq word]
  rfl

theorem number?_ofInt (word : InWord n) : (ofInt n).number? = (Floating.ofInt .binary64 n).finite? := by
  rw [ofInt_eq word, number?]

end Json

theorem head?_digits_ne_zero {n : Nat} (nonzero : n ≠ 0) : (digits n).head? ≠ some '0' := by
  intro leading
  obtain ⟨rest, split⟩ : ∃ rest, digits n = ['0'] ++ rest := ⟨_, List.eq_cons_of_mem_head? leading⟩
  have small : ofDigits rest < 10 ^ rest.length :=
    ofDigits_lt fun c member => isDigit_of_mem_digits (split ▸ List.mem_append_right _ member)
  have same : n = ofDigits rest := by
    rw [← ofDigits_digits n, split, ofDigits_append]
    simp [ofDigits]
  have large := (digits_length_bounds nonzero).1
  rw [split, List.length_append, List.length_singleton, Nat.add_sub_cancel_left] at large
  omega

namespace Decimal

theorem significant_isPrefix (d : Decimal) : d.significant.1 <+: digits d.coefficient := by
  rw [← List.reverse_suffix]
  simpa [significant] using List.dropWhile_suffix _

theorem head?_significant {d : Decimal} (nonzero : d.coefficient ≠ 0) : d.significant.1.head? ≠ some '0' := by
  obtain ⟨zeros, split⟩ := d.significant_isPrefix
  have same := congrArg List.head? split
  rw [List.head?_append_of_ne_nil _ (significant_spec nonzero).2.1] at same
  exact same ▸ head?_digits_ne_zero nonzero

end Decimal

namespace JsonNumeral

theorem sound_ofInt (n : Int) : (ofInt n).Sound where
  whole := digits_ne_nil _
  wholeDigits _ := isDigit_of_mem_digits
  zero leading := by
    by_cases zero : n.natAbs = 0
    · simp [ofInt, zero, digits]
    · exact absurd leading (head?_digits_ne_zero zero)
  fractionDigits := by simp [ofInt]
  exponent := by simp [ofInt]

/-- A part of the significant digits stands at the front, or a lone zero does. -/
theorem sound_ofDecimal (style : FloatStyle) (d : Decimal) : (ofDecimal style d).Sound := by
  unfold ofDecimal
  dsimp only
  split
  · exact ⟨by simp, by simp [isDigit], by simp, by simp [isDigit], by simp⟩
  · rename_i nonzero
    obtain ⟨digit, nonempty, -⟩ := Decimal.significant_spec nonzero
    have leading := Decimal.head?_significant nonzero
    generalize d.significant = parts at digit nonempty leading ⊢
    obtain ⟨kept, exponent⟩ := parts
    have front {n : Nat} (positive : 0 < n) : kept.take n ≠ [] ∧ (kept.take n).head? ≠ some '0' := by
      obtain ⟨m, rfl⟩ := Nat.exists_eq_succ_of_ne_zero (Nat.ne_of_gt positive)
      obtain ⟨c, rest, rfl⟩ := List.exists_cons_of_ne_nil nonempty
      exact ⟨by simp, by simpa using leading⟩
    have taken (n : Nat) : ∀ c ∈ kept.take n, isDigit c = true := fun c member =>
      digit c (List.mem_of_mem_take member)
    have dropped (n : Nat) : ∀ c ∈ kept.drop n, isDigit c = true := fun c member =>
      digit c (List.mem_of_mem_drop member)
    split
    · split
      · refine ⟨by simp [nonempty], List.forall_mem_append.mpr ⟨digit, Decimal.isDigit_of_mem_zeros⟩, ?_,
          by simp [isDigit], by simp⟩
        intro zero
        rw [List.head?_append_of_ne_nil _ nonempty] at zero
        exact absurd zero leading
      · split
        · rename_i positive
          have positive := front (Int.pos_iff_toNat_pos.mp positive)
          exact ⟨positive.1, taken _, fun zero => absurd zero positive.2, dropped _, by simp⟩
        · exact ⟨by simp, by simp [isDigit], by simp,
            List.forall_mem_append.mpr ⟨Decimal.isDigit_of_mem_zeros, digit⟩, by simp⟩
    · have positive := front Nat.one_pos
      refine ⟨positive.1, taken _, fun zero => absurd zero positive.2, dropped _, ?_⟩
      rintro _ ⟨⟩
      refine ⟨?_, digits_ne_nil _, fun _ => isDigit_of_mem_digits⟩
      split <;> simp

/-- The numeral of an integer is read as this integer. -/
theorem value?_ofInt {n : Int} (word : InWord n) : (ofInt n).value? = some (.integer n word) := by
  have signed : (if (ofInt n).negative then -(ofDigits (ofInt n).whole : Int) else ofDigits (ofInt n).whole) = n := by
    simp only [ofInt, ofDigits_digits, decide_eq_true_eq]
    omega
  have notNegativeZero : ((ofInt n).negative && decide (n = 0)) = false := by
    simp only [ofInt, Bool.and_eq_false_iff, decide_eq_false_iff_not]
    omega
  simp only [value?, signed, notNegativeZero, word, dite_true]
  rfl

end JsonNumeral

namespace JsonText

variable {fields : List (String × JsonText)}

theorem sound_object (each : ∀ field ∈ fields, field.2.Sound) :
    (JsonText.object (fields.map fun field => (pieces field.1, field.2))).Sound :=
  .object (List.forall_mem_map.mpr fun field _ => ⟨field.1, rfl⟩) (List.forall_mem_map.mpr each)

theorem sound_integer {n : Int} (word : InWord n) : (ofJson (.ofInt n)).Sound := by
  rw [Json.ofInt_eq word]
  exact .number (JsonNumeral.sound_ofInt n)

theorem sound_ofText? (s : Option String) : (ofJson (Json.ofText? s)).Sound := by
  cases s with
  | none => exact .null
  | some s => exact .string s

end JsonText

namespace JsonDecoder

theorem optional_text (s : Option String) (depth : Nat) : optional text (Json.ofText? s).text depth = some s := by
  cases s with
  | none => rfl
  | some s => exact congrArg (Option.map some) (text_text s depth)

theorem natBelow_text {n bound : Nat} (word : InWord n) (below : n < bound) (depth : Nat) :
    natBelow bound (Json.text (.ofInt n)) depth = some n := by
  simp only [Json.ofInt_eq word, Json.text, JsonText.ofJson, JsonText.reread, natBelow, JsonNumeral.value?_ofInt word]
  simp [below]

end JsonDecoder

end RobotScript
