import RobotScript.Proofs.Number.Digits
import RobotScript.Request.Delay

namespace RobotScript

namespace Request

theorem isDecimalDigit_of_isDigit {c : Char} (digit : isDigit c = true) : Text.isDecimalDigit c = true := by
  simp only [isDigit, Bool.and_eq_true, decide_eq_true_eq, Char.le_def, UInt32.le_iff_toNat_le] at digit
  refine List.any_eq_true.mpr ⟨0x30, List.mem_cons_self, ?_⟩
  simpa using ⟨digit.1, Nat.lt_succ_of_le digit.2⟩

section Quantities

variable {least most : Nat} {isUnit : List Char → Bool}

theorem quantityAfter_append {ds : List Char} (digit : ∀ c ∈ ds, isDigit c = true) (run rest : List Char) :
    quantityAfter least most isUnit run (ds ++ rest) = quantityAfter least most isUnit (run ++ ds) rest := by
  induction ds generalizing run with
  | nil => rw [List.nil_append, List.append_nil]
  | cons c ds ih =>
    obtain ⟨first, others⟩ := List.forall_mem_cons.mp digit
    rw [List.cons_append, quantityAfter, if_pos (isDecimalDigit_of_isDigit first), ih others, List.append_assoc]
    rfl

/-- Behind a blank, the search goes on only where the run is too short or no unit stands there. -/
theorem quantityAfter_blank (run s : List Char) :
    quantityAfter least most isUnit run (' ' :: s) =
      if least ≤ run.length && isUnit (s.dropWhile Text.isBlank) then some (run.drop (run.length - most))
      else quantityAfter least most isUnit [] s := by
  have blank : Text.isBlank ' ' = true := by decide
  rw [quantityAfter, if_neg (by decide), List.dropWhile_cons_of_pos blank]

theorem quantity?_digits (n : Nat) (s : List Char) :
    quantity? least most isUnit (digits n ++ ' ' :: s) =
      if least ≤ (digits n).length && isUnit (s.dropWhile Text.isBlank) then
        some ((digits n).drop ((digits n).length - most))
      else quantityAfter least most isUnit [] s := by
  rw [quantity?, quantityAfter_append fun _ => isDigit_of_mem_digits, List.nil_append, quantityAfter_blank]

end Quantities

/-- Of a long number the last digits are read, as if the others were not there. -/
theorem readDigits?_last (n : Nat) {most : Nat} (positive : 0 < most) :
    readDigits? ((digits n).drop ((digits n).length - most)) = some (n % 10 ^ most) := by
  have digit : ∀ c ∈ digits n, isDigit c = true := fun _ => isDigit_of_mem_digits
  have length : 0 < (digits n).length := List.length_pos_iff.mpr (digits_ne_nil n)
  refine readDigits?_eq_some_iff.mpr ⟨?_, fun c member => digit c (List.mem_of_mem_drop member), ?_⟩
  · refine List.ne_nil_of_length_pos ?_
    rw [List.length_drop]
    omega
  · rw [ofDigits_drop digit, ofDigits_digits]

theorem two_le_length_digits {n : Nat} (large : 10 ≤ n) : 2 ≤ (digits n).length := by
  have long := mt (digits_length_le_iff (n := n) Nat.one_pos).mp (by omega)
  omega

/-- A request for a number of milliseconds. -/
def milliseconds (n : Nat) : List Char := digits n ++ " ms".toList

/-- A request for a number of seconds. -/
def seconds (n : Nat) : List Char := digits n ++ " seconds".toList

theorem namedDelay?_milliseconds {n : Nat} (large : 10 ≤ n) : namedDelay? (milliseconds n) = some (n % 100000) := by
  have found : quantity? 2 5 isMilliseconds (milliseconds n) = some ((digits n).drop ((digits n).length - 5)) :=
    (quantity?_digits n ['m', 's']).trans (if_pos (by simp [two_le_length_digits large]; decide))
  rw [namedDelay?, found]
  exact readDigits?_last n (by decide)

theorem namedDelay?_seconds (n : Nat) : namedDelay? (seconds n) = some (n % 1000 * 1000) := by
  have noMilliseconds : quantity? 2 5 isMilliseconds (seconds n) = none := by
    refine (quantity?_digits n "seconds".toList).trans ((if_neg ?_).trans (by decide))
    have other : isMilliseconds ("seconds".toList.dropWhile Text.isBlank) = false := by decide
    rw [other, Bool.and_false]
    exact Bool.false_ne_true
  have found : quantity? 1 3 isSeconds (seconds n) = some ((digits n).drop ((digits n).length - 3)) := by
    have length : 1 ≤ (digits n).length := List.length_pos_iff.mpr (digits_ne_nil n)
    exact (quantity?_digits n "seconds".toList).trans (if_pos (by simp [length]; decide))
  have read : readDigits? ((digits n).drop ((digits n).length - 3)) = some (n % 1000) :=
    readDigits?_last n (by decide)
  rw [namedDelay?, noMilliseconds, found]
  exact congrArg (Option.map (· * 1000)) read

theorem delay_of_namedDelay? {s : List Char} {ms : Nat} (named : namedDelay? s = some ms) :
    delay s = min (max ms 20) 10000 := by
  rw [delay, named]
  show max 20 (min 10000 ms) = min (max ms 20) 10000
  omega

theorem delay_milliseconds {n : Nat} (large : 10 ≤ n) :
    delay (milliseconds n) = min (max (n % 100000) 20) 10000 :=
  delay_of_namedDelay? (namedDelay?_milliseconds large)

theorem delay_seconds (n : Nat) : delay (seconds n) = min (max (n % 1000 * 1000) 20) 10000 :=
  delay_of_namedDelay? (namedDelay?_seconds n)

/-- Where numbers are read up to a bound, a request gets the longest delay so far exactly if its number is below the
bound or asks for the longest of all. -/
theorem delay_longest_iff {request : Nat → List Char} {least bound unit : Nat}
    (read : ∀ n, least ≤ n → delay (request n) = min (max (n % bound * unit) 20) 10000) (inside : least < bound)
    (full : 10000 ≤ (bound - 1) * unit) {n : Nat} (large : least ≤ n) :
    (∀ m, least ≤ m → m ≤ n → delay (request m) ≤ delay (request n)) ↔ n < bound ∨ 10000 ≤ n % bound * unit := by
  constructor
  · intro longest
    rcases Nat.lt_or_ge n bound with short | long
    · exact .inl short
    · have last : (bound - 1) % bound = bound - 1 := Nat.mod_eq_of_lt (by omega)
      have least := longest (bound - 1) (by omega) (by omega)
      rw [read _ (by omega), read n large, last] at least
      omega
  · rintro (short | long) m lower upper
    · have less : m * unit ≤ n * unit := Nat.mul_le_mul_right unit upper
      rw [read m lower, read n large, Nat.mod_eq_of_lt short, Nat.mod_eq_of_lt (by omega)]
      omega
    · rw [read m lower, read n large]
      omega

/-- A request gets the delay that it names, within bounds, exactly where its number is short enough to be read whole
or its last digits alone ask for the longest delay. Exactly there, no smaller number gets a longer delay. -/
theorem delay_eq_named_iff (n : Nat) :
    (10 ≤ n → delay (milliseconds n) = min (max (n % 100000) 20) 10000 ∧
      (delay (milliseconds n) = min (max n 20) 10000 ↔ n < 100000 ∨ 10000 ≤ n % 100000) ∧
      ((∀ m, 10 ≤ m → m ≤ n → delay (milliseconds m) ≤ delay (milliseconds n)) ↔
        n < 100000 ∨ 10000 ≤ n % 100000)) ∧
    (1 ≤ n → delay (seconds n) = min (max (n % 1000 * 1000) 20) 10000 ∧
      (delay (seconds n) = min (1000 * n) 10000 ↔ n < 1000 ∨ 10 ≤ n % 1000) ∧
      ((∀ m, 1 ≤ m → m ≤ n → delay (seconds m) ≤ delay (seconds n)) ↔ n < 1000 ∨ 10 ≤ n % 1000)) := by
  refine ⟨fun large => ⟨delay_milliseconds large, ?_, ?_⟩, fun positive => ⟨delay_seconds n, ?_, ?_⟩⟩
  · rw [delay_milliseconds large]
    omega
  · have read (m : Nat) (lower : 10 ≤ m) : delay (milliseconds m) = min (max (m % 100000 * 1) 20) 10000 := by
      rw [delay_milliseconds lower, Nat.mul_one]
    simpa using delay_longest_iff read (by decide) (by decide) large
  · rw [delay_seconds]
    omega
  · refine (delay_longest_iff (fun m _ => delay_seconds m) (by decide) (by decide) positive).trans ?_
    omega

/-- Six digits that end in a long delay, and two that ask for a short one. -/
theorem delay_eq_named_iff_long :
    10 ≤ 123456 ∧ delay (milliseconds 123456) = min (max 123456 20) 10000 ∧
      1 ≤ 12 ∧ delay (seconds 12) = min (1000 * 12) 10000 :=
  ⟨by decide, ((delay_eq_named_iff 123456).1 (by decide)).2.1.mpr (by decide), by decide,
    ((delay_eq_named_iff 12).2 (by decide)).2.1.mpr (by decide)⟩

/-- A longer request gets the shortest delay. -/
theorem delay_of_long_number :
    delay (milliseconds 99999) = 10000 ∧ delay (milliseconds 100000) = 20 ∧ min (max 100000 20) 10000 = 10000 ∧
      delay (seconds 999) = 10000 ∧ delay (seconds 1000) = 20 ∧ min (1000 * 1000) 10000 = 10000 := by
  decide

end Request

end RobotScript
