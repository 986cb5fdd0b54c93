import RobotScript.Proofs.Script.Checking

namespace RobotScript

namespace Script

/-- The character with the number of a byte. -/
def latin (b : UInt8) : Char := Char.ofNat b.toNat

theorem toNat_latin (b : UInt8) : (latin b).toNat = b.toNat := by
  have small := b.toNat_lt
  have valid : b.toNat.isValidChar := .inl (by omega)
  rw [latin, Char.ofNat, dif_pos valid]
  rfl

theorem latin_utf8EncodeChar {c : Char} (ascii : c.toNat < 0x80) : (String.utf8EncodeChar c).map latin = [c] := by
  have short : c.val.toNat ≤ 127 := Nat.le_of_lt_succ ascii
  simp only [String.utf8EncodeChar, short, if_true, List.map_cons, List.map_nil, List.cons.injEq, and_true]
  refine Char.toNat_inj.mp ?_
  rw [toNat_latin, UInt8.toNat_ofNat']
  exact Nat.mod_eq_of_lt (by omega)

/-- No byte of a long character looks like a character of its own. -/
theorem le_of_mem_utf8EncodeChar {c : Char} (long : 0x80 ≤ c.toNat) :
    ∀ b ∈ String.utf8EncodeChar c, 0x80 ≤ b.toNat := by
  have long : 128 ≤ c.val.toNat := long
  have bound (n : Nat) (marked : 128 ≤ n) (small : n < 256) : 128 ≤ (UInt8.ofNat n).toNat := by
    rwa [UInt8.toNat_ofNat', Nat.mod_eq_of_lt small]
  fun_cases String.utf8EncodeChar c with
  | case1 => omega
  | case2 | case3 | case4 =>
    intro b member
    simp only [List.mem_cons, List.not_mem_nil, or_false] at member
    rcases member with rfl | rfl | rfl | rfl <;> exact bound _ (by omega) (by omega)

theorem toList_loop {bytes : ByteArray} {before after : List UInt8} (whole : bytes.data.toList = before ++ after)
    (read : List UInt8) : ByteArray.toList.loop bytes before.length read = read.reverse ++ after := by
  have size : bytes.size = before.length + after.length := by
    rw [← List.length_append, ← whole, Array.length_toList]
    rfl
  rw [ByteArray.toList.loop]
  cases after with
  | nil => simp [size]
  | cons b after =>
    have byte : bytes.get! before.length = b := by
      have found : bytes.data.toList[before.length]? = some b := by simp [whole]
      rw [Array.getElem?_toList] at found
      rw [ByteArray.get!, getElem!_def, found]
    have next : bytes.data.toList = (before ++ [b]) ++ after := by simpa using whole
    have tail := toList_loop next (b :: read)
    rw [List.length_append, List.length_singleton] at tail
    rw [if_pos (by simp [size]), byte, tail]
    simp

theorem toUTF8_ofList (s : List Char) : (String.ofList s).toUTF8.toList = s.flatMap String.utf8EncodeChar := by
  refine @toList_loop _ [] _ ?_ []
  simp [String.toUTF8, List.utf8Encode, List.flatMap_def]

theorem length_le_byteSize (s : List Char) : s.length ≤ Text.byteSize s := by
  induction s with
  | nil => exact Nat.le_refl 0
  | cons c s ih =>
    have := c.utf8Size_pos
    rw [List.length_cons, Text.byteSize]
    omega

theorem byteSize_eq_utf8ByteSize (s : List Char) : Text.byteSize s = (String.ofList s).utf8ByteSize := by
  induction s with
  | nil => rfl
  | cons c s ih =>
    rw [← List.singleton_append, String.ofList_append, String.utf8ByteSize_append, ← ih, byteSize_append]
    simp [Text.byteSize]

/-- The bytes of a text, each as the character with its number. -/
def units (s : List Char) : List Char := (s.flatMap String.utf8EncodeChar).map latin

theorem units_append (s t : List Char) : units (s ++ t) = units s ++ units t := by
  rw [units, List.flatMap_append, List.map_append]
  rfl

theorem length_units (s : List Char) : (units s).length = Text.byteSize s := by
  induction s with
  | nil => rfl
  | cons c s ih =>
    rw [← List.singleton_append, units_append, List.length_append, ih, byteSize_append]
    simp [units, Text.byteSize]

theorem units_cons_ascii {c : Char} (ascii : c.toNat < 0x80) (s : List Char) : units (c :: s) = c :: units s := by
  rw [← List.singleton_append, units_append]
  simp [units, latin_utf8EncodeChar ascii]

/-- A long character begins with a byte that is no character of its own, and so do all that follow in it. -/
theorem units_cons_long {c : Char} (long : 0x80 ≤ c.toNat) :
    ∃ d ds, (∀ s, units (c :: s) = d :: ds ++ units s) ∧ ∀ e ∈ d :: ds, 0x80 ≤ e.toNat := by
  have high : ∀ d ∈ units [c], 0x80 ≤ d.toNat := by
    intro d member
    simp only [units, List.flatMap_singleton, List.mem_map] at member
    obtain ⟨b, member, rfl⟩ := member
    rw [toNat_latin]
    exact le_of_mem_utf8EncodeChar long b member
  have nonempty : units [c] ≠ [] := by
    rw [← List.length_pos_iff, length_units]
    exact Nat.add_pos_left c.utf8Size_pos _
  obtain ⟨d, ds, split⟩ := List.exists_cons_of_ne_nil nonempty
  refine ⟨d, ds, fun s => ?_, split ▸ high⟩
  rw [← List.singleton_append, units_append, split]

/-- A byte below the long characters is a character. -/
theorem head?_units {s : List Char} {c : Char} (ascii : c.toNat < 0x80) :
    (units s).head? = some c ↔ ∃ t, s = c :: t := by
  constructor
  · intro first
    cases s with
    | nil => cases first
    | cons d s =>
      rcases Nat.lt_or_ge d.toNat 0x80 with short | long
      · rw [units_cons_ascii short] at first
        cases first
        exact ⟨s, rfl⟩
      · obtain ⟨e, es, split, high⟩ := units_cons_long long
        rw [split] at first
        cases first
        have := high c List.mem_cons_self
        omega
  · rintro ⟨t, rfl⟩
    rw [units_cons_ascii ascii]
    rfl

/-- A run in a class that tells no long characters apart ends at the same place by bytes as by characters. -/
theorem takeWhile_units {p : Char → Bool} {all : Bool} (alike : ∀ c : Char, 0x80 ≤ c.toNat → p c = all)
    (s : List Char) : (units s).takeWhile p = units (s.takeWhile p) := by
  induction s with
  | nil => rfl
  | cons c s ih =>
    rcases Nat.lt_or_ge c.toNat 0x80 with short | long
    · rw [units_cons_ascii short, List.takeWhile_cons, List.takeWhile_cons, ih]
      split
      · rw [units_cons_ascii short]
      · rfl
    · obtain ⟨d, ds, split, high⟩ := units_cons_long long
      rw [split, List.takeWhile_cons, alike c long]
      cases all with
      | true =>
        rw [List.takeWhile_append_of_pos fun e member => alike e (high e member), ih, if_pos rfl, split]
      | false => rw [List.cons_append, List.takeWhile_cons_of_neg (by simp [alike d (high d List.mem_cons_self)])]; rfl

end Script

namespace Quoted

open Script

theorem closeBytes?_cons {quote b : UInt8} (plain : b ≠ 0x5C) (count : Nat) (s : List UInt8) :
    closeBytes? quote count (b :: s) = if b == quote then some (count + 1) else closeBytes? quote (count + 1) s :=
  closeBytes?.eq_3 quote count b s fun _ _ same _ => plain same

theorem closeBytes?_long {quote : UInt8} (ascii : quote.toNat < 0x80) {long : List UInt8}
    (high : ∀ b ∈ long, 0x80 ≤ b.toNat) (count : Nat) (s : List UInt8) :
    closeBytes? quote count (long ++ s) = closeBytes? quote (count + long.length) s := by
  induction long generalizing count with
  | nil => rfl
  | cons b long ih =>
    obtain ⟨first, others⟩ := List.forall_mem_cons.mp high
    have plain : b ≠ 0x5C := by
      rintro rfl
      exact absurd first (by decide)
    have other : (b == quote) = false := by
      rw [beq_eq_false_iff_ne]
      rintro rfl
      omega
    rw [List.cons_append, closeBytes?_cons plain, other, if_neg Bool.false_ne_true, ih others, List.length_cons]
    congr 1
    omega

/-- The first byte of a character tells it from the short ones, and those behind it are no characters. -/
theorem utf8EncodeChar_eq_cons (c : Char) :
    ∃ b long, String.utf8EncodeChar c = b :: long ∧ c.utf8Size = long.length + 1 ∧ (∀ d ∈ long, 0x80 ≤ d.toNat) ∧
      ∀ d : Char, d.toNat < 0x80 → (b = UInt8.ofNat d.toNat ↔ c = d) := by
  have number {d : Char} (ascii : d.toNat < 0x80) : (UInt8.ofNat d.toNat).toNat = d.toNat := by
    rw [UInt8.toNat_ofNat', Nat.mod_eq_of_lt (by omega)]
  rcases Nat.lt_or_ge c.toNat 0x80 with short | long
  · have small : c.val.toNat ≤ 127 := Nat.le_of_lt_succ short
    have split : String.utf8EncodeChar c = [UInt8.ofNat c.toNat] := if_pos small
    refine ⟨UInt8.ofNat c.toNat, [], split, by rw [← String.length_utf8EncodeChar, split]; rfl, by simp,
      fun d ascii => ?_⟩
    rw [← UInt8.toNat_inj, number short, number ascii, Char.toNat_inj]
  · have high := le_of_mem_utf8EncodeChar long
    have nonempty : String.utf8EncodeChar c ≠ [] := by
      rw [← List.length_pos_iff, String.length_utf8EncodeChar]
      exact c.utf8Size_pos
    obtain ⟨b, more, split⟩ := List.exists_cons_of_ne_nil nonempty
    rw [split] at high
    obtain ⟨first, others⟩ := List.forall_mem_cons.mp high
    refine ⟨b, more, split, by rw [← String.length_utf8EncodeChar, split]; rfl, others, fun d ascii => ⟨?_, ?_⟩⟩
    · rintro rfl
      rw [number ascii] at first
      omega
    · rintro rfl
      omega

theorem ascii_of_isQuote {c : Char} (quote : isQuote c = true) : c.toNat < 0x80 ∧ c.utf8Size = 1 := by
  simp only [isQuote, Bool.or_eq_true, beq_iff_eq] at quote
  rcases quote with rfl | rfl <;> decide

/-- By bytes a literal is closed where it is closed by characters. -/
theorem closeBytes?_utf8 {quote : Char} (isQuote : isQuote quote = true) (s : List Char) (count : Nat) :
    closeBytes? (UInt8.ofNat quote.toNat) count (s.flatMap String.utf8EncodeChar) =
      (close? quote s).map fun found => count + Text.byteSize found.1 := by
  obtain ⟨ascii, one⟩ := ascii_of_isQuote isQuote
  have asciiByte : (UInt8.ofNat quote.toNat).toNat < 0x80 := by
    rwa [UInt8.toNat_ofNat', Nat.mod_eq_of_lt (by omega)]
  fun_induction close? quote s generalizing count with
  | case1 => rfl
  | case2 c s ih =>
    -- One byte of the escaped character is taken; what is left of it cannot close the literal.
    obtain ⟨b, long, split, size, high, -⟩ := utf8EncodeChar_eq_cons c
    have bytes : ('\\' :: c :: s).flatMap String.utf8EncodeChar =
        0x5C :: b :: (long ++ s.flatMap String.utf8EncodeChar) := by
      rw [List.flatMap_cons, List.flatMap_cons, split]
      rfl
    rw [bytes, closeBytes?, closeBytes?_long asciiByte high, ih, Option.map_map]
    congr 1
    funext found
    simp only [Function.comp_apply, Text.byteSize, size, show ('\\').utf8Size = 1 from rfl]
    omega
  | case3 c s plain same =>
    cases eq_of_beq same
    obtain ⟨b, long, split, -, -, tells⟩ := utf8EncodeChar_eq_cons quote
    have own : b = UInt8.ofNat quote.toNat := (tells quote ascii).mpr rfl
    have plain : b ≠ 0x5C := fun slash => quote_ne_backslash isQuote ((tells '\\' (by decide)).mp slash)
    rw [List.flatMap_cons, split, List.cons_append, closeBytes?_cons plain, ← own, beq_self_eq_true, if_pos rfl]
    simp [Text.byteSize, one]
  | case4 c s plain other ih =>
    obtain ⟨b, long, split, size, high, tells⟩ := utf8EncodeChar_eq_cons c
    have notQuote : b ≠ UInt8.ofNat quote.toNat := fun same => other (beq_iff_eq.mpr ((tells quote ascii).mp same))
    by_cases slash : c = '\\'
    · have last : s = [] := by
        cases s with
        | nil => rfl
        | cons d s => exact (plain d s slash rfl).elim
      subst slash last
      have single : b = 0x5C := (tells '\\' (by decide)).mpr rfl
      rw [single] at notQuote
      simpa [String.utf8EncodeChar, closeBytes?, close?] using notQuote
    · have notSlash : b ≠ 0x5C := fun same => slash ((tells '\\' (by decide)).mp same)
      rw [List.flatMap_cons, split, List.cons_append, closeBytes?_cons notSlash, if_neg (by simpa using notQuote),
        closeBytes?_long asciiByte high, ih, Option.map_map]
      congr 1
      funext found
      simp only [Function.comp_apply, Text.byteSize, size]
      omega

theorem scan?_ofList (s : List Char) : scan? (String.ofList s) = (split? s).map fun found => Text.byteSize found.1 := by
  rw [scan?, toUTF8_ofList]
  cases s with
  | nil => rfl
  | cons c s =>
    obtain ⟨b, long, split, size, -, tells⟩ := utf8EncodeChar_eq_cons c
    have same : (b == 0x22 || b == 0x27) = isQuote c := by
      have double := tells '"' (by decide)
      have single := tells '\'' (by decide)
      rw [Bool.eq_iff_iff]
      simp only [isQuote, Bool.or_eq_true, beq_iff_eq]
      exact or_congr double single
    rw [List.flatMap_cons, split, List.cons_append, scanBytes?, split?, same]
    cases quote : isQuote c with
    | false => rfl
    | true =>
      obtain ⟨ascii, one⟩ := ascii_of_isQuote quote
      have alone : long = [] := List.length_eq_zero_iff.mp (by omega)
      rw [alone, (tells c ascii).mpr rfl, List.nil_append, if_pos rfl, if_pos rfl, closeBytes?_utf8 quote,
        Option.map_map]
      congr 1
      funext found
      simp only [Function.comp_apply, Text.byteSize, one]

end Quoted

end RobotScript
