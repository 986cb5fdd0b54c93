import Mathlib.Data.List.DropRight
import RobotScript.Text.Blank
import RobotScript.Text.Search

namespace RobotScript.Text

theorem strip?_eq_some_iff {literal : String} {s rest : List Char} :
    strip? literal s = some rest ↔ s = literal.toList ++ rest := by
  simp only [strip?, List.isPrefixOf?_eq_some_iff_append_eq]
  exact eq_comm

theorem strip?_append (literal : String) (rest : List Char) :
    strip? literal (literal.toList ++ rest) = some rest :=
  strip?_eq_some_iff.mpr rfl

theorem not_mem_of_class {p : Char → Bool} {c : Char} {others : List Char} (inClass : p c = true)
    (outside : others.any p = false) : c ∉ others := by
  intro member
  have found : others.any p = true := List.any_eq_true.mpr ⟨c, member, inClass⟩
  rw [outside] at found
  cases found

/-- What follows a run cannot lengthen it. -/
def Stops (p : Char → Bool) (rest : List Char) : Prop := ∀ c ∈ rest.head?, p c = false

theorem stops_nil (p : Char → Bool) : Stops p [] := by
  intro c member
  simp at member

theorem stops_cons {p : Char → Bool} {c : Char} (rest : List Char) (outside : p c = false) :
    Stops p (c :: rest) := by
  intro d member
  simp only [List.head?_cons, Option.mem_def, Option.some.injEq] at member
  rw [← member, outside]

theorem stops_dropWhile (p : Char → Bool) (s : List Char) : Stops p (s.dropWhile p) := by
  intro c member
  have first := List.head?_dropWhile_not p s
  rw [Option.mem_def.mp member] at first
  simpa using first

theorem stops_append {p : Char → Bool} {s : List Char} (nonempty : s ≠ []) (stop : Stops p s) (more : List Char) :
    Stops p (s ++ more) := by
  intro c member
  rw [List.head?_append_of_ne_nil _ nonempty] at member
  exact stop c member

theorem Stops.mono {p q : Char → Bool} {rest : List Char} (stop : Stops p rest)
    (weaker : ∀ c, p c = false → q c = false) : Stops q rest :=
  fun c first => weaker c (stop c first)

theorem takeWhile_append_of_stops {p : Char → Bool} {t rest : List Char}
    (inside : ∀ c ∈ t, p c = true) (stop : Stops p rest) : (t ++ rest).takeWhile p = t := by
  induction t with
  | nil =>
    cases rest with
    | nil => rfl
    | cons c rest => simp [stop c rfl]
  | cons c t ih => simp [inside c (by simp), ih fun d member => inside d (by simp [member])]

theorem Stops.dropWhile_eq {p : Char → Bool} {rest : List Char} (stop : Stops p rest) : rest.dropWhile p = rest := by
  cases rest with
  | nil => rfl
  | cons c rest => simp [stop c rfl]

/-- A run in front that does not reach what follows is dropped as if it stood alone. -/
theorem dropWhile_append {p : Char → Bool} {rest : List Char} (stop : Stops p rest) (t : List Char) :
    (t ++ rest).dropWhile p = t.dropWhile p ++ rest := by
  rw [List.dropWhile_append, stop.dropWhile_eq]
  split
  · rename_i empty
    rw [List.isEmpty_iff.mp empty, List.nil_append]
  · rfl

theorem dropWhile_append_of_stops {p : Char → Bool} {t rest : List Char}
    (inside : ∀ c ∈ t, p c = true) (stop : Stops p rest) : (t ++ rest).dropWhile p = rest := by
  rw [dropWhile_append stop, List.dropWhile_eq_nil_iff.mpr inside, List.nil_append]

theorem trim_eq_rdropWhile (s : List Char) :
    trim s = (s.dropWhile isBlank).rdropWhile isBlank := rfl

theorem trim_sublist (s : List Char) : (trim s).Sublist s :=
  (List.rdropWhile_prefix isBlank _).sublist.trans (List.dropWhile_sublist isBlank)

theorem mem_trim {c : Char} {s : List Char} (member : c ∈ trim s) : c ∈ s := (trim_sublist s).subset member

/-- Nothing is trimmed exactly where no blank stands at either end. -/
theorem trim_eq_self_iff {s : List Char} :
    trim s = s ↔ (∀ c ∈ s.head?, isBlank c = false) ∧ ∀ c ∈ s.getLast?, isBlank c = false := by
  constructor
  · intro same
    have front : s.dropWhile isBlank = s := by
      have short := (List.rdropWhile_prefix isBlank (s.dropWhile isBlank)).length_le
      have all : s.length = (trim s).length := by rw [same]
      exact (List.dropWhile_suffix isBlank).eq_of_length_le (all.trans_le short)
    constructor
    · have stop := stops_dropWhile isBlank s
      rwa [front] at stop
    · intro c last
      obtain ⟨start, rfl⟩ := List.getLast?_eq_some_iff.mp last
      have back : List.rdropWhile isBlank (start ++ [c]) = start ++ [c] := by
        rwa [trim_eq_rdropWhile, front] at same
      simpa using (List.rdropWhile_eq_self_iff (p := isBlank)).mp back (by simp)
  · rintro ⟨first, last⟩
    have front : s.dropWhile isBlank = s := by
      cases s with
      | nil => rfl
      | cons c s => simp [first c rfl]
    have back : List.rdropWhile isBlank s = s := by
      refine List.rdropWhile_eq_self_iff.mpr fun nonempty => ?_
      simpa using last _ (List.getLast?_eq_some_getLast nonempty)
    rw [trim_eq_rdropWhile, front, back]

@[simp] theorem trim_trim (s : List Char) : trim (trim s) = trim s := by
  refine trim_eq_self_iff.mpr ⟨?_, ?_⟩
  · intro c first
    have shorter : trim s <+: s.dropWhile isBlank := List.rdropWhile_prefix _ _
    obtain ⟨rest, split⟩ := shorter
    refine stops_dropWhile isBlank s c ?_
    rw [← split, List.head?_append, Option.mem_def.mp first]
    rfl
  · intro c last
    obtain ⟨start, split⟩ := List.getLast?_eq_some_iff.mp last
    rw [trim_eq_rdropWhile] at split
    have stop := List.rdropWhile_last_not isBlank (s.dropWhile isBlank) (by simp [split])
    simpa [split] using stop

/-- A text with something in it, at both ends of which no character of a class stands. -/
structure Bare (p : Char → Bool) (s : List Char) : Prop where
  nonempty : s ≠ []
  first : ∀ c ∈ s.head?, p c = false
  last : ∀ c ∈ s.getLast?, p c = false

theorem dropEndWhile_append {p : Char → Bool} {s : List Char} (last : ∀ c ∈ s.getLast?, p c = false)
    (after : List Char) : dropEndWhile p (s ++ after) = s ++ dropEndWhile p after := by
  have stop : Stops p s.reverse := by
    intro c member
    exact last c (by rwa [List.head?_reverse] at member)
  rw [dropEndWhile, List.reverse_append, dropWhile_append stop, List.reverse_append, List.reverse_reverse,
    ← dropEndWhile]

theorem dropEndWhile_eq_nil {p : Char → Bool} {s : List Char} (inside : ∀ c ∈ s, p c = true) :
    dropEndWhile p s = [] := by
  rw [dropEndWhile, List.dropWhile_eq_nil_iff.mpr (by simpa using inside), List.reverse_nil]

/-- What stands around a bare text loses its own ends, and the text keeps all. -/
theorem Bare.dropAround {p : Char → Bool} {s : List Char} (bare : Bare p s) (before after : List Char) :
    dropEndWhile p ((before ++ (s ++ after)).dropWhile p) = before.dropWhile p ++ (s ++ dropEndWhile p after) := by
  have last : ∀ c ∈ (before.dropWhile p ++ s).getLast?, p c = false := by
    rw [List.getLast?_append_of_ne_nil _ bare.nonempty]
    exact bare.last
  rw [dropWhile_append (stops_append bare.nonempty bare.first after), ← List.append_assoc, dropEndWhile_append last,
    List.append_assoc]

/-- What surrounds a bare text is dropped, and nothing else. -/
theorem Bare.dropBoth {p : Char → Bool} {s before after : List Char} (bare : Bare p s)
    (isBefore : ∀ c ∈ before, p c = true) (isAfter : ∀ c ∈ after, p c = true) :
    dropEndWhile p ((before ++ (s ++ after)).dropWhile p) = s := by
  rw [bare.dropAround, List.dropWhile_eq_nil_iff.mpr isBefore, dropEndWhile_eq_nil isAfter, List.nil_append,
    List.append_nil]

/-- A bare text stays one between characters of other classes. -/
theorem Bare.surround {p : Char → Bool} {s before after : List Char} (bare : Bare p s)
    (isBefore : ∀ c ∈ before, p c = false) (isAfter : ∀ c ∈ after, p c = false) :
    Bare p (before ++ (s ++ after)) where
  nonempty := by simp [bare.nonempty]
  first := by
    intro c member
    rw [List.head?_append, List.head?_append_of_ne_nil _ bare.nonempty] at member
    rcases Option.or_eq_some_iff.mp member with inBefore | ⟨-, inside⟩
    · exact isBefore c (List.mem_of_head? inBefore)
    · exact bare.first c inside
  last := by
    intro c member
    rw [← List.append_assoc, List.getLast?_append, List.getLast?_append_of_ne_nil _ bare.nonempty] at member
    rcases Option.or_eq_some_iff.mp member with inAfter | ⟨-, inside⟩
    · exact isAfter c (List.mem_of_getLast? inAfter)
    · exact bare.last c inside

theorem Bare.mono {p q : Char → Bool} {s : List Char} (bare : Bare p s) (weaker : ∀ c, p c = false → q c = false) :
    Bare q s :=
  ⟨bare.nonempty, fun c member => weaker c (bare.first c member), fun c member => weaker c (bare.last c member)⟩

end RobotScript.Text
