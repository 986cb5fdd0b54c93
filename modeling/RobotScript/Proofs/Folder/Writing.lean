import RobotScript.Folder

namespace RobotScript.Folder

variable {f g : Folder}

theorem isFolder_iff {place : List String} :
    f.isFolder place = true ↔
      place = [] ∨ ∃ file ∈ f.files, place <+: file.1 ∧ place.length < file.1.length := by
  simp [isFolder]

/-- What holds a folder is one. -/
theorem isFolder_of_isPrefix {outer inner : List String} (holds : outer <+: inner)
    (folder : f.isFolder inner = true) : f.isFolder outer = true := by
  rcases isFolder_iff.mp folder with rfl | ⟨file, member, below, short⟩
  · exact isFolder_iff.mpr (.inl (List.prefix_nil.mp holds))
  · have length := holds.length_le
    exact isFolder_iff.mpr (.inr ⟨file, member, holds.trans below, by omega⟩)

/-- The place that one name leads to. -/
def enter? (f : Folder) (place : List String) (name : String) : Option (List String) :=
  if f.isFolder place then
    if name = "" ∨ name = "." then some place
    else if name = ".." then
      if place.isEmpty then none else some place.dropLast
    else some (place ++ [name])
  else none

theorem follow?_cons (place : List String) (name : String) (rest : List String) :
    f.follow? place (name :: rest) = (f.enter? place name).bind (f.follow? · rest) := by
  unfold enter?
  rw [follow?]
  split
  · split
    · rfl
    · split
      · split <;> rfl
      · rfl
  · rfl

theorem follow?_append (place first second : List String) :
    f.follow? place (first ++ second) = (f.follow? place first).bind (f.follow? · second) := by
  induction first generalizing place with
  | nil => rfl
  | cons name first ih => simp only [List.cons_append, follow?_cons, ih, Option.bind_assoc]

theorem enter?_mono (folders : ∀ place, f.isFolder place = true → g.isFolder place = true)
    {place target : List String} {name : String} (found : f.enter? place name = some target) :
    g.enter? place name = some target := by
  unfold enter? at found ⊢
  split at found
  · rename_i folder
    rwa [if_pos (folders place folder)]
  · cases found

/-- With more folders, names lead where they led. -/
theorem follow?_mono (folders : ∀ place, f.isFolder place = true → g.isFolder place = true)
    {place target names : List String} (found : f.follow? place names = some target) :
    g.follow? place names = some target := by
  induction names generalizing place with
  | nil => exact found
  | cons name names ih =>
    rw [follow?_cons] at found ⊢
    obtain ⟨inner, entered, found⟩ := Option.bind_eq_some_iff.mp found
    exact Option.bind_eq_some_iff.mpr ⟨inner, enter?_mono folders entered, ih found⟩

/-- Names that lead to a file lead to the folder that holds it, and the last one is its own. -/
theorem follow?_file {place target names : List String} {name : String}
    (found : f.follow? place (names ++ [name]) = some target) (file : f.isFolder target = false) :
    ∃ inner, f.follow? place names = some inner ∧ f.isFolder inner = true ∧ target = inner ++ [name] ∧
      name ≠ "" ∧ name ≠ "." ∧ name ≠ ".." := by
  rw [follow?_append] at found
  obtain ⟨inner, before, found⟩ := Option.bind_eq_some_iff.mp found
  refine ⟨inner, before, ?_⟩
  rw [follow?_cons] at found
  obtain ⟨_, entered, same⟩ := Option.bind_eq_some_iff.mp found
  cases Option.some.inj same
  unfold enter? at entered
  split at entered
  · rename_i folder
    split at entered
    · cases Option.some.inj entered
      exact absurd folder (by simp [file])
    · rename_i here
      split at entered
      · split at entered
        · cases entered
        · cases Option.some.inj entered
          exact absurd (isFolder_of_isPrefix (List.dropLast_prefix inner) folder) (by simp [file])
      · rename_i up
        obtain ⟨notEmpty, notPoint⟩ := not_or.mp here
        exact ⟨folder, (Option.some.inj entered).symm, notEmpty, notPoint, up⟩
  · cases entered

theorem follow?_name {place inner names : List String} (found : f.follow? place names = some inner)
    (folder : f.isFolder inner = true) {name : String} (ordinary : name ≠ "" ∧ name ≠ "." ∧ name ≠ "..") :
    f.follow? place (names ++ [name]) = some (inner ++ [name]) := by
  rw [follow?_append, found, Option.bind_some, follow?_cons, enter?]
  simp only [folder, if_true, ordinary, or_self, if_false]
  rfl

section Names

/-- The last name of a path stands behind its last slash. -/
structure Splits (path front name : List Char) : Prop where
  whole : path = front ++ name
  noSlash : '/' ∉ name
  slash : front = [] ∨ ∃ outer, front = outer ++ ['/']

theorem exists_splits (path : List Char) : ∃ front name, Splits path front name := by
  refine ⟨(path.reverse.dropWhile (· != '/')).reverse, (path.reverse.takeWhile (· != '/')).reverse, ?_, ?_, ?_⟩
  · rw [← List.reverse_append, List.takeWhile_append_dropWhile, List.reverse_reverse]
  · intro member
    have other := List.all_eq_true.mp (List.all_takeWhile (l := path.reverse) (p := (· != '/'))) '/'
      (List.mem_reverse.mp member)
    simp at other
  · cases rest : path.reverse.dropWhile (· != '/') with
    | nil => exact .inl rfl
    | cons c rest' =>
      have first := List.head?_dropWhile_not (· != '/') path.reverse
      rw [rest] at first
      exact .inr ⟨rest'.reverse, by simpa using first⟩

/-- The names in front of the last one depend on what stands in front of it only. -/
theorem exists_folders {front : List Char} (slash : front = [] ∨ ∃ outer, front = outer ++ ['/']) :
    ∃ folders, ∀ name, '/' ∉ name → names (String.ofList (front ++ name)) = folders ++ [String.ofList name] := by
  rcases slash with rfl | ⟨outer, rfl⟩
  · refine ⟨[], fun name noSlash => ?_⟩
    simp [names, List.splitOn_eq_singleton noSlash]
  · refine ⟨(outer.splitOn '/').map String.ofList, fun name noSlash => ?_⟩
    simp [names, List.splitOn_append_cons_self, List.splitOn_eq_singleton noSlash]

/-- A last name that is more than a point is left alone where the end of a path is trimmed. -/
theorem Splits.splitName_eq {path front name : List Char} (splits : Splits path front name) (nonempty : name ≠ [])
    (notPoint : name ≠ ['.']) : splitName path = (front, name) := by
  obtain ⟨rfl, noSlash, slash⟩ := splits
  have trimmed : trimPath (front ++ name).reverse = (front ++ name).reverse := by
    obtain ⟨c, rest, split⟩ := List.exists_cons_of_ne_nil (List.reverse_ne_nil_iff.mpr nonempty)
    have inName : ∀ d ∈ c :: rest, d ≠ '/' := by
      rintro d member rfl
      exact noSlash (by rwa [← split, List.mem_reverse] at member)
    rw [List.reverse_append, split]
    unfold trimPath
    split
    · rename_i same
      exact absurd (List.cons.inj same).1 (inName c (by simp))
    · rename_i after same
      obtain ⟨rfl, behind⟩ := List.cons.inj same
      cases rest with
      | nil => exact absurd (List.reverse_eq_iff.mp split) notPoint
      | cons d rest => exact absurd (List.cons.inj behind).1 (inName d (by simp))
    · rfl
  have last : ((front ++ name).reverse.takeWhile (· != '/')).reverse = name := by
    have stop : (front.reverse.takeWhile (· != '/')) = [] := by
      rcases slash with rfl | ⟨outer, rfl⟩ <;> simp
    rw [List.reverse_append, List.takeWhile_append_of_pos, stop, List.append_nil, List.reverse_reverse]
    intro d member
    simpa using fun same => noSlash (by rwa [← same, ← List.mem_reverse])
  simp only [splitName, trimmed, List.reverse_reverse, last]
  simp

theorem stem_isPrefix (name : List Char) : stem name <+: name := by
  unfold stem
  dsimp only
  split
  · exact List.prefix_rfl
  · refine List.reverse_suffix.mp ?_
    rw [List.reverse_reverse]
    exact (List.drop_suffix _ _).trans (List.dropWhile_suffix _)

theorem stem_ne_nil {name : List Char} (nonempty : name ≠ []) : stem name ≠ [] := by
  unfold stem
  dsimp only
  split
  · exact nonempty
  · rename_i some
    simpa using some

/-- Only the last name is changed, and it stays one name. -/
theorem addEnding_beside {path front name ending : List Char} (splits : Splits path front name)
    (nonempty : name ≠ []) (notPoint : name ≠ ['.']) (noSlash : '/' ∉ ending) :
    ∃ other, '/' ∉ other ∧ addEnding path ending = front ++ other := by
  unfold addEnding
  rw [splits.splitName_eq nonempty notPoint]
  dsimp only
  split
  · exact ⟨name, splits.noSlash, splits.whole⟩
  · refine ⟨stem name ++ '.' :: ending, ?_, by simp⟩
    have inStem : '/' ∉ stem name := fun member => splits.noSlash ((stem_isPrefix name).subset member)
    simp [inStem, noSlash]

theorem withEnding_beside {path ending : String} {front name : List Char} (splits : Splits path.toList front name)
    (nonempty : name ≠ []) (notPoint : name ≠ ['.']) (noSlash : '/' ∉ ending.toList) :
    ∃ other, '/' ∉ other ∧ (withEnding path ending).toList = front ++ other := by
  have prefixed := stem_isPrefix name
  have length := prefixed.length_le
  have something := List.length_pos_iff.mpr (stem_ne_nil nonempty)
  unfold withEnding
  rw [splits.splitName_eq nonempty notPoint, String.toList_ofList]
  dsimp only
  -- Without its ending the name keeps the point, unless it has no ending.
  generalize cut : name.length - (stem name).length - 1 = old
  have kept : path.toList.take (path.length - old) = front ++ name.take (name.length - old) := by
    rw [← String.length_toList, splits.whole, List.take_append, List.length_append,
      List.take_of_length_le (by omega)]
    congr 2
    omega
  have inName : ∀ c ∈ name.take (name.length - old), c ∈ name := fun c => List.mem_of_mem_take
  rw [kept]
  refine addEnding_beside ⟨rfl, fun member => splits.noSlash (inName _ member), splits.slash⟩ ?_ ?_ noSlash
  · refine List.ne_nil_of_length_pos ?_
    rw [List.length_take]
    omega
  · intro point
    have one := congrArg List.length point
    rw [List.length_take, List.length_singleton] at one
    have whole : old = 0 := by omega
    rw [whole, Nat.sub_zero, List.take_length] at point
    exact notPoint point

end Names

section Files

theorem mem_put {place : List String} {text : String} {file : List String × String} :
    file ∈ (f.put place text).files ↔ file ∈ f.files ∧ file.1 ≠ place ∨ file = (place, text) := by
  simp [put]

theorem mem_remove {place : List String} {file : List String × String} :
    file ∈ (f.remove place).files ↔ file ∈ f.files ∧ file.1 ≠ place := by
  simp [remove]

theorem lookup_put (f : Folder) (place : List String) (text : String) :
    (f.put place text).files.lookup place = some text := by
  have absent : (f.files.filter (·.1 != place)).lookup place = none := by
    rw [List.lookup_eq_none_iff]
    intro file member
    simpa [bne_comm] using (List.mem_filter.mp member).2
  rw [put, List.lookup_append, absent]
  simp

theorem isFolder_put {place inner : List String} (text : String) (folder : f.isFolder inner = true) :
    (f.put place text).isFolder inner = true := by
  rcases isFolder_iff.mp folder with rfl | ⟨file, member, below, short⟩
  · rfl
  · refine isFolder_iff.mpr (.inr ?_)
    by_cases same : file.1 = place
    · exact ⟨(place, text), mem_put.mpr (.inr rfl), same ▸ below, same ▸ short⟩
    · exact ⟨file, mem_put.mpr (.inl ⟨member, same⟩), below, short⟩

/-- The folder after a text came in under one name and got another. -/
def renamed (f : Folder) (inner : List String) (source target text : String) : Folder :=
  ((f.put (inner ++ [source]) text).remove (inner ++ [source])).put (inner ++ [target]) text

variable {inner : List String} {source target text : String}

/-- A text that moves within its folder leaves all folders where they are. -/
theorem isFolder_renamed {outer : List String} (folder : f.isFolder outer = true) :
    (f.renamed inner source target text).isFolder outer = true := by
  rcases isFolder_iff.mp folder with rfl | ⟨file, member, below, short⟩
  · rfl
  refine isFolder_iff.mpr (.inr ?_)
  by_cases atTarget : file.1 = inner ++ [target]
  · exact ⟨_, mem_put.mpr (.inr rfl), atTarget ▸ below, atTarget ▸ short⟩
  · by_cases atSource : file.1 = inner ++ [source]
    · -- A folder that held the first name holds the second one too.
      rw [atSource] at below short
      have holds : outer <+: inner := by
        refine List.prefix_of_prefix_length_le below (List.prefix_append _ _) ?_
        simp only [List.length_append, List.length_singleton] at short
        omega
      refine ⟨_, mem_put.mpr (.inr rfl), holds.trans (List.prefix_append _ _), ?_⟩
      simpa using Nat.lt_succ_of_le holds.length_le
    · refine ⟨file, mem_put.mpr (.inl ⟨mem_remove.mpr ⟨?_, atSource⟩, atTarget⟩), below, short⟩
      exact mem_put.mpr (.inl ⟨member, atSource⟩)

theorem isFolder_renamed_target (file : (f.put (inner ++ [source]) text).isFolder (inner ++ [target]) = false) :
    (f.renamed inner source target text).isFolder (inner ++ [target]) = false := by
  refine Bool.eq_false_iff.mpr fun folder => ?_
  rcases isFolder_iff.mp folder with empty | ⟨other, member, below, short⟩
  · simp at empty
  · rcases mem_put.mp member with ⟨kept, -⟩ | rfl
    · exact Bool.eq_false_iff.mp file (isFolder_iff.mpr (.inr ⟨other, (mem_remove.mp kept).1, below, short⟩))
    · exact Nat.lt_irrefl _ short

theorem place?_eq_some_iff {path : String} {place : List String} :
    f.place? path = some place ↔ isPath path = true ∧ f.follow? [] (names path) = some place := by
  unfold place?
  split <;> simp [*]

theorem write_eq_ok {path : String} (written : f.write path text = (.ok (), g)) :
    ∃ source target, f.place? (withEnding path "tmp") = some source ∧ f.isFolder source = false ∧
      (f.put source text).place? path = some target ∧ (f.put source text).isFolder target = false ∧
      g = ((f.put source text).remove source).put target text := by
  unfold write at written
  dsimp only at written
  split at written
  · cases written
  · rename_i source atSource
    split at written
    · cases written
    · rename_i target atTarget
      cases written
      obtain ⟨toSource, sourceFile⟩ := Option.filter_eq_some_iff.mp atSource
      obtain ⟨toTarget, targetFile⟩ := Option.filter_eq_some_iff.mp atTarget
      exact ⟨source, target, toSource, by simpa using sourceFile, toTarget, by simpa using targetFile, rfl⟩

/-- A write that is done gave the text another name in one folder, which was there before. -/
theorem renamed_of_write {path : String} (written : f.write path text = (.ok (), g)) :
    ∃ folders inner source target, isPath path = true ∧ names path = folders ++ [target] ∧
      (target ≠ "" ∧ target ≠ "." ∧ target ≠ "..") ∧ f.follow? [] folders = some inner ∧ f.isFolder inner = true ∧
      (f.put (inner ++ [source]) text).isFolder (inner ++ [target]) = false ∧
      g = f.renamed inner source target text := by
  obtain ⟨source, target, toSource, sourceFile, toTarget, targetFile, same⟩ := write_eq_ok written
  obtain ⟨front, name, splits⟩ := exists_splits path.toList
  obtain ⟨folders, split⟩ := exists_folders splits.slash
  obtain ⟨isPath, toTarget⟩ := place?_eq_some_iff.mp toTarget
  obtain ⟨-, toSource⟩ := place?_eq_some_iff.mp toSource
  have ofPath : names path = folders ++ [String.ofList name] := by
    rw [← split name splits.noSlash, ← splits.whole, String.ofList_toList]
  rw [ofPath] at toTarget
  obtain ⟨inner, toInner, -, rfl, ordinary⟩ := follow?_file toTarget targetFile
  have nonempty : name ≠ [] := fun empty => ordinary.1 (by rw [empty])
  have notPoint : name ≠ ['.'] := fun point => ordinary.2.1 (by rw [point])
  have ending : '/' ∉ "tmp".toList := by decide
  obtain ⟨other, noSlash, beside⟩ := withEnding_beside splits nonempty notPoint ending
  have ofTemporary : names (withEnding path "tmp") = folders ++ [String.ofList other] := by
    rw [← split other noSlash, ← beside, String.ofList_toList]
  rw [ofTemporary] at toSource
  obtain ⟨own, toOwn, folder, rfl, -⟩ := follow?_file toSource sourceFile
  cases (follow?_mono (fun _ => isFolder_put text) toOwn).symm.trans toInner
  exact ⟨folders, inner, _, _, isPath, ofPath, ordinary, toOwn, folder, targetFile, same⟩

/-- A path to which a text was written leads to the text. -/
theorem entry_of_write {path : String} (written : f.write path text = (.ok (), g)) : g.entry path = .file text := by
  obtain ⟨folders, inner, source, target, isPath, ofPath, ordinary, toInner, folder, file, rfl⟩ :=
    renamed_of_write written
  have reached : (f.renamed inner source target text).place? path = some (inner ++ [target]) := by
    rw [place?_eq_some_iff, ofPath]
    exact ⟨isPath, follow?_name (follow?_mono (fun _ => isFolder_renamed) toInner) (isFolder_renamed folder) ordinary⟩
  have found : (f.renamed inner source target text).files.lookup (inner ++ [target]) = some text := lookup_put _ _ _
  simp only [entry, reached, isFolder_renamed_target file, found, Bool.false_eq_true, if_false]

end Files

end RobotScript.Folder
