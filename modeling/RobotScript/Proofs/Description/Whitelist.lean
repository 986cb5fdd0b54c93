import Mathlib.Data.List.Nodup
import RobotScript.Description.Cleaning
import RobotScript.Proofs.Program.InitFlag
import RobotScript.Proofs.Program.Nesting
import RobotScript.Proofs.Text.Runs

namespace RobotScript

open Description

/-- What a value is after cleaning. A text is then not written as a symbol, so it stays a text. -/
def Value.Clean : Value → Prop
  | .float x => x.isFinite = true
  | .text s => Text.trim s.toList = s.toList ∧ s.toList.length ≤ maxTextLength ∧
      (∀ c ∈ s.toList, isReserved c = false) ∧ Symbol.ofChars? s.toList = none
  | _ => True

/-- The rules that depend on the kind of an instruction. -/
def Node.Legal : Node → Prop
  | .command token => isCommandToken token.toList = true
  | .count _ _ step _ => step ≠ 0
  | .select _ cases _ => cases.length ≤ maxCases
  | _ => True

/-- What an instruction is after cleaning, apart from the instructions in its bodies. -/
structure Node.Clean (node : Node) : Prop where
  legal : node.Legal
  values : ∀ v ∈ node.values, v.Clean
  bodies : ∀ body ∈ node.bodies, body.length ≤ maxNodes

theorem isCommandChar_of_isCommandToken {s : List Char} (legal : isCommandToken s = true) :
    s ≠ [] ∧ ∀ c ∈ s, isCommandChar c = true := by
  unfold isCommandToken at legal
  split at legal
  · cases legal
  · simp only [Bool.and_eq_true, List.all_eq_true] at legal
    exact ⟨List.cons_ne_nil _ _, legal.2⟩

namespace Description

section

variable {α β : Type}

@[simp] theorem Cleaned.value_pure (a : α) : (pure a : Cleaned α).value = a := rfl

@[simp] theorem Cleaned.value_bind (x : Cleaned α) (f : α → Cleaned β) :
    (x >>= f).value = (f x.value).value := rfl

@[simp] theorem value_replace (path : Path) (repair : Repair) (a : α) : (replace path repair a).value = a := rfl

theorem Cleaned.value_mapM (f : α → Cleaned β) (items : List α) :
    (items.mapM f).value = items.map fun item => (f item).value := by
  have loop (done : List β) :
      (List.mapM.loop f items done).value = done.reverse ++ items.map fun item => (f item).value := by
    induction items generalizing done with
    | nil => simp [List.mapM.loop]
    | cons item items ih => simp [List.mapM.loop, ih]
  exact loop []

end

/-- Cutting a trimmed text and trimming its end again leaves no blank at either end. -/
theorem trim_trimEnd_take {s : List Char} (trimmed : Text.trim s = s) (n : Nat) :
    Text.trim (Text.trimEnd (s.take n)) = Text.trimEnd (s.take n) := by
  have shorter : Text.trimEnd (s.take n) <+: s := (List.rdropWhile_prefix _ _).trans (List.take_prefix n s)
  refine Text.trim_eq_self_iff.mpr ⟨fun c first => ?_, fun c last => ?_⟩
  · obtain ⟨rest, split⟩ := shorter
    refine (Text.trim_eq_self_iff.mp trimmed).1 c ?_
    rw [← split, List.head?_append, Option.mem_def.mp first]
    rfl
  · obtain ⟨start, split⟩ := List.getLast?_eq_some_iff.mp last
    have stop := List.rdropWhile_last_not Text.isBlank (s.take n) (List.ne_nil_of_mem (List.mem_of_getLast? last))
    have same : List.rdropWhile Text.isBlank (s.take n) = start ++ [c] := split
    simpa [same] using stop

theorem removeReserved_spec (path : Path) (s : List Char) :
    Text.trim (removeReserved path s).value = (removeReserved path s).value ∧
      ∀ c ∈ (removeReserved path s).value, isReserved c = false := by
  unfold removeReserved
  dsimp only
  split
  · rename_i all
    refine ⟨Text.trim_trim s, fun c member => ?_⟩
    simpa using List.length_filter_eq_length_iff.mp all c member
  · refine ⟨Text.trim_trim _, fun c member => ?_⟩
    simpa using (List.mem_filter.mp (Text.mem_trim member)).2

theorem truncate_spec (path : Path) {s : List Char} (trimmed : Text.trim s = s) :
    Text.trim (truncate path s).value = (truncate path s).value ∧
      (truncate path s).value.length ≤ maxTextLength ∧ (truncate path s).value ⊆ s := by
  unfold truncate
  split
  · rename_i short
    exact ⟨trimmed, short, List.Subset.refl s⟩
  · have shorter : Text.trimEnd (s.take maxTextLength) <+: s.take maxTextLength := List.rdropWhile_prefix _ _
    refine ⟨trim_trimEnd_take trimmed _, ?_, ?_⟩
    · exact shorter.length_le.trans (List.length_take_le _ _)
    · exact List.Subset.trans shorter.subset (List.take_subset _ _)

theorem cleanText_clean (path : Path) (s : List Char) : (cleanText path s).value.Clean := by
  obtain ⟨trimmed, unreserved⟩ := removeReserved_spec path s
  obtain ⟨stillTrimmed, short, part⟩ := truncate_spec path trimmed
  simp only [cleanText, Cleaned.value_bind]
  split
  · trivial
  · rename_i other
    simp only [Cleaned.value_pure, Value.Clean, String.toList_ofList]
    exact ⟨stillTrimmed, short, fun c member => unreserved c (part member), other⟩

theorem cleanInteger_clean (path : Path) (n : Int) : (cleanInteger path n).value.Clean := by
  unfold cleanInteger
  split
  · trivial
  · split
    · rfl
    · trivial

theorem cleanValue_clean (path : Path) (raw : Option Json) : (cleanValue path raw).value.Clean := by
  unfold cleanValue
  split
  · exact cleanInteger_clean path _
  · rfl
  · trivial
  · exact cleanText_clean path _
  · trivial

theorem cleanCondition_clean (path : Path) (raw : Option Json) :
    (cleanCondition path raw).value.left.Clean ∧ (cleanCondition path raw).value.right.Clean := by
  unfold cleanCondition
  split
  · exact ⟨trivial, trivial⟩
  · exact ⟨cleanValue_clean _ _, cleanValue_clean _ _⟩

theorem cleanStep_ne_zero (path : Path) (fields : JsonFields) : (cleanStep path fields).value ≠ 0 := by
  simp only [cleanStep, Cleaned.value_bind]
  split
  · simp
  · rename_i nonzero
    exact nonzero

theorem cleanCaseList_length (path : Path) (raw : Option Json) :
    (cleanCaseList path raw).value.length ≤ maxCases := by
  unfold cleanCaseList
  split
  · exact Nat.zero_le _
  · split
    · rename_i few
      exact few
    · exact List.length_take_le _ _
  · exact Nat.zero_le _

theorem keepUpTo_spec (clean : Path × Json → Cleaned (Option Node)) (room : Nat) (items : List (Path × Json)) :
    (keepUpTo clean room items).value.length ≤ room ∧
      ∀ node ∈ (keepUpTo clean room items).value, ∃ item ∈ items, (clean item).value = some node := by
  induction items generalizing room with
  | nil => cases room <;> simp [keepUpTo]
  | cons item items ih =>
    cases room with
    | zero => simp [keepUpTo]
    | succ room =>
      simp only [keepUpTo, Cleaned.value_bind]
      cases found : (clean item).value with
      | none =>
        obtain ⟨length, members⟩ := ih (room + 1)
        refine ⟨length, fun node member => ?_⟩
        obtain ⟨origin, inside, from_⟩ := members node member
        exact ⟨origin, List.mem_cons_of_mem _ inside, from_⟩
      | some first =>
        obtain ⟨length, members⟩ := ih room
        refine ⟨Nat.succ_le_succ length, fun node member => ?_⟩
        rcases List.mem_cons.mp member with rfl | member
        · exact ⟨item, List.mem_cons_self, found⟩
        · obtain ⟨origin, inside, from_⟩ := members node member
          exact ⟨origin, List.mem_cons_of_mem _ inside, from_⟩

theorem cleanCommand_spec {path : Path} {fields : JsonFields} {node : Node}
    (found : (cleanCommand path fields).value = some node) :
    ∃ token, node = .command token ∧ isCommandToken token.toList = true := by
  unfold cleanCommand at found
  dsimp only at found
  split at found
  · cases found
  · split at found
    · rename_i legal
      cases found
      exact ⟨_, rfl, by rwa [String.toList_ofList]⟩
    · cases found

/-- Each value of an instruction is clean, and each body comes from the cleaning of the lists. -/
theorem cleanNodeWith_spec {nodes : Path → Option Json → Cleaned (List Node)} {item : Path × Json} {node : Node}
    (found : (cleanNodeWith nodes item).value = some node) :
    node.Legal ∧ (∀ v ∈ node.values, v.Clean) ∧
      ∀ body ∈ node.bodies, ∃ path raw, body = (nodes path raw).value := by
  obtain ⟨path, raw⟩ := item
  have condition (c : Condition) (clean : c.left.Clean ∧ c.right.Clean) : ∀ v ∈ [c.left, c.right], v.Clean := by
    simpa using clean
  unfold cleanNodeWith at found
  dsimp only at found
  split at found
  · cases found
  · split at found
    · obtain ⟨token, rfl, legal⟩ := cleanCommand_spec found
      exact ⟨legal, by simp [Node.values], by simp [Node.bodies]⟩
    · obtain rfl := Option.some.inj found
      exact ⟨trivial, by simp [Node.values], by simp [Node.bodies]⟩
    · obtain rfl := Option.some.inj found
      exact ⟨trivial, List.forall_mem_singleton.mpr (cleanValue_clean _ _), by simp [cleanAssign, Node.bodies]⟩
    · obtain rfl := Option.some.inj found
      refine ⟨trivial, condition _ (cleanCondition_clean _ _), ?_⟩
      exact List.forall_mem_cons.mpr ⟨⟨_, _, rfl⟩, List.forall_mem_singleton.mpr ⟨_, _, rfl⟩⟩
    · obtain rfl := Option.some.inj found
      exact ⟨trivial, condition _ (cleanCondition_clean _ _), List.forall_mem_singleton.mpr ⟨_, _, rfl⟩⟩
    · obtain rfl := Option.some.inj found
      exact ⟨cleanStep_ne_zero _ _, by simp [Node.values], List.forall_mem_singleton.mpr ⟨_, _, rfl⟩⟩
    · obtain rfl := Option.some.inj found
      refine ⟨?_, List.forall_mem_cons.mpr ⟨cleanValue_clean _ _, ?_⟩, List.forall_mem_append.mpr ⟨?_, ?_⟩⟩
      · simp only [Node.Legal, Cleaned.value_mapM, List.length_map, located, List.length_mapIdx]
        exact cleanCaseList_length _ _
      · intro v member
        simp only [Cleaned.value_mapM, List.map_map, List.mem_map] at member
        obtain ⟨case, -, rfl⟩ := member
        exact cleanValue_clean _ _
      · intro body member
        simp only [Cleaned.value_mapM, List.map_map, List.mem_map] at member
        obtain ⟨case, -, rfl⟩ := member
        exact ⟨_, _, rfl⟩
      · exact List.forall_mem_singleton.mpr ⟨_, _, rfl⟩
    · obtain rfl := Option.some.inj found
      exact ⟨trivial, by simp [Node.values], by simp [Node.bodies]⟩
    · cases found
    · cases found

/-- A list is cleaned item by item where it is an array not too deep, and is empty otherwise. -/
theorem cleanNodes_value (levels : Nat) (path : Path) (raw : Option Json) :
    (cleanNodes levels path raw).value = [] ∨ ∃ less items, levels = less + 1 ∧
      (cleanNodes levels path raw).value =
        (keepUpTo (cleanNodeWith (cleanNodes less)) maxNodes (located path items)).value := by
  unfold cleanNodes
  split
  · exact .inl rfl
  · split <;> exact .inl rfl
  · rename_i less items
    refine .inr ⟨less, items, rfl, ?_⟩
    simp only [Cleaned.value_bind]
    split <;> rfl
  · exact .inl rfl

theorem cleanNodes_length (levels : Nat) (path : Path) (raw : Option Json) :
    (cleanNodes levels path raw).value.length ≤ maxNodes := by
  rcases cleanNodes_value levels path raw with empty | ⟨less, items, -, same⟩
  · rw [empty]
    exact Nat.zero_le _
  · rw [same]
    exact (keepUpTo_spec _ _ _).1

/-- The nesting is cut, and what is kept is clean at every depth. -/
theorem within_cleanNodes {levels : Nat} {path : Path} {raw : Option Json} {k : Nat} {node : Node}
    (within : Within (cleanNodes levels path raw).value k node) : node.Clean ∧ k < levels := by
  induction levels generalizing path raw k with
  | zero =>
    rcases cleanNodes_value 0 path raw with empty | ⟨less, items, impossible, -⟩
    · rw [empty] at within
      exact absurd within not_within_nil
    · omega
  | succ levels ih =>
    rcases cleanNodes_value (levels + 1) path raw with empty | ⟨less, items, same, kept⟩
    · rw [empty] at within
      exact absurd within not_within_nil
    · obtain rfl : levels = less := by omega
      rw [kept] at within
      cases within with
      | here member =>
        obtain ⟨item, -, found⟩ := (keepUpTo_spec _ _ _).2 node member
        obtain ⟨legal, values, bodies⟩ := cleanNodeWith_spec found
        refine ⟨⟨legal, values, fun body isBody => ?_⟩, by omega⟩
        obtain ⟨path, raw, rfl⟩ := bodies body isBody
        exact cleanNodes_length levels path raw
      | inside member isBody within =>
        obtain ⟨item, -, found⟩ := (keepUpTo_spec _ _ _).2 _ member
        obtain ⟨-, -, bodies⟩ := cleanNodeWith_spec found
        obtain ⟨path, raw, rfl⟩ := bodies _ isBody
        have deeper := ih within
        exact ⟨deeper.1, by omega⟩

/-- Of the flags in a description only the pairing names are kept. -/
theorem cleanFlag_spec {item : Path × Json} {flag : InitFlag} (found : (cleanFlag item).value = some flag) :
    flag.Valid ∧ ∃ name, flag = .pairing name := by
  unfold cleanFlag at found
  split at found
  · dsimp only at found
    split at found
    · cases found
    · split at found
      · rename_i name token
        cases found
        exact ⟨(InitFlag.of_ofChars? token).1, name, rfl⟩
      · cases found
      · cases found
  · cases found

/-- What is kept once of a list was kept before or stands in the list. -/
theorem mem_of_mem_keepOnce {flags done : List InitFlag} {flag : InitFlag}
    (member : flag ∈ flags.foldl (fun kept flag => if flag ∈ kept then kept else kept ++ [flag]) done) :
    flag ∈ done ∨ flag ∈ flags := by
  induction flags generalizing done with
  | nil => exact .inl member
  | cons first flags ih =>
    rcases ih member with member | member
    · dsimp only at member
      split at member
      · exact .inl member
      · rcases List.mem_append.mp member with member | member
        · exact .inl member
        · exact .inr (by simp [List.mem_singleton.mp member])
    · exact .inr (List.mem_cons_of_mem _ member)

theorem nodup_keepOnce {flags done : List InitFlag} (distinct : done.Nodup) :
    (flags.foldl (fun kept flag => if flag ∈ kept then kept else kept ++ [flag]) done).Nodup := by
  induction flags generalizing done with
  | nil => exact distinct
  | cons flag flags ih =>
    rw [List.foldl_cons]
    by_cases seen : flag ∈ done
    · rw [if_pos seen]
      exact ih distinct
    · have longer := List.Nodup.concat seen distinct
      rw [List.concat_eq_append] at longer
      rw [if_neg seen]
      exact ih longer

/-- The flags that are kept come from the items of the list, each once. -/
theorem cleanFlags_value (raw : Option Json) :
    ∃ flags : List InitFlag, (∀ flag ∈ flags, ∃ item, (cleanFlag item).value = some flag) ∧
      (cleanFlags raw).value =
        flags.foldl (fun kept flag => if flag ∈ kept then kept else kept ++ [flag]) [] := by
  unfold cleanFlags
  dsimp only
  split
  · exact ⟨[], by simp, rfl⟩
  · rename_i items
    refine ⟨((located (Path.root "initFlags") items).map fun item => (cleanFlag item).value).filterMap id, ?_, ?_⟩
    · intro flag member
      simp only [List.mem_filterMap, List.mem_map, id] at member
      obtain ⟨_, ⟨item, -, rfl⟩, found⟩ := member
      exact ⟨item, found⟩
    · simp only [Cleaned.value_bind, Cleaned.value_pure, Cleaned.value_mapM]
  · exact ⟨[], by simp, rfl⟩

theorem cleanFlags_nodup (raw : Option Json) : (cleanFlags raw).value.Nodup := by
  obtain ⟨flags, -, same⟩ := cleanFlags_value raw
  rw [same]
  exact nodup_keepOnce List.nodup_nil

theorem cleanFlags_spec {raw : Option Json} {flag : InitFlag} (member : flag ∈ (cleanFlags raw).value) :
    flag.Valid ∧ ∃ name, flag = .pairing name := by
  obtain ⟨flags, origin, same⟩ := cleanFlags_value raw
  rw [same] at member
  rcases mem_of_mem_keepOnce member with member | member
  · exact absurd member List.not_mem_nil
  · obtain ⟨item, found⟩ := origin flag member
    exact cleanFlag_spec found

theorem inferFlags_valid (setup loop : List Node) : ∀ flag ∈ inferFlags setup loop, flag.Valid := by
  intro flag member
  have known := (List.mem_filter.mp member).1
  simp only [InitFlag.enumerated, List.mem_cons, List.not_mem_nil, or_false] at known
  rcases known with rfl | rfl | rfl | rfl | rfl | rfl <;> trivial

theorem within_clean {raw : Json} {k : Nat} {node : Node} (within : Within (clean raw).value.nodes k node) :
    node.Clean ∧ k ≤ maxDepth := by
  unfold clean at within
  split at within
  · exact absurd within not_within_nil
  · rcases within_append.mp within with within | within
    · obtain ⟨clean, bound⟩ := within_cleanNodes within
      exact ⟨clean, by omega⟩
    · obtain ⟨clean, bound⟩ := within_cleanNodes within
      exact ⟨clean, by omega⟩

end Description

end RobotScript
