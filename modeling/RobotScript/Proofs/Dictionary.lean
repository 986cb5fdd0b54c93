import RobotScript.Dictionary

namespace RobotScript

namespace Ascending

variable {α β : Type}

theorem lt_of_mem_toList {bound : Option String} {b : String} {entry : String × α} {entries : Ascending α bound}
    (bounded : b ∈ bound) (member : entry ∈ entries.toList) : b < entry.1 := by
  induction entries generalizing b with
  | nil => exact absurd member List.not_mem_nil
  | cons key beyond value rest ih =>
    obtain rfl | later := List.mem_cons.mp member
    · exact beyond b bounded
    · exact String.lt_trans (beyond b bounded) (ih rfl later)

theorem pairwise_toList {bound : Option String} (entries : Ascending α bound) :
    entries.toList.Pairwise fun a b => a.1 < b.1 := by
  induction entries with
  | nil => exact .nil
  | cons key beyond value rest ih => exact .cons (fun _ member => lt_of_mem_toList rfl member) ih

theorem nodup_keys {bound : Option String} (entries : Ascending α bound) : (entries.toList.map (·.1)).Nodup :=
  List.pairwise_map.mpr (entries.pairwise_toList.imp String.ne_of_lt)

theorem toList_map (f : α → β) {bound : Option String} (entries : Ascending α bound) :
    (entries.map f).toList = entries.toList.map fun entry => (entry.1, f entry.2) := by
  induction entries with
  | nil => rfl
  | cons key beyond value rest ih => exact congrArg (_ :: ·) ih

theorem toList_injective {bound : Option String} {a b : Ascending α bound} (same : a.toList = b.toList) : a = b := by
  induction a with
  | nil =>
    cases b with
    | nil => rfl
    | cons => exact nomatch same
  | cons key beyond value rest ih =>
    cases b with
    | nil => exact nomatch same
    | cons key' beyond' value' rest' =>
      obtain ⟨head, tail⟩ := List.cons.inj same
      obtain ⟨rfl, rfl⟩ := Prod.mk.inj head
      rw [ih tail]

/-- A key beyond all others comes last. -/
theorem toList_insert_of_lt {bound : Option String} {key : String} {beyond : ∀ b ∈ bound, b < key} {value : α}
    {entries : Ascending α bound} (before : ∀ entry ∈ entries.toList, entry.1 < key) :
    (entries.insert key value beyond).toList = entries.toList ++ [(key, value)] := by
  induction entries with
  | nil => rfl
  | cons k above v rest ih =>
    obtain ⟨first, others⟩ := List.forall_mem_cons.mp before
    rw [insert, dif_neg (String.lt_asymm first), dif_neg (Ne.symm (String.ne_of_lt first))]
    exact congrArg (_ :: ·) (ih others)

end Ascending

namespace Dictionary

variable {α : Type}

theorem toList_foldl_insert {before : Dictionary α} {entries : List (String × α)}
    (sorted : (before.toList ++ entries).Pairwise fun a b => a.1 < b.1) :
    (entries.foldl (fun dictionary entry => insert entry.1 entry.2 dictionary) before).toList =
      before.toList ++ entries := by
  induction entries generalizing before with
  | nil => exact (List.append_nil _).symm
  | cons entry entries ih =>
    have below := (List.pairwise_append.mp sorted).2.2
    have last : (insert entry.1 entry.2 before).toList = before.toList ++ [entry] :=
      Ascending.toList_insert_of_lt fun other member => below other member entry List.mem_cons_self
    rw [List.foldl_cons, ih (by rwa [last, List.append_assoc]), last, List.append_assoc]
    rfl

theorem ofList_toList (dictionary : Dictionary α) : ofList dictionary.toList = dictionary :=
  Ascending.toList_injective (toList_foldl_insert dictionary.pairwise_toList)

theorem mem_of_get? {dictionary : Dictionary α} {key : String} {value : α} (found : dictionary.get? key = some value) :
    (key, value) ∈ dictionary.toList := by
  obtain ⟨before, after, split, -⟩ := List.lookup_eq_some_iff.mp found
  exact split ▸ List.mem_append_right before List.mem_cons_self

end Dictionary

end RobotScript
