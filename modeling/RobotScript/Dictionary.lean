namespace RobotScript

/-- Values under keys that increase from each to the next, all of them beyond the bound if there is one. -/
inductive Ascending (α : Type) : Option String → Type
  | nil {bound : Option String} : Ascending α bound
  | cons {bound : Option String} (key : String) (beyond : ∀ b ∈ bound, b < key) (value : α)
      (rest : Ascending α (some key)) : Ascending α bound
  deriving DecidableEq, BEq

namespace Ascending

variable {α β : Type}

def toList {bound : Option String} : Ascending α bound → List (String × α)
  | .nil => []
  | .cons key _ value rest => (key, value) :: rest.toList

def map (f : α → β) {bound : Option String} : Ascending α bound → Ascending β bound
  | .nil => .nil
  | .cons key beyond value rest => .cons key beyond (f value) (rest.map f)

/-- Puts a value under a key; a value that was there gives way. -/
def insert (key : String) (value : α) {bound : Option String} (beyond : ∀ b ∈ bound, b < key) :
    Ascending α bound → Ascending α bound
  | .nil => .cons key beyond value .nil
  | .cons k above v rest =>
    if less : key < k then .cons key beyond value (.cons k (by simpa using less) v rest)
    else if same : key = k then .cons k above value rest
    else
      have greater : k < key := String.not_le.mp fun le => same (String.le_antisymm le (String.not_lt.mp less))
      .cons k above v (rest.insert key value (by simpa using greater))

end Ascending

/-- Values under distinct keys, in the order of the keys. -/
abbrev Dictionary (α : Type) := Ascending α none

namespace Dictionary

variable {α : Type}

def insert (key : String) (value : α) (dictionary : Dictionary α) : Dictionary α :=
  Ascending.insert key value nofun dictionary

/-- Of the values under one key the last is kept. -/
def ofList (entries : List (String × α)) : Dictionary α :=
  entries.foldl (fun dictionary entry => insert entry.1 entry.2 dictionary) .nil

def get? (dictionary : Dictionary α) (key : String) : Option α := dictionary.toList.lookup key

end Dictionary

end RobotScript
