namespace Redline

class KeyOrder (κ : Type) where
  before : κ → κ → Bool

instance : KeyOrder String := ⟨fun a b => decide (a < b)⟩

instance [DecidableEq α] [KeyOrder α] [KeyOrder β] : KeyOrder (α × β) :=
  ⟨fun a b => KeyOrder.before a.1 b.1 || (decide (a.1 = b.1) && KeyOrder.before a.2 b.2)⟩

abbrev Table (κ ν : Type) := List (κ × ν)

namespace Table

variable {κ ν : Type} [DecidableEq κ] [KeyOrder κ]

def find? (key : κ) (table : Table κ ν) : Option ν := List.lookup key table

def insert (key : κ) (value : ν) : Table κ ν → Table κ ν
  | [] => [(key,value)]
  | (other,old) :: rest =>
      if key = other then (key,value) :: rest
      else if KeyOrder.before key other then (key,value) :: (other,old) :: rest
      else (other,old) :: insert key value rest

def erase (key : κ) (table : Table κ ν) : Table κ ν := table.filter fun row => row.1 ≠ key

def contains (key : κ) (table : Table κ ν) : Bool := (table.find? key).isSome

def alter (key : κ) (default : ν) (change : ν → ν) (table : Table κ ν) : Table κ ν :=
  table.insert key (change ((table.find? key).getD default))

def keys (table : Table κ ν) : List κ := table.map Prod.fst

def values (table : Table κ ν) : List ν := table.map Prod.snd

-- Rows ascend and no key repeats.
def Ordered (table : Table κ ν) : Prop := table.Pairwise fun a b => KeyOrder.before a.1 b.1 = true

theorem find?_insert_self (key : κ) (value : ν) (table : Table κ ν) :
    (table.insert key value).find? key = some value := by
  induction table with
  | nil => simp [insert,find?]
  | cons row rest ih =>
      obtain ⟨held,old⟩ := row
      simp only [insert]
      split
      · simp [find?]
      · rename_i other
        split
        · simp [find?]
        · have apart : (key == held) = false := by simpa using other
          simpa [find?,List.lookup_cons,apart] using ih

theorem find?_insert_other (key other : κ) (value : ν) (table : Table κ ν) (apart : other ≠ key) :
    (table.insert key value).find? other = table.find? other := by
  have unequal : (other == key) = false := by simpa using apart
  induction table with
  | nil => simp [insert,find?,List.lookup_cons,unequal]
  | cons row rest ih =>
      obtain ⟨held,old⟩ := row
      simp only [insert]
      split
      · rename_i same
        have apart : (other == held) = false := by rw [← same]; exact unequal
        simp [find?,List.lookup_cons,unequal,apart]
      · split
        · simp [find?,List.lookup_cons,unequal]
        · simp only [find?,List.lookup_cons] at ih ⊢
          split <;> simp_all

end Table

end Redline
