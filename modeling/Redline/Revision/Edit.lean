namespace Redline.Revision

-- A deletion also records the place in the new sequence at which it was found.
inductive Edit (α : Type) where
  | equal (items : List α)
  | delete (items : List α) (place : Nat)
  | insert (items : List α)
  | replace (old new : List α)
deriving DecidableEq

namespace Edit

def oldItems : Edit α → List α
  | equal items => items
  | delete items _ => items
  | insert _ => []
  | replace old _ => old

def newItems : Edit α → List α
  | equal items => items
  | delete _ _ => []
  | insert items => items
  | replace _ new => new

def isEqual : Edit α → Bool
  | equal _ => true
  | _ => false

end Edit

def oldSide (edits : List (Edit α)) : List α := edits.flatMap Edit.oldItems

def newSide (edits : List (Edit α)) : List α := edits.flatMap Edit.newItems

@[simp] theorem oldSide_append (first second : List (Edit α)) :
    oldSide (first ++ second) = oldSide first ++ oldSide second := by simp [oldSide]

@[simp] theorem newSide_append (first second : List (Edit α)) :
    newSide (first ++ second) = newSide first ++ newSide second := by simp [newSide]

variable {α : Type} [DecidableEq α]

def commonPrefix : List α → List α → List α
  | a :: as,b :: bs => if a = b then a :: commonPrefix as bs else []
  | _,_ => []

def commonSuffix (as bs : List α) : List α := (commonPrefix as.reverse bs.reverse).reverse

theorem commonPrefix_left (as bs : List α) :
    commonPrefix as bs ++ as.drop (commonPrefix as bs).length = as := by
  induction as generalizing bs with
  | nil => rfl
  | cons a as ih =>
      cases bs with
      | nil => rfl
      | cons b bs =>
          simp only [commonPrefix]
          split
          · simp [ih]
          · rfl

theorem commonPrefix_comm (as bs : List α) : commonPrefix as bs = commonPrefix bs as := by
  induction as generalizing bs with
  | nil => cases bs <;> rfl
  | cons a as ih =>
      cases bs with
      | nil => rfl
      | cons b bs =>
          simp only [commonPrefix]
          by_cases same : a = b
          · simp [same,ih]
          · simp [same,Ne.symm same]

end Redline.Revision
