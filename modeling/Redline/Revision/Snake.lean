import Redline.Revision.Edit

namespace Redline.Revision

variable {α : Type} [DecidableEq α]

def agreeForward (old new : Array α) (i j : Nat) : Nat → Nat
  | 0 => 0
  | fuel + 1 =>
      match old[i]?,new[j]? with
      | some a,some b => if a = b then agreeForward old new (i + 1) (j + 1) fuel + 1 else 0
      | _,_ => 0

def agreeBackward (old new : Array α) : Nat → Nat → Nat
  | i + 1,j + 1 =>
      match old[i]?,new[j]? with
      | some a,some b => if a = b then agreeBackward old new i j + 1 else 0
      | _,_ => 0
  | _,_ => 0

-- The furthest place in the old sequence on each diagonal; diagonals run from `-offset`.
structure Reach where
  offset : Nat
  values : Array Nat

namespace Reach

def start (size : Nat) : Reach := ⟨size + 1,Array.replicate (2 * size + 3) 0⟩

def at? (reach : Reach) (diagonal : Int) : Nat := reach.values.getD (diagonal + reach.offset).toNat 0

def set (reach : Reach) (diagonal : Int) (value : Nat) : Reach :=
  { reach with values := reach.values.setIfInBounds (diagonal + reach.offset).toNat value }

def entry (reach : Reach) (steps : Nat) (diagonal : Int) : Nat :=
  if diagonal = -(steps : Int) ∨
      (diagonal ≠ steps ∧ reach.at? (diagonal - 1) < reach.at? (diagonal + 1)) then
    reach.at? (diagonal + 1)
  else reach.at? (diagonal - 1) + 1

end Reach

structure Search where
  forward : Reach
  backward : Reach

-- The diagonals of a round: `steps`, `steps - 2`, down to `-steps`.
def diagonals (steps : Nat) : List Int := (List.range (steps + 1)).map fun (i : Nat) => (steps : Int) - 2 * (i : Int)

def forwardStep (old new : Array α) (steps : Nat) (search : Search) (diagonal : Int) :
    Search × Option (Nat × Nat) :=
  let delta : Int := (old.size : Int) - new.size
  let x := search.forward.entry steps diagonal
  let y : Int := (x : Int) - diagonal
  let run := if x < old.size ∧ 0 ≤ y ∧ y < new.size then agreeForward old new x y.toNat old.size else 0
  let reached := x + run
  let search := { search with forward := search.forward.set diagonal reached }
  let meets := delta % 2 ≠ 0 ∧ ((diagonal - delta).natAbs : Int) ≤ (steps : Int) - 1 ∧
    old.size ≤ reached + search.backward.at? (delta - diagonal)
  (search,if meets then some (x,y.toNat) else none)

def backwardStep (old new : Array α) (steps : Nat) (search : Search) (diagonal : Int) :
    Search × Option (Nat × Nat) :=
  let delta : Int := (old.size : Int) - new.size
  let x := search.backward.entry steps diagonal
  let y : Int := (x : Int) - diagonal
  let run :=
    if x < old.size ∧ 0 ≤ y ∧ y < new.size then agreeBackward old new (old.size - x) (new.size - y.toNat) else 0
  let reached := x + run
  let search := { search with backward := search.backward.set diagonal reached }
  let meets := delta % 2 = 0 ∧ (diagonal - delta).natAbs ≤ steps ∧
    old.size ≤ reached + search.forward.at? (delta - diagonal)
  (search,if meets then some (old.size - reached,((new.size : Int) - (y + run)).toNat) else none)

def sweep (step : Search → Int → Search × Option (Nat × Nat)) :
    Search → List Int → Search × Option (Nat × Nat)
  | search,[] => (search,none)
  | search,diagonal :: rest =>
      match step search diagonal with
      | (_,some point) => (search,some point)
      | (search,none) => sweep step search rest

def rounds (old new : Array α) (search : Search) (steps : Nat) : Nat → Option (Nat × Nat)
  | 0 => none
  | fuel + 1 =>
      match sweep (forwardStep old new steps) search (diagonals steps) with
      | (_,some point) => some point
      | (search,none) =>
          match sweep (backwardStep old new steps) search (diagonals steps) with
          | (_,some point) => some point
          | (search,none) => rounds old new search (steps + 1) fuel

def middle? (old new : List α) : Option (Nat × Nat) :=
  let size := (old.length + new.length + 1) / 2 + 1
  rounds old.toArray new.toArray ⟨Reach.start size,Reach.start size⟩ 0 size

def equalEdit (items : List α) : List (Edit α) := if items.isEmpty then [] else [.equal items]

-- The script before compaction. `place` is where the new items begin in the whole new sequence.
-- Every split makes both parts smaller, so the joint length bounds the depth.
def conquer : Nat → List α → List α → Nat → List (Edit α)
  | 0,old,new,place => [.delete old place,.insert new]
  | fuel + 1,old,new,place =>
      let before := commonPrefix old new
      let old := old.drop before.length
      let new := new.drop before.length
      let place := place + before.length
      let after := commonSuffix old new
      let old := old.take (old.length - after.length)
      let new := new.take (new.length - after.length)
      let inner :=
        if old.isEmpty && new.isEmpty then []
        else if new.isEmpty then [.delete old place]
        else if old.isEmpty then [.insert new]
        else match middle? old new with
          | some (x,y) =>
              conquer fuel (old.take x) (new.take y) place ++
                conquer fuel (old.drop x) (new.drop y) (place + (new.take y).length)
          | none => [.delete old place,.insert new]
      equalEdit before ++ inner ++ equalEdit after

def rawScript (old new : List α) : List (Edit α) := conquer (old.length + new.length + 1) old new 0

end Redline.Revision
