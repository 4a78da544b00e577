import Redline.Revision.Snake

namespace Redline.Revision

variable {α : Type} [DecidableEq α]

structure Cursor (α : Type) where
  before : List (Edit α)
  current : Edit α
  behind : List (Edit α)

namespace Cursor

def edits (c : Cursor α) : List (Edit α) := c.before.reverse ++ c.current :: c.behind

end Cursor

-- Items that edits still hold; a slide moves some of them past the current edit.
def Edit.weight : Edit α → Nat
  | .equal items => items.length + 1
  | .delete items _ => items.length + 1
  | .insert items => items.length + 1
  | .replace old new => old.length + new.length + 1

def weight (edits : List (Edit α)) : Nat := (edits.map Edit.weight).foldr (· + ·) 0

def growFront (items : List α) : List (Edit α) → List (Edit α)
  | .equal more :: rest => .equal (items ++ more) :: rest
  | rest => .equal items :: rest

def growBack (items : List α) : List (Edit α) → List (Edit α)
  | .equal more :: rest => .equal (more ++ items) :: rest
  | rest => .equal items :: rest

def Cursor.up? (c : Cursor α) : Option (Cursor α) :=
  match c.current,c.before with
  | .insert items,.equal shared :: rest =>
      let slid := commonSuffix shared items
      if slid.isEmpty then if shared.isEmpty then some ⟨rest,c.current,c.behind⟩ else none
      else
        let kept := shared.take (shared.length - slid.length)
        let moved := slid ++ items.take (items.length - slid.length)
        some ⟨if kept.isEmpty then rest else .equal kept :: rest,.insert moved,growFront slid c.behind⟩
  | .delete _ _,.equal shared :: rest => if shared.isEmpty then some ⟨rest,c.current,c.behind⟩ else none
  | .insert _,.delete items place :: rest => some ⟨rest,c.current,.delete items place :: c.behind⟩
  | .delete _ _,.insert items :: rest => some ⟨rest,c.current,.insert items :: c.behind⟩
  | .insert items,.insert first :: rest => some ⟨rest,.insert (first ++ items),c.behind⟩
  | .delete items _,.delete first place :: rest => some ⟨rest,.delete (first ++ items) place,c.behind⟩
  | _,_ => none

def Cursor.down? (c : Cursor α) : Option (Cursor α) :=
  match c.current,c.behind with
  | .insert items,.equal shared :: rest =>
      let slid := commonPrefix shared items
      if slid.isEmpty then if shared.isEmpty then some ⟨c.before,c.current,rest⟩ else none
      else
        let kept := shared.drop slid.length
        let moved := items.drop slid.length ++ slid
        some ⟨growBack slid c.before,.insert moved,if kept.isEmpty then rest else .equal kept :: rest⟩
  | .delete _ _,.equal shared :: rest => if shared.isEmpty then some ⟨c.before,c.current,rest⟩ else none
  | .insert _,.delete items place :: rest => some ⟨.delete items place :: c.before,c.current,rest⟩
  | .delete _ _,.insert items :: rest => some ⟨.insert items :: c.before,c.current,rest⟩
  | .insert items,.insert more :: rest => some ⟨c.before,.insert (items ++ more),rest⟩
  | .delete items place,.delete more _ :: rest => some ⟨c.before,.delete (items ++ more) place,rest⟩
  | _,_ => none

def Cursor.rise (c : Cursor α) : Nat → Cursor α
  | 0 => c
  | fuel + 1 => match c.up? with
    | some next => next.rise fuel
    | none => c

def Cursor.sink (c : Cursor α) : Nat → Cursor α
  | 0 => c
  | fuel + 1 => match c.down? with
    | some next => next.sink fuel
    | none => c

-- Every move takes weight from the side it goes to, which bounds their number.
def Cursor.settle (c : Cursor α) : Cursor α :=
  let top := c.rise (weight c.before)
  top.sink (weight top.behind)

def settleAll (wanted : Edit α → Bool) : Nat → List (Edit α) → List (Edit α) → List (Edit α)
  | _,before,[] => before.reverse
  | 0,before,behind => before.reverse ++ behind
  | fuel + 1,before,edit :: behind =>
      if wanted edit then
        let settled := Cursor.settle ⟨before,edit,behind⟩
        settleAll wanted fuel (settled.current :: settled.before) settled.behind
      else settleAll wanted fuel (edit :: before) behind

def isDelete : Edit α → Bool
  | .delete _ _ => true
  | _ => false

def isInsert : Edit α → Bool
  | .insert _ => true
  | _ => false

def compacted (edits : List (Edit α)) : List (Edit α) :=
  let bound := weight edits
  settleAll isInsert bound [] (settleAll isDelete bound [] edits)

structure Gap (α : Type) where
  deleted : Option (List α × Nat) := none
  inserted : Option (List α) := none

def Gap.edits : Gap α → List (Edit α)
  | ⟨some (old,_),some new⟩ => [.replace old new]
  | ⟨some (old,place),none⟩ => [.delete old place]
  | ⟨none,some new⟩ => [.insert new]
  | ⟨none,none⟩ => []

def Gap.add (gap : Gap α) : Edit α → Gap α
  | .delete items place => match gap.deleted with
    | some (old,first) => { gap with deleted := some (old ++ items,first) }
    | none => { gap with deleted := some (items,place) }
  | .insert items => match gap.inserted with
    | some new => { gap with inserted := some (new ++ items) }
    | none => { gap with inserted := some items }
  | _ => gap

def gathered (gap : Gap α) : List (Edit α) → List (Edit α)
  | [] => gap.edits
  | .equal items :: rest => gap.edits ++ .equal items :: gathered {} rest
  | edit :: rest => gathered (gap.add edit) rest

def script (old new : List α) : List (Edit α) := gathered {} (compacted (rawScript old new))

end Redline.Revision
