import Redline.Json.Outline
import Redline.Text.Search

namespace Redline.Json

inductive Absence where
  | refused
  | fromObject
  | allowed
deriving DecidableEq

inductive Shape where
  | text
  | textWhere (accepts : String → Bool)
  | whole (low high : Int)
  | flag
  | tree
  | table
  | word (choices : List String)
  | list (each : Shape)
  | mapping (each : Shape)
  | record (fields : List (String × Bool × Absence × Shape))

-- A field's name, whether null counts as left out, when it may be left out, and its shape.
abbrev Field := String × Bool × Absence × Shape

namespace Field

def required (name : String) (shape : Shape) : Field := (name,false,.refused,shape)

def defaulted (name : String) (shape : Shape) : Field := (name,false,.allowed,shape)

def nullable (name : String) (shape : Shape) : Field := (name,true,.fromObject,shape)

def nullableDefaulted (name : String) (shape : Shape) : Field := (name,true,.allowed,shape)

end Field

-- A scalar that is JSON but not of the wanted kind is a mismatch; brackets are one as soon as
-- they open.
def Outline.unwanted : Outline → Fault
  | .broken => .malformed
  | .number literal => if literal.number?.isSome then .mismatch else .malformed
  | .text none => .malformed
  | _ => .mismatch

abbrev Slots := List (String × Value)

def missing (fields : List Field) (slots : Slots) (ofArray : Bool) : Bool :=
  fields.any fun (name,_,absence,_) =>
    (slots.lookup name).isNone &&
      match absence with
      | .refused => true
      | .fromObject => ofArray
      | .allowed => false

def Slots.arrange (fields : List Field) (slots : Slots) : Value :=
  .object (fields.filterMap fun (name,nullable,_,_) =>
    match slots.lookup name with
    | some .null => if nullable then none else some (name,.null)
    | some value => some (name,value)
    | none => none)

mutual

def Shape.read (depth : Nat) : Shape → Outline → Except Fault Value
  | .tree,outline => outline.value depth
  | .text,.text (some content) => .ok (.text content)
  | .textWhere accepts,.text (some content) =>
      if accepts content then .ok (.text content) else .error .mismatch
  | .whole low high,.number literal =>
      match literal.number? with
      | some (.whole n) => if low ≤ n ∧ n ≤ high then .ok (.whole n) else .error .mismatch
      | some (.binary _) => .error .mismatch
      | none => .error .malformed
  | .flag,.bool set => .ok (.bool set)
  | .table,.object members closed => Outline.value depth (.object members closed)
  | .word choices,.text (some content) =>
      if choices.contains content then .ok (.text content) else .error .mismatch
  | .word choices,.object members closed =>
      if depth = 0 then .error .malformed
      else match members with
        | [] => .error .malformed
        | (none,_) :: _ => .error .malformed
        | (some content,value) :: rest =>
            if !choices.contains content then .error .mismatch
            else match value with
              | .null => if closed && rest.isEmpty then .ok (.text content) else .error .malformed
              | other => .error other.unwanted
  | .word _,_ => .error .malformed
  | .list each,.array items closed =>
      if depth = 0 then .error .malformed
      else do
        let values ← Shape.readItems (depth - 1) each items
        if closed then .ok (.array values) else .error .malformed
  | .mapping each,.object members closed =>
      if depth = 0 then .error .malformed
      else do
        let rows ← Shape.readRows (depth - 1) each [] members
        if closed then .ok (.object rows) else .error .malformed
  | .record fields,.object members closed =>
      if depth = 0 then .error .malformed
      else do
        let slots ← Shape.readMembers (depth - 1) fields [] members
        if !closed then .error .malformed
        else if missing fields slots false then .error .mismatch
        else .ok (slots.arrange fields)
  | .record fields,.array items closed =>
      if depth = 0 then .error .malformed
      else do
        let slots ← Shape.readFields (depth - 1) fields [] items
        if !closed && items.length < fields.length then .error .malformed
        else if missing fields slots true then .error .mismatch
        else if closed && items.length ≤ fields.length then .ok (slots.arrange fields)
        else .error .malformed
  | _,outline => .error outline.unwanted

def Shape.readItems (depth : Nat) (each : Shape) : List Outline → Except Fault (List Value)
  | [] => .ok []
  | item :: rest => do
      let value ← Shape.read depth each item
      let values ← Shape.readItems depth each rest
      return value :: values

def Shape.readRows (depth : Nat) (each : Shape) (known : List (String × Value)) :
    List (Option String × Outline) → Except Fault (List (String × Value))
  | [] => .ok known
  | (none,_) :: _ => .error .malformed
  | (some name,outline) :: rest => do
      let value ← Shape.read depth each outline
      Shape.readRows depth each (Table.insert name value known) rest

def Shape.readMembers (depth : Nat) (fields : List Field) (slots : Slots) :
    List (Option String × Outline) → Except Fault Slots
  | [] => .ok slots
  | (none,_) :: _ => .error .malformed
  | (some name,outline) :: rest =>
      match fields.lookup name with
      | none =>
          if outline.complete then Shape.readMembers depth fields slots rest else .error .malformed
      | some (nullable,_,shape) =>
          if (slots.lookup name).isSome then .error .mismatch
          else do
            let value ← match nullable,outline with
              | true,.null => .ok .null
              | _,outline => Shape.read depth shape outline
            Shape.readMembers depth fields ((name,value) :: slots) rest

def Shape.readFields (depth : Nat) (fields : List Field) (slots : Slots) :
    List Outline → Except Fault Slots
  | [] => .ok slots
  | outline :: items =>
      match fields with
      | [] => .ok slots
      | (name,nullable,_,shape) :: fields => do
          let value ← match nullable,outline with
            | true,.null => .ok .null
            | _,outline => Shape.read depth shape outline
          Shape.readFields depth fields ((name,value) :: slots) items

end

def Shape.readWhole (shape : Shape) : Outline × Bool → Except Fault Value
  | (outline,ends) => do
      let value ← shape.read greatestDepth outline
      if ends then return value else throw .malformed

def Shape.readText (shape : Shape) (text : List Char) : Except Fault Value := shape.readWhole (Outline.ofText text)

def Shape.readBytes (shape : Shape) (bytes : List UInt8) : Except Fault Value := shape.readWhole (Outline.ofBytes bytes)

end Redline.Json
