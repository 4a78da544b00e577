import Redline.Entity.Basic

namespace Redline.Exchange

open Json

structure Document where
  version : Nat
  exportedAt : String
  entity : Entity
deriving Inhabited

namespace Document

def formatVersion : Nat := 1

def blockName : String := "_meta"

def stampName : String := "exported_at"

def ofEntity (exportedAt : String) (e : Entity) : Document := ⟨formatVersion,exportedAt,e⟩

def toValue (d : Document) : Value :=
  .object [(blockName,.object [(stampName,.text d.exportedAt),("version",.count d.version)]),
    ("bundle",.text d.entity.bundle),("changed",.whole d.entity.changed),
    ("entity_type",.text d.entity.entityType),("fields",.object d.entity.fields),
    ("label",.text d.entity.label),("langcode",.text d.entity.langcode),("uuid",.text d.entity.uuid.text)]

def page (d : Document) : String := d.toValue.page ++ "\n"

def withoutStamp (value : Value) : Value :=
  match value with
  | .object members => .object (members.map fun row =>
      match row with
      | (name,.object block) =>
          if name = blockName then (name,.object (block.filter (·.1 ≠ stampName))) else row
      | row => row)
  | other => other

def isHeldBy (d : Document) (text : String) : Bool :=
  match Value.ofText? text with
  | some value => (withoutStamp value).same (withoutStamp d.toValue)
  | none => false

def blockShape : Shape :=
  .record [Field.required "version" (.whole 0 (Int.pow 2 32 - 1)),Field.required stampName .text]

-- The block stands once beside the members of the entity, all of which must be readable values.
def ofText? (text : String) : Option Document :=
  match Outline.ofText text.toList with
  | (.object members true,true) =>
      match members.partition fun row => row.1 = some blockName with
      | ([(_,block)],others) => do
          let block ← (blockShape.read (greatestDepth - 1) block).toOption
          let _ ← ((Outline.object others true).value greatestDepth).toOption
          let entity ← (Entity.read (.object others true)).toOption
          let version ← (block.member? "version").bind Value.whole?
          let exportedAt ← (block.member? stampName).bind Value.text?
          return ⟨version.toNat,exportedAt,entity⟩
      | _ => none
  | _ => none

end Document

end Redline.Exchange
