import Redline.Entity.Basic

namespace Redline.Usage

open Redline.Json

inductive Operation where
  | update
  | delete
deriving DecidableEq, Inhabited

namespace Operation

def word : Operation → String
  | update => "update"
  | delete => "delete"

def ofWord? (word : String) : Option Operation := [update,delete].find? (·.word = word)

end Operation

structure WorkItem where
  source : EntityRef
  operation : Operation
deriving DecidableEq, Inhabited

namespace WorkItem

def shape : Shape :=
  .record [Field.required "entity_type" .text,Field.required "uuid" Entity.uuidShape,
    Field.required "op" (.word ["update","delete"])]

def toValue (item : WorkItem) : Value :=
  .object [("entity_type",.text item.source.entityType),("uuid",.text item.source.uuid.text),
    ("op",.text item.operation.word)]

def ofValue? (value : Value) : Option WorkItem := do
  let entityType ← (← value.member? "entity_type").text?
  let uuid ← Uuid.ofText? (← (← value.member? "uuid").text?)
  let operation ← Operation.ofWord? (← (← value.member? "op").text?)
  return ⟨⟨entityType,uuid⟩,operation⟩

def payload (item : WorkItem) : String := item.toValue.line

def ofPayload? (payload : String) : Option WorkItem :=
  match shape.readText payload.toList with
  | .ok value => ofValue? value
  | .error _ => none

end WorkItem

end Redline.Usage
