import Redline.Entity.Uuid
import Redline.Json.Shape
import Redline.Json.Text

namespace Redline

open Json

structure EntityRef where
  entityType : String
  uuid : Uuid
deriving DecidableEq, Inhabited

namespace EntityRef

def text (ref : EntityRef) : String := ref.entityType ++ ":" ++ ref.uuid.text

instance : KeyOrder EntityRef :=
  ⟨fun a b => KeyOrder.before (a.entityType,a.uuid) (b.entityType,b.uuid)⟩

end EntityRef

-- `changed` is a Unix time stamp; `fields` are sorted by name.
structure Entity where
  uuid : Uuid
  entityType : String
  bundle : String
  label : String
  langcode : String
  changed : Int
  fields : Table String Value
deriving Inhabited

namespace Entity

def ref (e : Entity) : EntityRef := ⟨e.entityType,e.uuid⟩

def key (e : Entity) : String := e.ref.text

def defaultLangcode : String := "en"

def blank (entityType bundle label : String) (uuid : Uuid) : Entity :=
  ⟨uuid,entityType,bundle,label,defaultLangcode,0,[]⟩

def withField (e : Entity) (name : String) (value : Value) : Entity :=
  { e with fields := e.fields.insert name value }

def textField? (e : Entity) (name : String) : Option String := (e.fields.find? name).bind Value.text?

def stampLow : Int := -(Int.pow 2 63)

def stampHigh : Int := Int.pow 2 63 - 1

def uuidShape : Shape := .textWhere fun text => (Uuid.ofText? text).isSome

def recordFields : List Field :=
  [Field.required "uuid" uuidShape,Field.required "entity_type" .text,Field.required "bundle" .text,
    Field.defaulted "label" .text,Field.defaulted "langcode" .text,
    Field.defaulted "changed" (.whole stampLow stampHigh),Field.defaulted "fields" .table]

def shape : Shape := .record recordFields

def ofValue? (value : Value) : Option Entity := do
  let uuid ← ((← value.member? "uuid").text?).bind Uuid.ofText?
  let entityType ← (← value.member? "entity_type").text?
  let bundle ← (← value.member? "bundle").text?
  return {
    uuid := uuid
    entityType := entityType
    bundle := bundle
    label := ((value.member? "label").bind Value.text?).getD ""
    langcode := ((value.member? "langcode").bind Value.text?).getD defaultLangcode
    changed := ((value.member? "changed").bind Value.whole?).getD 0
    fields := ((value.member? "fields").map Value.members).getD [] }

def toValue (e : Entity) : Value :=
  .object [("uuid",.text e.uuid.text),("entity_type",.text e.entityType),("bundle",.text e.bundle),
    ("label",.text e.label),("langcode",.text e.langcode),("changed",.whole e.changed),
    ("fields",.object e.fields)]

def read (outline : Outline) : Except Fault Entity := do
  let value ← shape.read greatestDepth outline
  match ofValue? value with
  | some entity => return entity
  | none => throw .mismatch

def ofText? (text : String) : Option Entity :=
  match shape.readText text.toList with
  | .ok value => ofValue? value
  | .error _ => none

end Entity

end Redline
