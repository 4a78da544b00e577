import Redline.Access.Role
import Redline.Json.Shape

namespace Redline.Access

open Json

structure Profile where
  id : String
  name : Option String := none
  email : Option String := none
  avatar : Option String := none
deriving DecidableEq, Inhabited

structure Claims where
  audience : String
  issuedAt : Int
  subject : String
  grants : Table String Role
  user : Profile
deriving DecidableEq, Inhabited

def allChannels : String := "*"

def present (name : String) : Option String → List (String × Value)
  | some content => [(name,.text content)]
  | none => []

def Profile.toValue (p : Profile) : Value :=
  .object (("id",.text p.id) :: present "name" p.name ++ present "email" p.email ++ present "avatar" p.avatar)

namespace Claims

def role? (claims : Claims) : Option Role := claims.grants.find? allChannels

def grantValue (role : Role) : Value := .object [("role",.text role.word)]

def toValue (claims : Claims) : Value :=
  .object [("aud",.text claims.audience),("iat",.whole claims.issuedAt),("sub",.text claims.subject),
    ("auth",.object [("collaboration",.object (claims.grants.map fun (channel,role) => (channel,grantValue role)))]),
    ("user",claims.user.toValue)]

def grantShape : Shape := .record [Field.required "role" (.word (Role.all.map Role.word))]

def userShape : Shape :=
  .record [Field.required "id" .text,Field.nullableDefaulted "name" .text,
    Field.nullableDefaulted "email" .text,Field.nullableDefaulted "avatar" .text]

def fields : List Field :=
  [Field.required "aud" .text,Field.required "iat" (.whole (-(Int.pow 2 63)) (Int.pow 2 63 - 1)),
    Field.required "sub" .text,
    Field.required "auth" (.record [Field.required "collaboration" (.mapping grantShape)]),
    Field.required "user" userShape]

def shape : Shape := .record fields

def grantOf? (row : String × Value) : Option (String × Role) := do
  let role ← ((← row.2.member? "role").text?).bind Role.ofWord?
  return (row.1,role)

def userOf? (value : Value) : Option Profile := do
  let text? := fun name => (value.member? name).bind Value.text?
  return ⟨← text? "id",text? "name",text? "email",text? "avatar"⟩

def ofValue? (value : Value) : Option Claims := do
  let audience ← (← value.member? "aud").text?
  let issuedAt ← (← value.member? "iat").whole?
  let subject ← (← value.member? "sub").text?
  let grants ← (← (← value.member? "auth").member? "collaboration").members.mapM grantOf?
  let user ← userOf? (← value.member? "user")
  return ⟨audience,issuedAt,subject,grants,user⟩

def ofBytes? (bytes : List UInt8) : Option Claims := do
  ofValue? (← (shape.readBytes bytes).toOption)

end Claims

end Redline.Access
