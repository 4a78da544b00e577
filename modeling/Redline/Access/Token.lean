import Redline.Access.Claims
import Redline.Access.Validation
import Redline.Digest.Hmac
import Redline.Text.Base64Url
import Redline.Text.Quoted
import Redline.Text.Utf8
import Redline.Json.Text

namespace Redline.Access

open Json Text

structure TokenService where
  environment : String
  defaultRole : Role
  key : String
  tight : trimmed environment = environment
  named : environment ≠ ""
  keyed : key ≠ ""
deriving DecidableEq

def header : List Char := "\x7b\"typ\":\"JWT\",\"alg\":\"HS512\"\x7d".toList

def algorithms : List String :=
  ["HS256","HS384","HS512","ES256","ES384","RS256","RS384","RS512","PS256","PS384","PS512","EdDSA"]

def headerShape : Shape :=
  .record [Field.nullable "typ" .text,Field.required "alg" (.word algorithms),Field.nullable "cty" .text,
    Field.nullable "jku" .text,Field.nullable "jwk" .table,Field.nullable "kid" .text,
    Field.nullable "x5u" .text,Field.nullable "x5c" (.list .text),Field.nullable "x5t" .text,
    Field.nullable "x5t#S256" .text]

def algorithmOf? (header : List UInt8) : Option String := do
  let value ← (headerShape.readBytes header).toOption
  (← value.member? "alg").text?

-- Header, claims and signature: the text is cut at its last two dots.
structure Parts where
  header : List Char
  claims : List Char
  signature : List Char
deriving DecidableEq, Inhabited

def cutLast? (text : List Char) : Option (List Char × List Char) :=
  match text.reverse.dropWhile (· ≠ '.') with
  | [] => none
  | _ :: before => some (before.reverse,(text.reverse.takeWhile (· ≠ '.')).reverse)

def Parts.ofToken? (token : List Char) : Option Parts := do
  let (body,signature) ← cutLast? token
  let (header,claims) ← cutLast? body
  return ⟨header,claims,signature⟩

def Parts.body (parts : Parts) : List Char := parts.header ++ '.' :: parts.claims

def encodeText (text : List Char) : List Char := base64Url (utf8 text)

def signature (key : String) (body : List Char) : List Char :=
  base64Url (Digest.hmac (utf8 key.toList) (utf8 body))

-- The checks in their order. The claims are read twice from their bytes, for the program and for the
-- settings.
def decode (settings : Validation) (key : String) (token : List Char) : Except Rejection Claims := do
  let parts ← Rejection.token.orElse (Parts.ofToken? token)
  let header ← Rejection.base64.orElse (ofBase64Url? parts.header)
  let algorithm ← Rejection.json.orElse (algorithmOf? header)
  Rejection.algorithm.ifNot (settings.algorithms.contains algorithm)
  Rejection.signature.ifNot (parts.signature = signature key parts.body)
  let content ← Rejection.base64.orElse (ofBase64Url? parts.claims)
  let claims ← Rejection.json.orElse (Claims.ofBytes? content)
  let registered ← Rejection.json.orElse (Registered.ofBytes? content)
  settings.check registered
  return claims

namespace TokenService

def make (environment key : String) (defaultRole : Role) : Except TokenProblem TokenService :=
  if unnamed : trimmed environment = "" then .error .missingEnvironment
  else if unkeyed : key = "" then .error .missingKey
  else .ok ⟨trimmed environment,defaultRole,key,trimmed_trimmed environment,unnamed,unkeyed⟩

theorem make_filled {environment key : String} (defaultRole : Role)
    (named : ∃ c ∈ environment.toList, isBlank c = false) (keyed : key ≠ "") :
    make environment key defaultRole =
      .ok ⟨trimmed environment,defaultRole,key,trimmed_trimmed environment,trimmed_filled named,keyed⟩ := by
  rw [make,dif_neg (trimmed_filled named),dif_neg keyed]

theorem make_cases {environment key : String} {defaultRole : Role} {service : TokenService}
    (made : make environment key defaultRole = .ok service) :
    service.environment = trimmed environment ∧ service.defaultRole = defaultRole ∧ service.key = key := by
  unfold make at made
  split at made
  · cases made
  split at made
  · cases made
  · cases made
    exact ⟨rfl,rfl,rfl⟩

def claimsFor (service : TokenService) (user : Profile) (role : Option Role) (issuedAt : Int) : Claims :=
  ⟨service.environment,issuedAt,user.id,[(allChannels,role.getD service.defaultRole)],user⟩

def signText (service : TokenService) (content : List Char) : List Char :=
  let body := encodeText header ++ '.' :: encodeText content
  body ++ '.' :: signature service.key body

def sign (service : TokenService) (claims : Claims) : List Char := service.signText claims.toValue.compact

def issueAt (service : TokenService) (user : Profile) (role : Option Role) (issuedAt : Int) :
    Except TokenProblem (List Char) :=
  if (trim user.id.toList).isEmpty then .error .missingUser
  else .ok (service.sign (service.claimsFor user role issuedAt))

-- Tokens carry no expiry, so none is asked for and none is looked at.
def validation (service : TokenService) : Validation where
  algorithms := ["HS512"]
  required := []
  moment := none
  audiences := some [service.environment]

def verify (service : TokenService) (token : List Char) : Except Rejection Claims :=
  decode service.validation service.key token

def shown (service : TokenService) : String :=
  "CollaborationTokenService \x7b environment_id: " ++ quoted service.environment ++ ", default_role: " ++
    service.defaultRole.shown ++ ", .. \x7d"

end TokenService

end Redline.Access
