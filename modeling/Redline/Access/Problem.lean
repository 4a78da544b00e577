import Redline.Access.Role

namespace Redline.Access

inductive Rejection where
  | token
  | base64
  | json
  | algorithm
  | signature
  | missingClaim
  | expired
  | audience
deriving DecidableEq, Inhabited

namespace Rejection

def orElse {α : Type} (rejection : Rejection) : Option α → Except Rejection α
  | some a => .ok a
  | none => .error rejection

def ifNot (rejection : Rejection) (holds : Bool) : Except Rejection Unit :=
  if holds then .ok () else .error rejection

end Rejection

inductive TokenProblem where
  | missingEnvironment
  | missingKey
  | missingUser
  | unknownRole (normalized : String)
  | invalid (cause : Rejection)
deriving DecidableEq, Inhabited

def TokenProblem.message : TokenProblem → String
  | missingEnvironment => "collaboration environment ID is not configured"
  | missingKey => "collaboration access key is not configured"
  | missingUser => "user identifier must not be empty"
  | unknownRole normalized => "unknown collaboration role: " ++ normalized
  | invalid _ => "invalid collaboration token"

def Role.read (text : String) : Except TokenProblem Role :=
  match ofText? text with
  | some role => .ok role
  | none => .error (.unknownRole (normalized text))

end Redline.Access
