import Redline.Desk.Failure
import Redline.Http.Message

namespace Redline.Http

inductive OriginPolicy where
  | any
  | listed (origins : List String)
deriving DecidableEq, Inhabited

def isHeaderText (text : String) : Bool :=
  text.toList.all fun c => (32 ≤ c.toNat && c.toNat < 127) || c = '\t'

-- The asterisk stands alone. Among others, of which those that no header can hold are left out, it is
-- refused by a panic.
def OriginPolicy.make (origins : List String) : Except Panic OriginPolicy :=
  if origins = ["*"] then .ok .any
  else
    let usable := origins.filter isHeaderText
    if usable.contains "*" then .error .wildcardAmongOrigins else .ok (.listed usable)

def OriginPolicy.allowed? (policy : OriginPolicy) (origin : Option String) : Option String :=
  match policy with
  | any => some "*"
  | listed origins => origin.filter origins.contains

def methodsHeader : String × String := ("access-control-allow-methods","GET,POST,PUT,DELETE,OPTIONS")

def OriginPolicy.headers (policy : OriginPolicy) (request : Request) : List (String × String) :=
  ((policy.allowed? (request.header? "origin")).map fun origin => ("access-control-allow-origin",origin)).toList

-- A question about what is allowed is answered before any resource is looked for.
def OriginPolicy.answer (policy : OriginPolicy) (request : Request) (serve : Reply) : Reply :=
  let headers := policy.headers request
  if request.method = .options then ⟨200,.text "",headers ++ [methodsHeader]⟩
  else { serve with headers := headers ++ serve.headers }

end Redline.Http
