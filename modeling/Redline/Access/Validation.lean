import Redline.Access.Problem
import Redline.Json.Outline

namespace Redline.Access

open Json

inductive Found (α : Type) where
  | read (value : α)
  | unread
  | absent
deriving DecidableEq, Inhabited

def Found.isRead {α : Type} : Found α → Bool
  | read _ => true
  | _ => false

-- The claims that every token may have, read for the checks alone: beside the claims of the program and
-- from the same bytes.
structure Registered where
  expires : Found Nat
  begins : Found Nat
  subject : Found String
  issuers : Found (List String)
  audiences : Found (List String)
deriving DecidableEq, Inhabited

namespace Registered

def seconds? : Number → Option Nat
  | .whole n => if 0 ≤ n then some n.toNat else none
  | .binary value =>
      let unit := Binary64.denominator (value.mantissa,value.exponent)
      let rounded := (2 * Binary64.numerator (value.mantissa,value.exponent) + unit) / (2 * unit)
      if (value.negative && value.mantissa ≠ 0) || Nat.pow 2 64 ≤ rounded then none else some rounded

-- A filled bracket is left where it opened, and what follows cannot be read.
def date : Outline → Except Fault (Found Nat)
  | .number literal => .ok (((literal.number?.bind seconds?).map .read).getD .unread)
  | .null | .bool _ | .text (some _) | .array [] true | .object [] true => .ok .unread
  | _ => .error .malformed

def oneText : Outline → Except Fault (Found String)
  | .null => .ok .absent
  | .text (some content) => .ok (.read content)
  | .bool _ | .number _ => .ok .unread
  | _ => .error .malformed

def texts : Outline → Except Fault (Found (List String))
  | .number _ => .ok .unread
  | outline => do
      match ← outline.value (greatestDepth - 1) with
      | .null => return .absent
      | .text content => return .read [content]
      | .array items => return ((items.mapM Value.text?).map .read).getD .unread
      | _ => return .unread

-- A claim by its name in an object, where it must not come twice, and by its place in an array.
def claim {α : Type} (read : Outline → Except Fault (Found α)) (name : String) (place : Nat) :
    Outline → Except Fault (Found α)
  | .object members _ =>
      match members.filter (·.1 = some name) with
      | [] => .ok .absent
      | [(_,outline)] => read outline
      | _ => .error .mismatch
  | .array items _ =>
      match items[place]? with
      | some outline => read outline
      | none => .error .mismatch
  | _ => .error .mismatch

def ofOutline (outline : Outline) : Except Fault Registered := do
  return {
    expires := ← claim date "exp" 0 outline
    begins := ← claim date "nbf" 1 outline
    subject := ← claim oneText "sub" 2 outline
    issuers := ← claim texts "iss" 3 outline
    audiences := ← claim texts "aud" 4 outline }

def ofBytes? (bytes : List UInt8) : Option Registered := (ofOutline (Outline.ofBytes bytes).1).toOption

def has (claims : Registered) (name : String) : Bool :=
  match name with
  | "exp" => claims.expires.isRead
  | "nbf" => claims.begins.isRead
  | "sub" => claims.subject.isRead
  | "iss" => claims.issuers.isRead
  | "aud" => claims.audiences.isRead
  | _ => true

end Registered

structure Validation where
  algorithms : List String
  required : List String := ["exp"]
  moment : Option Nat
  audiences : Option (List String) := none
deriving DecidableEq, Inhabited

namespace Validation

def leeway : Nat := 60

def expired (settings : Validation) (claims : Registered) : Bool :=
  match claims.expires,settings.moment with
  | .read seconds,some moment => seconds < moment - leeway
  | _,_ => false

-- A token that names an audience is for nobody else; one that names none is for everyone.
def admits (settings : Validation) (claims : Registered) : Bool :=
  match claims.audiences with
  | .read given => given.any fun name => (settings.audiences.getD []).contains name
  | _ => true

def check (settings : Validation) (claims : Registered) : Except Rejection Unit := do
  Rejection.missingClaim.ifNot (settings.required.all claims.has)
  Rejection.expired.ifNot (!settings.expired claims)
  Rejection.audience.ifNot (settings.admits claims)

end Validation

end Redline.Access
