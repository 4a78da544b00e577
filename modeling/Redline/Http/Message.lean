import Redline.Json.Text
import Redline.Text.Search

namespace Redline.Http

inductive Method where
  | get
  | head
  | post
  | put
  | delete
  | options
  | other
deriving DecidableEq, Inhabited

def Method.ofWord (word : String) : Method :=
  if word = "GET" then .get
  else if word = "HEAD" then .head
  else if word = "POST" then .post
  else if word = "PUT" then .put
  else if word = "DELETE" then .delete
  else if word = "OPTIONS" then .options
  else .other

-- Header names are in lower case.
structure Request where
  method : Method
  target : String
  headers : List (String × String) := []
  body : String := ""
deriving DecidableEq, Inhabited

def Request.header? (request : Request) (name : String) : Option String := request.headers.lookup name

-- What a reply holds: text, JSON, or a page of another media type. A refusal by the form of a
-- request is explained in words of its own, which are no part of the reply here.
inductive Body where
  | text (content : String)
  | json (value : Json.Value)
  | page (mediaType content : String)
  | unworded
deriving Inhabited

structure Reply where
  status : Nat
  body : Body
  headers : List (String × String) := []
deriving Inhabited

def Reply.ok (value : Json.Value) : Reply := ⟨200,.json value,[]⟩

inductive Refusal where
  | internal
  | notFound
  | forbidden
  | badRequest (reason : String)
  | unavailable (reason : String)
  | malformed
  | mismatch
  | wrongMedia
  | tooLarge
  | wrongMethod
deriving DecidableEq, Inhabited

def Refusal.reply : Refusal → Reply
  | internal => ⟨500,.text "internal server error",[]⟩
  | notFound => ⟨404,.text "not found",[]⟩
  | forbidden => ⟨403,.text "forbidden",[]⟩
  | badRequest reason => ⟨400,.text ("bad request: " ++ reason),[]⟩
  | unavailable reason => ⟨503,.text ("service unavailable: " ++ reason),[]⟩
  | malformed => ⟨400,.unworded,[]⟩
  | mismatch => ⟨422,.unworded,[]⟩
  | wrongMedia => ⟨415,.unworded,[]⟩
  | tooLarge => ⟨413,.unworded,[]⟩
  | wrongMethod => ⟨405,.unworded,[]⟩

def Reply.headOnly (reply : Reply) : Reply :=
  { reply with body := match reply.body with
      | .page mediaType _ => .page mediaType ""
      | .unworded => .unworded
      | _ => .text "" }

end Redline.Http
