import Redline.Http.Message
import Redline.Json.Shape

namespace Redline.Http

open Json Text

def isTokenChar (c : Char) : Bool :=
  c.isAlphanum || ['!','#','$','%','&','\'','*','+','-','.','^','_','|','~'].contains c || c.toNat = 96

def afterQuoted (rest : List Char) : Option (List Char) :=
  match rest.dropWhile (· = ' ') with
  | [] => some []
  | ';' :: rest => some rest
  | _ => none

-- Parameters of a media type, from behind a semicolon. `fuel` is at least the length of the text.
def parametersFit : Nat → List Char → Bool
  | _,[] => true
  | 0,_ => false
  | fuel + 1,' ' :: rest => parametersFit fuel rest
  | fuel + 1,text =>
      let name := text.takeWhile isTokenChar
      match name.isEmpty,text.dropWhile isTokenChar with
      | false,'=' :: '"' :: value =>
          match value.dropWhile (· ≠ '"') with
          | _ :: rest => !(value.takeWhile (· ≠ '"')).isEmpty && (afterQuoted rest).any (parametersFit fuel)
          | [] => false
      | false,'=' :: value =>
          match value.dropWhile isTokenChar with
          | [] => true
          | ';' :: rest => !(value.takeWhile isTokenChar).isEmpty && parametersFit fuel rest
          | _ => false
      | _,_ => false

def subtypeParts (subtype : List Char) : List Char × Option (List Char) :=
  match subtype.reverse.dropWhile (· ≠ '+') with
  | _ :: before =>
      if before.isEmpty then (subtype,none)
      else (before.reverse,some (subtype.reverse.takeWhile (· ≠ '+')).reverse)
  | [] => (subtype,none)

def isJsonMedia (mediaType : String) : Bool :=
  let text := mediaType.toList
  let type := text.takeWhile isTokenChar
  match text.dropWhile isTokenChar with
  | '/' :: rest =>
      let subtype := rest.takeWhile isTokenChar
      let (main,suffix) := subtypeParts (lower subtype)
      let parameters := match rest.dropWhile isTokenChar with
        | [] => true
        | ';' :: rest => parametersFit rest.length rest
        | _ => false
      lower type = "application".toList && !subtype.isEmpty && parameters &&
        (main = "json".toList || suffix = some "json".toList)
  | _ => false

def greatestBody : Nat := 2 * 1024 * 1024

def readBody (shape : Shape) (body : String) : Except Refusal Value :=
  if body.utf8ByteSize > greatestBody then .error .tooLarge
  else match shape.readText body.toList with
    | .ok value => .ok value
    | .error .malformed => .error .malformed
    | .error .mismatch => .error .mismatch

def Request.json (request : Request) (shape : Shape) : Except Refusal Value :=
  if (request.header? "content-type").any isJsonMedia then readBody shape request.body else .error .wrongMedia

def Request.optionalJson (request : Request) (shape : Shape) : Except Refusal (Option Value) :=
  match request.header? "content-type" with
  | none => .ok none
  | some mediaType => if isJsonMedia mediaType then some <$> readBody shape request.body else .error .wrongMedia

end Redline.Http
