import Redline.Text.Blank
import Redline.Entity.Uuid

namespace Redline.Exchange

inductive SegmentProblem where
  | empty
  | separator (name : String)
  | parentStep (name : String)
  | reserved (c : Char) (name : String)
  | outerDot (name : String)
  | outerBlank (name : String)
deriving DecidableEq, Inhabited

def SegmentProblem.message : SegmentProblem → String
  | empty => "path segment is empty"
  | separator name => "path segment contains path separator or null byte: " ++ name
  | parentStep name => "path segment contains '..': " ++ name
  | reserved c name =>
      "path segment contains character '" ++ c.toString ++ "' invalid on Windows: " ++ name
  | outerDot name => "path segment must not start or end with '.': " ++ name
  | outerBlank name => "path segment has leading/trailing whitespace: " ++ name

def reservedChars : List Char := [':','*','?','"','<','>','|']

def hasDoubleDot : List Char → Bool
  | '.' :: '.' :: _ => true
  | _ :: rest => hasDoubleDot rest
  | [] => false

def segmentProblem? (name : String) : Option SegmentProblem :=
  let text := name.toList
  if text.isEmpty then some .empty
  else if text.any fun c => c = '/' ∨ c = '\\' ∨ c.toNat = 0 then some (.separator name)
  else if hasDoubleDot text then some (.parentStep name)
  else match text.find? reservedChars.contains with
    | some c => some (.reserved c name)
    | none =>
        if text.head? = some '.' ∨ text.getLast? = some '.' then some (.outerDot name)
        else if Text.trim text ≠ text then some (.outerBlank name)
        else none

def isSafe (name : String) : Bool := (segmentProblem? name).isNone

def jsonEnding : List Char := ['.','j','s','o','n']

def fileName (uuid : Uuid) : String := String.ofList (uuid.chars ++ jsonEnding)

def fileUuid? (name : String) : Option Uuid :=
  let text := name.toList
  if Text.endsWith jsonEnding text then Uuid.ofChars? (text.take (text.length - jsonEnding.length)) else none

end Redline.Exchange
