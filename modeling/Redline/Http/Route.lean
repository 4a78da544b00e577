import Redline.Http.Message
import Redline.Entity.Basic
import Redline.Text.Utf8
import Redline.Json.Outline

namespace Redline.Http

open Text

inductive Resource where
  | health
  | metrics
  | cronStatus
  | cron (key : List Char)
  | token
  | filter
  | diff
  | content
  | contentExport
  | entity (entityType uuid : List Char)
  | usage (entityType uuid : List Char)
deriving DecidableEq, Inhabited

def pathOf (target : String) : List Char := target.toList.takeWhile fun c => c ≠ '?' ∧ c ≠ '#'

-- A fixed name is preferred to a captured one, and a captured one is never empty.
def resource? (path : List Char) : Option Resource :=
  match (splitOn '/' path).map String.ofList with
  | ["","health"] => some .health
  | ["","metrics"] => some .metrics
  | ["","cron","status"] => some .cronStatus
  | ["","cron",key] => if key.isEmpty then none else some (.cron key.toList)
  | ["","api","collaboration","token"] => some .token
  | ["","api","filter"] => some .filter
  | ["","api","diff"] => some .diff
  | ["","api","content"] => some .content
  | ["","api","content","export"] => some .contentExport
  | ["","api","content",entityType,uuid] =>
      if entityType.isEmpty || uuid.isEmpty then none else some (.entity entityType.toList uuid.toList)
  | ["","api","content",entityType,uuid,"usage"] =>
      if entityType.isEmpty || uuid.isEmpty then none else some (.usage entityType.toList uuid.toList)
  | _ => none

def percentBytes : List Char → List UInt8
  | '%' :: a :: b :: rest =>
      match Json.hexValue? a,Json.hexValue? b with
      | some high,some low => UInt8.ofNat (high * 16 + low) :: percentBytes rest
      | _,_ => utf8 ['%'] ++ percentBytes (a :: b :: rest)
  | c :: rest => utf8 [c] ++ percentBytes rest
  | [] => []

def decoded (captured : List Char) : Except Refusal String :=
  match ofUtf8? (percentBytes captured) with
  | some text => .ok (String.ofList text)
  | none => .error .malformed

def reference (entityType uuid : List Char) : Except Refusal EntityRef := do
  let entityType ← decoded entityType
  match Uuid.ofText? (← decoded uuid) with
  | some uuid => return ⟨entityType,uuid⟩
  | none => throw .malformed

end Redline.Http
