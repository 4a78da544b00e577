import Redline.Entity.Basic
import Redline.Text.Blank

namespace Redline.Usage

open Redline.Text

-- Letters for which case does not count; the long s and the Kelvin sign fold to ASCII letters.
def isFoldedLetter (c : Char) : Bool :=
  ('a' ≤ c && c ≤ 'z') || ('A' ≤ c && c ≤ 'Z') || c.toNat = 0x17F || c.toNat = 0x212A

def untilTagEnd (quote : Option Char) : List Char → Option (List Char × List Char)
  | [] => none
  | c :: rest =>
      match quote with
      | some q =>
          (untilTagEnd (if c = q then none else some q) rest).map fun (inside,after) => (c :: inside,after)
      | none =>
          if c = '>' then some ([],rest)
          else (untilTagEnd (if c = '"' ∨ c = '\'' then some c else none) rest).map
            fun (inside,after) => (c :: inside,after)

def tagAt? : List Char → Option (List Char × List Char)
  | '<' :: c :: rest => if isFoldedLetter c then
      (untilTagEnd none rest).map fun (inside,after) => (c :: inside,after) else none
  | _ => none

def dataWord : List Char := ['d','a','t','a','-','e','n','t','i','t','y','-']

def typeWord : List Char := ['t','y','p','e']

def uuidWord : List Char := ['u','u','i','d']

inductive EmbedField where
  | type
  | uuid
deriving DecidableEq, Inhabited

def embedValue? : List Char → Option (List Char × List Char)
  | [] => none
  | q :: rest =>
      if q = '"' ∨ q = '\'' then
        match rest.dropWhile (· ≠ q) with
        | _ :: after => some (rest.takeWhile (· ≠ q),after)
        | [] => none
      else
        let bareChar := fun c => !(isBlank c || c = '"' || c = '\'' || c = '>')
        let bare := (q :: rest).takeWhile bareChar
        if bare.isEmpty then none else some (bare,(q :: rest).dropWhile bareChar)

def fieldNameAt? (text : List Char) : Option (EmbedField × List Char) :=
  if !startsWithFold dataWord text then none
  else
    let rest := text.drop dataWord.length
    if startsWithFold typeWord rest then some (.type,rest.drop 4)
    else if startsWithFold uuidWord rest then some (.uuid,rest.drop 4)
    else none

def fieldAt? : List Char → Option (EmbedField × List Char × List Char)
  | [] => none
  | c :: rest =>
      if !isBlank c then none
      else do
        let (field,rest) ← fieldNameAt? rest
        match rest.dropWhile isBlank with
        | '=' :: rest =>
            let (value,after) ← embedValue? (rest.dropWhile isBlank)
            return (field,value,after)
        | _ => none

-- Each step reads at least one character, so the length of the text bounds their number.
def fieldsWithin : Nat → List Char → List (EmbedField × List Char)
  | _,[] => []
  | 0,_ => []
  | fuel + 1,c :: rest =>
      match fieldAt? (c :: rest) with
      | some (field,value,after) => (field,value) :: fieldsWithin fuel after
      | none => fieldsWithin fuel rest

-- The last attribute of a kind counts; a UUID that does not read takes back an earlier one.
structure EmbedParts where
  entityType : Option String := none
  uuid : Option Uuid := none

def EmbedParts.add (parts : EmbedParts) (row : EmbedField × List Char) : EmbedParts :=
  match row.1 with
  | .type => { parts with entityType := some (String.ofList (trim row.2)) }
  | .uuid => { parts with uuid := Uuid.ofChars? (trim row.2) }

def EmbedParts.ref? : EmbedParts → Option EntityRef
  | ⟨some entityType,some uuid⟩ => if entityType.isEmpty then none else some ⟨entityType,uuid⟩
  | _ => none

def embedIn? (inside : List Char) : Option EntityRef :=
  ((fieldsWithin inside.length inside).foldl EmbedParts.add {}).ref?

def embedsWithin : Nat → List Char → List EntityRef
  | _,[] => []
  | 0,_ => []
  | fuel + 1,c :: rest =>
      match tagAt? (c :: rest) with
      | some (inside,after) => (embedIn? inside).toList ++ embedsWithin fuel after
      | none => embedsWithin fuel rest

def embeds (html : String) : List EntityRef := embedsWithin html.toList.length html.toList

end Redline.Usage
