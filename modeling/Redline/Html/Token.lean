import Redline.Html.Reference

namespace Redline.Html

open Redline.Text

structure Attribute where
  name : String
  value : List Char
deriving DecidableEq, Inhabited

inductive Token where
  | text (content : List Char)
  | opening (name : String) (attributes : List Attribute)
  | closing (name : String)
deriving DecidableEq, Inhabited

def isSpace (c : Char) : Bool := c = ' ' || c = '\t' || c = '\n' || c.toNat = 12

def isLetter (c : Char) : Bool := c.isAlpha

def unifyLines : List Char → List Char
  | '\r' :: '\n' :: rest => '\n' :: unifyLines rest
  | '\r' :: rest => '\n' :: unifyLines rest
  | c :: rest => c :: unifyLines rest
  | [] => []

def nameText (text : List Char) : String := String.ofList (lower text)

-- Of attributes with one name the first counts.
def keepFirst (attributes : List Attribute) (a : Attribute) : List Attribute :=
  if attributes.any (·.name = a.name) then attributes else attributes ++ [a]

def quotedValue? (quote : Char) (text : List Char) : Option (List Char × List Char) :=
  match text.dropWhile (· ≠ quote) with
  | _ :: rest => some (text.takeWhile (· ≠ quote),rest)
  | [] => none

def isBareValueChar (c : Char) : Bool := !(isSpace c || c = '>')

def value? (text : List Char) : Option (List Char × List Char) :=
  match text.dropWhile isSpace with
  | '"' :: rest => quotedValue? '"' rest
  | '\'' :: rest => quotedValue? '\'' rest
  | '>' :: rest => some ([],'>' :: rest)
  | rest => some (rest.takeWhile isBareValueChar,rest.dropWhile isBareValueChar)

def showNull (text : List Char) : List Char := text.map fun c => if c.toNat = 0 then replacementChar else c

def isNameChar (c : Char) : Bool := !(isSpace c || c = '/' || c = '>' || c = '=')

def attributesWithin : Nat → List Attribute → List Char → Option (List Attribute × List Char)
  | 0,_,_ => none
  | _,_,[] => none
  | fuel + 1,found,c :: rest =>
      if c = '>' then some (found,rest)
      else if isSpace c || c = '/' then attributesWithin fuel found rest
      else
        let name := nameText (c :: rest.takeWhile isNameChar)
        match (rest.dropWhile isNameChar).dropWhile isSpace with
        | '=' :: after => do
            let (written,after) ← value? after
            attributesWithin fuel (keepFirst found ⟨name,decodeValue (showNull written)⟩) after
        | after => attributesWithin fuel (keepFirst found ⟨name,[]⟩) after

def isTagNameChar (c : Char) : Bool := !(isSpace c || c = '/' || c = '>')

def tag? (text : List Char) : Option (String × List Attribute × List Char) := do
  let name := nameText (text.takeWhile isTagNameChar)
  let (attributes,rest) ← attributesWithin (text.length + 1) [] (text.dropWhile isTagNameChar)
  return (name,attributes,rest)

def dropThrough (c : Char) (text : List Char) : List Char := (text.dropWhile (· ≠ c)).drop 1

def afterComment : List Char → List Char
  | '>' :: rest => rest
  | '-' :: '>' :: rest => rest
  | text =>
      let rec go : List Char → List Char
        | '-' :: '-' :: '>' :: rest => rest
        | '-' :: '-' :: '!' :: '>' :: rest => rest
        | _ :: rest => go rest
        | [] => []
      go text

-- Elements whose content is text, and those among them in which references count.
def rawNames : List String := ["script","style","xmp","iframe","noembed","noframes","noscript"]

def plainNames : List String := ["title","textarea"]

def endsElement (name : List Char) : List Char → Bool
  | '<' :: '/' :: rest =>
      startsWithFold name rest &&
        (rest.drop name.length).head?.any fun c => isSpace c || c = '/' || c = '>'
  | _ => false

def splitAtEnd (name : List Char) : List Char → List Char × List Char
  | [] => ([],[])
  | c :: rest =>
      if endsElement name (c :: rest) then ([],c :: rest)
      else
        let (before,after) := splitAtEnd name rest
        (c :: before,after)

def textToken (content : List Char) : List Token := if content.isEmpty then [] else [.text content]

-- `pending` is the text read since the last token, last character first. Null characters are left
-- out.
def flush (pending : List Char) : List Token :=
  textToken (decodeText (pending.reverse.filter fun c => c.toNat ≠ 0))

def tokensWithin : Nat → List Char → List Char → List Token
  | 0,pending,_ => flush pending
  | _,pending,[] => flush pending
  | fuel + 1,pending,'<' :: rest =>
      match rest with
      | '!' :: '-' :: '-' :: rest => flush pending ++ tokensWithin fuel [] (afterComment rest)
      | '!' :: rest => flush pending ++ tokensWithin fuel [] (dropThrough '>' rest)
      | '?' :: rest => flush pending ++ tokensWithin fuel [] (dropThrough '>' rest)
      | '/' :: c :: rest =>
          if isLetter c then
            match tag? (c :: rest) with
            | some (name,_,rest) => flush pending ++ .closing name :: tokensWithin fuel [] rest
            | none => flush pending
          else flush pending ++ tokensWithin fuel [] (dropThrough '>' (c :: rest))
      | c :: rest =>
          if isLetter c then
            match tag? (c :: rest) with
            | none => flush pending
            | some (name,attributes,rest) =>
                if rawNames.contains name then
                  let (content,rest) := splitAtEnd name.toList rest
                  flush pending ++ .opening name attributes :: textToken content ++ tokensWithin fuel [] rest
                else if plainNames.contains name then
                  let (content,rest) := splitAtEnd name.toList rest
                  flush pending ++ .opening name attributes :: textToken (decodeText content) ++
                    tokensWithin fuel [] rest
                else if name = "plaintext" then flush pending ++ .opening name attributes :: textToken rest
                else flush pending ++ .opening name attributes :: tokensWithin fuel [] rest
          else tokensWithin fuel ('<' :: pending) (c :: rest)
      | [] => flush ('<' :: pending)
  | fuel + 1,pending,c :: rest => tokensWithin fuel (c :: pending) rest

def byteOrderMark : Char := Char.ofNat 0xFEFF

def tokens (html : List Char) : List Token :=
  let text := unifyLines html
  let text := if text.head? = some byteOrderMark then text.drop 1 else text
  tokensWithin (text.length + 1) [] text

end Redline.Html
