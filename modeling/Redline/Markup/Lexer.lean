import Redline.Markup.Token

namespace Redline.Markup

open Redline.Text

def isLetter (c : Char) : Bool := ('a' ≤ c && c ≤ 'z') || ('A' ≤ c && c ≤ 'Z')

def isTagNameChar (c : Char) : Bool :=
  isLetter c || ('0' ≤ c && c ≤ '9') || c = ':' || c = '_' || c = '.' || c = '-'

def isQuote (c : Char) : Bool := c = '"' || c = '\''

def isAttributeNameChar (c : Char) : Bool :=
  !(isBlank c || isQuote c || c = '>' || c = '/' || c = '=')

def isBareValueChar (c : Char) : Bool :=
  !(isBlank c || isQuote c || c = '=' || c = '<' || c = '>' || c.toNat = 0x60)

def readValue : List Char → Option (List Char × List Char × List Char)
  | [] => none
  | q :: rest =>
      if isQuote q then
        let inner := rest.takeWhile (· ≠ q)
        match rest.dropWhile (· ≠ q) with
        | _ :: after => some (q :: inner ++ [q],inner,after)
        | [] => none
      else
        let bare := (q :: rest).takeWhile isBareValueChar
        if bare.isEmpty then none else some (bare,bare,(q :: rest).dropWhile isBareValueChar)

def readTail (text : List Char) : List Char × List Char × List Char :=
  let before := text.takeWhile isBlank
  match text.dropWhile isBlank with
  | '=' :: rest =>
      let between := rest.takeWhile isBlank
      match readValue (rest.dropWhile isBlank) with
      | some (raw,value,after) => (before ++ '=' :: between ++ raw,value,after)
      | none => ([],[],text)
  | _ => ([],[],text)

def readPart (text : List Char) : BodyPart × List Char :=
  let lead := text.takeWhile isBlank
  match text.dropWhile isBlank with
  | [] => (.filler lead,[])
  | c :: rest =>
      if isAttributeNameChar c then
        let written := (c :: rest).takeWhile isAttributeNameChar
        let (tail,value,after) := readTail ((c :: rest).dropWhile isAttributeNameChar)
        (.attr ⟨lead,written,tail,value⟩,after)
      else (.filler (lead ++ [c]),rest)

-- Each part is at least one character long, so the length of the text bounds their number.
def readPartsWithin : Nat → List Char → List BodyPart
  | _,[] => []
  | 0,text => [.filler text]
  | fuel + 1,text =>
      let (part,rest) := readPart text
      part :: readPartsWithin fuel rest

def readParts (text : List Char) : List BodyPart := readPartsWithin text.length text

def splitTag (quote : Option Char) : List Char → Option (List Char × List Char)
  | [] => none
  | c :: rest =>
      match quote with
      | some q =>
          (splitTag (if c = q then none else some q) rest).map fun (body,after) => (c :: body,after)
      | none =>
          if c = '>' then some ([],rest)
          else if c = '<' then none
          else (splitTag (if isQuote c then some c else none) rest).map fun (body,after) => (c :: body,after)

def commentOpen : List Char := ['!','-','-']

def commentClose : List Char := ['-','-','>']

-- These readers start after a `<`.
def readComment (text : List Char) : Option (Token × List Char) :=
  if commentOpen.isPrefixOf text then
    (splitFirst commentClose (text.drop 3)).map fun (inner,after) =>
      (.other ('<' :: commentOpen ++ inner ++ commentClose),after)
  else none

def readDeclaration : List Char → Option (Token × List Char)
  | [] => none
  | mark :: rest =>
      if mark = '!' ∨ mark = '?' then
        let inner := rest.takeWhile fun c => c ≠ '<' ∧ c ≠ '>'
        match rest.dropWhile fun c => c ≠ '<' ∧ c ≠ '>' with
        | '>' :: after => some (.other ('<' :: mark :: inner ++ ['>']),after)
        | _ => none
      else none

def readName (text : List Char) : Option (List Char × List Char) :=
  match text with
  | c :: _ => if isLetter c then some (text.takeWhile isTagNameChar,text.dropWhile isTagNameChar) else none
  | [] => none

def readTag (text : List Char) : Option (Token × List Char) :=
  match text with
  | '/' :: rest => do
      let (written,inside) ← readName rest
      let (tail,after) ← splitTag none inside
      return (.closing written tail,after)
  | rest => do
      let (written,inside) ← readName rest
      let (body,after) ← splitTag none inside
      return (.opening ⟨written,readParts body⟩,after)

def readMarkup : List Char → Option (Token × List Char)
  | '<' :: rest => (readComment rest).or ((readDeclaration rest).or (readTag rest))
  | _ => none

def textToken (content : List Char) : List Token := if content.isEmpty then [] else [.text content]

def rawTextAfter (token : Token) (rest : List Char) : List Char × List Char :=
  match token with
  | .opening tag => if tag.opensRawText then splitBeforeFold ('<' :: '/' :: tag.name) rest else ([],rest)
  | _ => ([],rest)

-- `pending` is the text read since the last token, last character first. Every step reads at
-- least one character, so the length of the text bounds their number.
def tokenizeWithin : Nat → List Char → List Char → List Token
  | _,pending,[] => textToken pending.reverse
  | 0,pending,rest => textToken (pending.reverse ++ rest)
  | fuel + 1,pending,c :: rest =>
      match readMarkup (c :: rest) with
      | none => tokenizeWithin fuel (c :: pending) rest
      | some (token,after) =>
          let (held,after) := rawTextAfter token after
          textToken pending.reverse ++ token :: textToken held ++ tokenizeWithin fuel [] after

def tokenize (text : List Char) : List Token := tokenizeWithin text.length [] text

end Redline.Markup
