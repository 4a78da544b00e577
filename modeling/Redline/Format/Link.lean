import Redline.Text.Blank

namespace Redline.Format

open Redline.Text

def isAddressChar (c : Char) : Bool :=
  !(isBlank c || c = '<' || c = '>' || c = '"' || c = '\'')

def schemes : List (List Char) :=
  [['h','t','t','p','s',':','/','/'],['h','t','t','p',':','/','/']]

def addressAt? (text : List Char) : Option (List Char) :=
  match schemes.find? fun scheme => scheme.isPrefixOf text && ((text.drop scheme.length).head?.any isAddressChar) with
  | some scheme => some (scheme ++ (text.drop scheme.length).takeWhile isAddressChar)
  | none => none

-- The text before an address, last character first, is the start of an attribute value.
def opensValue (past : List Char) : Bool :=
  [['"','=','f','e','r','h'],['\'','=','f','e','r','h'],['"','=','c','r','s'],
    ['\'','=','c','r','s']].any fun ending => ending.isPrefixOf past

def isAnchorLetter (c : Char) : Bool := c = 'a' || c = 'A'

def insideAnchor : List Char → Bool
  | [] => false
  | c :: rest =>
      if c = '>' || isBlank c then
        match rest with
        | a :: '<' :: _ => if isAnchorLetter a then true else insideAnchor rest
        | a :: '/' :: '<' :: _ => if isAnchorLetter a then false else insideAnchor rest
        | _ => insideAnchor rest
      else insideAnchor rest

def standsInMarkup (past : List Char) : Bool :=
  opensValue past || (past.head? = some '>' && insideAnchor past)

def link (address : List Char) : List Char :=
  "<a href=\"".toList ++ address ++ "\" target=\"_blank\" rel=\"noopener\">".toList ++ address ++ "</a>".toList

-- `past` is the text already read, last character first; `within` counts the characters that
-- still belong to an address already written.
def linkFrom (past : List Char) : Nat → List Char → List Char
  | _,[] => []
  | within + 1,c :: rest => linkFrom (c :: past) within rest
  | 0,c :: rest =>
      match addressAt? (c :: rest) with
      | none => c :: linkFrom (c :: past) 0 rest
      | some address =>
          (if standsInMarkup past then address else link address) ++
            linkFrom (c :: past) (address.length - 1) rest

def linkAddresses (text : List Char) : List Char := linkFrom [] 0 text

end Redline.Format
