import Redline.Text.Blank
import Redline.Text.Search

namespace Redline.Markup

open Redline.Text

-- An attribute with the white space before it; `tail` is what follows the name up to the end of
-- the value, and is empty when there is no value.
structure Attribute where
  lead : List Char
  written : List Char
  tail : List Char
  value : List Char
deriving DecidableEq, Inhabited

namespace Attribute

def raw (a : Attribute) : List Char := a.lead ++ a.written ++ a.tail

def name (a : Attribute) : List Char := lower a.written

end Attribute

inductive BodyPart where
  | attr (a : Attribute)
  | filler (content : List Char)
deriving DecidableEq, Inhabited

namespace BodyPart

def raw : BodyPart → List Char
  | attr a => a.raw
  | filler content => content

def attribute? : BodyPart → Option Attribute
  | attr a => some a
  | filler _ => none

end BodyPart

structure StartTag where
  written : List Char
  parts : List BodyPart
deriving DecidableEq, Inhabited

-- `other` holds comments, declarations and processing instructions.
inductive Token where
  | text (content : List Char)
  | other (content : List Char)
  | opening (tag : StartTag)
  | closing (written tail : List Char)
deriving DecidableEq, Inhabited

def voidElements : List (List Char) :=
  [['a','r','e','a'],['b','a','s','e'],['b','r'],['c','o','l'],['e','m','b','e','d'],
    ['h','r'],['i','m','g'],['i','n','p','u','t'],['l','i','n','k'],['m','e','t','a'],
    ['p','a','r','a','m'],['s','o','u','r','c','e'],['t','r','a','c','k'],['w','b','r']]

def rawTextElements : List (List Char) :=
  [['s','c','r','i','p','t'],['s','t','y','l','e'],['t','e','x','t','a','r','e','a'],
    ['t','i','t','l','e']]

namespace StartTag

def name (tag : StartTag) : List Char := lower tag.written

def body (tag : StartTag) : List Char := tag.parts.flatMap BodyPart.raw

def raw (tag : StartTag) : List Char := '<' :: tag.written ++ tag.body ++ ['>']

def attributes (tag : StartTag) : List Attribute := tag.parts.filterMap BodyPart.attribute?

def value? (tag : StartTag) (name : List Char) : Option (List Char) :=
  (tag.attributes.find? (·.name = name)).map (·.value)

def selfClosing (tag : StartTag) : Bool := (trimEnd tag.body).getLast? = some '/'

def isVoid (tag : StartTag) : Bool := tag.selfClosing || voidElements.contains tag.name

def opensRawText (tag : StartTag) : Bool := !tag.selfClosing && rawTextElements.contains tag.name

end StartTag

namespace Token

def raw : Token → List Char
  | text content => content
  | other content => content
  | opening tag => tag.raw
  | closing written tail => '<' :: '/' :: written ++ tail ++ ['>']

end Token

def source (tokens : List Token) : List Char := tokens.flatMap Token.raw

end Redline.Markup
