import Redline.Html.Token

namespace Redline.Html

inductive Node where
  | text (content : List Char)
  | element (name : String) (attributes : List Attribute) (children : List Node)
deriving Inhabited

def voidNames : List String :=
  ["area","base","basefont","bgsound","br","col","embed","frame","hr","img","input","keygen",
    "link","meta","param","source","track","wbr"]

def noBreakSpace : Char := Char.ofNat 0xA0

def escapeText (text : List Char) : List Char :=
  text.flatMap fun c =>
    if c = '&' then ['&','a','m','p',';']
    else if c = '<' then ['&','l','t',';']
    else if c = '>' then ['&','g','t',';']
    else if c = noBreakSpace then ['&','n','b','s','p',';']
    else [c]

def escapeValue (text : List Char) : List Char :=
  (escapeText text).flatMap fun c => if c = '"' then ['&','q','u','o','t',';'] else [c]

def Attribute.text (a : Attribute) : List Char := ' ' :: a.name.toList ++ '=' :: '"' :: escapeValue a.value ++ ['"']

def openingText (name : String) (attributes : List Attribute) : List Char :=
  '<' :: name.toList ++ attributes.flatMap Attribute.text ++ ['>']

def closingText (name : String) : List Char := '<' :: '/' :: name.toList ++ ['>']

mutual

def Node.html : Node → List Char
  | .text content => escapeText content
  | .element name attributes children =>
      if voidNames.contains name then openingText name attributes
      else openingText name attributes ++ Node.htmlAll children ++ closingText name

def Node.htmlAll : List Node → List Char
  | [] => []
  | node :: rest => node.html ++ Node.htmlAll rest

end

end Redline.Html
