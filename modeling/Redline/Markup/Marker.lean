import Redline.Markup.Token

namespace Redline.Markup

open Redline.Text

inductive MarkerElement where
  | commentStart
  | commentEnd
  | suggestionStart
  | suggestionEnd
deriving DecidableEq, Inhabited

inductive Anchor where
  | startBefore
  | startAfter
  | endBefore
  | endAfter
deriving DecidableEq, Inhabited

inductive Marker where
  | comment
  | suggestion (anchor : Anchor) (names : List (List Char))
deriving DecidableEq, Inhabited

def commentWord : List Char := ['c','o','m','m','e','n','t']

def suggestionWord : List Char := ['s','u','g','g','e','s','t','i','o','n']

def startWord : List Char := ['-','s','t','a','r','t']

def endWord : List Char := ['-','e','n','d']

def beforeWord : List Char := ['-','b','e','f','o','r','e']

def afterWord : List Char := ['-','a','f','t','e','r']

def dataWord : List Char := ['d','a','t','a','-']

def deletionKind : List Char := ['d','e','l','e','t','i','o','n']

def nameWord : List Char := ['n','a','m','e']

namespace MarkerElement

def name : MarkerElement → List Char
  | commentStart => commentWord ++ startWord
  | commentEnd => commentWord ++ endWord
  | suggestionStart => suggestionWord ++ startWord
  | suggestionEnd => suggestionWord ++ endWord

def all : List MarkerElement := [commentStart,commentEnd,suggestionStart,suggestionEnd]

def ofName? (name : List Char) : Option MarkerElement := all.find? (·.name = name)

end MarkerElement

namespace Anchor

def suffix : Anchor → List Char
  | startBefore => startWord ++ beforeWord
  | startAfter => startWord ++ afterWord
  | endBefore => endWord ++ beforeWord
  | endAfter => endWord ++ afterWord

def all : List Anchor := [startBefore,startAfter,endBefore,endAfter]

end Anchor

def listedNames (value : List Char) : List (List Char) :=
  ((splitOn ',' value).map trim).filter (!·.isEmpty)

def isDeletion (name : List Char) : Bool := name.takeWhile (· ≠ ':') = deletionKind

namespace Attribute

def marker? (a : Attribute) : Option Marker :=
  match Anchor.all.find? fun anchor => a.name = dataWord ++ commentWord ++ anchor.suffix with
  | some _ => some .comment
  | none =>
      (Anchor.all.find? fun anchor => a.name = dataWord ++ suggestionWord ++ anchor.suffix).map
        fun anchor => .suggestion anchor (listedNames a.value)

def deletions (a : Attribute) : List (Anchor × List Char) :=
  match a.marker? with
  | some (.suggestion anchor names) => (names.filter isDeletion).map (anchor,·)
  | _ => []

end Attribute

namespace BodyPart

def marker? (part : BodyPart) : Option Marker := part.attribute?.bind Attribute.marker?

end BodyPart

namespace StartTag

def markerElement? (tag : StartTag) : Option MarkerElement := MarkerElement.ofName? tag.name

def suggestionName (tag : StartTag) : List Char := trim ((tag.value? nameWord).getD [])

def markers (tag : StartTag) : List Marker := tag.parts.filterMap BodyPart.marker?

def deletions (tag : StartTag) : List (Anchor × List Char) := tag.attributes.flatMap Attribute.deletions

def deletionsAt (tag : StartTag) (anchor : Anchor) : List (List Char) :=
  (tag.deletions.filter (·.1 = anchor)).map (·.2)

-- The tag with its marker attributes cut out, each with the white space before it.
def cleaned (tag : StartTag) : StartTag :=
  { tag with parts := tag.parts.filter (·.marker?.isNone) }

end StartTag

def mentionsMarkers (text : List Char) : Bool :=
  MarkerElement.all.any fun element => containsFold element.name text

end Redline.Markup
