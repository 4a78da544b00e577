import Redline.Markup.Lexer
import Redline.Markup.Boundary

namespace Redline.Markup

structure Stats where
  commentMarkers : Nat := 0
  suggestionMarkers : Nat := 0
  deletionsApplied : Nat := 0
deriving DecidableEq, Inhabited

def Stats.isEmpty (stats : Stats) : Bool := stats = {}

inductive Piece where
  | text (content : List Char)
  | opening (name : List Char) (void : Bool) (content : List Char)
  | closing (name content : List Char)
deriving DecidableEq, Inhabited

def Piece.raw : Piece → List Char
  | text content => content
  | opening _ _ content => content
  | closing _ content => content

def written (pieces : List Piece) : List Char := pieces.flatMap Piece.raw

-- An element that is open at the current position; its start tag is kept for the case that it
-- has to be given back.
structure OpenElement where
  name : List Char
  startTag : List Char
  emitted : Bool
  closeBefore : List (List Char)
  closeAfter : List (List Char)
deriving DecidableEq, Inhabited

-- `closable` answers the deletion starts in document order and `nextStart` counts those met;
-- `deleting` holds the open ranges; `stack` has the innermost element first.
structure Stripper where
  out : Array Piece := #[]
  stats : Stats := {}
  closable : List Bool
  nextStart : Nat := 0
  deleting : List (List Char) := []
  stack : List OpenElement := []

namespace Stripper

def isDeleting (s : Stripper) : Bool := !s.deleting.isEmpty

def emit (s : Stripper) (piece : Piece) : Stripper := { s with out := s.out.push piece }

def emitIfKept (s : Stripper) (piece : Piece) : Stripper := if s.isDeleting then s else s.emit piece

-- A start that no end is left for would take the rest of the document with it: it opens nothing.
def openDeletion (s : Stripper) (name : List Char) : Stripper :=
  let closable := s.closable.getD s.nextStart false
  let s := { s with nextStart := s.nextStart + 1 }
  if closable && !s.deleting.contains name then
    { s with
      deleting := s.deleting ++ [name],
      stats := { s.stats with deletionsApplied := s.stats.deletionsApplied + 1 } }
  else s

-- Start tags held back inside a range that is over come out, outermost first.
def reviveSuppressed (s : Stripper) : Stripper :=
  let held := s.stack.reverse.filter (!·.emitted)
  { s with
    out := held.foldl (fun out element => out.push (.opening element.name false element.startTag)) s.out,
    stack := s.stack.map ({ · with emitted := true }) }

def closeDeletion (s : Stripper) (name : List Char) : Stripper :=
  if s.deleting.contains name then
    let s := { s with deleting := s.deleting.filter (· ≠ name) }
    if s.isDeleting then s else s.reviveSuppressed
  else s

def openDeletions (s : Stripper) (names : List (List Char)) : Stripper := names.foldl openDeletion s

def closeDeletions (s : Stripper) (names : List (List Char)) : Stripper := names.foldl closeDeletion s

def countComment (s : Stripper) : Stripper :=
  { s with stats := { s.stats with commentMarkers := s.stats.commentMarkers + 1 } }

def countSuggestion (s : Stripper) : Stripper :=
  { s with stats := { s.stats with suggestionMarkers := s.stats.suggestionMarkers + 1 } }

def countMarker (s : Stripper) : Marker → Stripper
  | .comment => s.countComment
  | .suggestion _ _ => s.countSuggestion

def markerElement (s : Stripper) (tag : StartTag) : MarkerElement → Stripper
  | .commentStart | .commentEnd => s.countComment
  | .suggestionStart =>
      if isDeletion tag.suggestionName then s.countSuggestion.openDeletion tag.suggestionName
      else s.countSuggestion
  | .suggestionEnd =>
      if isDeletion tag.suggestionName then s.countSuggestion.closeDeletion tag.suggestionName
      else s.countSuggestion

-- Ranges that start before the tag open first; then the tag is written or held back; then ranges
-- that start after it open. A void element is over at once, and its ends take effect there.
def element (s : Stripper) (tag : StartTag) : Stripper :=
  let s := tag.markers.foldl countMarker s
  let s := s.openDeletions (tag.deletionsAt .startBefore)
  let emitted := !s.isDeleting
  let content := tag.cleaned.raw
  let s := s.emitIfKept (.opening tag.name tag.isVoid content)
  let s := s.openDeletions (tag.deletionsAt .startAfter)
  if tag.isVoid then s.closeDeletions (tag.deletionsAt .endBefore ++ tag.deletionsAt .endAfter)
  else
    { s with
      stack := ⟨tag.name,content,emitted,tag.deletionsAt .endBefore,tag.deletionsAt .endAfter⟩ :: s.stack }

def startTag (s : Stripper) (tag : StartTag) : Stripper :=
  match tag.markerElement? with
  | some marker => s.markerElement tag marker
  | none => s.element tag

-- Closes the innermost element, with the end tag `raw` if there is one. Ranges that end before the
-- end tag close first, which may still give the element its start tag back.
def closeTop (s : Stripper) (raw : Option (List Char)) : Stripper :=
  match s.stack with
  | [] => s
  | top :: _ =>
      let s := s.closeDeletions top.closeBefore
      match s.stack with
      | [] => s
      | top :: rest =>
          let s := { s with stack := rest }
          let s := match raw with
            | some raw => if top.emitted then s.emit (.closing top.name raw) else s
            | none => s
          s.closeDeletions top.closeAfter

def closeImplied (s : Stripper) : Nat → Stripper
  | 0 => s
  | count + 1 => (s.closeTop none).closeImplied count

-- The innermost open element of the name is closed, and those inside it by implication. An end
-- tag without an element passes through unless it sits in a range.
def endTag (s : Stripper) (name raw : List Char) : Stripper :=
  if (MarkerElement.ofName? name).isSome then s
  else
    match s.stack.findIdx? (·.name = name) with
    | none => s.emitIfKept (.closing name raw)
    | some depth => (s.closeImplied depth).closeTop (some raw)

def step (s : Stripper) : Token → Stripper
  | .text content => s.emitIfKept (.text content)
  | .other content => s.emitIfKept (.text content)
  | .opening tag => s.startTag tag
  | .closing written tail => s.endTag (Text.lower written) (Token.closing written tail).raw

def finish (s : Stripper) : Stripper := s.closeImplied s.stack.length

def start (closable : List Bool) : Stripper := { closable := closable }

end Stripper

def resolve (tokens : List Token) : Stripper :=
  (tokens.foldl Stripper.step (Stripper.start (closableStarts tokens))).finish

structure Stripped where
  html : List Char
  stats : Stats
deriving DecidableEq, Inhabited

def stripTokens (tokens : List Token) : Stripped :=
  let s := resolve tokens
  ⟨written s.out.toList,s.stats⟩

def stripChars (text : List Char) : Stripped :=
  if mentionsMarkers text then stripTokens (tokenize text) else ⟨text,{}⟩

def strip (html : String) : String := String.ofList (stripChars html.toList).html

def stripStats (html : String) : Stats := (stripChars html.toList).stats

end Redline.Markup
