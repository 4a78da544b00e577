import Redline.Revision.Word
import Redline.Revision.Compact
import Redline.Markup.Strip

namespace Redline.Revision

open Redline.Text

inductive ChangeKind where
  | insert
  | delete
  | replace
deriving DecidableEq, Inhabited

def ChangeKind.word : ChangeKind → String
  | insert => "insert"
  | delete => "delete"
  | replace => "replace"

-- `start` and `stop` are places in the words of the new revision.
structure Change where
  kind : ChangeKind
  removed : List Char
  inserted : List Char
  start : Nat
  stop : Nat
deriving DecidableEq, Inhabited

inductive Wrapper where
  | removal
  | addition
deriving DecidableEq, Inhabited

inductive Highlight where
  | plain (unit : Unit)
  | opened (wrapper : Wrapper)
  | closed (wrapper : Wrapper)
deriving DecidableEq, Inhabited

def Highlight.raw : Highlight → List Char
  | plain unit => unit
  | opened .removal => "<del class=\"diffdel\">".toList
  | opened .addition => "<ins class=\"diffins\">".toList
  | closed .removal => "</del>".toList
  | closed .addition => "</ins>".toList

-- Tags of the old revision are dropped from the page, those of the new one stay outside wrappers.
def Wrapper.keepsTags : Wrapper → Bool
  | .removal => false
  | .addition => true

def highlightRun (wrapper : Wrapper) : Bool → List Unit → List Highlight
  | inside,[] => if inside then [.closed wrapper] else []
  | inside,unit :: rest =>
      match kind unit with
      | .tag =>
          (if inside then [.closed wrapper] else []) ++
            (if wrapper.keepsTags then [.plain unit] else []) ++ highlightRun wrapper false rest
      | .space => .plain unit :: highlightRun wrapper inside rest
      | .word => (if inside then [] else [.opened wrapper]) ++ .plain unit :: highlightRun wrapper true rest

def highlight : Edit Unit → List Highlight
  | .equal items => items.map .plain
  | edit => highlightRun .removal false edit.oldItems ++ highlightRun .addition false edit.newItems

def changeKind? (removed inserted : List Char) : Option ChangeKind :=
  match removed.isEmpty,inserted.isEmpty with
  | true,true => none
  | false,true => some .delete
  | true,false => some .insert
  | false,false => some .replace

def wordsBefore (new : List Unit) (place : Nat) : Nat := (words (new.take place)).length

-- The change of an edit whose new items begin at `place`; edits of tags and space alone are none.
def changeAt (new : List Unit) (place : Nat) (edit : Edit Unit) : Option Change :=
  match edit with
  | .equal _ => none
  | edit =>
      let place := match edit with
        | .delete _ recorded => recorded
        | _ => place
      let removed := visible edit.oldItems
      let inserted := visible edit.newItems
      (changeKind? removed inserted).map fun kind =>
        ⟨kind,removed,inserted,wordsBefore new place,wordsBefore new (place + edit.newItems.length)⟩

def changesFrom (new : List Unit) : Nat → List (Edit Unit) → List Change
  | _,[] => []
  | place,edit :: rest =>
      (changeAt new place edit).toList ++ changesFrom new (place + edit.newItems.length) rest

structure Comparison where
  highlights : List Highlight
  changes : List Change
  words : List Unit
  identical : Bool

def ofScript (new : List Unit) (edits : List (Edit Unit)) : Comparison where
  highlights := edits.flatMap highlight
  changes := changesFrom new 0 edits
  words := words new
  identical := edits.all Edit.isEqual

def compareChars (old new : List Char) : Comparison :=
  ofScript (units new) (script (units old) (units new))

-- Review markup is resolved on both sides first, unless it is to be compared as well.
def compare (old new : String) (keepMarkup : Bool) : Comparison :=
  if keepMarkup then compareChars old.toList new.toList
  else compareChars (Markup.stripChars old.toList).html (Markup.stripChars new.toList).html

structure Surroundings where
  before : List Char
  after : List Char
  cutBefore : Bool
  cutAfter : Bool
deriving DecidableEq, Inhabited

namespace Comparison

def page (c : Comparison) : List Char := c.highlights.flatMap Highlight.raw

def hasChanges (c : Comparison) : Bool := !c.identical

def added (c : Comparison) : List (List Char) :=
  (c.changes.filter fun change => change.kind ≠ .delete && !change.inserted.isEmpty).map (·.inserted)

def surroundings (c : Comparison) (change : Change) (count : Nat) : Surroundings :=
  let first := change.start - count
  let last := min (change.stop + count) c.words.length
  { before := joinWith [' '] ((c.words.take change.start).drop first)
    after := joinWith [' '] ((c.words.take last).drop change.stop)
    cutBefore := 0 < first
    cutAfter := last < c.words.length }

def ellipsis : List Char := ['…']

def snippet (c : Comparison) (count : Nat) (change : Change) : List Char :=
  let around := c.surroundings change count
  let parts :=
    [if around.cutBefore then ellipsis else [],
      around.before,
      if change.removed.isEmpty then [] else "<del>".toList ++ change.removed ++ "</del>".toList,
      if change.inserted.isEmpty then [] else "<ins>".toList ++ change.inserted ++ "</ins>".toList,
      around.after,
      if around.cutAfter then ellipsis else []]
  joinWith [' '] (parts.filter (!·.isEmpty))

def snippets (c : Comparison) (count : Nat) : List (List Char) := c.changes.map (c.snippet count)

end Comparison

def joinSnippets (snippets : List (List Char)) (separator : List Char) : List Char :=
  joinWith separator (snippets.filter fun snippet => !snippet.all isBlank)

end Redline.Revision
