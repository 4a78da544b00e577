import Redline.Text.Blank
import Redline.Text.Search

namespace Redline.Revision

open Redline.Text

abbrev Unit := List Char

inductive UnitKind where
  | tag
  | space
  | word
deriving DecidableEq, Inhabited

def kind (unit : Unit) : UnitKind :=
  if 1 < unit.length && unit.head? = some '<' && unit.getLast? = some '>' then .tag
  else if unit.all isBlank then .space
  else .word

def commentUnit? (text : List Char) : Option (Unit × List Char) :=
  if ['<','!','-','-'].isPrefixOf text then
    (splitFirst ['-','-','>'] (text.drop 4)).map fun (inner,after) =>
      (['<','!','-','-'] ++ inner ++ ['-','-','>'],after)
  else none

def tagUnit? (text : List Char) : Option (Unit × List Char) :=
  match text with
  | '<' :: rest =>
      match rest.dropWhile fun c => c ≠ '<' ∧ c ≠ '>' with
      | '>' :: after => some ('<' :: rest.takeWhile (fun c => c ≠ '<' ∧ c ≠ '>') ++ ['>'],after)
      | _ => none
  | _ => none

def unitAt (c : Char) (rest : List Char) : Unit × List Char :=
  match (commentUnit? (c :: rest)).or (tagUnit? (c :: rest)) with
  | some found => found
  | none =>
      if c = '<' then (['<'],rest)
      else if isBlank c then ((c :: rest).takeWhile isBlank,(c :: rest).dropWhile isBlank)
      else
        let inWord := fun d => d ≠ '<' && !isBlank d
        ((c :: rest).takeWhile inWord,(c :: rest).dropWhile inWord)

-- Each unit is at least one character long, so the length of the text bounds their number.
def unitsWithin : Nat → List Char → List Unit
  | _,[] => []
  | 0,text => [text]
  | fuel + 1,c :: rest =>
      let (unit,after) := unitAt c rest
      unit :: unitsWithin fuel after

def units (text : List Char) : List Unit := unitsWithin text.length text

def words (units : List Unit) : List Unit := units.filter (kind · = .word)

def visible (units : List Unit) : List Char := joinWith [' '] (words units)

end Redline.Revision
