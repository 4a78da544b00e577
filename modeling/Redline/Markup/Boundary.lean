import Redline.Markup.Marker

namespace Redline.Markup

structure Boundaries where
  starts : List (List Char)
  ends : List (List Char)
deriving DecidableEq

-- Starts before the tag come before starts after it; both anchors of an end count at the tag.
def StartTag.boundaries (tag : StartTag) : Boundaries :=
  match tag.markerElement? with
  | some .suggestionStart => ⟨[tag.suggestionName].filter isDeletion,[]⟩
  | some .suggestionEnd => ⟨[],[tag.suggestionName].filter isDeletion⟩
  | some _ => ⟨[],[]⟩
  | none =>
      ⟨tag.deletionsAt .startBefore ++ tag.deletionsAt .startAfter,
        (tag.deletions.filter fun (anchor,_) => anchor = .endBefore ∨ anchor = .endAfter).map (·.2)⟩

def Token.boundaries : Token → Boundaries
  | .opening tag => tag.boundaries
  | _ => ⟨[],[]⟩

abbrev Placed := Nat × List Char

def placed (pick : Boundaries → List (List Char)) (tokens : List Token) : List Placed :=
  tokens.zipIdx.flatMap fun (token,index) => (pick token.boundaries).map (index,·)

def deletionStarts (tokens : List Token) : List Placed := placed Boundaries.starts tokens

def deletionEnds (tokens : List Token) : List Placed := placed Boundaries.ends tokens

def takeEnd (start : Placed) : List Placed → Option (List Placed)
  | [] => none
  | final :: rest =>
      if final.2 = start.2 ∧ start.1 ≤ final.1 then some rest
      else (takeEnd start rest).map (final :: ·)

def closableAmong : List Placed → List Placed → List Bool
  | [],_ => []
  | start :: starts,ends =>
      match takeEnd start ends with
      | some left => true :: closableAmong starts left
      | none => false :: closableAmong starts ends

-- For each deletion start in document order, whether an end is left for it.
def closableStarts (tokens : List Token) : List Bool :=
  closableAmong (deletionStarts tokens) (deletionEnds tokens)

end Redline.Markup
