import Mathlib.Data.List.Flatten
import Redline.Proofs.StripSteps

namespace Redline.Markup

namespace Stripper

-- Start tags held back, outermost first.
def held (stack : List OpenElement) : List Piece :=
  (stack.reverse.filter (!·.emitted)).map fun e => .opening e.name false e.startTag

-- What is written once every range is over.
def pending (s : Stripper) : List Piece := s.out.toList ++ held s.stack

-- Written start tags come first on the way in, and outside ranges there are no others.
structure Upright (s : Stripper) : Prop where
  whole : s.deleting = [] → ∀ e ∈ s.stack, e.emitted = true
  ordered : s.stack.Pairwise fun inner outer => inner.emitted = true → outer.emitted = true
  plain : ∀ e ∈ s.stack, voidElements.contains e.name = false

theorem held_whole {stack : List OpenElement} (whole : ∀ e ∈ stack, e.emitted = true) : held stack = [] := by
  have none_ : stack.reverse.filter (!·.emitted) = [] := by
    rw [List.filter_eq_nil_iff]
    intro e member
    simp [whole e (List.mem_reverse.mp member)]
  simp [held,none_]

theorem held_cons (top : OpenElement) (rest : List OpenElement) :
    held (top :: rest) = held rest ++ if top.emitted then [] else [.opening top.name false top.startTag] := by
  cases emitted : top.emitted <;> simp [held,emitted]

theorem start_upright (closable : List Bool) : (start closable).Upright :=
  ⟨fun _ _ member => (List.not_mem_nil member).elim,.nil,fun _ member => (List.not_mem_nil member).elim⟩

variable {s : Stripper}

theorem Upright.of_same_stack {s' : Stripper} (upright : s.Upright) (idle : s'.deleting = [] → s.deleting = [])
    (stack : s'.stack = s.stack) : s'.Upright := by
  refine ⟨?_,?_,?_⟩
  · intro none_; rw [stack]; exact upright.whole (idle none_)
  · rw [stack]; exact upright.ordered
  · rw [stack]; exact upright.plain

section Ranges

theorem reviveSuppressed_pending (s : Stripper) : s.reviveSuppressed.pending = s.pending := by
  have revived : held s.reviveSuppressed.stack = [] := by
    apply held_whole
    intro e member
    obtain ⟨_,_,rfl⟩ := List.mem_map.mp member
    rfl
  rw [pending,revived,List.append_nil,reviveSuppressed_out,pending,held]

theorem reviveSuppressed_upright (plain : ∀ e ∈ s.stack, voidElements.contains e.name = false) :
    s.reviveSuppressed.Upright := by
  refine ⟨?_,?_,?_⟩
  · intro _ e member
    obtain ⟨_,_,rfl⟩ := List.mem_map.mp member
    rfl
  · exact List.pairwise_map.mpr (List.pairwise_of_forall fun _ _ _ => rfl)
  · intro e member
    obtain ⟨old,present,rfl⟩ := List.mem_map.mp member
    exact plain old present

theorem closeDeletion_pending (s : Stripper) (name : List Char) : (s.closeDeletion name).pending = s.pending := by
  rcases closeDeletion_cases s name with same | ⟨_,eq⟩ | ⟨_,eq⟩
  · rw [same]
  · rw [eq]; rfl
  · rw [eq,reviveSuppressed_pending]; rfl

theorem closeDeletion_upright (upright : s.Upright) (name : List Char) : (s.closeDeletion name).Upright := by
  rcases closeDeletion_cases s name with same | ⟨live,eq⟩ | ⟨_,eq⟩
  · rw [same]; exact upright
  · rw [eq]
    exact ⟨fun idle => absurd idle live,upright.ordered,upright.plain⟩
  · rw [eq]
    exact reviveSuppressed_upright upright.plain

theorem closeDeletions_pending (s : Stripper) (names : List (List Char)) :
    (s.closeDeletions names).pending = s.pending := by
  induction names generalizing s with
  | nil => rfl
  | cons name rest ih => exact (ih (s.closeDeletion name)).trans (closeDeletion_pending s name)

theorem closeDeletions_upright (upright : s.Upright) (names : List (List Char)) :
    (s.closeDeletions names).Upright := by
  induction names generalizing s with
  | nil => exact upright
  | cons name rest ih => exact ih (closeDeletion_upright upright name)

end Ranges

section Tokens

theorem emitIfKept_upright (upright : s.Upright) (piece : Piece) : (s.emitIfKept piece).Upright :=
  upright.of_same_stack (fun idle => by simpa using idle) (emitIfKept_stack s piece)

theorem emitIfKept_pending (upright : s.Upright) (piece : Piece) :
    (s.emitIfKept piece).pending = s.pending ∨ (s.emitIfKept piece).pending = s.pending ++ [piece] := by
  cases deleting : s.isDeleting with
  | true => left; simp [pending,emitIfKept_out,deleting]
  | false =>
      right
      have idle : s.deleting = [] := by simpa [isDeleting] using deleting
      simp [pending,emitIfKept_out,deleting,held_whole (upright.whole idle)]

theorem opened_upright (upright : s.Upright) (tag : StartTag) : (s.opened tag).Upright := by
  refine upright.of_same_stack ?_ (opened_stack s tag)
  intro idle
  unfold opened at idle
  have before := openDeletions_idle _ _ idle
  rw [emitIfKept_deleting] at before
  simpa using openDeletions_idle _ _ before

theorem writes_whole (upright : s.Upright) {tag : StartTag} (writes : s.writes tag = true) :
    ∀ e ∈ s.stack, e.emitted = true := by
  apply upright.whole
  have idle : ((tag.markers.foldl countMarker s).openDeletions (tag.deletionsAt .startBefore)).deleting = [] := by
    simpa [Stripper.writes,isDeleting] using writes
  simpa using openDeletions_idle _ _ idle

theorem opened_pending (upright : s.Upright) (tag : StartTag) : (s.opened tag).pending =
    if s.writes tag then s.pending ++ [.opening tag.name tag.isVoid tag.cleaned.raw] else s.pending := by
  rw [pending,opened_out,opened_stack]
  cases writes : s.writes tag with
  | true => simp [pending,held_whole (writes_whole upright writes)]
  | false => simp [pending]

theorem element_open_pending (upright : s.Upright) {tag : StartTag} (open_ : tag.isVoid = false) :
    (s.element tag).pending = s.pending ++ [.opening tag.name false tag.cleaned.raw] := by
  have stacked : (s.element tag).pending = (s.opened tag).pending ++
      if s.writes tag then [] else [.opening tag.name false tag.cleaned.raw] := by
    rw [element_open s tag open_,pending,held_cons,← List.append_assoc]
    rfl
  rw [stacked,opened_pending upright]
  cases writes : s.writes tag <;> simp [open_]

theorem element_void_pending (upright : s.Upright) {tag : StartTag} (void : tag.isVoid = true) :
    (s.element tag).pending = s.pending ∨
      (s.element tag).pending = s.pending ++ [.opening tag.name true tag.cleaned.raw] := by
  rw [element_void s tag void,closeDeletions_pending,opened_pending upright,void]
  cases s.writes tag with
  | true => exact .inr rfl
  | false => exact .inl rfl

theorem element_upright (upright : s.Upright) (tag : StartTag) : (s.element tag).Upright := by
  have opened := opened_upright upright tag
  cases void : tag.isVoid with
  | true => rw [element_void s tag void]; exact closeDeletions_upright opened _
  | false =>
      rw [element_open s tag void]
      have plain : voidElements.contains tag.name = false := by
        simp only [StartTag.isVoid,Bool.or_eq_false_iff] at void
        exact void.2
      refine ⟨?_,?_,?_⟩
      · intro idle e member
        have quiet : (s.opened tag).deleting = [] := idle
        rcases List.mem_cons.mp member with rfl | below
        · unfold Stripper.opened at quiet
          have before := openDeletions_idle _ _ quiet
          rw [emitIfKept_deleting] at before
          simp [entered,Stripper.writes,isDeleting,before]
        · exact opened.whole quiet e below
      · refine List.pairwise_cons.mpr ⟨?_,opened.ordered⟩
        intro e member writes
        rw [opened_stack] at member
        exact writes_whole upright writes e member
      · intro e member
        rcases List.mem_cons.mp member with rfl | below
        · exact plain
        · exact opened.plain e below

theorem markerElement_upright (upright : s.Upright) (tag : StartTag) (marker : MarkerElement) :
    (s.markerElement tag marker).Upright ∧ (s.markerElement tag marker).frames = s.frames ∧
      (s.markerElement tag marker).pending = s.pending := by
  have counted : s.countSuggestion.Upright := ⟨upright.whole,upright.ordered,upright.plain⟩
  cases marker with
  | commentStart => exact ⟨⟨upright.whole,upright.ordered,upright.plain⟩,rfl,rfl⟩
  | commentEnd => exact ⟨⟨upright.whole,upright.ordered,upright.plain⟩,rfl,rfl⟩
  | suggestionStart =>
      unfold markerElement
      dsimp only
      split
      · refine ⟨counted.of_same_stack (openDeletion_idle _ _) (openDeletion_stack _ _),?_,?_⟩
        · rw [frames,openDeletion_stack]; rfl
        · rw [pending,openDeletion_stack,openDeletion_out]; rfl
      · exact ⟨counted,rfl,rfl⟩
  | suggestionEnd =>
      unfold markerElement
      dsimp only
      split
      · exact ⟨closeDeletion_upright counted _,closeDeletion_frames _ _,closeDeletion_pending _ _⟩
      · exact ⟨counted,rfl,rfl⟩

end Tokens

section Closings

-- Closing an element: either its end tag is written, if there is one, or the start tag held back
-- is given up with it.
theorem closeTop_pending (upright : s.Upright) {top : OpenElement} {rest : List OpenElement}
    (raw : Option (List Char)) (here : s.stack = top :: rest) : (s.closeTop raw).Upright ∧
      ((s.closeTop raw).pending = s.pending ++ (raw.map (Piece.closing top.name)).toList ∨
        s.pending = (s.closeTop raw).pending ++ [.opening top.name false top.startTag]) := by
  obtain ⟨top',rest',stack,same,_,eq⟩ := closeTop_parts raw here
  have before := closeDeletions_upright upright top.closeBefore
  have frozen : (s.closeDeletions top.closeBefore).pending = s.pending := closeDeletions_pending s _
  have name : top'.name = top.name := congrArg Frame.name same
  have startTag : top'.startTag = top.startTag := congrArg Frame.startTag same
  have ordered := before.ordered
  rw [stack,List.pairwise_cons] at ordered
  have left : ((s.closeDeletions top.closeBefore).leave raw top' rest').Upright := by
    refine ⟨?_,by simpa using ordered.2,?_⟩
    · intro idle e member
      rw [leave_stack] at member
      rw [leave_deleting] at idle
      exact before.whole idle e (by simp [stack,member])
    · intro e member
      rw [leave_stack] at member
      exact before.plain e (by simp [stack,member])
  rw [eq,closeDeletions_pending]
  refine ⟨closeDeletions_upright left _,?_⟩
  rw [← frozen,← name,← startTag]
  cases emitted : top'.emitted with
  | true =>
      left
      have outer : held rest' = [] := held_whole fun e member => ordered.1 e member emitted
      cases raw <;> simp [pending,leave,emitted,stack,held_cons,outer]
  | false =>
      right
      cases raw <;> simp [pending,leave,emitted,stack,held_cons]

theorem closeTop_upright (upright : s.Upright) (raw : Option (List Char)) : (s.closeTop raw).Upright := by
  cases here : s.stack with
  | nil => rw [closeTop_nil s raw here]; exact upright
  | cons top rest => exact (closeTop_pending upright raw here).1

def StartTags (pieces : List Piece) : Prop := ∀ piece ∈ pieces, ∃ name content, piece = .opening name false content

theorem startTags_nil : StartTags [] := fun _ member => (List.not_mem_nil member).elim

theorem closeImplied_pending (upright : s.Upright) (count : Nat) : (s.closeImplied count).Upright ∧
    ∃ given, StartTags given ∧ s.pending = (s.closeImplied count).pending ++ given := by
  induction count generalizing s with
  | zero => exact ⟨upright,[],startTags_nil,by simp [closeImplied]⟩
  | succ count ih =>
      obtain ⟨last,given,tags,eq⟩ := ih (closeTop_upright upright none)
      have further : s.closeImplied (count + 1) = (s.closeTop none).closeImplied count := rfl
      rw [further]
      refine ⟨last,?_⟩
      cases here : s.stack with
      | nil => exact ⟨given,tags,by rw [← eq,closeTop_nil s none here]⟩
      | cons top rest =>
          rcases (closeTop_pending upright none here).2 with same | less
          · exact ⟨given,tags,by rw [← eq,same]; simp⟩
          · refine ⟨given ++ [.opening top.name false top.startTag],?_,by rw [less,eq,List.append_assoc]⟩
            intro piece member
            rcases List.mem_append.mp member with old | new
            · exact tags piece old
            · exact ⟨_,_,List.mem_singleton.mp new⟩

-- Start tags at the end are given up, and then a piece may be added.
def Grows (before after : List Piece) (raw : List Char) : Prop :=
  ∃ kept given, StartTags given ∧ before = kept ++ given ∧
    (after = kept ∨ ∃ piece, after = kept ++ [piece] ∧ piece.raw = raw)

theorem grows_still (pieces : List Piece) (raw : List Char) : Grows pieces pieces raw :=
  ⟨pieces,[],startTags_nil,by simp,.inl rfl⟩

theorem grows_add (pieces : List Piece) (piece : Piece) : Grows pieces (pieces ++ [piece]) piece.raw :=
  ⟨pieces,[],startTags_nil,by simp,.inr ⟨piece,rfl,rfl⟩⟩

theorem emitIfKept_grows (upright : s.Upright) (piece : Piece) :
    Grows s.pending (s.emitIfKept piece).pending piece.raw := by
  rcases emitIfKept_pending upright piece with same | more
  · rw [same]
    exact grows_still s.pending piece.raw
  · rw [more]
    exact grows_add s.pending piece

theorem endTag_grows (upright : s.Upright) (name raw : List Char) :
    (s.endTag name raw).Upright ∧ Grows s.pending (s.endTag name raw).pending raw := by
  unfold endTag
  split
  · exact ⟨upright,grows_still s.pending raw⟩
  · split
    · exact ⟨emitIfKept_upright upright _,emitIfKept_grows upright (.closing name raw)⟩
    · rename_i depth _
      obtain ⟨implied,given,tags,eq⟩ := closeImplied_pending upright depth
      refine ⟨closeTop_upright implied _,?_⟩
      cases here : (s.closeImplied depth).stack with
      | nil => exact ⟨_,given,tags,eq,.inl (by rw [closeTop_nil _ _ here])⟩
      | cons top rest =>
          rcases (closeTop_pending implied (some raw) here).2 with written | less
          · exact ⟨_,given,tags,eq,.inr ⟨.closing top.name raw,written,rfl⟩⟩
          · refine ⟨_,.opening top.name false top.startTag :: given,?_,by rw [eq,less]; simp,.inl rfl⟩
            intro piece member
            rcases List.mem_cons.mp member with rfl | old
            · exact ⟨_,_,rfl⟩
            · exact tags piece old

end Closings

end Stripper

-- What of a token may be written: a marker goes, and a start tag goes without marker attributes.
def Token.residue : Token → List Char
  | .text content => content
  | .other content => content
  | .opening tag => if tag.markerElement?.isSome then [] else tag.cleaned.raw
  | .closing written tail =>
      if (MarkerElement.ofName? (Text.lower written)).isSome then [] else (Token.closing written tail).raw

namespace Stripper

-- Reading a token adds its residue at most.
theorem step_grows {s : Stripper} (upright : s.Upright) (t : Token) :
    (s.step t).Upright ∧ Grows s.pending (s.step t).pending t.residue := by
  cases t with
  | text content => exact ⟨emitIfKept_upright upright _,emitIfKept_grows upright (.text content)⟩
  | other content => exact ⟨emitIfKept_upright upright _,emitIfKept_grows upright (.text content)⟩
  | closing written tail =>
      cases marker : (MarkerElement.ofName? (Text.lower written)).isSome with
      | true =>
          have same : s.step (.closing written tail) = s := by simp only [step,endTag,marker,if_true]
          rw [same]
          exact ⟨upright,grows_still s.pending _⟩
      | false =>
          have residue : (Token.closing written tail).residue = (Token.closing written tail).raw := by
            simp [Token.residue,marker]
          rw [residue]
          exact endTag_grows upright _ _
  | opening tag =>
      unfold step startTag
      dsimp only
      split
      · rename_i marker here
        obtain ⟨next,_,same⟩ := markerElement_upright upright tag marker
        rw [same]
        exact ⟨next,grows_still s.pending _⟩
      · rename_i ordinary
        have residue : (Token.opening tag).residue = tag.cleaned.raw := by simp [Token.residue,ordinary]
        rw [residue]
        refine ⟨element_upright upright tag,?_⟩
        cases void : tag.isVoid with
        | true =>
            rcases element_void_pending upright void with same | more
            · rw [same]
              exact grows_still s.pending _
            · rw [more]
              exact grows_add s.pending (.opening tag.name true tag.cleaned.raw)
        | false =>
            rw [element_open_pending upright void]
            exact grows_add s.pending (.opening tag.name false tag.cleaned.raw)

-- Every piece is the residue of a token of its own, and they keep the order of the tokens.
theorem run_pieces {s : Stripper} (upright : s.Upright) (tokens : List Token) :
    (tokens.foldl step s).Upright ∧ ((tokens.foldl step s).pending.map Piece.raw).Sublist
      (s.pending.map Piece.raw ++ tokens.map Token.residue) := by
  induction tokens generalizing s with
  | nil => exact ⟨upright,by simp⟩
  | cons t rest ih =>
      obtain ⟨next,kept,given,_,eq,added⟩ := step_grows upright t
      obtain ⟨last,within⟩ := ih next
      refine ⟨last,within.trans ?_⟩
      have first : ((s.step t).pending.map Piece.raw).Sublist (s.pending.map Piece.raw ++ [t.residue]) := by
        rw [eq,List.map_append,List.append_assoc]
        rcases added with same | ⟨piece,more,raw⟩
        · rw [same]
          exact List.sublist_append_left _ _
        · rw [more,List.map_append,List.map_singleton,raw]
          exact (List.Sublist.refl _).append (List.sublist_append_right _ _)
      rw [List.map_cons,← List.singleton_append,← List.append_assoc]
      exact first.append (List.Sublist.refl _)

end Stripper

theorem readThrough_pieces (tokens : List Token) : (readThrough tokens).Upright ∧
    ((readThrough tokens).pending.map Piece.raw).Sublist (tokens.map Token.residue) :=
  Stripper.run_pieces (Stripper.start_upright (closableStarts tokens)) tokens

theorem resolve_stack (tokens : List Token) : (resolve tokens).stack = [] := by
  have frames := Stripper.closeImplied_frames (readThrough tokens) (readThrough tokens).stack.length
  apply List.map_eq_nil_iff.mp
  refine frames.trans (List.drop_eq_nil_of_le ?_)
  simp [Stripper.frames]

theorem resolve_out (tokens : List Token) : ∃ given, Stripper.StartTags given ∧
    (readThrough tokens).pending = (resolve tokens).out.toList ++ given := by
  obtain ⟨_,given,tags,eq⟩ :=
    Stripper.closeImplied_pending (readThrough_pieces tokens).1 (readThrough tokens).stack.length
  refine ⟨given,tags,eq.trans ?_⟩
  change (resolve tokens).pending ++ given = _
  rw [Stripper.pending,resolve_stack]
  simp [Stripper.held]

theorem resolve_kept (tokens : List Token) : ∃ kept : List Token, kept.Sublist tokens ∧
    written (resolve tokens).out.toList = kept.flatMap Token.residue := by
  obtain ⟨given,_,eq⟩ := resolve_out tokens
  have within := (readThrough_pieces tokens).2
  rw [eq,List.map_append] at within
  obtain ⟨kept,fewer,pieces⟩ := List.sublist_map_iff.mp ((List.sublist_append_left _ _).trans within)
  refine ⟨kept,fewer,?_⟩
  rw [written,List.flatMap_def,pieces,List.flatMap_def]

theorem resolve_residue (tokens : List Token) :
    (written (resolve tokens).out.toList).Sublist (tokens.flatMap Token.residue) := by
  obtain ⟨kept,fewer,eq⟩ := resolve_kept tokens
  rw [eq]
  exact fewer.flatMap Token.residue

end Redline.Markup
