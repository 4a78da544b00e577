import Redline.Proofs.Suppression

namespace Redline.Markup

-- The tags of ordinary elements. Void tags open nothing, so neither they nor end tags of void
-- elements count.
inductive ElementTag where
  | opening (name content : List Char)
  | closing (name content : List Char)
deriving DecidableEq

-- A start tag as it is written, without its marker attributes.
def Token.elementTag? : Token → Option ElementTag
  | .opening tag =>
      if tag.markerElement?.isSome || tag.isVoid then none else some (.opening tag.name tag.cleaned.raw)
  | .closing written tail =>
      if (MarkerElement.ofName? (Text.lower written)).isSome || voidElements.contains (Text.lower written) then none
      else some (.closing (Text.lower written) (Token.closing written tail).raw)
  | _ => none

def Piece.elementTag? : Piece → Option ElementTag
  | .opening name void content => if void then none else some (.opening name content)
  | .closing name content => if voidElements.contains name then none else some (.closing name content)
  | .text _ => none

theorem elementTag?_opening {t : Token} {name start : List Char}
    (here : t.elementTag? = some (.opening name start)) :
    ∃ tag, t = .opening tag ∧ tag.markerElement? = none ∧ tag.isVoid = false ∧
      tag.name = name ∧ tag.cleaned.raw = start := by
  cases t with
  | text content => cases here
  | other content => cases here
  | closing written tail =>
      simp only [Token.elementTag?] at here
      split at here <;> cases here
  | opening tag =>
      simp only [Token.elementTag?] at here
      split at here
      · cases here
      · rename_i ordinary
        cases here
        simp only [Bool.or_eq_true,not_or,Bool.not_eq_true,Option.isSome_eq_false_iff,
          Option.isNone_iff_eq_none] at ordinary
        exact ⟨tag,rfl,ordinary.1,ordinary.2,rfl,rfl⟩

theorem elementTag?_closing {t : Token} {name final : List Char}
    (here : t.elementTag? = some (.closing name final)) :
    ∃ written tail, t = .closing written tail ∧ Text.lower written = name ∧
      (MarkerElement.ofName? name).isSome = false ∧ (Token.closing written tail).raw = final := by
  cases t with
  | text content => cases here
  | other content => cases here
  | opening tag =>
      simp only [Token.elementTag?] at here
      split at here <;> cases here
  | closing written tail =>
      simp only [Token.elementTag?] at here
      split at here
      · cases here
      · rename_i ordinary
        cases here
        simp only [Bool.or_eq_true,not_or,Bool.not_eq_true] at ordinary
        exact ⟨written,tail,rfl,rfl,ordinary.1,rfl⟩

inductive Nested : List ElementTag → Prop where
  | nil : Nested []
  | element {inner rest : List ElementTag} {name start final : List Char} : Nested inner → Nested rest →
      Nested (.opening name start :: inner ++ .closing name final :: rest)

-- The second list is the first one with some elements taken out, each with both its tags.
inductive Thinned : List ElementTag → List ElementTag → Prop where
  | nil : Thinned [] []
  | kept {inner inner' rest rest' : List ElementTag} {name start final : List Char} :
      Thinned inner inner' → Thinned rest rest' →
      Thinned (.opening name start :: inner ++ .closing name final :: rest)
        (.opening name start :: inner' ++ .closing name final :: rest')
  | dropped {inner inner' rest rest' : List ElementTag} {name start final : List Char} :
      Thinned inner inner' → Thinned rest rest' →
      Thinned (.opening name start :: inner ++ .closing name final :: rest) (inner' ++ rest')

theorem Nested.append {tags more : List ElementTag} (one : Nested tags) (two : Nested more) : Nested (tags ++ more) := by
  induction one with
  | nil => exact two
  | element inner rest _ ih =>
      rw [List.append_assoc,List.cons_append]
      exact .element inner ih

theorem Nested.ends_closing {tags : List ElementTag} (nested : Nested tags) :
    tags = [] ∨ ∃ init name final, tags = init ++ [.closing name final] := by
  induction nested with
  | nil => exact .inl rfl
  | @element inner rest name start final _ _ _ ih =>
      rcases ih with rfl | ⟨init,name',final',rfl⟩
      · exact .inr ⟨.opening name start :: inner,name,final,rfl⟩
      · exact .inr ⟨.opening name start :: inner ++ .closing name final :: init,name',final',by simp⟩

theorem Thinned.nested_right {tags tags' : List ElementTag} (thinned : Thinned tags tags') : Nested tags' := by
  induction thinned with
  | nil => exact .nil
  | kept _ _ inner rest => exact .element inner rest
  | dropped _ _ inner rest => exact inner.append rest

namespace Stripper

-- The tags of ordinary elements that are written once every range is over.
def due (s : Stripper) : List ElementTag := s.pending.filterMap Piece.elementTag?

section Operations
variable {s : Stripper}

theorem emitIfKept_due (upright : s.Upright) {piece : Piece} (plain : piece.elementTag? = none) :
    (s.emitIfKept piece).due = s.due := by
  rcases emitIfKept_pending upright piece with same | more
  · rw [due,same,due]
  · rw [due,more,List.filterMap_append,due]
    simp [plain]

theorem element_void_due (upright : s.Upright) {tag : StartTag} (void : tag.isVoid = true) :
    (s.element tag).due = s.due := by
  rcases element_void_pending upright void with same | more
  · rw [due,same,due]
  · rw [due,more,List.filterMap_append,due]
    simp [Piece.elementTag?]

theorem element_open_due (upright : s.Upright) {tag : StartTag} (open_ : tag.isVoid = false) :
    (s.element tag).due = s.due ++ [.opening tag.name tag.cleaned.raw] := by
  rw [due,element_open_pending upright open_,List.filterMap_append,due]
  simp [Piece.elementTag?]

theorem closeTop_due (upright : s.Upright) {top : OpenElement} {rest : List OpenElement}
    (raw : List Char) (here : s.stack = top :: rest) : (s.closeTop (some raw)).Upright ∧
      ((s.closeTop (some raw)).due = s.due ++ [.closing top.name raw] ∨
        s.due = (s.closeTop (some raw)).due ++ [.opening top.name top.startTag]) := by
  have plain := upright.plain top (by simp [here])
  obtain ⟨left,written | given⟩ := closeTop_pending upright (some raw) here
  · refine ⟨left,.inl ?_⟩
    have counts : Piece.elementTag? (.closing top.name raw) = some (.closing top.name raw) := by
      simp only [Piece.elementTag?,plain,Bool.false_eq_true,if_false]
    rw [due,written,List.filterMap_append,due]
    simp [counts]
  · refine ⟨left,.inr ?_⟩
    rw [due,given,List.filterMap_append,due]
    simp [Piece.elementTag?]

end Operations

section Runs
variable {s : Stripper}

theorem Upright.void_absent (upright : s.Upright) {name : List Char} (void : voidElements.contains name = true) :
    s.stack.findIdx? (·.name = name) = none := by
  rw [List.findIdx?_eq_none_iff]
  intro e member
  rw [decide_eq_false_iff_not]
  intro same
  have plain := upright.plain e member
  rw [same,void] at plain
  cases plain

theorem step_plain (upright : s.Upright) {t : Token} (plain : t.elementTag? = none) :
    (s.step t).Upright ∧ (s.step t).frames = s.frames ∧ (s.step t).due = s.due := by
  have written : ∀ piece : Piece, piece.elementTag? = none → (s.emitIfKept piece).Upright ∧
      (s.emitIfKept piece).frames = s.frames ∧ (s.emitIfKept piece).due = s.due := by
    intro piece none_
    refine ⟨upright.of_same_stack ?_ (emitIfKept_stack s piece),by simp [frames],emitIfKept_due upright none_⟩
    intro idle
    simpa using idle
  cases t with
  | text content => exact written _ rfl
  | other content => exact written _ rfl
  | opening tag =>
      unfold step startTag
      dsimp only
      split
      · rename_i marker here
        obtain ⟨next,frames,same⟩ := markerElement_upright upright tag marker
        exact ⟨next,frames,by rw [due,same,due]⟩
      · rename_i ordinary
        have void : tag.isVoid = true := by simpa [Token.elementTag?,ordinary] using plain
        refine ⟨element_upright upright tag,?_,element_void_due upright void⟩
        rw [element_void s tag void,closeDeletions_frames,frames,opened_stack,frames]
  | closing name tail =>
      unfold step endTag
      dsimp only
      split
      · exact ⟨upright,rfl,rfl⟩
      · rename_i ordinary
        have void : voidElements.contains (Text.lower name) = true := by
          simpa [Token.elementTag?,ordinary] using plain
        rw [upright.void_absent void]
        exact written _ (by simp only [Piece.elementTag?,void,if_true])

theorem run_plain (upright : s.Upright) {tokens : List Token} (plain : ∀ t ∈ tokens, t.elementTag? = none) :
    (tokens.foldl step s).Upright ∧ (tokens.foldl step s).frames = s.frames ∧
      (tokens.foldl step s).due = s.due := by
  induction tokens generalizing s with
  | nil => exact ⟨upright,rfl,rfl⟩
  | cons t rest ih =>
      obtain ⟨next,frames,due⟩ := step_plain upright (plain t List.mem_cons_self)
      obtain ⟨last,framesAfter,dueAfter⟩ := ih next fun u member => plain u (List.mem_cons_of_mem _ member)
      exact ⟨last,framesAfter.trans frames,dueAfter.trans due⟩

theorem step_opening (upright : s.Upright) {t : Token} {name start : List Char}
    (here : t.elementTag? = some (.opening name start)) : (s.step t).Upright ∧
      (∃ frame, (s.step t).frames = frame :: s.frames ∧ frame.name = name ∧ frame.startTag = start) ∧
      (s.step t).due = s.due ++ [.opening name start] := by
  obtain ⟨tag,rfl,ordinary,open_,rfl,rfl⟩ := elementTag?_opening here
  have step : s.step (.opening tag) = s.element tag := by
    simp only [Stripper.step,startTag,ordinary]
  rw [step]
  refine ⟨element_upright upright tag,?_,element_open_due upright open_⟩
  rw [element_open s tag open_]
  exact ⟨(s.entered tag).frame,by simp [frames],rfl,rfl⟩

theorem step_closing (upright : s.Upright) {t : Token} {name final : List Char} {frame : Frame}
    {below : List Frame} (here : t.elementTag? = some (.closing name final))
    (open_ : s.frames = frame :: below) (same : frame.name = name) : (s.step t).Upright ∧
      (s.step t).frames = below ∧ ((s.step t).due = s.due ++ [.closing name final] ∨
        s.due = (s.step t).due ++ [.opening name frame.startTag]) := by
  obtain ⟨written,tail,rfl,rfl,ordinary,rfl⟩ := elementTag?_closing here
  obtain ⟨top,rest,stack,rfl,rfl⟩ := List.map_eq_cons_iff.mp open_
  replace same : top.name = Text.lower written := same
  rw [← same] at ordinary
  have step : s.step (.closing written tail) = s.closeTop (some (Token.closing written tail).raw) := by
    rw [Stripper.step,← same]
    exact endTag_top _ stack ordinary
  obtain ⟨next,due⟩ := closeTop_due upright (Token.closing written tail).raw stack
  rw [step]
  refine ⟨next,?_,?_⟩
  · rw [closeTop_frames,open_]; rfl
  · rw [same] at due
    exact due

theorem run_nested {tags : List ElementTag} (nested : Nested tags) {tokens : List Token}
    (upright : s.Upright) (read : tokens.filterMap Token.elementTag? = tags) :
    (tokens.foldl step s).Upright ∧ (tokens.foldl step s).frames = s.frames ∧
      ∃ added, (tokens.foldl step s).due = s.due ++ added ∧ Thinned tags added := by
  induction nested generalizing s tokens with
  | nil =>
      obtain ⟨last,frames,due⟩ := run_plain upright (List.filterMap_eq_nil_iff.mp read)
      exact ⟨last,frames,[],by rw [due,List.append_nil],.nil⟩
  | @element inner rest name start final _ _ innerRun restRun =>
      obtain ⟨lead,t,after,rfl,leadPlain,opens,read⟩ := List.filterMap_eq_cons_iff.mp read
      obtain ⟨mid,after,rfl,midRead,read⟩ := List.filterMap_eq_append_iff.mp read
      obtain ⟨gap,u,last,rfl,gapPlain,closes,lastRead⟩ := List.filterMap_eq_cons_iff.mp read
      simp only [List.foldl_append,List.foldl_cons]
      obtain ⟨up₁,frames₁,due₁⟩ := run_plain upright leadPlain
      obtain ⟨up₂,⟨frame,frames₂,frameName,frameStart⟩,due₂⟩ := step_opening up₁ opens
      obtain ⟨up₃,frames₃,added₁,due₃,thinned₁⟩ := innerRun up₂ midRead
      obtain ⟨up₄,frames₄,due₄⟩ := run_plain up₃ gapPlain
      have stacked := frames₄.trans (frames₃.trans frames₂)
      obtain ⟨up₅,frames₅,due₅⟩ := step_closing up₄ closes stacked frameName
      obtain ⟨up₆,frames₆,added₂,due₆,thinned₂⟩ := restRun up₅ lastRead
      refine ⟨up₆,frames₆.trans (frames₅.trans frames₁),?_⟩
      rcases due₅ with written | given
      · refine ⟨.opening name start :: added₁ ++ .closing name final :: added₂,?_,.kept thinned₁ thinned₂⟩
        rw [due₆,written,due₄,due₃,due₂,due₁]
        simp
      · refine ⟨added₁ ++ added₂,?_,.dropped thinned₁ thinned₂⟩
        -- The element is given up with the last tag that is due, so nothing is due inside it.
        rw [due₄,due₃,due₂,due₁,frameStart] at given
        rcases thinned₁.nested_right.ends_closing with rfl | ⟨init,name',final',rfl⟩
        · rw [List.append_nil] at given
          rw [due₆,List.nil_append,← List.append_cancel_right given]
        · rw [← List.append_assoc] at given
          have ends := (List.append_inj' given rfl).2
          cases ends

end Runs

end Stripper

-- Where the tags of ordinary elements are well nested, whatever markers stand between and on them,
-- the tags written are those of some of the elements, both of each or neither, and well nested again.
theorem strip_keeps_nesting (tokens : List Token) (nested : Nested (tokens.filterMap Token.elementTag?)) :
    Thinned (tokens.filterMap Token.elementTag?) ((resolve tokens).out.toList.filterMap Piece.elementTag?) ∧
      Nested ((resolve tokens).out.toList.filterMap Piece.elementTag?) := by
  obtain ⟨_,frames,added,due,thinned⟩ := Stripper.run_nested nested (Stripper.start_upright _) rfl
  have stack : (readThrough tokens).stack = [] := List.map_eq_nil_iff.mp frames
  have finished : resolve tokens = readThrough tokens := by
    change (readThrough tokens).closeImplied (readThrough tokens).stack.length = readThrough tokens
    rw [stack]
    rfl
  have written : (resolve tokens).out.toList.filterMap Piece.elementTag? = added := by
    change (readThrough tokens).due = _ at due
    rw [Stripper.due,Stripper.pending,stack] at due
    rw [finished]
    simpa [Stripper.held,Stripper.due,Stripper.pending,Stripper.start] using due
  rw [← written] at thinned
  exact ⟨thinned,thinned.nested_right⟩

theorem strip_keeps_nesting_across_paragraphs :
    let tokens := tokenize
      "<p>a<suggestion-start name=deletion>b</p><p><i>c</i><suggestion-end name=deletion>d</p>".toList
    Nested (tokens.filterMap Token.elementTag?) ∧
      (Thinned (tokens.filterMap Token.elementTag?) ((resolve tokens).out.toList.filterMap Piece.elementTag?) ∧
        Nested ((resolve tokens).out.toList.filterMap Piece.elementTag?)) ∧
      written (resolve tokens).out.toList = "<p>a</p><p>d</p>".toList := by
  intro tokens
  have read : tokens.filterMap Token.elementTag? =
      [.opening ['p'] "<p>".toList,.closing ['p'] "</p>".toList,.opening ['p'] "<p>".toList,
        .opening ['i'] "<i>".toList,.closing ['i'] "</i>".toList,.closing ['p'] "</p>".toList] := by
    decide +kernel
  have nested : Nested (tokens.filterMap Token.elementTag?) := by
    rw [read]
    exact .element .nil (.element (.element .nil .nil) .nil)
  exact ⟨nested,strip_keeps_nesting tokens nested,by decide +kernel⟩

end Redline.Markup
