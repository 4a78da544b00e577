import Redline.Markup.Strip

namespace Redline.Markup

-- The ends that the open elements hold; each takes effect when its element is closed.
def Stripper.heldEnds (s : Stripper) : List (List Char) :=
  s.stack.flatMap fun element => element.closeBefore ++ element.closeAfter

-- An open element without the record of whether its start tag is out.
structure Frame where
  name : List Char
  startTag : List Char
  closeBefore : List (List Char)
  closeAfter : List (List Char)

def OpenElement.frame (e : OpenElement) : Frame := ⟨e.name,e.startTag,e.closeBefore,e.closeAfter⟩

def Stripper.frames (s : Stripper) : List Frame := s.stack.map OpenElement.frame

theorem heldEnds_frames (s : Stripper) :
    s.heldEnds = s.frames.flatMap fun frame => frame.closeBefore ++ frame.closeAfter := by
  simp [Stripper.heldEnds,Stripper.frames,List.flatMap_map,OpenElement.frame]

namespace Stripper

-- What an operation on ranges and elements leaves alone: the table of ranges, the place in it and the
-- counters.
structure Steady (before after : Stripper) : Prop where
  closable : after.closable = before.closable
  nextStart : after.nextStart = before.nextStart
  stats : after.stats = before.stats

theorem Steady.trans {a b c : Stripper} (ab : Steady a b) (bc : Steady b c) : Steady a c :=
  ⟨bc.closable.trans ab.closable,bc.nextStart.trans ab.nextStart,bc.stats.trans ab.stats⟩

section Output
variable (s : Stripper) (piece : Piece)

@[simp] theorem emit_eq : s.emit piece = {s with out := s.out.push piece} := rfl

theorem emitIfKept_eq : s.emitIfKept piece = {s with out := if s.isDeleting then s.out else s.out.push piece} := by
  unfold emitIfKept
  split <;> rfl

theorem emitIfKept_out : (s.emitIfKept piece).out = if s.isDeleting then s.out else s.out.push piece := by
  rw [emitIfKept_eq]
@[simp] theorem emitIfKept_deleting : (s.emitIfKept piece).deleting = s.deleting := by
  rw [emitIfKept_eq]
@[simp] theorem emitIfKept_stack : (s.emitIfKept piece).stack = s.stack := by
  rw [emitIfKept_eq]
@[simp] theorem emitIfKept_closable : (s.emitIfKept piece).closable = s.closable := by
  rw [emitIfKept_eq]
@[simp] theorem emitIfKept_nextStart : (s.emitIfKept piece).nextStart = s.nextStart := by
  rw [emitIfKept_eq]
@[simp] theorem emitIfKept_stats : (s.emitIfKept piece).stats = s.stats := by
  rw [emitIfKept_eq]
@[simp] theorem emitIfKept_heldEnds : (s.emitIfKept piece).heldEnds = s.heldEnds := by
  rw [emitIfKept_eq,heldEnds,heldEnds]

end Output

section Counting
variable (s : Stripper) (markers : List Marker)

@[simp] theorem countComment_eq :
    s.countComment = {s with stats := {s.stats with commentMarkers := s.stats.commentMarkers + 1}} := rfl
@[simp] theorem countSuggestion_eq :
    s.countSuggestion = {s with stats := {s.stats with suggestionMarkers := s.stats.suggestionMarkers + 1}} := rfl

theorem countMarkers_frame : (markers.foldl countMarker s).out = s.out ∧
    (markers.foldl countMarker s).deleting = s.deleting ∧ (markers.foldl countMarker s).stack = s.stack ∧
    (markers.foldl countMarker s).closable = s.closable ∧
    (markers.foldl countMarker s).nextStart = s.nextStart := by
  induction markers generalizing s with
  | nil => exact ⟨rfl,rfl,rfl,rfl,rfl⟩
  | cons marker rest ih =>
      obtain ⟨out,deleting,stack,closable,nextStart⟩ := ih (s.countMarker marker)
      rw [List.foldl_cons,out,deleting,stack,closable,nextStart]
      cases marker <;> exact ⟨rfl,rfl,rfl,rfl,rfl⟩

@[simp] theorem countMarkers_out : (markers.foldl countMarker s).out = s.out := (countMarkers_frame s markers).1
@[simp] theorem countMarkers_deleting : (markers.foldl countMarker s).deleting = s.deleting :=
  (countMarkers_frame s markers).2.1
@[simp] theorem countMarkers_stack : (markers.foldl countMarker s).stack = s.stack :=
  (countMarkers_frame s markers).2.2.1
@[simp] theorem countMarkers_closable : (markers.foldl countMarker s).closable = s.closable :=
  (countMarkers_frame s markers).2.2.2.1
@[simp] theorem countMarkers_nextStart : (markers.foldl countMarker s).nextStart = s.nextStart :=
  (countMarkers_frame s markers).2.2.2.2

end Counting

section Opening
variable (s : Stripper) (name : List Char) (names : List (List Char))

-- Starts go on in the table, and touch neither what is written nor the open elements.
structure Starts (count : Nat) (before after : Stripper) : Prop where
  out : after.out = before.out
  stack : after.stack = before.stack
  closable : after.closable = before.closable
  nextStart : after.nextStart = before.nextStart + count

theorem openDeletion_starts : Starts 1 s (s.openDeletion name) := by
  unfold openDeletion
  dsimp only
  split <;> exact ⟨rfl,rfl,rfl,rfl⟩

theorem openDeletions_starts : Starts names.length s (s.openDeletions names) := by
  induction names generalizing s with
  | nil => exact ⟨rfl,rfl,rfl,rfl⟩
  | cons name rest ih =>
      have first := openDeletion_starts s name
      have others := ih (s.openDeletion name)
      refine ⟨others.out.trans first.out,others.stack.trans first.stack,others.closable.trans first.closable,?_⟩
      refine others.nextStart.trans ?_
      rw [first.nextStart,List.length_cons]
      omega

@[simp] theorem openDeletion_out : (s.openDeletion name).out = s.out := (openDeletion_starts s name).out
@[simp] theorem openDeletion_stack : (s.openDeletion name).stack = s.stack := (openDeletion_starts s name).stack
@[simp] theorem openDeletion_closable : (s.openDeletion name).closable = s.closable :=
  (openDeletion_starts s name).closable
@[simp] theorem openDeletion_nextStart : (s.openDeletion name).nextStart = s.nextStart + 1 :=
  (openDeletion_starts s name).nextStart
@[simp] theorem openDeletions_out : (s.openDeletions names).out = s.out := (openDeletions_starts s names).out
@[simp] theorem openDeletions_stack : (s.openDeletions names).stack = s.stack := (openDeletions_starts s names).stack
@[simp] theorem openDeletions_closable : (s.openDeletions names).closable = s.closable :=
  (openDeletions_starts s names).closable
@[simp] theorem openDeletions_nextStart : (s.openDeletions names).nextStart = s.nextStart + names.length :=
  (openDeletions_starts s names).nextStart

theorem openDeletion_idle (idle : (s.openDeletion name).deleting = []) : s.deleting = [] := by
  unfold openDeletion at idle
  dsimp only at idle
  split at idle
  · exact (List.append_eq_nil_iff.mp idle).1
  · exact idle

-- A start that no end is left for moves the counter and does nothing else.
theorem openDeletion_unclosable (unclosable : s.closable.getD s.nextStart false = false) :
    s.openDeletion name = {s with nextStart := s.nextStart + 1} := by
  unfold openDeletion
  simp only [unclosable,Bool.false_and,Bool.false_eq_true,if_false]

theorem mem_openDeletion {s : Stripper} {name n : List Char} (member : n ∈ (s.openDeletion name).deleting) :
    n ∈ s.deleting ∨ n = name ∧ s.closable.getD s.nextStart false = true := by
  unfold openDeletion at member
  dsimp only at member
  split at member
  · rename_i opens
    rcases List.mem_append.mp member with earlier | new
    · exact .inl earlier
    · exact .inr ⟨List.mem_singleton.mp new,(Bool.and_eq_true_iff.mp opens).1⟩
  · exact .inl member

theorem openDeletions_idle (idle : (s.openDeletions names).deleting = []) : s.deleting = [] := by
  induction names generalizing s with
  | nil => exact idle
  | cons name rest ih => exact openDeletion_idle s name (ih (s.openDeletion name) idle)

theorem mem_openDeletions {s : Stripper} {names : List (List Char)} {n : List Char}
    (member : n ∈ (s.openDeletions names).deleting) :
    n ∈ s.deleting ∨ ∃ i, names[i]? = some n ∧ s.closable.getD (s.nextStart + i) false = true := by
  induction names generalizing s with
  | nil => exact .inl member
  | cons name rest ih =>
      rcases ih (s := s.openDeletion name) member with earlier | ⟨i,here,closable⟩
      · rcases mem_openDeletion earlier with before | ⟨rfl,closable⟩
        · exact .inl before
        · exact .inr ⟨0,rfl,closable⟩
      · refine .inr ⟨i + 1,here,?_⟩
        rw [openDeletion_closable,openDeletion_nextStart,Nat.add_assoc,Nat.add_comm 1] at closable
        exact closable

end Opening

section Closing
variable (s : Stripper) (name : List Char) (names : List (List Char))

@[simp] theorem reviveSuppressed_frames : s.reviveSuppressed.frames = s.frames := by
  simp [frames,reviveSuppressed,Function.comp_def,OpenElement.frame]

theorem reviveSuppressed_out : s.reviveSuppressed.out.toList = s.out.toList ++
    (s.stack.reverse.filter (!·.emitted)).map fun e => .opening e.name false e.startTag := by
  simp [reviveSuppressed]

-- Closing a range either changes nothing but the list of ranges or, as the last one, revives.
theorem closeDeletion_cases : (s.closeDeletion name = s) ∨
    (s.deleting.filter (· ≠ name) ≠ [] ∧
      s.closeDeletion name = {s with deleting := s.deleting.filter (· ≠ name)}) ∨
    (s.deleting.filter (· ≠ name) = [] ∧
      s.closeDeletion name = ({s with deleting := []} : Stripper).reviveSuppressed) := by
  unfold closeDeletion
  dsimp only
  split
  · split
    · rename_i live
      refine .inr (.inl ⟨?_,rfl⟩)
      simpa [isDeleting] using live
    · rename_i spent
      have none_ : s.deleting.filter (· ≠ name) = [] := by simpa [isDeleting] using spent
      exact .inr (.inr ⟨none_,by rw [none_]⟩)
  · exact .inl rfl

theorem closeDeletion_steady : Steady s (s.closeDeletion name) := by
  rcases closeDeletion_cases s name with eq | ⟨_,eq⟩ | ⟨_,eq⟩
  all_goals rw [eq]; exact ⟨rfl,rfl,rfl⟩

theorem closeDeletion_frames : (s.closeDeletion name).frames = s.frames := by
  rcases closeDeletion_cases s name with eq | ⟨_,eq⟩ | ⟨_,eq⟩
  · rw [eq]
  · rw [eq]
    rfl
  · rw [eq,reviveSuppressed_frames]
    rfl

theorem closeDeletion_deleting : (s.closeDeletion name).deleting = s.deleting.filter (· ≠ name) := by
  unfold closeDeletion
  dsimp only
  split
  · split <;> rfl
  · rename_i absent
    rw [eq_comm,List.filter_eq_self]
    intro n member
    rw [decide_eq_true_eq]
    rintro rfl
    exact absent (List.contains_iff_mem.mpr member)

theorem closeDeletions_steady : Steady s (s.closeDeletions names) := by
  induction names generalizing s with
  | nil => exact ⟨rfl,rfl,rfl⟩
  | cons name rest ih => exact (closeDeletion_steady s name).trans (ih (s.closeDeletion name))

@[simp] theorem closeDeletions_closable : (s.closeDeletions names).closable = s.closable :=
  (closeDeletions_steady s names).closable
@[simp] theorem closeDeletions_nextStart : (s.closeDeletions names).nextStart = s.nextStart :=
  (closeDeletions_steady s names).nextStart

@[simp] theorem closeDeletions_frames : (s.closeDeletions names).frames = s.frames := by
  induction names generalizing s with
  | nil => rfl
  | cons name rest ih => exact (ih (s.closeDeletion name)).trans (closeDeletion_frames s name)

@[simp] theorem closeDeletions_heldEnds : (s.closeDeletions names).heldEnds = s.heldEnds := by
  rw [heldEnds_frames,closeDeletions_frames,heldEnds_frames]

theorem mem_closeDeletions {n : List Char} :
    n ∈ (s.closeDeletions names).deleting ↔ n ∈ s.deleting ∧ n ∉ names := by
  induction names generalizing s with
  | nil => simp [closeDeletions]
  | cons name rest ih =>
      refine (ih (s.closeDeletion name)).trans ?_
      rw [closeDeletion_deleting,List.mem_filter,decide_eq_true_eq,List.mem_cons,not_or,and_assoc]

end Closing

section Tags
variable (s : Stripper) (tag : StartTag)

-- The state once an ordinary start tag is written or held back and its starts are met, before its
-- ends count.
def opened : Stripper :=
  let s := (tag.markers.foldl countMarker s).openDeletions (tag.deletionsAt .startBefore)
  (s.emitIfKept (.opening tag.name tag.isVoid tag.cleaned.raw)).openDeletions (tag.deletionsAt .startAfter)

def writes : Bool :=
  !((tag.markers.foldl countMarker s).openDeletions (tag.deletionsAt .startBefore)).isDeleting

def entered : OpenElement :=
  ⟨tag.name,tag.cleaned.raw,s.writes tag,tag.deletionsAt .endBefore,tag.deletionsAt .endAfter⟩

theorem element_void (void : tag.isVoid = true) : s.element tag =
    (s.opened tag).closeDeletions (tag.deletionsAt .endBefore ++ tag.deletionsAt .endAfter) := by
  unfold element
  simp only [void,if_true]
  rw [opened,void]

theorem element_open (open_ : tag.isVoid = false) :
    s.element tag = {s.opened tag with stack := s.entered tag :: (s.opened tag).stack} := by
  unfold element
  simp only [open_,Bool.false_eq_true,if_false]
  rw [opened,open_]
  rfl

@[simp] theorem opened_stack : (s.opened tag).stack = s.stack := by simp [opened]
@[simp] theorem opened_closable : (s.opened tag).closable = s.closable := by simp [opened]
@[simp] theorem opened_heldEnds : (s.opened tag).heldEnds = s.heldEnds := by simp [heldEnds]
theorem opened_nextStart : (s.opened tag).nextStart =
    s.nextStart + (tag.deletionsAt .startBefore ++ tag.deletionsAt .startAfter).length := by
  simp only [opened,openDeletions_nextStart,emitIfKept_nextStart,countMarkers_nextStart,List.length_append]
  omega

theorem opened_out : (s.opened tag).out =
    if s.writes tag then s.out.push (.opening tag.name tag.isVoid tag.cleaned.raw) else s.out := by
  simp only [opened,openDeletions_out,emitIfKept_out,writes,countMarkers_out]
  split <;> rename_i held <;> simp [held]

theorem mem_opened {s : Stripper} {tag : StartTag} {n : List Char} (member : n ∈ (s.opened tag).deleting) :
    n ∈ s.deleting ∨ ∃ i, (tag.deletionsAt .startBefore ++ tag.deletionsAt .startAfter)[i]? = some n ∧
      s.closable.getD (s.nextStart + i) false = true := by
  unfold opened at member
  rcases mem_openDeletions member with before | ⟨i,here,closable⟩
  · rw [emitIfKept_deleting] at before
    rcases mem_openDeletions before with earlier | ⟨i,here,closable⟩
    · rw [countMarkers_deleting] at earlier
      exact .inl earlier
    · rw [countMarkers_closable,countMarkers_nextStart] at closable
      refine .inr ⟨i,?_,closable⟩
      rw [List.getElem?_append_left (List.getElem?_eq_some_iff.mp here).1]
      exact here
  · refine .inr ⟨(tag.deletionsAt .startBefore).length + i,?_,?_⟩
    · rw [List.getElem?_append_right (Nat.le_add_right _ _),Nat.add_sub_cancel_left]
      exact here
    · rw [emitIfKept_closable,openDeletions_closable,countMarkers_closable,emitIfKept_nextStart,
        openDeletions_nextStart,countMarkers_nextStart,Nat.add_assoc] at closable
      exact closable

end Tags

section Leaving
variable (s : Stripper) (raw : Option (List Char))

def leave (top : OpenElement) (rest : List OpenElement) : Stripper :=
  match raw with
  | some raw => if top.emitted then {s with stack := rest}.emit (.closing top.name raw) else {s with stack := rest}
  | none => {s with stack := rest}

theorem leave_frame (top : OpenElement) (rest : List OpenElement) : Steady s (s.leave raw top rest) ∧
    (s.leave raw top rest).deleting = s.deleting ∧ (s.leave raw top rest).stack = rest := by
  unfold leave
  split
  · split <;> exact ⟨⟨rfl,rfl,rfl⟩,rfl,rfl⟩
  · exact ⟨⟨rfl,rfl,rfl⟩,rfl,rfl⟩

@[simp] theorem leave_deleting {top : OpenElement} {rest : List OpenElement} :
    (s.leave raw top rest).deleting = s.deleting := (leave_frame s raw top rest).2.1
@[simp] theorem leave_stack {top : OpenElement} {rest : List OpenElement} :
    (s.leave raw top rest).stack = rest := (leave_frame s raw top rest).2.2

theorem closeTop_nil (empty : s.stack = []) : s.closeTop raw = s := by
  unfold closeTop; simp only [empty]

-- Closing an element: the ranges that end before its end tag, the element, the ranges after it.
theorem closeTop_parts {s : Stripper} {top : OpenElement} {rest : List OpenElement}
    (raw : Option (List Char)) (here : s.stack = top :: rest) :
    ∃ top' rest', (s.closeDeletions top.closeBefore).stack = top' :: rest' ∧ top'.frame = top.frame ∧
      rest'.map OpenElement.frame = rest.map OpenElement.frame ∧
      s.closeTop raw =
        ((s.closeDeletions top.closeBefore).leave raw top' rest').closeDeletions top.closeAfter := by
  have frames : (s.closeDeletions top.closeBefore).stack.map OpenElement.frame =
      top.frame :: rest.map OpenElement.frame := by
    have kept := closeDeletions_frames s top.closeBefore
    simpa only [Stripper.frames,here,List.map_cons] using kept
  obtain ⟨top',rest',stack,same,below⟩ := List.map_eq_cons_iff.mp frames
  refine ⟨top',rest',stack,same,below,?_⟩
  have after : top'.closeAfter = top.closeAfter := congrArg Frame.closeAfter same
  unfold closeTop
  simp only [here,stack,after]
  rfl

theorem closeTop_steady : Steady s (s.closeTop raw) := by
  cases here : s.stack with
  | nil =>
      rw [closeTop_nil s raw here]
      exact ⟨rfl,rfl,rfl⟩
  | cons top rest =>
      obtain ⟨top',rest',_,_,_,eq⟩ := closeTop_parts raw here
      rw [eq]
      exact ((closeDeletions_steady s _).trans (leave_frame _ raw top' rest').1).trans (closeDeletions_steady _ _)

theorem closeTop_frames : (s.closeTop raw).frames = s.frames.tail := by
  cases here : s.stack with
  | nil => simp [closeTop_nil s raw here,frames,here]
  | cons top rest =>
      obtain ⟨top',rest',_,_,below,eq⟩ := closeTop_parts raw here
      rw [eq,closeDeletions_frames,frames,leave_stack,below,frames,here]
      rfl

theorem mem_closeTop {s : Stripper} {top : OpenElement} {rest : List OpenElement} {n : List Char}
    (here : s.stack = top :: rest) : n ∈ (s.closeTop raw).deleting ↔
      n ∈ s.deleting ∧ n ∉ top.closeBefore ++ top.closeAfter := by
  obtain ⟨top',rest',_,_,_,eq⟩ := closeTop_parts raw here
  rw [eq,mem_closeDeletions,leave_deleting,mem_closeDeletions,List.mem_append,not_or,and_assoc]

theorem endTag_top {s : Stripper} {top : OpenElement} {rest : List OpenElement} (raw : List Char)
    (here : s.stack = top :: rest) (ordinary : (MarkerElement.ofName? top.name).isSome = false) :
    s.endTag top.name raw = s.closeTop (some raw) := by
  have found : s.stack.findIdx? (·.name = top.name) = some 0 := by
    rw [here,List.findIdx?_cons]
    simp
  simp only [endTag,ordinary,found,Bool.false_eq_true,if_false]
  rfl

theorem closeImplied_steady (count : Nat) : Steady s (s.closeImplied count) := by
  induction count generalizing s with
  | zero => exact ⟨rfl,rfl,rfl⟩
  | succ count ih => exact (closeTop_steady s none).trans (ih (s.closeTop none))

theorem endTag_stats (name raw : List Char) : (s.endTag name raw).stats = s.stats := by
  unfold endTag
  split
  · rfl
  · split
    · exact emitIfKept_stats s _
    · exact ((closeImplied_steady s _).trans (closeTop_steady _ _)).stats

theorem closeImplied_frames (count : Nat) : (s.closeImplied count).frames = s.frames.drop count := by
  induction count generalizing s with
  | zero => rfl
  | succ count ih =>
      refine (ih (s.closeTop none)).trans ?_
      rw [closeTop_frames,List.drop_tail]

end Leaving

end Stripper

-- The state at the end of the document, before the elements still open are closed.
def readThrough (tokens : List Token) : Stripper :=
  tokens.foldl Stripper.step (Stripper.start (closableStarts tokens))

end Redline.Markup
