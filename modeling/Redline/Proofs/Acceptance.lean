import Redline.Proofs.Nesting
import Redline.Proofs.RangeTable

namespace Redline.Markup

-- Two markers around balanced tokens that hold no boundary of a deletion themselves. Comments,
-- insertions and other suggestions may stand between them.
structure DeletionRange (name : List Char) (first : StartTag) (mid : List Token) (last : StartTag) : Prop where
  opens : first.markerElement? = some .suggestionStart
  closes : last.markerElement? = some .suggestionEnd
  begun : first.suggestionName = name
  ended : last.suggestionName = name
  deletion : isDeletion name = true
  free : ∀ t ∈ mid, t.boundaries = ⟨[],[]⟩
  nested : Nested (mid.filterMap Token.elementTag?)

namespace Stripper

-- States that show the same and that get the same answers for the next `count` starts.
structure Alike (count : Nat) (s s' : Stripper) : Prop where
  out : s'.out = s.out
  deleting : s'.deleting = s.deleting
  stack : s'.stack = s.stack
  answers : ∀ i < count, s'.closable.getD (s'.nextStart + i) false = s.closable.getD (s.nextStart + i) false

section Operations
variable {count : Nat} {s s' : Stripper}

theorem Alike.trans {a b c : Stripper} (ab : Alike count a b) (bc : Alike count b c) : Alike count a c :=
  ⟨bc.out.trans ab.out,bc.deleting.trans ab.deleting,bc.stack.trans ab.stack,
    fun i within => (bc.answers i within).trans (ab.answers i within)⟩

theorem Alike.with_stack (alike : Alike count s s') (stack : List OpenElement) :
    Alike count {s with stack := stack} {s' with stack := stack} :=
  ⟨alike.out,alike.deleting,rfl,alike.answers⟩

theorem Alike.isDeleting (alike : Alike count s s') : s'.isDeleting = s.isDeleting := by
  rw [Stripper.isDeleting,alike.deleting]
  rfl

theorem Alike.emit (alike : Alike count s s') (piece : Piece) : Alike count (s.emit piece) (s'.emit piece) :=
  ⟨by rw [emit_eq,emit_eq,alike.out],alike.deleting,alike.stack,alike.answers⟩

theorem Alike.emitIfKept (alike : Alike count s s') (piece : Piece) :
    Alike count (s.emitIfKept piece) (s'.emitIfKept piece) := by
  unfold Stripper.emitIfKept
  rw [alike.isDeleting]
  split
  · exact alike
  · exact alike.emit piece

theorem Alike.countComment (alike : Alike count s s') : Alike count s.countComment s'.countComment :=
  ⟨alike.out,alike.deleting,alike.stack,alike.answers⟩

theorem Alike.countSuggestion (alike : Alike count s s') : Alike count s.countSuggestion s'.countSuggestion :=
  ⟨alike.out,alike.deleting,alike.stack,alike.answers⟩

theorem Alike.countMarkers (alike : Alike count s s') (markers : List Marker) :
    Alike count (markers.foldl countMarker s) (markers.foldl countMarker s') := by
  refine ⟨?_,?_,?_,?_⟩
  · simpa using alike.out
  · simpa using alike.deleting
  · simpa using alike.stack
  · simpa using alike.answers

-- Each start that is met uses up one answer.
theorem Alike.openDeletion (alike : Alike (count + 1) s s') (name : List Char) :
    Alike count (s.openDeletion name) (s'.openDeletion name) := by
  refine ⟨?_,?_,?_,?_⟩
  · simpa using alike.out
  · have answer : s'.closable.getD s'.nextStart false = s.closable.getD s.nextStart false :=
      alike.answers 0 (Nat.succ_pos count)
    unfold Stripper.openDeletion
    dsimp only
    rw [answer,alike.deleting]
    split <;> rfl
  · simpa using alike.stack
  · intro i within
    have answer := alike.answers (i + 1) (Nat.succ_lt_succ within)
    rw [openDeletion_closable,openDeletion_closable,openDeletion_nextStart,openDeletion_nextStart,
      Nat.add_assoc,Nat.add_comm 1,Nat.add_assoc,Nat.add_comm 1]
    exact answer

theorem Alike.openDeletions {names : List (List Char)} (alike : Alike (names.length + count) s s') :
    Alike count (s.openDeletions names) (s'.openDeletions names) := by
  induction names generalizing s s' with
  | nil =>
      rw [List.length_nil,Nat.zero_add] at alike
      exact alike
  | cons name rest ih =>
      refine ih (Alike.openDeletion ?_ name)
      rw [List.length_cons,Nat.add_right_comm] at alike
      exact alike

theorem Alike.reviveSuppressed (alike : Alike count s s') : Alike count s.reviveSuppressed s'.reviveSuppressed :=
  ⟨by simp only [Stripper.reviveSuppressed,alike.stack,alike.out],alike.deleting,
    by simp only [Stripper.reviveSuppressed,alike.stack],alike.answers⟩

theorem Alike.closeDeletion (alike : Alike count s s') (name : List Char) :
    Alike count (s.closeDeletion name) (s'.closeDeletion name) := by
  have live : s'.deleting.contains name = s.deleting.contains name := by rw [alike.deleting]
  have fewer : Alike count {s with deleting := s.deleting.filter (· ≠ name)}
      {s' with deleting := s'.deleting.filter (· ≠ name)} :=
    ⟨alike.out,by rw [alike.deleting],alike.stack,alike.answers⟩
  unfold Stripper.closeDeletion
  dsimp only
  rw [live,fewer.isDeleting]
  split
  · split
    · exact fewer
    · exact fewer.reviveSuppressed
  · exact alike

theorem Alike.closeDeletions (alike : Alike count s s') (names : List (List Char)) :
    Alike count (s.closeDeletions names) (s'.closeDeletions names) := by
  induction names generalizing s s' with
  | nil => exact alike
  | cons name rest ih => exact ih (alike.closeDeletion name)

theorem Alike.element {tag : StartTag} (ordinary : tag.markerElement? = none)
    (alike : Alike (tag.boundaries.starts.length + count) s s') : Alike count (s.element tag) (s'.element tag) := by
  rw [(element_boundaries ordinary).1,List.length_append,Nat.add_assoc] at alike
  have before := (alike.countMarkers tag.markers).openDeletions
  have opened : Alike count (s.opened tag) (s'.opened tag) := (before.emitIfKept _).openDeletions
  have entered : s'.entered tag = s.entered tag := by
    rw [Stripper.entered,Stripper.entered,Stripper.writes,Stripper.writes,before.isDeleting]
  cases void : tag.isVoid with
  | true =>
      rw [element_void s tag void,element_void s' tag void]
      exact opened.closeDeletions _
  | false =>
      rw [element_open s tag void,element_open s' tag void,entered,opened.stack]
      exact opened.with_stack _

theorem Alike.markerElement {tag : StartTag} {marker : MarkerElement} (here : tag.markerElement? = some marker)
    (alike : Alike (tag.boundaries.starts.length + count) s s') :
    Alike count (s.markerElement tag marker) (s'.markerElement tag marker) := by
  have fewer : Alike count s s' :=
    ⟨alike.out,alike.deleting,alike.stack,fun i within => alike.answers i (Nat.lt_add_left _ within)⟩
  cases marker with
  | commentStart => exact fewer.countComment
  | commentEnd => exact fewer.countComment
  | suggestionStart =>
      unfold Stripper.markerElement
      dsimp only
      split
      · rename_i deletion
        have one : tag.boundaries.starts.length = 1 := by
          simp [StartTag.boundaries,here,deletion]
        rw [one,Nat.add_comm] at alike
        exact alike.countSuggestion.openDeletion _
      · exact fewer.countSuggestion
  | suggestionEnd =>
      unfold Stripper.markerElement
      dsimp only
      split
      · exact fewer.countSuggestion.closeDeletion _
      · exact fewer.countSuggestion

theorem Alike.leave (alike : Alike count s s') (raw : Option (List Char)) (top : OpenElement) (rest : List OpenElement) :
    Alike count (s.leave raw top rest) (s'.leave raw top rest) := by
  have shorter := alike.with_stack rest
  unfold Stripper.leave
  split
  · split
    · exact shorter.emit _
    · exact shorter
  · exact shorter

theorem Alike.closeTop (alike : Alike count s s') (raw : Option (List Char)) :
    Alike count (s.closeTop raw) (s'.closeTop raw) := by
  cases here : s.stack with
  | nil =>
      have empty : s'.stack = [] := by rw [alike.stack,here]
      rw [closeTop_nil s raw here,closeTop_nil s' raw empty]
      exact alike
  | cons top rest =>
      have there : s'.stack = top :: rest := by rw [alike.stack,here]
      have before := alike.closeDeletions top.closeBefore
      obtain ⟨inner,outer,stack,_,_,eq⟩ := closeTop_parts raw here
      obtain ⟨inner',outer',stack',_,_,eq'⟩ := closeTop_parts raw there
      rw [before.stack,stack,List.cons.injEq] at stack'
      obtain ⟨rfl,rfl⟩ := stack'
      rw [eq,eq']
      exact (before.leave raw inner outer).closeDeletions _

theorem Alike.closeImplied (alike : Alike count s s') (depth : Nat) :
    Alike count (s.closeImplied depth) (s'.closeImplied depth) := by
  induction depth generalizing s s' with
  | zero => exact alike
  | succ depth ih => exact ih (alike.closeTop none)

theorem Alike.endTag (alike : Alike count s s') (name raw : List Char) :
    Alike count (s.endTag name raw) (s'.endTag name raw) := by
  unfold Stripper.endTag
  rw [alike.stack]
  split
  · exact alike
  · split
    · exact alike.emitIfKept _
    · exact (alike.closeImplied _).closeTop _

theorem Alike.step {t : Token} (alike : Alike (t.boundaries.starts.length + count) s s') :
    Alike count (s.step t) (s'.step t) := by
  have plain : t.boundaries.starts = [] → Alike count s s' := by
    intro none_
    rw [none_,List.length_nil,Nat.zero_add] at alike
    exact alike
  cases t with
  | text content => exact (plain rfl).emitIfKept _
  | other content => exact (plain rfl).emitIfKept _
  | closing written tail => exact (plain rfl).endTag _ _
  | opening tag =>
      unfold Stripper.step Stripper.startTag
      dsimp only
      split
      · rename_i marker here
        exact alike.markerElement here
      · rename_i ordinary
        exact alike.element ordinary

theorem Alike.run {tokens : List Token} (alike : Alike ((deletionStarts tokens).length + count) s s') :
    Alike count (tokens.foldl Stripper.step s) (tokens.foldl Stripper.step s') := by
  induction tokens generalizing s s' with
  | nil =>
      have none_ : (deletionStarts []).length = 0 := rfl
      rw [none_,Nat.zero_add] at alike
      exact alike
  | cons t rest ih =>
      have split : (deletionStarts (t :: rest)).length = t.boundaries.starts.length + (deletionStarts rest).length := by
        rw [deletionStarts,← List.singleton_append,placed_behind,List.length_append,List.length_map,deletionStarts]
        simp [placed]
      rw [split,Nat.add_assoc] at alike
      exact ih alike.step

end Operations

section Inside
variable {count : Nat} {s : Stripper} {t : Token}

theorem Alike.refl (s : Stripper) : Alike count s s := ⟨rfl,rfl,rfl,fun _ _ => rfl⟩

theorem unbounded_element {tag : StartTag} (ordinary : tag.markerElement? = none) (free : tag.boundaries = ⟨[],[]⟩) :
    ∀ anchor, tag.deletionsAt anchor = [] := by
  obtain ⟨starts,ends⟩ := element_boundaries ordinary
  rw [free] at starts ends
  obtain ⟨startBefore,startAfter⟩ := List.append_eq_nil_iff.mp starts.symm
  have none_ : tag.deletionsAt .endBefore ++ tag.deletionsAt .endAfter = [] :=
    List.eq_nil_iff_forall_not_mem.mpr fun n member => List.not_mem_nil ((ends n).mpr member)
  obtain ⟨endBefore,endAfter⟩ := List.append_eq_nil_iff.mp none_
  intro anchor
  cases anchor with
  | startBefore => exact startBefore
  | startAfter => exact startAfter
  | endBefore => exact endBefore
  | endAfter => exact endAfter

theorem markerElement_unbounded {tag : StartTag} {marker : MarkerElement} (here : tag.markerElement? = some marker)
    (free : tag.boundaries = ⟨[],[]⟩) : Alike count s (s.markerElement tag marker) := by
  have other : marker = .suggestionStart ∨ marker = .suggestionEnd → isDeletion tag.suggestionName = false := by
    rintro (rfl | rfl) <;> simpa [StartTag.boundaries,here,List.filter_eq_nil_iff] using free
  cases marker with
  | commentStart => exact ⟨rfl,rfl,rfl,fun _ _ => rfl⟩
  | commentEnd => exact ⟨rfl,rfl,rfl,fun _ _ => rfl⟩
  | suggestionStart =>
      simp only [Stripper.markerElement,other (.inl rfl)]
      exact ⟨rfl,rfl,rfl,fun _ _ => rfl⟩
  | suggestionEnd =>
      simp only [Stripper.markerElement,other (.inr rfl)]
      exact ⟨rfl,rfl,rfl,fun _ _ => rfl⟩

section Live
variable (live : s.isDeleting = true)

include live

theorem emitIfKept_inside (piece : Piece) : s.emitIfKept piece = s := by
  rw [Stripper.emitIfKept,live,if_pos rfl]

theorem opened_inside {tag : StartTag} (nowhere : ∀ anchor, tag.deletionsAt anchor = []) :
    Alike count s (s.opened tag) ∧ s.writes tag = false := by
  have counted : Alike count s (tag.markers.foldl countMarker s) := ⟨by simp,by simp,by simp,by simp⟩
  have still : (tag.markers.foldl countMarker s).isDeleting = true := counted.isDeleting.trans live
  simp only [Stripper.opened,Stripper.writes,nowhere,Stripper.openDeletions,List.foldl_nil,emitIfKept_inside still,still]
  exact ⟨counted,rfl⟩

variable (free : t.boundaries = ⟨[],[]⟩)

include free

theorem step_inside_plain (upright : s.Upright) (plain : t.elementTag? = none) : Alike count s (s.step t) := by
  cases t with
  | text content => rw [Stripper.step,emitIfKept_inside live]; exact .refl s
  | other content => rw [Stripper.step,emitIfKept_inside live]; exact .refl s
  | closing name tail =>
      unfold Stripper.step Stripper.endTag
      dsimp only
      split
      · exact .refl s
      · rename_i ordinary
        have void : voidElements.contains (Text.lower name) = true := by
          simpa [Token.elementTag?,ordinary] using plain
        rw [upright.void_absent void]
        dsimp only
        rw [emitIfKept_inside live]
        exact .refl s
  | opening tag =>
      unfold Stripper.step Stripper.startTag
      dsimp only
      split
      · rename_i marker here
        exact markerElement_unbounded here free
      · rename_i ordinary
        have void : tag.isVoid = true := by simpa [Token.elementTag?,ordinary] using plain
        have nowhere := unbounded_element ordinary free
        rw [element_void s tag void,nowhere,nowhere]
        exact (opened_inside live nowhere).1

theorem step_inside_opening {name start : List Char} (here : t.elementTag? = some (.opening name start)) :
    Alike count {s with stack := ⟨name,start,false,[],[]⟩ :: s.stack} (s.step t) := by
  obtain ⟨tag,rfl,ordinary,open_,rfl,rfl⟩ := elementTag?_opening here
  have nowhere := unbounded_element ordinary free
  have ⟨opened,held⟩ : Alike count s (s.opened tag) ∧ s.writes tag = false := opened_inside live nowhere
  unfold Stripper.step Stripper.startTag
  simp only [ordinary]
  rw [element_open s tag open_,Stripper.entered,held,nowhere,nowhere,opened.stack]
  exact opened.with_stack _

end Live

theorem step_inside_closing {name start final : List Char} {rest : List OpenElement}
    (here : t.elementTag? = some (.closing name final)) (open_ : s.stack = ⟨name,start,false,[],[]⟩ :: rest) :
    s.step t = {s with stack := rest} := by
  obtain ⟨written,tail,rfl,rfl,ordinary,rfl⟩ := elementTag?_closing here
  refine (endTag_top _ open_ ordinary).trans ?_
  unfold Stripper.closeTop
  simp only [open_,Stripper.closeDeletions,List.foldl_nil]
  rfl

theorem run_inside_plain (upright : s.Upright) (live : s.isDeleting = true) {tokens : List Token}
    (free : ∀ t ∈ tokens, t.boundaries = ⟨[],[]⟩) (plain : ∀ t ∈ tokens, t.elementTag? = none) :
    Alike count s (tokens.foldl Stripper.step s) := by
  induction tokens generalizing s with
  | nil => exact .refl s
  | cons t rest ih =>
      have step : Alike count s (s.step t) :=
        step_inside_plain live (free t List.mem_cons_self) upright (plain t List.mem_cons_self)
      exact step.trans (ih (step_grows upright t).1 (step.isDeleting.trans live)
        (fun u member => free u (List.mem_cons_of_mem _ member)) fun u member => plain u (List.mem_cons_of_mem _ member))

theorem run_inside {tags : List ElementTag} (nested : Nested tags) {tokens : List Token} (upright : s.Upright)
    (live : s.isDeleting = true) (free : ∀ t ∈ tokens, t.boundaries = ⟨[],[]⟩)
    (read : tokens.filterMap Token.elementTag? = tags) : Alike count s (tokens.foldl Stripper.step s) := by
  induction nested generalizing s tokens with
  | nil => exact run_inside_plain upright live free (List.filterMap_eq_nil_iff.mp read)
  | @element inner rest name start final _ _ innerRun restRun =>
      obtain ⟨lead,t,after,rfl,leadPlain,opens,read⟩ := List.filterMap_eq_cons_iff.mp read
      obtain ⟨mid,after,rfl,midRead,read⟩ := List.filterMap_eq_append_iff.mp read
      obtain ⟨gap,u,last,rfl,gapPlain,closes,lastRead⟩ := List.filterMap_eq_cons_iff.mp read
      simp only [List.mem_append,List.mem_cons] at free
      simp only [List.foldl_append,List.foldl_cons]
      have up₁ := (run_pieces upright lead).1
      have alike₁ : Alike count s (lead.foldl Stripper.step s) :=
        run_inside_plain upright live (fun v member => free v (.inl member)) leadPlain
      generalize lead.foldl Stripper.step s = s₁ at up₁ alike₁ ⊢
      have live₁ := alike₁.isDeleting.trans live
      have up₂ := (step_grows up₁ t).1
      have alike₂ : Alike count {s₁ with stack := ⟨name,start,false,[],[]⟩ :: s₁.stack} (s₁.step t) :=
        step_inside_opening live₁ (free t (.inr (.inl rfl))) opens
      generalize s₁.step t = s₂ at up₂ alike₂ ⊢
      have live₂ : s₂.isDeleting = true := alike₂.isDeleting.trans live₁
      have up₃ := (run_pieces up₂ mid).1
      have alike₃ : Alike count s₂ (mid.foldl Stripper.step s₂) :=
        innerRun up₂ live₂ (fun v member => free v (.inr (.inr (.inl member)))) midRead
      generalize mid.foldl Stripper.step s₂ = s₃ at up₃ alike₃ ⊢
      have live₃ := alike₃.isDeleting.trans live₂
      have up₄ := (run_pieces up₃ gap).1
      have alike₄ : Alike count s₃ (gap.foldl Stripper.step s₃) :=
        run_inside_plain up₃ live₃ (fun v member => free v (.inr (.inr (.inr (.inl member))))) gapPlain
      generalize gap.foldl Stripper.step s₃ = s₄ at up₄ alike₄ ⊢
      have within := alike₂.trans (alike₃.trans alike₄)
      have alike₅ : Alike count s₁ (s₄.step u) := by
        rw [step_inside_closing closes within.stack]
        exact within.with_stack s₁.stack
      have live₅ := alike₅.isDeleting.trans live₁
      exact alike₁.trans (alike₅.trans (restRun (step_grows up₄ u).1 live₅
        (fun v member => free v (.inr (.inr (.inr (.inr (.inr member)))))) lastRead))

end Inside

section Bounds
variable {s : Stripper} {name : List Char}

theorem reviveSuppressed_whole (whole : ∀ e ∈ s.stack, e.emitted = true) : s.reviveSuppressed = s := by
  have none_ : s.stack.reverse.filter (!·.emitted) = [] := by
    rw [List.filter_eq_nil_iff]
    intro e member
    simp [whole e (List.mem_reverse.mp member)]
  have same : s.stack.map ({· with emitted := true}) = s.stack := by
    refine (List.map_congr_left ?_).trans (List.map_id _)
    intro e member
    rw [← whole e member]
    rfl
  unfold Stripper.reviveSuppressed
  rw [none_,same]
  rfl

theorem openDeletion_opens (closable : s.closable.getD s.nextStart false = true) (absent : name ∉ s.deleting) :
    (s.openDeletion name).deleting = s.deleting ++ [name] := by
  have free : s.deleting.contains name = false := by simpa using absent
  unfold Stripper.openDeletion
  simp only [closable,free]
  rfl

-- The range that was opened last is closed: the ranges opened before it are left, or nothing is held back.
theorem closeDeletion_last {others : List (List Char)} (deleting : s.deleting = others ++ [name])
    (absent : name ∉ others) (whole : others = [] → ∀ e ∈ s.stack, e.emitted = true) :
    s.closeDeletion name = {s with deleting := others} := by
  have left : s.deleting.filter (· ≠ name) = others := by
    rw [deleting,List.filter_append,List.filter_eq_self.mpr]
    · simp
    · intro n member
      rw [decide_eq_true_eq]
      rintro rfl
      exact absent member
  rcases closeDeletion_cases s name with same | ⟨_,eq⟩ | ⟨none_,eq⟩
  · have spent := closeDeletion_deleting s name
    rw [same,left] at spent
    rw [same,← spent]
  · rw [eq,left]
  · rw [left] at none_
    rw [eq,none_]
    exact reviveSuppressed_whole (whole none_)

theorem run_range {count : Nat} {first last : StartTag} {mid : List Token} (upright : s.Upright)
    (range : DeletionRange name first mid last) (closable : s.closable.getD s.nextStart false = true)
    (absent : name ∉ s.deleting) : Alike count {s with nextStart := s.nextStart + 1}
      ((.opening first :: (mid ++ [.opening last])).foldl Stripper.step s) := by
  have start : s.step (.opening first) = s.countSuggestion.openDeletion name := by
    simp only [Stripper.step,Stripper.startTag,range.opens,Stripper.markerElement,range.begun,range.deletion,if_true]
  have final : ∀ s' : Stripper, s'.step (.opening last) = s'.countSuggestion.closeDeletion name := by
    intro s'
    simp only [Stripper.step,Stripper.startTag,range.closes,Stripper.markerElement,range.ended,range.deletion,if_true]
  rw [List.foldl_cons,List.foldl_append,List.foldl_cons,List.foldl_nil,final]
  have opened : Alike count {s with nextStart := s.nextStart + 1, deleting := s.deleting ++ [name]}
      (s.step (.opening first)) := by
    rw [start]
    exact ⟨by simp,openDeletion_opens closable absent,by simp,fun i _ => by simp⟩
  have live : (s.step (.opening first)).isDeleting = true := by
    rw [opened.isDeleting]
    simp [Stripper.isDeleting]
  have within : Alike count (s.step (.opening first)) (mid.foldl Stripper.step (s.step (.opening first))) :=
    run_inside range.nested (step_grows upright _).1 live range.free rfl
  have closed := (opened.trans within).countSuggestion.closeDeletion name
  have left : ({s with nextStart := s.nextStart + 1, deleting := s.deleting ++ [name]} : Stripper).countSuggestion.closeDeletion
      name = ({s with nextStart := s.nextStart + 1} : Stripper).countSuggestion :=
    closeDeletion_last rfl absent upright.whole
  rw [left] at closed
  exact ⟨closed.out,closed.deleting,closed.stack,closed.answers⟩

end Bounds

end Stripper

section Documents
variable {pre mid post : List Token} {first last : StartTag} {name : List Char}

theorem DeletionRange.closableStarts_insert (range : DeletionRange name first mid last)
    (fresh : ∀ t ∈ pre ++ post, name ∉ t.boundaries.starts ∧ name ∉ t.boundaries.ends) :
    closableStarts (pre ++ .opening first :: (mid ++ .opening last :: post)) =
      (closableStarts (pre ++ post)).insertIdx (deletionStarts pre).length true := by
  have starts : (Token.opening first).boundaries = ⟨[name],[]⟩ := by
    simp [Token.boundaries,StartTag.boundaries,range.opens,range.begun,range.deletion]
  have ends : (Token.opening last).boundaries = ⟨[],[name]⟩ := by
    simp [Token.boundaries,StartTag.boundaries,range.closes,range.ended,range.deletion]
  exact closableStarts_range starts ends range.free fresh

-- Behind the range the two runs stand alike: they show the same, and the rest of the table is the same.
theorem DeletionRange.alike_behind {count : Nat} (range : DeletionRange name first mid last)
    (fresh : ∀ t ∈ pre ++ post, name ∉ t.boundaries.starts ∧ name ∉ t.boundaries.ends) :
    Stripper.Alike count (midway pre post) ((.opening first :: (mid ++ [.opening last])).foldl Stripper.step
      (midway pre (.opening first :: (mid ++ .opening last :: post)))) := by
  have table := range.closableStarts_insert fresh
  have place : (deletionStarts pre).length ≤ (closableStarts (pre ++ post)).length := by
    rw [closableStarts,closableAmong_length,deletionStarts,deletionStarts,placed_behind,List.length_append]
    exact Nat.le_add_right _ _
  have before : Stripper.Alike 0 (midway pre post) (midway pre (.opening first :: (mid ++ .opening last :: post))) := by
    refine Stripper.Alike.run ⟨rfl,rfl,rfl,?_⟩
    intro i early
    simp only [Stripper.start,table,Nat.zero_add]
    exact table_before early
  have short := midway_tracked pre post
  have long := midway_tracked pre (.opening first :: (mid ++ .opening last :: post))
  have upright : (midway pre (.opening first :: (mid ++ .opening last :: post))).Upright :=
    (Stripper.run_pieces (Stripper.start_upright _) pre).1
  generalize midway pre (.opening first :: (mid ++ .opening last :: post)) = s at before long upright ⊢
  generalize midway pre post = s' at before short ⊢
  have answer : s.closable.getD s.nextStart false = true := by
    rw [long.closable,long.nextStart,table]
    exact table_here place
  have absent : name ∉ s.deleting := by
    intro live
    obtain ⟨past,t,since,rfl,start,_⟩ := long.opened name live
    exact (fresh t (by simp)).1 start
  have moved : Stripper.Alike count s' {s with nextStart := s.nextStart + 1} := by
    refine ⟨before.out,before.deleting,before.stack,?_⟩
    intro i _
    rw [long.closable,long.nextStart,short.closable,short.nextStart,table]
    exact table_behind i
  exact moved.trans (Stripper.run_range upright range answer absent)

-- A deletion may be left out with all that stands in its range, whatever other ranges are open
-- where it stands or end behind it, when no other boundary has its name.
theorem accepted_deletion_vanishes (range : DeletionRange name first mid last)
    (fresh : ∀ t ∈ pre ++ post, name ∉ t.boundaries.starts ∧ name ∉ t.boundaries.ends) :
    (stripTokens (pre ++ .opening first :: (mid ++ .opening last :: post))).html = (stripTokens (pre ++ post)).html := by
  have whole : readThrough (pre ++ .opening first :: (mid ++ .opening last :: post)) =
      post.foldl Stripper.step ((.opening first :: (mid ++ [.opening last])).foldl Stripper.step
        (midway pre (.opening first :: (mid ++ .opening last :: post)))) := by
    simp [readThrough,midway]
  have short : readThrough (pre ++ post) = post.foldl Stripper.step (midway pre post) := by
    simp [readThrough,midway]
  have behind : Stripper.Alike 0 (readThrough (pre ++ post))
      (readThrough (pre ++ .opening first :: (mid ++ .opening last :: post))) := by
    rw [whole,short]
    exact (range.alike_behind fresh).run
  have finished := behind.closeImplied (readThrough (pre ++ post)).stack.length
  have out : (resolve (pre ++ .opening first :: (mid ++ .opening last :: post))).out = (resolve (pre ++ post)).out := by
    refine Eq.trans ?_ finished.out
    rw [← behind.stack]
    rfl
  rw [stripTokens,stripTokens,out]

theorem accepted_deletion_vanishes_within :
    let first : StartTag := ⟨"suggestion-start".toList,readParts " name=deletion:2".toList⟩
    let last : StartTag := ⟨"suggestion-end".toList,readParts " name=deletion:2".toList⟩
    let pre := tokenize "<p>a<suggestion-start name=deletion:1>b</p><p>".toList
    let mid := tokenize "c<i data-comment-end-before=k>d<br></i></br>".toList
    let post := tokenize "e<u data-suggestion-end-after=deletion:1>f</u>g</p>".toList
    DeletionRange "deletion:2".toList first mid last ∧
      (∀ t ∈ pre ++ post, "deletion:2".toList ∉ t.boundaries.starts ∧ "deletion:2".toList ∉ t.boundaries.ends) ∧
      (stripTokens (pre ++ .opening first :: (mid ++ .opening last :: post))).html = (stripTokens (pre ++ post)).html ∧
      (stripTokens (pre ++ post)).html = "<p>a</p><p>g</p>".toList := by
  intro first last pre mid post
  have read : mid.filterMap Token.elementTag? =
      [.opening ['i'] "<i>".toList,.closing ['i'] "</i>".toList] := by
    decide
  have range : DeletionRange "deletion:2".toList first mid last := {
    opens := by decide
    closes := by decide
    begun := by decide +kernel
    ended := by decide
    deletion := by decide
    free := by decide
    nested := by rw [read]; exact .element .nil .nil }
  have fresh : ∀ t ∈ pre ++ post,
      "deletion:2".toList ∉ t.boundaries.starts ∧ "deletion:2".toList ∉ t.boundaries.ends := by
    decide +kernel
  exact ⟨range,fresh,accepted_deletion_vanishes range fresh,by decide +kernel⟩

end Documents

end Redline.Markup
