import Redline.Proofs.StripSteps

namespace Redline.Markup

-- Some token carries an end of that name.
def Ends (tokens : List Token) (name : List Char) : Prop := ∃ t ∈ tokens, name ∈ t.boundaries.ends

-- An end of that name is still to count: on a token not yet read, or held by an open element.
def EndToCome (s : Stripper) (later : List Token) (name : List Char) : Prop :=
  Ends later name ∨ name ∈ s.heldEnds

-- The state after the tokens `before`, when `later` is still to be read.
def midway (before later : List Token) : Stripper :=
  before.foldl Stripper.step (Stripper.start (closableStarts (before ++ later)))

theorem ends_cons {t : Token} {later : List Token} {n : List Char} :
    Ends (t :: later) n ↔ n ∈ t.boundaries.ends ∨ Ends later n := by
  simp [Ends]

section Table

theorem takeEnd_some {start : Placed} {ends left : List Placed} (taken : takeEnd start ends = some left) :
    (∃ final ∈ ends, final.2 = start.2 ∧ start.1 ≤ final.1) ∧ ∀ final ∈ left, final ∈ ends := by
  induction ends generalizing left with
  | nil => cases taken
  | cons final rest ih =>
      unfold takeEnd at taken
      split at taken
      · rename_i fits
        cases taken
        exact ⟨⟨final,List.mem_cons_self,fits⟩,fun _ => List.mem_cons_of_mem _⟩
      · obtain ⟨shorter,further,rfl⟩ := Option.map_eq_some_iff.mp taken
        obtain ⟨⟨found,member,fits⟩,kept⟩ := ih further
        refine ⟨⟨found,List.mem_cons_of_mem _ member,fits⟩,?_⟩
        intro other present
        rcases List.mem_cons.mp present with rfl | present
        · exact List.mem_cons_self
        · exact List.mem_cons_of_mem _ (kept other present)

theorem closableAmong_end {starts ends : List Placed} {i : Nat} {start : Placed}
    (closable : (closableAmong starts ends)[i]? = some true) (here : starts[i]? = some start) :
    ∃ final ∈ ends, final.2 = start.2 ∧ start.1 ≤ final.1 := by
  induction starts generalizing ends i with
  | nil => cases here
  | cons first rest ih =>
      unfold closableAmong at closable
      cases taken : takeEnd first ends with
      | none =>
          rw [taken] at closable
          cases i with
          | zero => cases closable
          | succ i => exact ih closable here
      | some left =>
          rw [taken] at closable
          obtain ⟨found,kept⟩ := takeEnd_some taken
          cases i with
          | zero => cases here; exact found
          | succ i =>
              obtain ⟨final,member,fits⟩ := ih closable here
              exact ⟨final,kept final member,fits⟩

theorem placed_append (pick : Boundaries → List (List Char)) (before later : List Token) :
    placed pick (before ++ later) = placed pick before ++
      (later.zipIdx before.length).flatMap fun (token,index) => (pick token.boundaries).map (index,·) := by
  simp [placed,List.zipIdx_append]

theorem mem_placed {pick : Boundaries → List (List Char)} {tokens : List Token} {i : Nat} {n : List Char} :
    (i,n) ∈ placed pick tokens ↔ ∃ t, tokens[i]? = some t ∧ n ∈ pick t.boundaries := by
  simp only [placed,List.mem_flatMap,List.mem_map,Prod.exists,Prod.mk.injEq]
  constructor
  · rintro ⟨t,j,there,_,member,rfl,rfl⟩
    exact ⟨t,List.mk_mem_zipIdx_iff_getElem?.mp there,member⟩
  · rintro ⟨t,there,member⟩
    exact ⟨t,i,List.mk_mem_zipIdx_iff_getElem?.mpr there,n,member,rfl,rfl⟩

theorem placed_length_snoc (pick : Boundaries → List (List Char)) (before : List Token) (t : Token) :
    (placed pick (before ++ [t])).length = (placed pick before).length + (pick t.boundaries).length := by
  simp [placed_append]

theorem placed_at {pick : Boundaries → List (List Char)} {t : Token} {i : Nat} {n : List Char}
    (before later : List Token) (here : (pick t.boundaries)[i]? = some n) :
    (placed pick (before ++ t :: later))[(placed pick before).length + i]? = some (before.length,n) := by
  have bound := (List.getElem?_eq_some_iff.mp here).1
  rw [placed_append,List.getElem?_append_right (Nat.le_add_right _ _),Nat.add_sub_cancel_left,
    List.zipIdx_cons,List.flatMap_cons,List.getElem?_append_left (by simpa using bound),List.getElem?_map,here]
  rfl

theorem closable_entry {table : List Bool} {i : Nat} (closable : table.getD i false = true) : table[i]? = some true := by
  rw [List.getD_eq_getElem?_getD] at closable
  cases found : table[i]? with
  | none => rw [found] at closable; cases closable
  | some value => rw [found] at closable; exact congrArg some closable

theorem closable_ends {before later : List Token} {t : Token} {i : Nat} {n : List Char}
    (here : t.boundaries.starts[i]? = some n)
    (closable : (closableStarts (before ++ t :: later)).getD ((deletionStarts before).length + i) false = true) :
    Ends (t :: later) n := by
  obtain ⟨⟨j,m⟩,member,same,order⟩ := closableAmong_end (closable_entry closable) (placed_at before later here)
  obtain ⟨t',there,final⟩ := mem_placed.mp member
  cases same
  rw [List.getElem?_append_right order] at there
  exact ⟨t',List.mem_of_getElem? there,final⟩

end Table

section Boundaries

theorem element_boundaries {tag : StartTag} (ordinary : tag.markerElement? = none) :
    tag.boundaries.starts = tag.deletionsAt .startBefore ++ tag.deletionsAt .startAfter ∧
      ∀ n, n ∈ tag.boundaries.ends ↔ n ∈ tag.deletionsAt .endBefore ++ tag.deletionsAt .endAfter := by
  unfold StartTag.boundaries
  rw [ordinary]
  refine ⟨rfl,?_⟩
  intro n
  simp only [StartTag.deletionsAt,List.mem_append,List.mem_map,List.mem_filter,decide_eq_true_eq,Prod.exists]
  constructor
  · rintro ⟨anchor,m,⟨member,rfl | rfl⟩,rfl⟩
    · exact .inl ⟨_,_,⟨member,rfl⟩,rfl⟩
    · exact .inr ⟨_,_,⟨member,rfl⟩,rfl⟩
  · rintro (⟨anchor,m,⟨member,rfl⟩,rfl⟩ | ⟨anchor,m,⟨member,rfl⟩,rfl⟩)
    · exact ⟨_,_,⟨member,.inl rfl⟩,rfl⟩
    · exact ⟨_,_,⟨member,.inr rfl⟩,rfl⟩

end Boundaries

section Steps

-- What closing elements does: it opens no range, and the ranges it leaves open keep their ends.
structure Settles (s s' : Stripper) : Prop where
  closable : s'.closable = s.closable
  nextStart : s'.nextStart = s.nextStart
  fewer : ∀ n ∈ s'.deleting, n ∈ s.deleting
  kept : ∀ n ∈ s'.deleting, n ∈ s.heldEnds → n ∈ s'.heldEnds
  held : ∀ n ∈ s'.heldEnds, n ∈ s.heldEnds

-- What reading one token does. Its starts take the next entries of the table; a range that is open
-- afterwards was open before or belongs to a start with a closable entry; and an end that the
-- token carries or an element holds is either spent on its range or still held.
structure Advances (s : Stripper) (t : Token) (s' : Stripper) : Prop where
  closable : s'.closable = s.closable
  nextStart : s'.nextStart = s.nextStart + t.boundaries.starts.length
  opened : ∀ n ∈ s'.deleting, n ∈ s.deleting ∨
    ∃ i, t.boundaries.starts[i]? = some n ∧ s.closable.getD (s.nextStart + i) false = true
  kept : ∀ n ∈ s'.deleting, n ∈ s.heldEnds ∨ n ∈ t.boundaries.ends → n ∈ s'.heldEnds
  held : ∀ n ∈ s'.heldEnds, n ∈ s.heldEnds ∨ n ∈ t.boundaries.ends

theorem Settles.refl (s : Stripper) : Settles s s :=
  ⟨rfl,rfl,fun _ h => h,fun _ _ h => h,fun _ h => h⟩

theorem Settles.trans {a b c : Stripper} (ab : Settles a b) (bc : Settles b c) : Settles a c :=
  ⟨bc.closable.trans ab.closable,bc.nextStart.trans ab.nextStart,
    fun n live => ab.fewer n (bc.fewer n live),
    fun n live held => bc.kept n live (ab.kept n (bc.fewer n live) held),
    fun n held => ab.held n (bc.held n held)⟩

theorem Settles.advances {s s' : Stripper} {t : Token} (settles : Settles s s')
    (starts : t.boundaries.starts = []) (ends : t.boundaries.ends = []) : Advances s t s' := by
  refine ⟨settles.closable,?_,fun n live => .inl (settles.fewer n live),?_,fun n held => .inl (settles.held n held)⟩
  · rw [settles.nextStart,starts]; rfl
  · intro n live due
    rcases due with held | own
    · exact settles.kept n live held
    · rw [ends] at own; cases own

theorem closeTop_settles (s : Stripper) (raw : Option (List Char)) : Settles s (s.closeTop raw) := by
  cases here : s.stack with
  | nil => rw [Stripper.closeTop_nil s raw here]; exact .refl s
  | cons top rest =>
      have before : s.heldEnds = top.closeBefore ++ top.closeAfter ++ ({s with stack := rest} : Stripper).heldEnds := by
        simp [Stripper.heldEnds,here]
      have after : (s.closeTop raw).heldEnds = ({s with stack := rest} : Stripper).heldEnds := by
        rw [heldEnds_frames,Stripper.closeTop_frames,heldEnds_frames]
        simp [Stripper.frames,here]
      refine ⟨(Stripper.closeTop_steady s raw).closable,(Stripper.closeTop_steady s raw).nextStart,?_,?_,?_⟩
      · intro n live
        exact ((Stripper.mem_closeTop raw here).mp live).1
      · intro n live held
        rw [before] at held
        rw [after]
        rcases List.mem_append.mp held with own | below
        · exact absurd own ((Stripper.mem_closeTop raw here).mp live).2
        · exact below
      · intro n held
        rw [after] at held
        rw [before]
        exact List.mem_append_right _ held

theorem closeImplied_settles (s : Stripper) (count : Nat) : Settles s (s.closeImplied count) := by
  induction count generalizing s with
  | zero => exact .refl s
  | succ count ih => exact (closeTop_settles s none).trans (ih (s.closeTop none))

theorem emitIfKept_settles (s : Stripper) (piece : Piece) : Settles s (s.emitIfKept piece) := by
  refine ⟨by simp,by simp,?_,?_,?_⟩
  · intro n live; simpa using live
  · intro n _ held; simpa using held
  · intro n held; simpa using held

theorem endTag_settles (s : Stripper) (name raw : List Char) : Settles s (s.endTag name raw) := by
  unfold Stripper.endTag
  split
  · exact .refl s
  · split
    · exact emitIfKept_settles s _
    · exact (closeImplied_settles s _).trans (closeTop_settles _ _)

theorem openDeletion_advances {t : Token} {name : List Char} (s : Stripper)
    (boundaries : t.boundaries = ⟨[name],[]⟩) : Advances s t (s.countSuggestion.openDeletion name) := by
  refine ⟨by simp,by simp [boundaries],?_,?_,?_⟩
  · intro n live
    rcases Stripper.mem_openDeletion live with earlier | ⟨rfl,closable⟩
    · exact .inl earlier
    · exact .inr ⟨0,by simp [boundaries],closable⟩
  · intro n _ due
    simpa [boundaries,Stripper.heldEnds] using due
  · intro n held
    exact .inl (by simpa [Stripper.heldEnds] using held)

theorem closeDeletion_advances {t : Token} {name : List Char} (s : Stripper)
    (boundaries : t.boundaries = ⟨[],[name]⟩) : Advances s t (s.countSuggestion.closeDeletion name) := by
  change Advances s t (s.countSuggestion.closeDeletions [name])
  refine ⟨by simp,by simp [boundaries],?_,?_,?_⟩
  · intro n live
    exact .inl ((Stripper.mem_closeDeletions _ _).mp live).1
  · intro n live due
    have spent := ((Stripper.mem_closeDeletions _ _).mp live).2
    rw [boundaries] at due
    rcases due with held | own
    · rwa [Stripper.closeDeletions_heldEnds]
    · exact absurd own spent
  · intro n held
    rw [Stripper.closeDeletions_heldEnds] at held
    exact .inl held

theorem markerElement_advances {s : Stripper} {tag : StartTag} {marker : MarkerElement}
    (here : tag.markerElement? = some marker) : Advances s (.opening tag) (s.markerElement tag marker) := by
  have comment : Settles s s.countComment := ⟨rfl,rfl,fun _ h => h,fun _ _ h => h,fun _ h => h⟩
  have other : Settles s s.countSuggestion := ⟨rfl,rfl,fun _ h => h,fun _ _ h => h,fun _ h => h⟩
  cases marker with
  | commentStart =>
      have boundaries : (Token.opening tag).boundaries = ⟨[],[]⟩ := by
        simp [Token.boundaries,StartTag.boundaries,here]
      exact comment.advances (by rw [boundaries]) (by rw [boundaries])
  | commentEnd =>
      have boundaries : (Token.opening tag).boundaries = ⟨[],[]⟩ := by
        simp [Token.boundaries,StartTag.boundaries,here]
      exact comment.advances (by rw [boundaries]) (by rw [boundaries])
  | suggestionStart =>
      have boundaries : (Token.opening tag).boundaries = ⟨[tag.suggestionName].filter isDeletion,[]⟩ := by
        simp only [Token.boundaries,StartTag.boundaries,here]
      by_cases deletion : isDeletion tag.suggestionName = true
      · simpa [Stripper.markerElement,deletion] using
          openDeletion_advances s (by simpa [deletion] using boundaries)
      · simpa [Stripper.markerElement,deletion] using
          other.advances (by simp [boundaries,deletion]) (by simp [boundaries])
  | suggestionEnd =>
      have boundaries : (Token.opening tag).boundaries = ⟨[],[tag.suggestionName].filter isDeletion⟩ := by
        simp only [Token.boundaries,StartTag.boundaries,here]
      by_cases deletion : isDeletion tag.suggestionName = true
      · simpa [Stripper.markerElement,deletion] using
          closeDeletion_advances s (by simpa [deletion] using boundaries)
      · simpa [Stripper.markerElement,deletion] using
          other.advances (by simp [boundaries]) (by simp [boundaries,deletion])

theorem element_advances {s : Stripper} {tag : StartTag} (ordinary : tag.markerElement? = none) :
    Advances s (.opening tag) (s.element tag) := by
  obtain ⟨starts,ends⟩ := element_boundaries ordinary
  have opened : ∀ n ∈ (s.opened tag).deleting, n ∈ s.deleting ∨
      ∃ i, tag.boundaries.starts[i]? = some n ∧ s.closable.getD (s.nextStart + i) false = true := by
    intro n live
    rw [starts]
    exact Stripper.mem_opened live
  have counted : (s.opened tag).nextStart = s.nextStart + tag.boundaries.starts.length := by
    rw [Stripper.opened_nextStart,starts]
  cases void : tag.isVoid with
  | true =>
      rw [Stripper.element_void s tag void]
      refine ⟨by simp,(Stripper.closeDeletions_nextStart _ _).trans counted,?_,?_,?_⟩
      · intro n live
        exact opened n ((Stripper.mem_closeDeletions _ _).mp live).1
      · intro n live due
        have spent := ((Stripper.mem_closeDeletions _ _).mp live).2
        rcases due with held | own
        · simpa using held
        · exact absurd ((ends n).mp own) spent
      · intro n held
        exact .inl (by simpa using held)
  | false =>
      have held : ∀ n, n ∈ (s.element tag).heldEnds ↔ n ∈ tag.boundaries.ends ∨ n ∈ s.heldEnds := by
        intro n
        have stacked : (s.element tag).heldEnds =
            (tag.deletionsAt .endBefore ++ tag.deletionsAt .endAfter) ++ s.heldEnds := by
          rw [Stripper.element_open s tag void]
          simp [Stripper.heldEnds,Stripper.entered]
        rw [ends n,stacked,List.mem_append]
      refine ⟨?_,?_,?_,?_,?_⟩
      · rw [Stripper.element_open s tag void]; simp
      · rw [Stripper.element_open s tag void]; exact counted
      · rw [Stripper.element_open s tag void]; exact opened
      · intro n _ due
        exact (held n).mpr due.symm
      · intro n kept
        exact ((held n).mp kept).symm

theorem step_advances (s : Stripper) (t : Token) : Advances s t (s.step t) := by
  cases t with
  | text content => exact (emitIfKept_settles s _).advances rfl rfl
  | other content => exact (emitIfKept_settles s _).advances rfl rfl
  | closing written tail => exact (endTag_settles s _ _).advances rfl rfl
  | opening tag =>
      unfold Stripper.step Stripper.startTag
      dsimp only
      split
      · rename_i marker here
        exact markerElement_advances here
      · rename_i ordinary
        exact element_advances ordinary

end Steps

section Runs
variable {done later : List Token} {s : Stripper}

-- The invariant of a run: the counter stands at the entry of the next start, every open range has
-- an end to come, and it was opened by a start that an end of its name follows.
structure Tracked (done later : List Token) (s : Stripper) : Prop where
  closable : s.closable = closableStarts (done ++ later)
  nextStart : s.nextStart = (deletionStarts done).length
  ahead : ∀ n ∈ s.deleting, EndToCome s later n
  opened : ∀ n ∈ s.deleting, ∃ before t after, done = before ++ t :: after ∧
    n ∈ t.boundaries.starts ∧ Ends (t :: after ++ later) n

theorem start_tracked (later : List Token) :
    Tracked [] later (Stripper.start (closableStarts later)) :=
  ⟨rfl,rfl,fun _ live => (List.not_mem_nil live).elim,fun _ live => (List.not_mem_nil live).elim⟩

theorem step_tracked {t : Token} (valid : Tracked done (t :: later) s) :
    Tracked (done ++ [t]) later (s.step t) := by
  have step := step_advances s t
  have promised : ∀ n i, t.boundaries.starts[i]? = some n →
      s.closable.getD (s.nextStart + i) false = true → Ends (t :: later) n := by
    intro n i here closable
    rw [valid.closable,valid.nextStart] at closable
    exact closable_ends here closable
  refine ⟨?_,?_,?_,?_⟩
  · rw [step.closable,valid.closable]
    simp
  · rw [step.nextStart,valid.nextStart,deletionStarts,deletionStarts,placed_length_snoc]
  · intro n live
    have due : EndToCome s (t :: later) n := by
      rcases step.opened n live with earlier | ⟨i,here,closable⟩
      · exact valid.ahead n earlier
      · exact .inl (promised n i here closable)
    rcases due with named | held
    · rcases ends_cons.mp named with own | after
      · exact .inr (step.kept n live (.inr own))
      · exact .inl after
    · exact .inr (step.kept n live (.inl held))
  · intro n live
    rcases step.opened n live with earlier | ⟨i,here,closable⟩
    · obtain ⟨before,first,after,rfl,start,ends⟩ := valid.opened n earlier
      exact ⟨before,first,after ++ [t],by simp,start,by simpa using ends⟩
    · exact ⟨done,t,[],rfl,List.mem_of_getElem? here,promised n i here closable⟩

theorem run_tracked {before : List Token} (valid : Tracked done (before ++ later) s) :
    Tracked (done ++ before) later (before.foldl Stripper.step s) := by
  induction before generalizing done s with
  | nil => simpa using valid
  | cons t rest ih => simpa using ih (step_tracked valid)

theorem midway_tracked (before later : List Token) : Tracked before later (midway before later) :=
  @run_tracked [] later _ before (start_tracked (before ++ later))

theorem settled_ahead {s' : Stripper} (ahead : ∀ n ∈ s.deleting, EndToCome s later n)
    (settles : Settles s s') : ∀ n ∈ s'.deleting, EndToCome s' later n := by
  intro n live
  rcases ahead n (settles.fewer n live) with named | held
  · exact .inl named
  · exact .inr (settles.kept n live held)

-- At the end of the document every element is closed, so no end is to come and nothing is open.
theorem resolve_deleting (tokens : List Token) : (resolve tokens).deleting = [] := by
  have valid : Tracked tokens [] (midway tokens []) := midway_tracked tokens []
  have same : resolve tokens = (midway tokens []).finish := by simp [resolve,midway]
  rw [same,List.eq_nil_iff_forall_not_mem]
  intro n live
  rcases settled_ahead valid.ahead (closeImplied_settles _ _) n live with ⟨t,none_,_⟩ | held
  · cases none_
  · have empty : (midway tokens []).finish.frames = [] := by
      unfold Stripper.finish
      rw [Stripper.closeImplied_frames,Stripper.frames,List.drop_eq_nil_of_le (by simp)]
    rw [heldEnds_frames] at held
    unfold Stripper.finish at empty
    rw [empty] at held
    cases held

-- Where no end is to come any more, none comes later either, and text is kept.
theorem quiet_step {t : Token} (quiet : ∀ n, ¬EndToCome s (t :: later) n) :
    ∀ n, ¬EndToCome (s.step t) later n := by
  intro n due
  rcases due with named | held
  · exact quiet n (.inl (ends_cons.mpr (.inr named)))
  · rcases (step_advances s t).held n held with earlier | own
    · exact quiet n (.inr earlier)
    · exact quiet n (.inl (ends_cons.mpr (.inl own)))

theorem quiet_run {more : List Token} (quiet : ∀ n, ¬EndToCome s (more ++ later) n) :
    ∀ n, ¬EndToCome (more.foldl Stripper.step s) later n := by
  induction more generalizing s with
  | nil => exact quiet
  | cons t rest ih => exact ih (quiet_step quiet)

theorem quiet_text {content : List Char} (valid : Tracked done later s)
    (quiet : ∀ n, ¬EndToCome s later n) : (s.step (.text content)).out = s.out.push (.text content) := by
  have idle : s.deleting = [] := by
    rw [List.eq_nil_iff_forall_not_mem]
    intro n live
    exact quiet n (valid.ahead n live)
  unfold Stripper.step
  simp [Stripper.emitIfKept_out,Stripper.isDeleting,idle]

end Runs

-- No deletion runs away, for any token list and so for the one read from any text. In every state,
-- also between the closings of elements, an open range has an end to come, and at the end of the
-- document none is open. An open range goes back to a start that an end of its name follows; a
-- token opens no range whose end does not follow, and such a start moves the counter and does
-- nothing else; and once no end is to come, every text is kept.
theorem no_runaway_deletion (before later : List Token) :
    (∀ count, ∀ n ∈ ((midway before later).closeImplied count).deleting,
      EndToCome ((midway before later).closeImplied count) later n) ∧
    (resolve (before ++ later)).deleting = [] ∧
    (∀ n ∈ (midway before later).deleting, ∃ past t since, before = past ++ t :: since ∧
      n ∈ t.boundaries.starts ∧ Ends (t :: since ++ later) n) ∧
    (∀ t rest n, later = t :: rest → ¬Ends later n →
      n ∈ (midway (before ++ [t]) rest).deleting → n ∈ (midway before later).deleting) ∧
    (∀ t rest i n (s : Stripper), later = t :: rest → t.boundaries.starts[i]? = some n → ¬Ends later n →
      s.closable = (midway before later).closable → s.nextStart = (midway before later).nextStart + i →
      s.openDeletion n = {s with nextStart := s.nextStart + 1}) ∧
    ((∀ n, ¬EndToCome (midway before later) later n) → ∀ more content rest,
      later = more ++ .text content :: rest →
      (midway (before ++ more ++ [.text content]) rest).out =
        (midway (before ++ more) (.text content :: rest)).out.push (.text content)) := by
  have valid := midway_tracked before later
  refine ⟨?_,resolve_deleting _,valid.opened,?_,?_,?_⟩
  · intro count
    exact settled_ahead valid.ahead (closeImplied_settles _ count)
  · rintro t rest n rfl unfollowed live
    have read : midway (before ++ [t]) rest = (midway before (t :: rest)).step t := by simp [midway]
    rw [read] at live
    rcases (step_advances (midway before (t :: rest)) t).opened n live with earlier | ⟨i,here,closable⟩
    · exact earlier
    · rw [valid.closable,valid.nextStart] at closable
      exact absurd (closable_ends here closable) unfollowed
  · rintro t rest i n s rfl here unfollowed closable counter
    apply Stripper.openDeletion_unclosable
    rw [closable,counter,valid.closable,valid.nextStart]
    cases entry : (closableStarts (before ++ t :: rest)).getD ((deletionStarts before).length + i) false with
    | false => rfl
    | true => exact absurd (closable_ends here entry) unfollowed
  · rintro quiet more content rest rfl
    have reached : midway (before ++ more) (.text content :: rest) =
        more.foldl Stripper.step (midway before (more ++ .text content :: rest)) := by
      simp [midway]
    have text : midway (before ++ more ++ [.text content]) rest =
        (midway (before ++ more) (.text content :: rest)).step (.text content) := by
      simp [midway]
    rw [text]
    refine quiet_text (midway_tracked (before ++ more) (.text content :: rest)) ?_
    rw [reached]
    exact quiet_run quiet

end Redline.Markup
