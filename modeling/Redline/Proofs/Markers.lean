import Redline.Proofs.DeletionRanges
import Redline.Proofs.Reading
import Redline.Proofs.Suppression

namespace Redline.Markup

open Redline.Text

-- A marker element, or an element with a marker attribute.
def Token.marked : Token → Bool
  | .opening tag => tag.markerElement?.isSome || tag.parts.any (·.marker?.isSome)
  | .closing written _ => (MarkerElement.ofName? (lower written)).isSome
  | _ => false

def Unmarked (tokens : List Token) : Prop := ∀ t ∈ tokens, t.marked = false

section QuickCheck

theorem containsFold_iff (word text : List Char) : containsFold word text = true ↔ lower word <:+: lower text := by
  induction text with
  | nil =>
      rw [containsFold,startsWithFold_iff]
      simp [lower]
  | cons c rest ih =>
      rw [containsFold,Bool.or_eq_true,startsWithFold_iff,ih]
      simp only [lower,List.map_cons]
      exact List.infix_cons_iff.symm

theorem lower_within {part text : List Char} (inside : part <:+: text) : lower part <:+: lower text := inside.map _

theorem mentionsMarkers_within {part text : List Char} (inside : part <:+: text)
    (mentions : mentionsMarkers part = true) : mentionsMarkers text = true := by
  obtain ⟨element,member,found⟩ := List.any_eq_true.mp mentions
  refine List.any_eq_true.mpr ⟨element,member,?_⟩
  rw [containsFold_iff] at found ⊢
  exact found.trans (lower_within inside)

theorem mentionsMarkers_word (element : MarkerElement) {text : List Char} (inside : element.name <:+: lower text) :
    mentionsMarkers text = true := by
  refine List.any_eq_true.mpr ⟨element,by cases element <;> decide,?_⟩
  rw [containsFold_iff]
  have plain : lower element.name = element.name := by cases element <;> decide
  rw [plain]
  exact inside

theorem markerElement_word {name : List Char} (marker : (MarkerElement.ofName? name).isSome = true) :
    ∃ element : MarkerElement, element.name = name := by
  obtain ⟨element,found⟩ := Option.isSome_iff_exists.mp marker
  exact ⟨element,by simpa using List.find?_some found⟩

theorem markerAttribute_word {a : Attribute} (marker : a.marker?.isSome = true) :
    ∃ element : MarkerElement, element.name <:+: a.name := by
  have comment : ∀ anchor : Anchor,
      ∃ element : MarkerElement, element.name <:+: dataWord ++ commentWord ++ anchor.suffix := by
    intro anchor
    cases anchor with
    | startBefore | startAfter => exact ⟨.commentStart,dataWord,_,rfl⟩
    | endBefore | endAfter => exact ⟨.commentEnd,dataWord,_,rfl⟩
  have suggestion : ∀ anchor : Anchor,
      ∃ element : MarkerElement, element.name <:+: dataWord ++ suggestionWord ++ anchor.suffix := by
    intro anchor
    cases anchor with
    | startBefore | startAfter => exact ⟨.suggestionStart,dataWord,_,rfl⟩
    | endBefore | endAfter => exact ⟨.suggestionEnd,dataWord,_,rfl⟩
  unfold Attribute.marker? at marker
  split at marker
  · rename_i anchor found
    have same : a.name = dataWord ++ commentWord ++ anchor.suffix := by simpa using List.find?_some found
    rw [same]
    exact comment anchor
  · rw [Option.isSome_map] at marker
    obtain ⟨anchor,found⟩ := Option.isSome_iff_exists.mp marker
    have same : a.name = dataWord ++ suggestionWord ++ anchor.suffix := by simpa using List.find?_some found
    rw [same]
    exact suggestion anchor

theorem part_within {tag : StartTag} {part : BodyPart} (member : part ∈ tag.parts) : part.raw <:+: tag.raw := by
  obtain ⟨before,after,eq⟩ := List.append_of_mem member
  refine ⟨'<' :: tag.written ++ before.flatMap BodyPart.raw,after.flatMap BodyPart.raw ++ ['>'],?_⟩
  simp [StartTag.raw,StartTag.body,eq]

-- The quick check misses no token that carries markup.
theorem marked_mentions {t : Token} (marked : t.marked = true) : mentionsMarkers t.raw = true := by
  cases t with
  | text content => cases marked
  | other content => cases marked
  | closing written tail =>
      obtain ⟨element,same⟩ := markerElement_word marked
      apply mentionsMarkers_word element
      rw [same]
      exact lower_within ⟨['<','/'],tail ++ ['>'],by simp [Token.raw]⟩
  | opening tag =>
      simp only [Token.marked,Bool.or_eq_true,List.any_eq_true] at marked
      rcases marked with marker | ⟨part,member,marker⟩
      · obtain ⟨element,same⟩ := markerElement_word marker
        apply mentionsMarkers_word element
        rw [same]
        exact lower_within ⟨['<'],tag.body ++ ['>'],by simp [Token.raw,StartTag.raw]⟩
      · cases part with
        | filler content => cases marker
        | attr a =>
            obtain ⟨element,inside⟩ := markerAttribute_word marker
            apply mentionsMarkers_word element
            refine inside.trans (lower_within (List.IsInfix.trans ?_ (part_within member)))
            exact ⟨a.lead,a.tail,rfl⟩

theorem unmentioned_unmarked {text : List Char} (quiet : mentionsMarkers text = false) : Unmarked (tokenize text) := by
  intro t member
  rw [Bool.eq_false_iff]
  intro marked
  have inside : t.raw <:+: text := by
    obtain ⟨before,after,eq⟩ := List.append_of_mem member
    refine ⟨source before,source after,?_⟩
    rw [← source_tokenize text,eq]
    simp
  rw [mentionsMarkers_within inside (marked_mentions marked)] at quiet
  cases quiet

end QuickCheck

section Residues

theorem StartTag.cleaned_unmarked {tag : StartTag} (plain : tag.parts.any (·.marker?.isSome) = false) :
    tag.cleaned = tag ∧ tag.markers = [] ∧ ∀ anchor, tag.deletionsAt anchor = [] := by
  have none_ : ∀ part ∈ tag.parts, part.marker? = none := by
    intro part member
    simpa using List.any_eq_false.mp plain part member
  refine ⟨?_,?_,?_⟩
  · have kept : tag.parts.filter (·.marker?.isNone) = tag.parts := by
      apply List.filter_eq_self.mpr
      intro part member
      simp [none_ part member]
    simp only [StartTag.cleaned,kept]
  · exact List.filterMap_eq_nil_iff.mpr none_
  · intro anchor
    have deletions : tag.deletions = [] := by
      apply List.flatMap_eq_nil_iff.mpr
      intro a member
      obtain ⟨part,present,same⟩ := List.mem_filterMap.mp member
      cases part with
      | filler content => cases same
      | attr b =>
          cases same
          have ordinary : a.marker? = none := none_ _ present
          simp [Attribute.deletions,ordinary]
    simp [StartTag.deletionsAt,deletions]

theorem kept_parts (parts : List BodyPart) :
    ((parts.filter (·.marker?.isNone)).flatMap BodyPart.raw).Sublist (parts.flatMap BodyPart.raw) :=
  List.filter_sublist.flatMap BodyPart.raw

theorem residue_sublist (t : Token) : t.residue.Sublist t.raw := by
  cases t with
  | text content => exact .refl _
  | other content => exact .refl _
  | closing written tail =>
      simp only [Token.residue]
      split
      · exact List.nil_sublist _
      · exact .refl _
  | opening tag =>
      simp only [Token.residue]
      split
      · exact List.nil_sublist _
      · simp only [StartTag.raw,StartTag.body,StartTag.cleaned,Token.raw]
        exact ((List.Sublist.refl ('<' :: tag.written)).append (kept_parts tag.parts)).append (.refl _)

theorem markerAttribute_raw {part : BodyPart} (marker : part.marker?.isSome = true) : part.raw ≠ [] := by
  cases part with
  | filler content => cases marker
  | attr a =>
      obtain ⟨element,inside⟩ := markerAttribute_word marker
      intro empty
      have none_ : a.written = [] := by
        simp only [BodyPart.raw,Attribute.raw,List.append_eq_nil_iff] at empty
        exact empty.1.2
      have short := inside.length_le
      rw [Attribute.name,none_] at short
      cases element <;> exact absurd short (by decide)

theorem residue_shorter {t : Token} (marked : t.marked = true) : t.residue.length < t.raw.length := by
  cases t with
  | text content => cases marked
  | other content => cases marked
  | closing written tail =>
      have marker : (MarkerElement.ofName? (lower written)).isSome = true := marked
      simp [Token.residue,marker,Token.raw]
  | opening tag =>
      simp only [Token.residue]
      split
      · simp [Token.raw,StartTag.raw]
      · rename_i ordinary
        rw [Bool.not_eq_true] at ordinary
        simp only [Token.marked,ordinary,Bool.false_or,List.any_eq_true] at marked
        obtain ⟨part,member,marker⟩ := marked
        obtain ⟨before,after,eq⟩ := List.append_of_mem member
        have front := (kept_parts before).length_le
        have back := (kept_parts after).length_le
        have some_ := List.length_pos_iff.mpr (markerAttribute_raw marker)
        have gone : part.marker?.isNone = false := by simpa using marker
        simp only [StartTag.raw,StartTag.body,StartTag.cleaned,Token.raw,eq,List.filter_append,List.filter_cons,
          gone,List.flatMap_append,List.flatMap_cons,List.length_append,List.length_cons,List.length_nil,
          Bool.false_eq_true,if_false]
        omega

theorem residues_length (tokens : List Token) :
    (tokens.flatMap Token.residue).length ≤ (source tokens).length ∧
      (¬Unmarked tokens → (tokens.flatMap Token.residue).length < (source tokens).length) := by
  induction tokens with
  | nil => exact ⟨Nat.le_refl _,fun marked => absurd (fun _ member => (List.not_mem_nil member).elim) marked⟩
  | cons t rest ih =>
      have short := (residue_sublist t).length_le
      rw [List.flatMap_cons,source_cons,List.length_append,List.length_append]
      refine ⟨by omega,fun marked => ?_⟩
      cases here : t.marked with
      | true =>
          have shorter := residue_shorter here
          omega
      | false =>
          have later : ¬Unmarked rest := by
            intro plain
            apply marked
            intro u member
            rcases List.mem_cons.mp member with rfl | further
            · exact here
            · exact plain u further
          have shorter := ih.2 later
          omega

end Residues

namespace Stripper
variable {s : Stripper}

section Outside

theorem closeDeletions_outside (idle : s.deleting = []) (names : List (List Char)) : s.closeDeletions names = s := by
  induction names with
  | nil => rfl
  | cons name rest ih =>
      have same : s.closeDeletion name = s := by simp [closeDeletion,idle]
      change (s.closeDeletion name).closeDeletions rest = s
      rw [same]
      exact ih

theorem emitIfKept_outside (idle : s.deleting = []) (piece : Piece) :
    (s.emitIfKept piece).out.toList = s.out.toList ++ [piece] := by
  simp [emitIfKept_out,isDeleting,idle]

theorem closeTop_outside (upright : s.Upright) (idle : s.deleting = []) {top : OpenElement}
    {rest : List OpenElement} (raw : Option (List Char)) (here : s.stack = top :: rest) :
    (s.closeTop raw).deleting = [] ∧ (s.closeTop raw).stack = rest ∧
      (s.closeTop raw).out.toList = s.out.toList ++ (raw.map (Piece.closing top.name)).toList := by
  have emitted : top.emitted = true := upright.whole idle top (by simp [here])
  have left : (s.leave raw top rest).deleting = [] := by rw [leave_deleting]; exact idle
  have eq : s.closeTop raw = s.leave raw top rest := by
    have closes : s.closeTop raw = (s.leave raw top rest).closeDeletions top.closeAfter := by
      have same := closeDeletions_outside idle top.closeBefore
      unfold closeTop leave
      cases raw <;> simp [here,same]
    rw [closes,closeDeletions_outside left]
  rw [eq]
  refine ⟨left,leave_stack s raw,?_⟩
  cases raw <;> simp [leave,emitted]

theorem closeImplied_outside (upright : s.Upright) (idle : s.deleting = []) (count : Nat) :
    (s.closeImplied count).Upright ∧ (s.closeImplied count).deleting = [] ∧
      (s.closeImplied count).stack = s.stack.drop count ∧ (s.closeImplied count).out = s.out := by
  induction count generalizing s with
  | zero => exact ⟨upright,idle,rfl,rfl⟩
  | succ count ih =>
      have further : s.closeImplied (count + 1) = (s.closeTop none).closeImplied count := rfl
      rw [further]
      cases here : s.stack with
      | nil =>
          rw [closeTop_nil s none here]
          obtain ⟨last,quiet,stack,out⟩ := ih upright idle
          exact ⟨last,quiet,by rw [stack,here]; simp,out⟩
      | cons top rest =>
          obtain ⟨quiet,stack,out⟩ := closeTop_outside upright idle none here
          obtain ⟨last,quiet,dropped,same⟩ := ih (closeTop_upright upright none) quiet
          refine ⟨last,quiet,by rw [dropped,stack]; rfl,same.trans ?_⟩
          simpa using out

section Unclosable
variable (idle : s.deleting = []) (unclosable : true ∉ s.closable)

include idle unclosable

theorem openDeletions_outside (names : List (List Char)) : (s.openDeletions names).deleting = [] := by
  rw [List.eq_nil_iff_forall_not_mem]
  intro n live
  rcases mem_openDeletions live with earlier | ⟨i,_,closable⟩
  · rw [idle] at earlier
    cases earlier
  · exact unclosable (List.mem_of_getElem? (closable_entry closable))

theorem advances_outside {s' : Stripper} {t : Token} (advances : Advances s t s') : s'.deleting = [] := by
  rw [List.eq_nil_iff_forall_not_mem]
  intro n live
  rcases advances.opened n live with earlier | ⟨i,_,closable⟩
  · rw [idle] at earlier
    cases earlier
  · exact unclosable (List.mem_of_getElem? (closable_entry closable))

theorem markerElement_outside (upright : s.Upright) {tag : StartTag} {marker : MarkerElement}
    (here : tag.markerElement? = some marker) : (s.markerElement tag marker).out = s.out := by
  have quiet := advances_outside idle unclosable (markerElement_advances here)
  obtain ⟨next,_,same⟩ := markerElement_upright upright tag marker
  rw [pending,held_whole (next.whole quiet),pending,held_whole (upright.whole idle),List.append_nil,
    List.append_nil] at same
  exact Array.toList_inj.mp same

theorem element_outside (tag : StartTag) :
    (s.element tag).out = s.out.push (.opening tag.name tag.isVoid tag.cleaned.raw) := by
  have before : ((tag.markers.foldl countMarker s).openDeletions (tag.deletionsAt .startBefore)).deleting = [] :=
    openDeletions_outside (by simpa using idle) (by simpa using unclosable) _
  have after : (s.opened tag).deleting = [] :=
    openDeletions_outside (by simpa using before) (by simpa using unclosable) _
  have writes : s.writes tag = true := by simp [Stripper.writes,isDeleting,before]
  have out : (s.opened tag).out = s.out.push (.opening tag.name tag.isVoid tag.cleaned.raw) := by
    rw [opened_out,writes,if_pos rfl]
  cases void : tag.isVoid with
  | true => rw [element_void s tag void,closeDeletions_outside after,out,void]
  | false => rw [element_open s tag void,out,void]

-- Where no start is closable no range opens and nothing is held back: what is read is written,
-- without its markers.
theorem step_outside (upright : s.Upright) (t : Token) :
    written (s.step t).out.toList = written s.out.toList ++ t.residue := by
  cases t with
  | text content => simp [step,emitIfKept_outside idle,written,Piece.raw,Token.residue]
  | other content => simp [step,emitIfKept_outside idle,written,Piece.raw,Token.residue]
  | closing name tail =>
      simp only [step,endTag,Token.residue]
      split
      · simp
      · split
        · simp [emitIfKept_outside idle,written,Piece.raw]
        · rename_i depth found
          obtain ⟨inside,quiet,stack,out⟩ := closeImplied_outside upright idle depth
          have short : depth < s.stack.length := (List.findIdx?_eq_some_iff_getElem.mp found).1
          have here := List.drop_eq_getElem_cons short
          rw [← stack] at here
          obtain ⟨_,_,more⟩ := closeTop_outside inside quiet (some (Token.closing name tail).raw) here
          rw [more,out]
          simp [written,Piece.raw]
  | opening tag =>
      simp only [step,startTag,Token.residue]
      cases here : tag.markerElement? with
      | some marker => simp [markerElement_outside idle unclosable upright here]
      | none => simp [element_outside idle unclosable tag,written,Piece.raw]

end Unclosable

theorem run_outside (upright : s.Upright) (idle : s.deleting = []) (unclosable : true ∉ s.closable)
    (tokens : List Token) : (tokens.foldl step s).Upright ∧ (tokens.foldl step s).deleting = [] ∧
      written (tokens.foldl step s).out.toList = written s.out.toList ++ tokens.flatMap Token.residue := by
  induction tokens generalizing s with
  | nil => exact ⟨upright,idle,by simp⟩
  | cons t rest ih =>
      have advances := step_advances s t
      have still : true ∉ (s.step t).closable := by rw [advances.closable]; exact unclosable
      obtain ⟨last,quiet,out⟩ :=
        ih (step_grows upright t).1 (advances_outside idle unclosable advances) still
      refine ⟨last,quiet,?_⟩
      rw [List.foldl_cons,out,step_outside idle unclosable upright t,List.flatMap_cons,List.append_assoc]

end Outside

section Counters

theorem step_uncounted {t : Token} (plain : t.marked = false) : (s.step t).stats = s.stats := by
  cases t with
  | text content => exact emitIfKept_stats s _
  | other content => exact emitIfKept_stats s _
  | closing name tail => exact endTag_stats s (lower name) (Token.closing name tail).raw
  | opening tag =>
      simp only [Token.marked,Bool.or_eq_false_iff] at plain
      obtain ⟨_,none_,nowhere⟩ := StartTag.cleaned_unmarked plain.2
      have ordinary : tag.markerElement? = none := by simpa using plain.1
      have opened : (s.opened tag).stats = s.stats := by
        simp only [Stripper.opened,none_,nowhere,List.foldl_nil,openDeletions,emitIfKept_stats]
      simp only [step,startTag,ordinary]
      cases void : tag.isVoid with
      | true => rw [element_void s tag void,(closeDeletions_steady _ _).stats,opened]
      | false => rw [element_open s tag void]; exact opened

theorem run_uncounted {tokens : List Token} (plain : Unmarked tokens) : (tokens.foldl step s).stats = s.stats := by
  induction tokens generalizing s with
  | nil => rfl
  | cons t rest ih =>
      rw [List.foldl_cons,ih fun u member => plain u (List.mem_cons_of_mem _ member)]
      exact step_uncounted (plain t List.mem_cons_self)

end Counters

end Stripper

section Documents
variable {tokens : List Token}

theorem closableStarts_startless (startless : ∀ t ∈ tokens, t.boundaries.starts = []) : closableStarts tokens = [] := by
  have starts : deletionStarts tokens = [] := by
    rw [List.eq_nil_iff_forall_not_mem]
    rintro ⟨i,n⟩ member
    obtain ⟨t,there,start⟩ := mem_placed.mp member
    rw [startless t (List.mem_of_getElem? there)] at start
    cases start
  rw [closableStarts,starts]
  rfl

theorem unmarked_startless {t : Token} (plain : t.marked = false) : t.boundaries.starts = [] := by
  cases t with
  | text content => rfl
  | other content => rfl
  | closing name tail => rfl
  | opening tag =>
      simp only [Token.marked,Bool.or_eq_false_iff] at plain
      obtain ⟨_,_,nowhere⟩ := StartTag.cleaned_unmarked plain.2
      have ordinary : tag.markerElement? = none := by simpa using plain.1
      have starts := (element_boundaries ordinary).1
      rw [nowhere,nowhere] at starts
      exact starts

theorem unmarked_residue {t : Token} (plain : t.marked = false) : t.residue = t.raw := by
  cases t with
  | text content => rfl
  | other content => rfl
  | closing name tail =>
      have ordinary : (MarkerElement.ofName? (lower name)).isSome = false := plain
      simp [Token.residue,ordinary]
  | opening tag =>
      simp only [Token.marked,Bool.or_eq_false_iff] at plain
      simp [Token.residue,plain.1,(StartTag.cleaned_unmarked plain.2).1,Token.raw]

theorem unmarked_residues (plain : Unmarked tokens) : tokens.flatMap Token.residue = source tokens := by
  rw [source,List.flatMap_def,List.flatMap_def,List.map_congr_left fun t member => unmarked_residue (plain t member)]

theorem resolve_unclosable (unclosable : true ∉ closableStarts tokens) :
    written (resolve tokens).out.toList = tokens.flatMap Token.residue := by
  obtain ⟨upright,idle,out⟩ :=
    Stripper.run_outside (Stripper.start_upright (closableStarts tokens)) rfl unclosable tokens
  have finished : (resolve tokens).out = (readThrough tokens).out :=
    (Stripper.closeImplied_outside upright idle (readThrough tokens).stack.length).2.2.2
  rw [finished]
  exact out

theorem resolve_unmarked (plain : Unmarked tokens) : written (resolve tokens).out.toList = source tokens := by
  have startless := closableStarts_startless fun t member => unmarked_startless (plain t member)
  rw [resolve_unclosable (by simp [startless]),unmarked_residues plain]

theorem resolve_uncounted (plain : Unmarked tokens) : (resolve tokens).stats = {} := by
  have finished : (resolve tokens).stats = (readThrough tokens).stats := (Stripper.closeImplied_steady _ _).stats
  rw [finished]
  exact Stripper.run_uncounted plain

end Documents

section Passes

theorem stripChars_html (text : List Char) :
    (stripChars text).html = written (resolve (tokenize text)).out.toList := by
  unfold stripChars
  split
  · rfl
  · rename_i quiet
    rw [Bool.not_eq_true] at quiet
    rw [resolve_unmarked (unmentioned_unmarked quiet),source_tokenize]

theorem strip_shorter {text : List Char} (marked : ¬Unmarked (tokenize text)) :
    (stripChars text).html.length < text.length := by
  have within := (resolve_residue (tokenize text)).length_le
  have less := (residues_length (tokenize text)).2 marked
  rw [stripChars_html]
  rw [source_tokenize] at less
  omega

theorem strip_same_iff (text : List Char) : (stripChars text).html = text ↔ Unmarked (tokenize text) := by
  constructor
  · intro same
    by_cases plain : Unmarked (tokenize text)
    · exact plain
    · have shorter := strip_shorter plain
      rw [same] at shorter
      exact absurd shorter (Nat.lt_irrefl _)
  · intro plain
    rw [stripChars_html,resolve_unmarked plain,source_tokenize]

-- The pass only deletes, also where a start tag is given back long after it was read: what is written
-- are the residues of some tokens, in the order of the tokens, each once.
theorem strip_only_deletes (html : String) : (strip html).toList.Sublist html.toList ∧
    ∃ kept : List Token, kept.Sublist (tokenize html.toList) ∧
      (strip html).toList = kept.flatMap Token.residue := by
  obtain ⟨kept,fewer,eq⟩ := resolve_kept (tokenize html.toList)
  have left : (strip html).toList = kept.flatMap Token.residue := by
    rw [strip,String.toList_ofList,stripChars_html,eq]
  refine ⟨?_,kept,fewer,left⟩
  have parts : (kept.flatMap Token.residue).Sublist (source kept) :=
    List.Sublist.flatMap_right kept fun t _ => residue_sublist t
  have whole : (source kept).Sublist html.toList := by
    have within : (source kept).Sublist (source (tokenize html.toList)) := fewer.flatMap Token.raw
    rwa [source_tokenize] at within
  rw [left]
  exact parts.trans whole

-- The full pass comes to the same as the one behind the quick check, counters included: no token
-- that carries a marker escapes the check, and without one the pass writes back what it reads.
theorem quick_check_exact (text : List Char) : stripChars text = stripTokens (tokenize text) ∧
    (mentionsMarkers text = true ∨ Unmarked (tokenize text)) := by
  constructor
  · unfold stripChars
    split
    · rfl
    · rename_i quiet
      rw [Bool.not_eq_true] at quiet
      have plain := unmentioned_unmarked quiet
      have html : written (resolve (tokenize text)).out.toList = text := by
        rw [resolve_unmarked plain,source_tokenize]
      rw [stripTokens,html,resolve_uncounted plain]
  · cases mentions : mentionsMarkers text with
    | true => exact .inl rfl
    | false => exact .inr (unmentioned_unmarked mentions)

-- Where no deletion start is closable the markers go and nothing else. So it is for a document
-- without deletion starts, and a document without markers stays as it is.
theorem strip_cuts_markers_only (html : String) :
    (true ∉ closableStarts (tokenize html.toList) →
      (strip html).toList = (tokenize html.toList).flatMap Token.residue) ∧
    ((∀ t ∈ tokenize html.toList, t.boundaries.starts = []) → true ∉ closableStarts (tokenize html.toList)) ∧
    (Unmarked (tokenize html.toList) → strip html = html) := by
  refine ⟨?_,?_,?_⟩
  · intro unclosable
    rw [strip,String.toList_ofList,stripChars_html,resolve_unclosable unclosable]
  · intro startless
    simp [closableStarts_startless startless]
  · intro plain
    rw [strip,(strip_same_iff html.toList).mpr plain,String.ofList_toList]

theorem strip_cuts_markers_only_unclosed :
    let html := "<p data-comment-end-after=c>a<suggestion-start name=deletion>b<script><comment-end></script></i></p>"
    true ∉ closableStarts (tokenize html.toList) ∧
      (strip html).toList = (tokenize html.toList).flatMap Token.residue ∧
      strip html = "<p>ab<script><comment-end></script></i></p>" := by
  intro html
  have unclosable : true ∉ closableStarts (tokenize html.toList) := by decide +kernel
  exact ⟨unclosable,(strip_cuts_markers_only html).1 unclosable,by decide +kernel⟩

end Passes

end Redline.Markup
