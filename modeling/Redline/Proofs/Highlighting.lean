import Redline.Proofs.Nesting
import Redline.Proofs.Patching

namespace Redline.Revision

open Markup (ElementTag Nested)

def Highlight.tag? : Highlight → Option Unit
  | .plain unit => if kind unit = .tag then some unit else none
  | _ => none

-- A wrapper holds words and space, at least one word, and is closed before anything else opens.
inductive Wrapped : List Highlight → Prop where
  | nil : Wrapped []
  | plain (unit : Unit) {rest : List Highlight} : Wrapped rest → Wrapped (.plain unit :: rest)
  | run (wrapper : Wrapper) (inner : List Unit) {rest : List Highlight} : (∀ unit ∈ inner, kind unit ≠ .tag) →
      (∃ unit ∈ inner, kind unit = .word) → Wrapped rest →
      Wrapped (.opened wrapper :: inner.map .plain ++ .closed wrapper :: rest)

-- The words of a page without those inside one kind of wrapper.
def wordsWithout (wrapper : Wrapper) : Bool → List Highlight → List Unit
  | _,[] => []
  | inside,.plain unit :: rest =>
      (if kind unit = .word && !inside then [unit] else []) ++ wordsWithout wrapper inside rest
  | inside,.opened other :: rest => wordsWithout wrapper (inside || other = wrapper) rest
  | inside,.closed other :: rest => wordsWithout wrapper (inside && other ≠ wrapper) rest

def Wrapper.element : Wrapper → List Char
  | .removal => "del".toList
  | .addition => "ins".toList

-- The element tags of a page, when `read` says which element a tag opens or closes, if any.
def Highlight.elementTag? (read : Unit → Option ElementTag) : Highlight → Option ElementTag
  | .plain unit => if kind unit = .tag then read unit else none
  | .opened wrapper => some (.opening wrapper.element (Highlight.opened wrapper).raw)
  | .closed wrapper => some (.closing wrapper.element (Highlight.closed wrapper).raw)

def elementTags (read : Unit → Option ElementTag) (units : List Unit) : List ElementTag :=
  (units.filter (kind · = .tag)).filterMap read

structure FollowsNew (old new : List Unit) (page : List Highlight) : Prop where
  tags : page.filterMap Highlight.tag? = new.filter (kind · = .tag)
  wrapped : Wrapped page
  newWords : wordsWithout .removal false page = words new
  oldWords : wordsWithout .addition false page = words old
  nested : ∀ read, Nested (elementTags read new) → Nested (page.filterMap (Highlight.elementTag? read))

section Pages

@[simp] theorem tag?_plain (unit : Unit) :
    (Highlight.plain unit).tag? = if kind unit = .tag then some unit else none := rfl
@[simp] theorem tag?_opened (wrapper : Wrapper) : (Highlight.opened wrapper).tag? = none := rfl
@[simp] theorem tag?_closed (wrapper : Wrapper) : (Highlight.closed wrapper).tag? = none := rfl

theorem Wrapped.append {page more : List Highlight} (one : Wrapped page) (two : Wrapped more) :
    Wrapped (page ++ more) := by
  induction one with
  | nil => exact two
  | plain unit _ ih => exact .plain unit ih
  | run wrapper inner untagged word _ ih =>
      rw [List.append_assoc,List.cons_append]
      exact .run wrapper inner untagged word ih

theorem wrapped_plain (units : List Unit) : Wrapped (units.map .plain) := by
  induction units with
  | nil => exact .nil
  | cons unit rest ih => exact .plain unit ih

theorem wordsWithout_plain (wrapper : Wrapper) (units : List Unit) (inside : Bool) (rest : List Highlight) :
    wordsWithout wrapper inside (units.map .plain ++ rest) =
      (if inside then [] else words units) ++ wordsWithout wrapper inside rest := by
  induction units with
  | nil => cases inside <;> rfl
  | cons unit units ih =>
      rw [List.map_cons,List.cons_append,wordsWithout,ih]
      cases inside <;> by_cases word : kind unit = .word <;> simp [words,word]

theorem wordsWithout_run (wrapper other : Wrapper) (inner : List Unit) (rest : List Highlight) :
    wordsWithout wrapper false (.opened other :: (inner.map .plain ++ .closed other :: rest)) =
      (if other = wrapper then [] else words inner) ++ wordsWithout wrapper false rest := by
  rw [wordsWithout,wordsWithout_plain,wordsWithout]
  by_cases same : other = wrapper <;> simp [same]

theorem wordsWithout_append {page : List Highlight} (wrapped : Wrapped page) (wrapper : Wrapper) (more : List Highlight) :
    wordsWithout wrapper false (page ++ more) = wordsWithout wrapper false page ++ wordsWithout wrapper false more := by
  induction wrapped with
  | nil => rfl
  | plain unit _ ih => rw [List.cons_append,wordsWithout,ih,wordsWithout,List.append_assoc]
  | run other inner _ _ _ ih =>
      simp only [List.append_assoc,List.cons_append,wordsWithout_run,ih]

end Pages

section Runs
variable (wrapper : Wrapper) {unit : Unit} (inside : Bool) (rest : List Unit)

theorem highlightRun_tag (tag : kind unit = .tag) : highlightRun wrapper inside (unit :: rest) =
    (if inside then [.closed wrapper] else []) ++ ((if wrapper.keepsTags then [unit] else []).map .plain ++
      highlightRun wrapper false rest) := by
  simp only [highlightRun,tag]
  cases wrapper.keepsTags <;> simp

theorem highlightRun_space (space : kind unit = .space) :
    highlightRun wrapper inside (unit :: rest) = .plain unit :: highlightRun wrapper inside rest := by
  simp only [highlightRun,space]

theorem highlightRun_word (word : kind unit = .word) : highlightRun wrapper inside (unit :: rest) =
    (if inside then [] else [.opened wrapper]) ++ .plain unit :: highlightRun wrapper true rest := by
  simp only [highlightRun,word]

theorem highlightRun_wrapped (units : List Unit) : Wrapped (highlightRun wrapper false units) ∧
    ∃ (inner : List Unit) (page : List Highlight),
      highlightRun wrapper true units = inner.map .plain ++ .closed wrapper :: page ∧
        (∀ unit ∈ inner, kind unit ≠ .tag) ∧ Wrapped page := by
  induction units with
  | nil => exact ⟨.nil,[],[],rfl,List.forall_mem_nil _,.nil⟩
  | cons unit units ih =>
      obtain ⟨outside,inner,page,inside,untagged,wrapped⟩ := ih
      have more (plain : kind unit ≠ .tag) : ∀ other ∈ unit :: inner, kind other ≠ .tag :=
        List.forall_mem_cons.mpr ⟨plain,untagged⟩
      cases here : kind unit with
      | tag =>
          rw [highlightRun_tag wrapper _ _ here,highlightRun_tag wrapper _ _ here]
          have kept := (wrapped_plain (if wrapper.keepsTags then [unit] else [])).append outside
          exact ⟨kept,[],_,rfl,List.forall_mem_nil _,kept⟩
      | space =>
          rw [highlightRun_space wrapper _ _ here,highlightRun_space wrapper _ _ here,inside]
          exact ⟨.plain unit outside,unit :: inner,page,rfl,more (by simp [here]),wrapped⟩
      | word =>
          rw [highlightRun_word wrapper _ _ here,highlightRun_word wrapper _ _ here,inside]
          have untagged' := more (by simp [here])
          exact ⟨.run wrapper (unit :: inner) untagged' ⟨unit,by simp,here⟩ wrapped,unit :: inner,page,rfl,
            untagged',wrapped⟩

theorem highlightRun_words (other : Wrapper) (units : List Unit) :
    wordsWithout other (inside && wrapper = other) (highlightRun wrapper inside units) =
      if wrapper = other then [] else words units := by
  induction units generalizing inside with
  | nil => cases inside <;> simp [highlightRun,wordsWithout]
  | cons unit units ih =>
      cases here : kind unit with
      | tag =>
          have later := ih false
          rw [highlightRun_tag wrapper _ _ here]
          cases inside <;> cases wrapper.keepsTags <;> simp_all [wordsWithout,words]
      | space =>
          have later := ih inside
          simp_all [highlightRun_space,wordsWithout,words]
      | word =>
          have later := ih true
          rw [highlightRun_word wrapper _ _ here]
          cases inside <;> by_cases same : wrapper = other <;> simp_all [wordsWithout,words]

theorem highlightRun_tags (units : List Unit) : (highlightRun wrapper inside units).filterMap Highlight.tag? =
    if wrapper.keepsTags then units.filter (kind · = .tag) else [] := by
  induction units generalizing inside with
  | nil => cases inside <;> simp [highlightRun]
  | cons unit units ih =>
      cases here : kind unit with
      | tag =>
          rw [highlightRun_tag wrapper _ _ here,List.filterMap_append,List.filterMap_append,ih]
          cases inside <;> cases wrapper.keepsTags <;> simp [here]
      | space =>
          rw [highlightRun_space wrapper _ _ here,List.filterMap_cons,ih]
          simp [here]
      | word =>
          rw [highlightRun_word wrapper _ _ here,List.filterMap_append,List.filterMap_cons,ih]
          cases inside <;> simp [here]

end Runs

section Scripts
variable {edit : Edit Unit}

theorem highlight_changed (changed : edit.isEqual = false) :
    highlight edit = highlightRun .removal false edit.oldItems ++ highlightRun .addition false edit.newItems := by
  cases edit with
  | equal items => cases changed
  | _ => rfl

theorem highlight_kept (kept : edit.isEqual = true) :
    highlight edit = edit.newItems.map .plain ∧ edit.oldItems = edit.newItems := by
  cases edit with
  | equal items => exact ⟨rfl,rfl⟩
  | _ => cases kept

theorem tags_plain (units : List Unit) :
    (units.map Highlight.plain).filterMap Highlight.tag? = units.filter (kind · = .tag) := by
  induction units with
  | nil => rfl
  | cons unit rest ih => by_cases tag : kind unit = .tag <;> simp [tag,ih]

theorem highlight_wrapped (edit : Edit Unit) : Wrapped (highlight edit) := by
  cases kept : edit.isEqual with
  | true =>
      rw [(highlight_kept kept).1]
      exact wrapped_plain _
  | false =>
      rw [highlight_changed kept]
      exact (highlightRun_wrapped .removal _).1.append (highlightRun_wrapped .addition _).1

theorem highlight_tags (edit : Edit Unit) :
    (highlight edit).filterMap Highlight.tag? = edit.newItems.filter (kind · = .tag) := by
  cases kept : edit.isEqual with
  | true => rw [(highlight_kept kept).1,tags_plain]
  | false =>
      rw [highlight_changed kept,List.filterMap_append,highlightRun_tags,highlightRun_tags]
      simp [Wrapper.keepsTags]

theorem highlight_words (edit : Edit Unit) : wordsWithout .removal false (highlight edit) = words edit.newItems ∧
    wordsWithout .addition false (highlight edit) = words edit.oldItems := by
  cases kept : edit.isEqual with
  | true =>
      have plain (wrapper : Wrapper) := wordsWithout_plain wrapper edit.newItems false []
      simp only [List.append_nil,wordsWithout] at plain
      rw [(highlight_kept kept).1,(highlight_kept kept).2,plain,plain]
      exact ⟨rfl,rfl⟩
  | false =>
      have run (one other : Wrapper) (units : List Unit) := highlightRun_words one false other units
      simp only [Bool.false_and] at run
      rw [highlight_changed kept,wordsWithout_append (highlightRun_wrapped .removal _).1,
        wordsWithout_append (highlightRun_wrapped .removal _).1,run,run,run,run]
      simp

variable (edits : List (Edit Unit))

theorem page_wrapped : Wrapped (edits.flatMap highlight) := by
  induction edits with
  | nil => exact .nil
  | cons edit rest ih => exact (highlight_wrapped edit).append ih

theorem page_tags : (edits.flatMap highlight).filterMap Highlight.tag? = (newSide edits).filter (kind · = .tag) := by
  induction edits with
  | nil => rfl
  | cons edit rest ih =>
      rw [List.flatMap_cons,List.filterMap_append,highlight_tags,ih,newSide_cons,List.filter_append]

theorem page_words : wordsWithout .removal false (edits.flatMap highlight) = words (newSide edits) ∧
    wordsWithout .addition false (edits.flatMap highlight) = words (oldSide edits) := by
  induction edits with
  | nil => exact ⟨rfl,rfl⟩
  | cons edit rest ih =>
      have apart := wordsWithout_append (highlight_wrapped edit)
      rw [List.flatMap_cons,apart,apart,(highlight_words edit).1,(highlight_words edit).2,ih.1,ih.2,newSide_cons,
        oldSide_cons,words_append,words_append]
      exact ⟨rfl,rfl⟩

end Scripts

section Nesting

theorem nested_empty {before after : List ElementTag} (nested : Nested (before ++ after))
    (name start final : List Char) : Nested (before ++ .opening name start :: .closing name final :: after) := by
  generalize whole : before ++ after = tags at nested
  induction nested generalizing before after with
  | nil =>
      obtain ⟨rfl,rfl⟩ := List.append_eq_nil_iff.mp whole
      exact .element .nil .nil
  | @element inner rest name' start' final' innerNested restNested innerIh restIh =>
      rcases List.append_eq_cons_iff.mp whole with ⟨rfl,rfl⟩ | ⟨before',rfl,split_⟩
      · exact .element .nil (.element innerNested restNested)
      · rcases List.append_eq_append_iff.mp split_ with ⟨mid,rfl,behind⟩ | ⟨mid,rfl,rfl⟩
        · rcases List.append_eq_cons_iff.mp behind.symm with ⟨rfl,rfl⟩ | ⟨mid',rfl,rfl⟩
          · have inside := @innerIh inner [] (List.append_nil _)
            simpa using Nested.element inside restNested
          · simpa using Nested.element innerNested (restIh rfl)
        · simpa using Nested.element (innerIh rfl) restNested

-- Wrappers hold no tags, so each one is an element without content among the tags of the page.
theorem Wrapped.nested_elementTags (read : Unit → Option ElementTag) {page : List Highlight} (wrapped : Wrapped page)
    {before : List ElementTag} (nested : Nested (before ++ (page.filterMap Highlight.tag?).filterMap read)) :
    Nested (before ++ page.filterMap (Highlight.elementTag? read)) := by
  induction wrapped generalizing before with
  | nil => exact nested
  | @plain unit rest _ ih =>
      by_cases tag : kind unit = .tag
      · cases here : read unit with
        | none => simpa [Highlight.elementTag?,tag,here] using ih (by simpa [tag,here] using nested)
        | some element =>
            have later := @ih (before ++ [element]) (by simpa [tag,here] using nested)
            simpa [Highlight.elementTag?,tag,here] using later
      · simpa [Highlight.elementTag?,tag] using ih (by simpa [tag] using nested)
  | @run wrapper inner rest untagged _ _ ih =>
      have silent : (inner.map Highlight.plain).filterMap Highlight.tag? = [] := by
        rw [tags_plain]
        exact List.filter_eq_nil_iff.mpr fun unit member => by simpa using untagged unit member
      have unread : (inner.map Highlight.plain).filterMap (Highlight.elementTag? read) = [] := by
        rw [List.filterMap_map,List.filterMap_eq_nil_iff]
        intro unit member
        simp [Highlight.elementTag?,untagged unit member]
      rw [List.filterMap_append,List.filterMap_cons,silent,List.filterMap_cons] at nested
      rw [List.filterMap_append,List.filterMap_cons,unread,List.filterMap_cons]
      exact nested_empty (ih nested) _ _ _

end Nesting

theorem page_follows_new (differ : List Unit → List Unit → List (Edit Unit)) (old new : String) (keepMarkup : Bool)
    (leads : Leads (differ (side keepMarkup old) (side keepMarkup new)) (side keepMarkup old) (side keepMarkup new)) :
    FollowsNew (side keepMarkup old) (side keepMarkup new) (compareBy differ old new keepMarkup).highlights := by
  change FollowsNew _ _ ((differ (side keepMarkup old) (side keepMarkup new)).flatMap highlight)
  generalize differ (side keepMarkup old) (side keepMarkup new) = edits at leads
  obtain ⟨oldSide_eq,newSide_eq⟩ := leads
  have tags := page_tags edits
  have wrapped := page_wrapped edits
  obtain ⟨newWords,oldWords⟩ := page_words edits
  rw [newSide_eq] at tags newWords
  rw [oldSide_eq] at oldWords
  refine ⟨tags,wrapped,newWords,oldWords,?_⟩
  intro read nested
  exact @Wrapped.nested_elementTags read _ wrapped [] (by rw [tags]; exact nested)

theorem page_follows_new_reworded :
    let old := side false "<p>The old red car stops</p> here"
    let new := side false "<p>The <b>blue</b> car stops</p> here now"
    Leads (script old new) old new ∧ FollowsNew old new
      (compare "<p>The old red car stops</p> here" "<p>The <b>blue</b> car stops</p> here now" false).highlights := by
  have leads := script_leads (side false "<p>The old red car stops</p> here")
    (side false "<p>The <b>blue</b> car stops</p> here now")
  rw [compare_differ]
  exact ⟨leads,page_follows_new script _ _ false leads⟩

end Redline.Revision
