import Redline.Proofs.Patching

namespace Redline.Revision

open Redline.Text

section Openings

-- What turns a bracket directly before it into the start of a tag, a comment or a declaration.
def opensMarkup (c : Char) : Bool := c.isAlpha || c = '/' || c = '!' || c = '?'

namespace Wrapper

def openingTag : Wrapper → List Char
  | removal => "<del>".toList
  | addition => "<ins>".toList

def closingTag : Wrapper → List Char
  | removal => "</del>".toList
  | addition => "</ins>".toList

def tags (wrapper : Wrapper) : List (List Char) := [wrapper.openingTag,wrapper.closingTag]

end Wrapper

def snippetTags : List (List Char) := Wrapper.removal.tags ++ Wrapper.addition.tags

-- The tag of a snippet at the start of a text.
def tagAt? (text : List Char) : Option (List Char) := snippetTags.find? fun tag => tag.isPrefixOf text

-- For each place where markup could open, the tag of a snippet that stands there, if one does.
def openings : List Char → List (Option (List Char))
  | [] => []
  | c :: rest => if c = '<' && rest.head?.any opensMarkup then tagAt? (c :: rest) :: openings rest else openings rest

-- Wherever markup could open stands a tag of the snippet, and each tag is there once at most, the
-- closing one next after its opening one.
structure Harmless (snippet : List Char) : Prop where
  own : ∀ before c after, snippet = before ++ '<' :: c :: after → opensMarkup c = true →
    ∃ tag ∈ snippetTags, tag <+: '<' :: c :: after
  closed : ∃ wrappers : List Wrapper, wrappers.Nodup ∧
    openings snippet = (wrappers.flatMap Wrapper.tags).map some

theorem openings_listed (before after : List Char) {c : Char} (opens : opensMarkup c = true) :
    tagAt? ('<' :: c :: after) ∈ openings (before ++ '<' :: c :: after) := by
  induction before with
  | nil => simp [openings,opens]
  | cons d before ih =>
      rw [List.cons_append,openings]
      split
      · exact List.mem_cons_of_mem _ ih
      · exact ih

theorem harmless_of_openings {snippet : List Char} {wrappers : List Wrapper} (distinct : wrappers.Nodup)
    (whole : openings snippet = (wrappers.flatMap Wrapper.tags).map some) : Harmless snippet := by
  refine ⟨fun before c after eq opens => ?_,wrappers,distinct,whole⟩
  have listed := openings_listed before after opens
  rw [← eq,whole] at listed
  obtain ⟨tag,_,found⟩ := List.mem_map.mp listed
  have reads := List.find?_some found.symm
  exact ⟨tag,List.mem_of_find?_eq_some found.symm,List.isPrefixOf_iff_prefix.mp reads⟩

-- A text that what follows it cannot change, as long as that does not begin like markup behind a bracket.
def Detached (text : List Char) : Prop :=
  ∀ rest, rest.head?.any opensMarkup = false → openings (text ++ rest) = openings text ++ openings rest

theorem openings_plain {text : List Char} (free : '<' ∉ text) (rest : List Char) :
    openings (text ++ rest) = openings rest := by
  induction text with
  | nil => rfl
  | cons c text ih =>
      obtain ⟨other,behind⟩ := not_or.mp fun here => free (List.mem_cons.mpr here)
      rw [List.cons_append,openings,decide_eq_false (Ne.symm other)]
      exact ih behind

theorem openings_bracket {rest : List Char} (calm : rest.head?.any opensMarkup = false) :
    openings ('<' :: rest) = openings rest := by
  rw [openings,calm]
  rfl

end Openings

section Joining

theorem detached_plain {text : List Char} (free : '<' ∉ text) : openings text = [] ∧ Detached text := by
  have none_ : openings text = [] := by
    have whole := openings_plain free []
    rwa [List.append_nil] at whole
  exact ⟨none_,fun rest _ => by rw [none_,openings_plain free rest,List.nil_append]⟩

theorem detached_bracket : openings ['<'] = [] ∧ Detached ['<'] :=
  ⟨rfl,fun _ calm => openings_bracket calm⟩

theorem openings_joinWith {pieces : List (List Char)} (detached : ∀ piece ∈ pieces, Detached piece) :
    openings (joinWith [' '] pieces) = pieces.flatMap openings ∧ Detached (joinWith [' '] pieces) := by
  have each : ∀ rest, rest.head?.any opensMarkup = false →
      openings (joinWith [' '] pieces ++ rest) = pieces.flatMap openings ++ openings rest := by
    induction pieces with
    | nil => exact fun _ _ => rfl
    | cons piece pieces ih =>
        obtain ⟨here,others⟩ := List.forall_mem_cons.mp detached
        intro rest calm
        cases pieces with
        | nil => simpa [joinWith] using here rest calm
        | cons next pieces =>
            have later := ih others rest calm
            have spaced : joinWith [' '] (piece :: next :: pieces) ++ rest =
                piece ++ ' ' :: (joinWith [' '] (next :: pieces) ++ rest) := by simp [joinWith]
            rw [spaced,here _ rfl,List.flatMap_cons,List.append_assoc,← later]
            rfl
  have whole := each [] rfl
  rw [List.append_nil,openings,List.append_nil] at whole
  exact ⟨whole,fun rest calm => by rw [each rest calm,whole]⟩

def Wrapper.around (wrapper : Wrapper) (text : List Char) : List Char :=
  wrapper.openingTag ++ text ++ wrapper.closingTag

theorem openings_openingTag (wrapper : Wrapper) (rest : List Char) :
    openings (wrapper.openingTag ++ rest) = some wrapper.openingTag :: openings rest := by
  cases wrapper <;> rfl

theorem openings_closingTag (wrapper : Wrapper) (rest : List Char) :
    openings (wrapper.closingTag ++ rest) = some wrapper.closingTag :: openings rest := by
  cases wrapper <;> rfl

theorem openings_around (wrapper : Wrapper) {text : List Char} (quiet : openings text = [] ∧ Detached text) :
    openings (wrapper.around text) = wrapper.tags.map some ∧ Detached (wrapper.around text) := by
  have calm : ∀ rest, (wrapper.closingTag ++ rest).head?.any opensMarkup = false := by
    cases wrapper <;> exact fun _ => rfl
  have each : ∀ rest, openings (wrapper.around text ++ rest) = wrapper.tags.map some ++ openings rest := by
    intro rest
    rw [Wrapper.around,List.append_assoc,List.append_assoc,openings_openingTag,quiet.2 _ (calm rest),quiet.1,
      List.nil_append,openings_closingTag]
    rfl
  have whole := each []
  rw [List.append_nil,openings,List.append_nil] at whole
  exact ⟨whole,fun rest _ => by rw [each rest,whole]⟩

theorem openings_filled (pieces : List (List Char)) :
    (pieces.filter fun piece => !piece.isEmpty).flatMap openings = pieces.flatMap openings := by
  induction pieces with
  | nil => rfl
  | cons piece pieces ih => cases piece <;> simp [openings,ih]

end Joining

section Words

-- A unit that counts as a word is a bracket alone or holds none.
def Unbracketed (unit : Unit) : Prop := kind unit = .word → unit = ['<'] ∨ '<' ∉ unit

theorem unitAt_unbracketed (c : Char) (rest : List Char) : Unbracketed (unitAt c rest).1 := by
  unfold Unbracketed unitAt
  split
  · rename_i found here
    intro word
    have tag : kind found.1 = .tag := by
      rcases Option.or_eq_some_iff.mp here with comment | ⟨_,tag⟩
      · exact (commentUnit?_source comment).2
      · exact (tagUnit?_source tag).2
    rw [tag] at word
    cases word
  · split
    · exact fun _ => .inl rfl
    · split
      · exact fun word => absurd word (kind_blank List.all_takeWhile)
      · refine fun _ => .inr fun bracket => ?_
        have inWord := List.all_eq_true.mp List.all_takeWhile '<' bracket
        simp at inWord

theorem units_unbracketed (text : List Char) : ∀ unit ∈ units text, Unbracketed unit :=
  unitsWithin_each unitAt_unbracketed (Nat.le_refl _)

variable {run : List Unit}

theorem words_quiet (unbracketed : ∀ unit ∈ run, Unbracketed unit) :
    ∀ word ∈ words run, openings word = [] ∧ Detached word := by
  intro word member
  rcases unbracketed word (List.mem_filter.mp member).1 (words_word member) with rfl | free
  · exact detached_bracket
  · exact detached_plain free

theorem joinWith_quiet {pieces : List (List Char)} (quiet : ∀ piece ∈ pieces, openings piece = [] ∧ Detached piece) :
    openings (joinWith [' '] pieces) = [] ∧ Detached (joinWith [' '] pieces) := by
  obtain ⟨whole,detached⟩ := openings_joinWith fun piece member => (quiet piece member).2
  refine ⟨whole.trans ?_,detached⟩
  rw [List.flatMap_eq_nil_iff]
  exact fun piece member => (quiet piece member).1

theorem visible_quiet (unbracketed : ∀ unit ∈ run, Unbracketed unit) :
    openings (visible run) = [] ∧ Detached (visible run) := joinWith_quiet (words_quiet unbracketed)

end Words

section Snippets

def Change.wrappers (change : Change) : List Wrapper :=
  (if change.removed.isEmpty then [] else [.removal]) ++ (if change.inserted.isEmpty then [] else [.addition])

theorem wrappers_distinct (change : Change) : change.wrappers.Nodup := by
  unfold Change.wrappers
  split <;> split <;> decide

def snippetPieces (around : Surroundings) (change : Change) : List (List Char) :=
  [if around.cutBefore then Comparison.ellipsis else [],around.before,
    if change.removed.isEmpty then [] else Wrapper.removal.around change.removed,
    if change.inserted.isEmpty then [] else Wrapper.addition.around change.inserted,around.after,
    if around.cutAfter then Comparison.ellipsis else []]

theorem snippet_pieces (c : Comparison) (count : Nat) (change : Change) : c.snippet count change =
    joinWith [' '] ((snippetPieces (c.surroundings change count) change).filter fun piece => !piece.isEmpty) := rfl

variable {c : Comparison} {change : Change}

theorem surroundings_quiet (held : ∀ word ∈ c.words, openings word = [] ∧ Detached word) (count : Nat) :
    (openings (c.surroundings change count).before = [] ∧ Detached (c.surroundings change count).before) ∧
      (openings (c.surroundings change count).after = [] ∧ Detached (c.surroundings change count).after) :=
  ⟨joinWith_quiet fun word member => held word (List.mem_of_mem_take (List.mem_of_mem_drop member)),
    joinWith_quiet fun word member => held word (List.mem_of_mem_take (List.mem_of_mem_drop member))⟩

theorem cut_quiet (cut : Bool) : openings (if cut then Comparison.ellipsis else []) = [] ∧
    Detached (if cut then Comparison.ellipsis else []) := by
  split
  · exact detached_plain (by simp [Comparison.ellipsis])
  · exact detached_plain List.not_mem_nil

theorem wrapped_openings (wrapper : Wrapper) {text : List Char} (quiet : openings text = [] ∧ Detached text) :
    openings (if text.isEmpty then [] else wrapper.around text) =
        ((if text.isEmpty then [] else [wrapper]).flatMap Wrapper.tags).map some ∧
      Detached (if text.isEmpty then [] else wrapper.around text) := by
  split
  · exact detached_plain List.not_mem_nil
  · rw [List.flatMap_singleton]
    exact openings_around wrapper quiet

theorem snippet_openings (held : ∀ word ∈ c.words, openings word = [] ∧ Detached word)
    (removed : openings change.removed = [] ∧ Detached change.removed)
    (inserted : openings change.inserted = [] ∧ Detached change.inserted) (count : Nat) :
    openings (c.snippet count change) = (change.wrappers.flatMap Wrapper.tags).map some := by
  obtain ⟨before,after⟩ := @surroundings_quiet c change held count
  have cut := cut_quiet (c.surroundings change count).cutBefore
  have rest := cut_quiet (c.surroundings change count).cutAfter
  have taken := wrapped_openings .removal removed
  have added := wrapped_openings .addition inserted
  have detached : ∀ piece ∈ snippetPieces (c.surroundings change count) change, Detached piece := by
    simp only [snippetPieces,List.forall_mem_cons]
    exact ⟨cut.2,before.2,taken.2,added.2,after.2,rest.2,fun _ none_ => absurd none_ List.not_mem_nil⟩
  rw [snippet_pieces,(openings_joinWith fun piece member => detached piece (List.mem_filter.mp member).1).1,
    openings_filled]
  simp only [snippetPieces,List.flatMap_cons,List.flatMap_nil,cut.1,before.1,taken.1,added.1,after.1,rest.1,
    List.nil_append,List.append_nil]
  rw [Change.wrappers,List.flatMap_append,List.map_append]

end Snippets

section Comparisons
variable {differ : List Unit → List Unit → List (Edit Unit)} {old new : String} {keepMarkup : Bool}

theorem compareBy_harmless (leads : Leads (differ (side keepMarkup old) (side keepMarkup new)) (side keepMarkup old)
    (side keepMarkup new)) (count : Nat) :
    ∀ snippet ∈ (compareBy differ old new keepMarkup).snippets count, Harmless snippet := by
  intro snippet member
  obtain ⟨change,listed,rfl⟩ := List.mem_map.mp member
  rw [compareBy] at listed ⊢
  obtain ⟨front,edit,rest,whole,here⟩ := mem_changesFrom.mp listed
  obtain ⟨kind,_,rfl⟩ := changeAt_edit here
  rw [whole] at leads
  have oldUnits : ∀ unit ∈ edit.oldItems, Unbracketed unit := fun unit inside =>
    units_unbracketed _ unit (by rw [← side,← leads.oldSide_eq]; simp [inside])
  have newUnits : ∀ unit ∈ edit.newItems, Unbracketed unit := fun unit inside =>
    units_unbracketed _ unit (by rw [← side,← leads.newSide_eq]; simp [inside])
  refine harmless_of_openings (wrappers_distinct _) (snippet_openings ?_ (visible_quiet oldUnits)
    (visible_quiet newUnits) count)
  exact words_quiet (units_unbracketed _)

end Comparisons

-- In every snippet of every comparison, whatever the documents hold and whether or not their review
-- markup is kept, markup opens only in the tags that the snippet itself puts around a change.
theorem snippets_harmless (old new : String) (keepMarkup : Bool) (count : Nat) :
    (∀ snippet ∈ (compare old new keepMarkup).snippets count, Harmless snippet) ∧
      ∀ differ : List Unit → List Unit → List (Edit Unit),
        Leads (differ (side keepMarkup old) (side keepMarkup new)) (side keepMarkup old) (side keepMarkup new) →
          ∀ snippet ∈ (compareBy differ old new keepMarkup).snippets count, Harmless snippet := by
  refine ⟨?_,fun differ leads => compareBy_harmless leads count⟩
  rw [compare_differ]
  exact compareBy_harmless (script_leads _ _) count

theorem snippet_harmless_brackets :
    "< !--x <del>y</del> <ins>< /z</ins>".toList ∈ (compare "<!--x y" "<!--x < /z" true).snippets 3 ∧
      Leads (script (side true "<!--x y") (side true "<!--x < /z")) (side true "<!--x y") (side true "<!--x < /z") ∧
      Harmless "< !--x <del>y</del> <ins>< /z</ins>".toList := by
  have listed : "< !--x <del>y</del> <ins>< /z</ins>".toList ∈ (compare "<!--x y" "<!--x < /z" true).snippets 3 := by
    decide +kernel
  have leads := script_leads (side true "<!--x y") (side true "<!--x < /z")
  have harmless := (snippets_harmless "<!--x y" "<!--x < /z" true 3).2 script leads
  rw [← compare_differ] at harmless
  exact ⟨listed,leads,harmless _ listed⟩

end Redline.Revision
