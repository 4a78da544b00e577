import Redline.Proofs.Reading

namespace Redline.Markup

open Redline.Text

section Marks

-- One token at the start of a text, and whether comments are still expected to close.
def readMarked (closes : Bool) : List Char → Option (Token × List Char) × Bool
  | '<' :: rest =>
      if closes && commentOpen.isPrefixOf rest then
        match readComment rest with
        | some found => (some found,true)
        | none => ((readDeclaration rest).or (readTag rest),false)
      else ((readDeclaration rest).or (readTag rest),closes)
  | _ => (none,closes)

def Closable (closes : Bool) (text : List Char) : Prop :=
  closes = false → ∀ inner, '<' :: commentOpen ++ inner <:+ text → splitFirst commentClose inner = none

theorem closable_true (text : List Char) : Closable true text := nofun

theorem Closable.of_suffix {closes : Bool} {text rest : List Char} (closable : Closable closes text)
    (later : rest <:+ text) : Closable closes rest :=
  fun marked inner place => closable marked inner (place.trans later)

theorem splitFirst_none {word text rest : List Char} (none_ : splitFirst word text = none)
    (later : rest <:+ text) : splitFirst word rest = none := by
  induction text with
  | nil => rwa [List.suffix_nil.mp later]
  | cons c text ih =>
      rcases List.suffix_cons_iff.mp later with rfl | inside
      · exact none_
      · unfold splitFirst at none_
        split at none_
        · cases none_
        · exact ih (Option.map_eq_none_iff.mp none_) inside

theorem readMarked_stray (closes : Bool) {text : List Char} (stray : ∀ rest, text ≠ '<' :: rest) :
    readMarked closes text = (none,closes) ∧ readMarkup text = none := by
  constructor
  · unfold readMarked
    split
    · exact absurd rfl (stray _)
    · rfl
  · unfold readMarkup
    split
    · exact absurd rfl (stray _)
    · rfl

theorem readComment_open (inner : List Char) : readComment (commentOpen ++ inner) =
    (splitFirst commentClose inner).map fun (inner,after) =>
      (.other ('<' :: commentOpen ++ inner ++ commentClose),after) := by
  have opens : commentOpen.isPrefixOf (commentOpen ++ inner) = true := rfl
  rw [readComment,if_pos opens]
  rfl

-- The mark spares a search and changes nothing else.
theorem readMarked_comment {closes : Bool} {inner : List Char} (closable : Closable closes ('<' :: (commentOpen ++ inner))) :
    (readMarked closes ('<' :: (commentOpen ++ inner))).1 = readMarkup ('<' :: (commentOpen ++ inner)) ∧
      Closable (readMarked closes ('<' :: (commentOpen ++ inner))).2 ('<' :: (commentOpen ++ inner)) := by
  have opens : commentOpen.isPrefixOf (commentOpen ++ inner) = true := rfl
  have missing_iff : readComment (commentOpen ++ inner) = none ↔ splitFirst commentClose inner = none := by
    rw [readComment_open,Option.map_eq_none_iff]
  cases comment : readComment (commentOpen ++ inner) with
  | some found =>
      have marked : closes = true := by
        rw [← Bool.not_eq_false]
        intro unmarked
        rw [missing_iff.mpr (closable unmarked inner List.suffix_rfl)] at comment
        cases comment
      simp only [readMarked,readMarkup,marked,opens,comment,Bool.and_self,if_true,Option.some_or]
      exact ⟨trivial,closable_true _⟩
  | none =>
      have unclosed : Closable false ('<' :: (commentOpen ++ inner)) := by
        intro _ behind place
        -- A later comment starts further on, so it has less to find a terminator in.
        have shorter := place.length_le
        simp only [List.length_cons,List.length_append] at shorter
        exact splitFirst_none (missing_iff.mp comment) (List.suffix_of_suffix_length_le
          ((List.suffix_append _ behind).trans place) (List.suffix_append ('<' :: commentOpen) inner) (by omega))
      simp only [readMarked,readMarkup,opens,comment,Bool.and_true,Option.none_or]
      cases closes with
      | false => exact ⟨rfl,closable⟩
      | true => exact ⟨rfl,unclosed⟩

theorem readMarked_spec {closes : Bool} {text : List Char} (closable : Closable closes text) :
    (readMarked closes text).1 = readMarkup text ∧ Closable (readMarked closes text).2 text := by
  by_cases bracket : ∃ rest, text = '<' :: rest
  · obtain ⟨rest,rfl⟩ := bracket
    by_cases opens : commentOpen.isPrefixOf rest = true
    · obtain ⟨inner,rfl⟩ := List.isPrefixOf_iff_prefix.mp opens
      exact readMarked_comment closable
    · have none_ : readComment rest = none := by rw [readComment,if_neg opens]
      simp only [readMarked,readMarkup,opens,none_,Bool.and_false,Bool.false_eq_true,if_false,Option.none_or]
      exact ⟨trivial,closable⟩
  · obtain ⟨marked,read⟩ := readMarked_stray closes fun rest eq => bracket ⟨rest,eq⟩
    rw [marked,read]
    exact ⟨rfl,closable⟩

end Marks

section Loop

-- The loop: `pending` is the text read since the last token, last character first.
inductive Scans : Bool → List Char → List Char → List Token → Prop where
  | done {closes : Bool} {pending : List Char} : Scans closes pending [] (textToken pending.reverse)
  | stray {closes closes' : Bool} {pending rest : List Char} {c : Char} {tokens : List Token} :
      readMarked closes (c :: rest) = (none,closes') → Scans closes' (c :: pending) rest tokens →
      Scans closes pending (c :: rest) tokens
  | markup {closes closes' : Bool} {pending rest after : List Char} {c : Char} {t : Token} {tokens : List Token} :
      readMarked closes (c :: rest) = (some (t,after),closes') →
      Scans closes' [] (rawTextAfter t after).2 tokens →
      Scans closes pending (c :: rest) (textToken pending.reverse ++ t :: textToken (rawTextAfter t after).1 ++ tokens)

theorem after_suffix {text after : List Char} {t : Token} (read : readMarkup text = some (t,after)) :
    (rawTextAfter t after).2 <:+ text := by
  have behind : (rawTextAfter t after).2 <:+ after := ⟨_,rawTextAfter_source t after⟩
  exact behind.trans ⟨t.raw,(readMarkup_source read).1.symm⟩

theorem scans_tokensFrom {closes : Bool} {pending text : List Char} (closable : Closable closes text) :
    Scans closes pending text (tokensFrom pending text) := by
  induction pending,text using reading_induction generalizing closes with
  | done pending => exact .done
  | stray pending c rest stray ih =>
      obtain ⟨same,kept⟩ := readMarked_spec closable
      rw [tokensFrom_stray pending stray]
      exact .stray (Prod.ext (same.trans stray) rfl) (ih (kept.of_suffix (List.suffix_cons c rest)))
  | markup pending c rest t after read ih =>
      obtain ⟨same,kept⟩ := readMarked_spec closable
      rw [tokensFrom_markup pending read]
      exact .markup (Prod.ext (same.trans read) rfl) (ih (kept.of_suffix (after_suffix read)))

theorem scans_iff {closes : Bool} {pending text : List Char} (closable : Closable closes text) (tokens : List Token) :
    Scans closes pending text tokens ↔ tokens = tokensFrom pending text := by
  constructor
  · intro scans
    induction scans with
    | done => rfl
    | stray read _ ih =>
        obtain ⟨same,kept⟩ := readMarked_spec closable
        rw [read] at same kept
        rw [tokensFrom_stray _ same.symm]
        exact ih (kept.of_suffix (List.suffix_cons _ _))
    | markup read _ ih =>
        obtain ⟨same,kept⟩ := readMarked_spec closable
        rw [read] at same kept
        rw [tokensFrom_markup _ same.symm,ih (kept.of_suffix (after_suffix same.symm))]
  · rintro rfl
    exact scans_tokensFrom closable

theorem textToken_filled {content : List Char} : ∀ t ∈ textToken content, t.raw ≠ [] := by
  cases content with
  | nil => exact nofun
  | cons c rest => simp [textToken,Token.raw]

theorem tokensFrom_filled (pending text : List Char) : ∀ t ∈ tokensFrom pending text, t.raw ≠ [] := by
  induction pending,text using reading_induction with
  | done pending => exact textToken_filled
  | stray pending c rest stray ih => rwa [tokensFrom_stray pending stray]
  | markup pending c rest t after read ih =>
      obtain ⟨_,inside,raw⟩ := readMarkup_source read
      rw [tokensFrom_markup pending read]
      simp only [List.mem_append,List.mem_cons]
      rintro u ((before | rfl | held) | later)
      · exact textToken_filled u before
      · simp [raw]
      · exact textToken_filled u held
      · exact ih u later

end Loop

end Redline.Markup
