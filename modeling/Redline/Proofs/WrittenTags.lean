import Mathlib.Data.List.TakeWhile
import Redline.Proofs.EmbedTags

namespace Redline.Markup

open Redline.Text
open Redline.Format (ne_of_holds)
open Redline.Usage (QuotedAttribute ascii_each name_solid quote_solid dropWhile_run takeWhile_run
  blank_bare name_bare gap_stops quoted_run ascii_below letter_ascii false_of_apart)

section Grammar

-- An attribute that a tag can hold: outside quotes no tag runs across a bracket.
structure TagAttribute extends QuotedAttribute where
  plain : '<' ∉ name

-- A tag from its name to its end. White space and a slash may stand behind the attributes.
structure WrittenTag where
  letter : Char
  name : List Char
  attributes : List TagAttribute
  gap : List Char
  slash : Bool
  named : isLetter letter = true ∧ name.all isTagNameChar = true
  blank : gap.all isBlank = true

def TagAttribute.part (a : TagAttribute) : Attribute := ⟨a.lead,a.name,a.onward [],a.value⟩

def attributesText (attributes : List TagAttribute) : List Char := attributes.flatMap fun a => a.raw

namespace WrittenTag

def written (tag : WrittenTag) : List Char := tag.letter :: tag.name

def tail (tag : WrittenTag) : List Char := tag.gap ++ if tag.slash then ['/'] else []

def inside (tag : WrittenTag) : List Char := attributesText tag.attributes ++ tag.tail

def startTag (tag : WrittenTag) : StartTag :=
  ⟨tag.written,(tag.attributes.map fun a => BodyPart.attr a.part) ++
    if tag.tail.isEmpty then [] else [.filler tag.tail]⟩

end WrittenTag

end Grammar

section Attributes

theorem readValue_quoted {q : Char} {value : List Char} (quote : isQuote q = true) (free : q ∉ value)
    (rest : List Char) : readValue (q :: (value ++ q :: rest)) = some (q :: (value ++ [q]),value,rest) := by
  obtain ⟨held,left⟩ := quoted_run free rest
  simp only [readValue,if_pos quote,left,held]
  rfl

theorem readTail_onward (a : TagAttribute) (rest : List Char) :
    readTail (a.onward rest) = (a.onward [],a.value,rest) := by
  have sign : isBlank '=' = false := rfl
  have solid := quote_solid a.quoted
  simp only [readTail,QuotedAttribute.onward,dropWhile_run a.blank.1 sign,takeWhile_run a.blank.1 sign,
    dropWhile_run a.blank.2 solid,takeWhile_run a.blank.2 solid,readValue_quoted a.quoted a.free rest,
    List.append_assoc,List.cons_append]

theorem readPart_attribute (a : TagAttribute) (rest : List Char) : readPart (a.raw ++ rest) = (.attr a.part,rest) := by
  obtain ⟨filled,chars⟩ := a.named
  obtain ⟨d,more,ends,other⟩ := gap_stops a.blank.1 (a.after ++ a.quote :: (a.value ++ a.quote :: rest))
  have onward : a.onward rest = d :: more := ends
  have tail := readTail_onward a rest
  rw [a.raw_append]
  rw [onward] at tail ⊢
  cases name : a.name with
  | nil => exact absurd name filled
  | cons c word =>
      rw [name] at chars
      have first : isAttributeNameChar c = true := List.all_eq_true.mp chars c List.mem_cons_self
      have solid := name_solid first
      have written : ((c :: word) ++ d :: more).takeWhile isAttributeNameChar = c :: word := takeWhile_run chars other
      have behind : ((c :: word) ++ d :: more).dropWhile isAttributeNameChar = d :: more := dropWhile_run chars other
      rw [List.cons_append] at written behind ⊢
      simp only [readPart,dropWhile_run a.separated.2 solid,takeWhile_run a.separated.2 solid,if_pos first,written,
        behind,tail,TagAttribute.part,name]

theorem readPart_tail (tag : WrittenTag) : readPart tag.tail = (.filler tag.tail,[]) := by
  unfold WrittenTag.tail
  cases tag.slash with
  | false =>
      have none_ : tag.gap.dropWhile isBlank = [] := List.dropWhile_eq_nil_iff.mpr (List.all_eq_true.mp tag.blank)
      have all : tag.gap.takeWhile isBlank = tag.gap := List.takeWhile_eq_self_iff.mpr (List.all_eq_true.mp tag.blank)
      simp only [Bool.false_eq_true,if_false,List.append_nil,readPart,none_,all]
  | true =>
      have solid : isBlank '/' = false := rfl
      have other : isAttributeNameChar '/' = false := rfl
      simp [readPart,dropWhile_run tag.blank solid,takeWhile_run tag.blank solid,other]

theorem raw_filled (a : TagAttribute) : a.raw ≠ [] := by
  intro empty
  exact a.separated.1 (List.append_eq_nil_iff.mp empty).1

theorem readPartsWithin_filled {fuel : Nat} {text rest : List Char} {part : BodyPart} (filled : text ≠ [])
    (read : readPart text = (part,rest)) : readPartsWithin (fuel + 1) text = part :: readPartsWithin fuel rest := by
  cases text with
  | nil => exact absurd rfl filled
  | cons c text => simp only [readPartsWithin,read]

theorem readPartsWithin_attributes (attributes : List TagAttribute) (rest : List Char) {fuel : Nat}
    (enough : (attributesText attributes ++ rest).length ≤ fuel) :
    ∃ left, rest.length ≤ left ∧ readPartsWithin fuel (attributesText attributes ++ rest) =
      (attributes.map fun a => BodyPart.attr a.part) ++ readPartsWithin left rest := by
  induction attributes generalizing fuel with
  | nil => exact ⟨fuel,enough,rfl⟩
  | cons a attributes ih =>
      have whole : attributesText (a :: attributes) ++ rest = a.raw ++ (attributesText attributes ++ rest) := by
        simp [attributesText]
      have size := List.length_pos_iff.mpr (raw_filled a)
      rw [whole,List.length_append] at enough
      obtain ⟨fuel,rfl⟩ : ∃ less, fuel = less + 1 := ⟨fuel - 1,by omega⟩
      have less : (attributesText attributes ++ rest).length ≤ fuel := by omega
      obtain ⟨left,within,further⟩ := ih less
      have filled : a.raw ++ (attributesText attributes ++ rest) ≠ [] := by simp [raw_filled a]
      refine ⟨left,within,?_⟩
      rw [whole,readPartsWithin_filled filled (readPart_attribute a _),further]
      rfl

theorem readParts_inside (tag : WrittenTag) : readParts tag.inside = tag.startTag.parts := by
  obtain ⟨left,within,parts⟩ := readPartsWithin_attributes tag.attributes tag.tail (Nat.le_refl _)
  rw [readParts,WrittenTag.inside,parts,WrittenTag.startTag]
  congr 1
  by_cases filled : tag.tail = []
  · rw [filled]
    cases left <;> rfl
  · have size := List.length_pos_iff.mpr filled
    obtain ⟨left,rfl⟩ : ∃ less, left = less + 1 := ⟨left - 1,by omega⟩
    rw [readPartsWithin_filled filled (readPart_tail tag),if_neg (by simpa using filled)]
    cases left <;> rfl

end Attributes

section Ends

def Bare (text : List Char) : Prop := ∀ c ∈ text, isQuote c = false ∧ c ≠ '>' ∧ c ≠ '<'

variable {rest inside after : List Char}

theorem splitTag_bare {text : List Char} (bare : Bare text) (ends : splitTag none rest = some (inside,after)) :
    splitTag none (text ++ rest) = some (text ++ inside,after) := by
  induction text with
  | nil => exact ends
  | cons c text ih =>
      obtain ⟨⟨quote,close,open_⟩,others⟩ := List.forall_mem_cons.mp bare
      simp only [List.cons_append,splitTag,if_neg close,if_neg open_,quote,Bool.false_eq_true,if_false,ih others,
        Option.map_some]

theorem splitTag_value {q : Char} {value : List Char} (free : q ∉ value)
    (ends : splitTag none rest = some (inside,after)) :
    splitTag (some q) (value ++ q :: rest) = some (value ++ q :: inside,after) := by
  induction value with
  | nil => simp only [List.nil_append,splitTag,if_true,ends,Option.map_some]
  | cons c value ih =>
      obtain ⟨other,free⟩ := not_or.mp fun here => free (List.mem_cons.mpr here)
      simp only [List.cons_append,splitTag,if_neg (Ne.symm other),ih free,Option.map_some]

theorem blank_open {c : Char} (blank : isBlank c = true) : isQuote c = false ∧ c ≠ '>' ∧ c ≠ '<' :=
  ⟨(blank_bare blank).1,(blank_bare blank).2,ne_of_holds blank rfl⟩

theorem bare_name (a : TagAttribute) : Bare (a.lead ++ (a.name ++ (a.before ++ '=' :: a.after))) := by
  unfold Bare
  simp only [List.mem_append,List.mem_cons]
  rintro c (member | member | member | rfl | member)
  · exact blank_open (List.all_eq_true.mp a.separated.2 c member)
  · obtain ⟨quote,close⟩ := name_bare (List.all_eq_true.mp a.named.2 c member)
    exact ⟨quote,close,fun same => a.plain (same ▸ member)⟩
  · exact blank_open (List.all_eq_true.mp a.blank.1 c member)
  · decide
  · exact blank_open (List.all_eq_true.mp a.blank.2 c member)

theorem splitTag_attribute (a : TagAttribute) (ends : splitTag none rest = some (inside,after)) :
    splitTag none (a.raw ++ rest) = some (a.raw ++ inside,after) := by
  have quoted : splitTag none (a.quote :: (a.value ++ a.quote :: rest)) =
      some (a.quote :: (a.value ++ a.quote :: inside),after) := by
    have close : a.quote ≠ '>' := ne_of_holds a.quoted rfl
    have open_ : a.quote ≠ '<' := ne_of_holds a.quoted rfl
    simp only [splitTag,if_neg close,if_neg open_,a.quoted,if_true,splitTag_value a.free ends,Option.map_some]
  have front : ∀ text : List Char, a.raw ++ text =
      a.lead ++ (a.name ++ (a.before ++ '=' :: a.after)) ++ a.quote :: (a.value ++ a.quote :: text) := fun text => by
    simp [QuotedAttribute.raw,QuotedAttribute.onward]
  rw [front,front]
  exact splitTag_bare (bare_name a) quoted

theorem splitTag_attributes (attributes : List TagAttribute) (ends : splitTag none rest = some (inside,after)) :
    splitTag none (attributesText attributes ++ rest) = some (attributesText attributes ++ inside,after) := by
  induction attributes with
  | nil => exact ends
  | cons a attributes ih =>
      have whole : attributesText (a :: attributes) = a.raw ++ attributesText attributes := by simp [attributesText]
      rw [whole,List.append_assoc,List.append_assoc]
      exact splitTag_attribute a ih

theorem bare_tail (tag : WrittenTag) : Bare tag.tail := by
  have gap : Bare tag.gap := fun c member => blank_open (List.all_eq_true.mp tag.blank c member)
  have slash : Bare ['/'] := List.forall_mem_singleton.mpr (by decide)
  intro c member
  rcases List.mem_append.mp member with here | here
  · exact gap c here
  · split at here
    · exact slash c here
    · exact nomatch here

theorem splitTag_inside (tag : WrittenTag) (rest : List Char) :
    splitTag none (tag.inside ++ '>' :: rest) = some (tag.inside,rest) := by
  have ends : splitTag none ('>' :: rest) = some ([],rest) := rfl
  have whole := splitTag_attributes tag.attributes (splitTag_bare (bare_tail tag) ends)
  rwa [List.append_nil,← List.append_assoc] at whole

end Ends

section Names

theorem tagName_ascii {c : Char} (name : isTagNameChar c = true) : c.toNat < 128 := by
  simp only [isTagNameChar,Bool.or_eq_true,Bool.and_eq_true,decide_eq_true_eq] at name
  rcases name with ((((letter | ⟨_,digit⟩) | rfl) | rfl) | rfl) | rfl
  · exact letter_ascii letter
  · exact ascii_below digit (by decide)
  all_goals decide

theorem blank_noTagName {c : Char} (blank : isBlank c = true) : isTagNameChar c = false :=
  false_of_apart (fun name => ascii_each (P := fun c => isTagNameChar c = true → isBlank c = false) (by decide)
    (tagName_ascii name) name) blank

theorem inside_stops (tag : WrittenTag) (rest : List Char) :
    ∃ d more, tag.inside ++ '>' :: rest = d :: more ∧ isTagNameChar d = false := by
  rw [WrittenTag.inside,WrittenTag.tail]
  cases tag.attributes with
  | cons a attributes =>
      obtain ⟨filled,blanks⟩ := a.separated
      cases lead : a.lead with
      | nil => exact absurd lead filled
      | cons b lead' =>
          rw [lead] at blanks
          have blank : isBlank b = true := List.all_eq_true.mp blanks b List.mem_cons_self
          exact ⟨b,_,by simp only [attributesText,List.flatMap_cons,QuotedAttribute.raw,lead,List.cons_append]; rfl,
            blank_noTagName blank⟩
  | nil =>
      cases gap : tag.gap with
      | cons b gap' =>
          have blank : isBlank b = true := List.all_eq_true.mp tag.blank b (by simp [gap])
          exact ⟨b,_,rfl,blank_noTagName blank⟩
      | nil =>
          cases tag.slash with
          | true => exact ⟨'/',_,rfl,rfl⟩
          | false => exact ⟨'>',_,rfl,rfl⟩

theorem readName_written (tag : WrittenTag) (rest : List Char) :
    readName (tag.written ++ (tag.inside ++ '>' :: rest)) = some (tag.written,tag.inside ++ '>' :: rest) := by
  obtain ⟨d,more,ends,other⟩ := inside_stops tag rest
  have first : isTagNameChar tag.letter = true := by simp [isTagNameChar,tag.named.1]
  have chars : tag.written.all isTagNameChar = true := by simp [WrittenTag.written,first,tag.named.2]
  have taken : (tag.written ++ d :: more).takeWhile isTagNameChar = tag.written := takeWhile_run chars other
  have left : (tag.written ++ d :: more).dropWhile isTagNameChar = d :: more := dropWhile_run chars other
  rw [ends]
  simp only [WrittenTag.written,List.cons_append] at taken left ⊢
  simp only [readName,if_pos tag.named.1,taken,left]

theorem readTag_opening (tag : WrittenTag) (rest : List Char) :
    readTag (tag.written ++ (tag.inside ++ '>' :: rest)) = some (.opening tag.startTag,rest) := by
  have other : tag.letter ≠ '/' := ne_of_holds tag.named.1 rfl
  have name := readName_written tag rest
  simp only [WrittenTag.written,List.cons_append] at name ⊢
  unfold readTag
  split
  · rename_i same
    exact absurd (List.cons.inj same).1 other
  · simp only [name,Option.bind_eq_bind,Option.bind_some,splitTag_inside,readParts_inside]
    rfl

theorem readTag_closing (tag : WrittenTag) (rest : List Char) :
    readTag ('/' :: (tag.written ++ (tag.inside ++ '>' :: rest))) = some (.closing tag.written tag.inside,rest) := by
  simp only [readTag,readName_written,Option.bind_eq_bind,Option.bind_some,splitTag_inside]
  rfl

end Names

end Redline.Markup
