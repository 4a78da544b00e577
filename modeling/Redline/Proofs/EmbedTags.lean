import Redline.Proofs.EmbedFields
import Redline.Proofs.Reading

namespace Redline.Usage

open Redline.Text
open Redline.Markup (isLetter isQuote isAttributeNameChar)
open Redline.Format (all_absent ne_of_holds)

section Grammar

-- An attribute with a quoted value and the white space before it.
structure QuotedAttribute where
  lead : List Char
  name : List Char
  before : List Char
  after : List Char
  quote : Char
  value : List Char
  separated : lead ≠ [] ∧ lead.all isBlank = true
  named : name ≠ [] ∧ name.all isAttributeNameChar = true
  blank : before.all isBlank = true ∧ after.all isBlank = true
  quoted : isQuote quote = true
  free : quote ∉ value

namespace QuotedAttribute

def onward (a : QuotedAttribute) (rest : List Char) : List Char :=
  a.before ++ '=' :: (a.after ++ a.quote :: (a.value ++ a.quote :: rest))

def raw (a : QuotedAttribute) : List Char := a.lead ++ (a.name ++ a.onward [])

def field? (a : QuotedAttribute) : Option EmbedField :=
  if lower a.name = EmbedField.type.word then some .type
  else if lower a.name = EmbedField.uuid.word then some .uuid
  else none

def row? (a : QuotedAttribute) : Option (EmbedField × List Char) := a.field?.map fun field => (field,a.value)

theorem field?_iff (a : QuotedAttribute) (field : EmbedField) : a.field? = some field ↔ lower a.name = field.word := by
  unfold field?
  split
  · rename_i type
    rw [type]
    cases field <;> decide
  · rename_i type
    split
    · rename_i uuid
      rw [uuid]
      cases field <;> decide
    · rename_i uuid
      refine iff_of_false (fun none_ => nomatch none_) ?_
      cases field with
      | type => exact type
      | uuid => exact uuid

theorem raw_append (a : QuotedAttribute) (rest : List Char) :
    a.raw ++ rest = a.lead ++ (a.name ++ a.onward rest) := by
  simp [raw,onward]

end QuotedAttribute

end Grammar

section Attributes

-- Nothing in the value is taken for a data attribute: only `>` may follow the name and an equals sign.
def Quiet (value : List Char) : Prop :=
  ∀ field behind tail, behind <:+ value → Announces field behind tail → (tail.dropWhile isBlank).head? = some '>'

theorem announces_append {field : EmbedField} {text tail : List Char} (more : List Char)
    (announces : Announces field text tail) : Announces field (text ++ more) (tail ++ more) := by
  obtain ⟨c,word,gap,rfl,parts⟩ := announces
  exact ⟨c,word,gap,by simp,parts⟩

theorem announces_stop {field : EmbedField} {text rest tail : List Char} {q : Char} (quote : isQuote q = true)
    (announces : Announces field (text ++ q :: rest) tail) :
    ∃ tail', tail = tail' ++ q :: rest ∧ Announces field text tail' := by
  obtain ⟨c,word,gap,eq,blank,same,blanks⟩ := announces
  have solid := quote_solid quote
  have absent : q ∉ c :: (word ++ (gap ++ ['='])) := by
    have first : q ≠ c := (ne_of_holds blank solid).symm
    have name : q ∉ word := all_absent (quote_noName quote) (word_nameChars same)
    have space : q ∉ gap := all_absent solid blanks
    have sign : q ≠ '=' := by
      rintro rfl
      cases quote
    simp [first,name,space,sign]
  have begins : c :: (word ++ (gap ++ ['='])) <+: text ++ q :: rest := ⟨tail,by rw [eq]; simp⟩
  obtain ⟨tail',rfl⟩ := (prefix_stop absent).mp begins
  refine ⟨tail',?_,c,word,gap,by simp,blank,same,blanks⟩
  have whole : c :: (word ++ (gap ++ ['='])) ++ (tail' ++ q :: rest) = c :: (word ++ (gap ++ ['='])) ++ tail := by
    rw [← List.append_assoc,eq]
    simp
  exact (List.append_cancel_left whole).symm

theorem quiet_past {value rest : List Char} {q : Char} (quote : isQuote q = true) (quiet : Quiet value) :
    fieldsIn (value ++ q :: rest) = fieldsIn (q :: rest) := by
  refine fieldsIn_past fun behind later _ => ?_
  rw [Option.eq_none_iff_forall_ne_some]
  rintro ⟨field,found,after⟩ read
  obtain ⟨tail,announces,held⟩ := fieldAt?_iff.mp read
  obtain ⟨tail,rfl,inside⟩ := announces_stop quote announces
  obtain ⟨more,ends⟩ := List.head?_eq_some_iff.mp (quiet field behind tail later inside)
  have filled : (tail.dropWhile isBlank).isEmpty = false := by rw [ends]; rfl
  rw [List.dropWhile_append,filled,if_neg Bool.false_ne_true,ends] at held
  cases held

theorem quoted_run {q : Char} {value : List Char} (free : q ∉ value) (rest : List Char) :
    (value ++ q :: rest).takeWhile (· ≠ q) = value ∧ (value ++ q :: rest).dropWhile (· ≠ q) = q :: rest := by
  have inner : value.all (· ≠ q) = true := by
    refine List.all_eq_true.mpr fun c member => decide_eq_true ?_
    rintro rfl
    exact free member
  exact ⟨takeWhile_run inner (by simp),dropWhile_run inner (by simp)⟩

theorem embedValue?_quoted {q : Char} {value : List Char} (quote : isQuote q = true) (free : q ∉ value)
    (rest : List Char) : embedValue? (q :: (value ++ q :: rest)) = some (value,rest) := by
  have quote' : q = '"' ∨ q = '\'' := by simpa [isQuote] using quote
  obtain ⟨held,left⟩ := quoted_run free rest
  simp only [embedValue?,if_pos quote',left,held]

theorem gap_stops {gap : List Char} (blanks : gap.all isBlank = true) (tail : List Char) :
    ∃ d more, gap ++ '=' :: tail = d :: more ∧ isAttributeNameChar d = false := by
  cases gap with
  | nil => exact ⟨'=',tail,rfl,rfl⟩
  | cons d gap =>
      exact ⟨d,gap ++ '=' :: tail,rfl,blank_noName (List.all_eq_true.mp blanks d List.mem_cons_self)⟩

theorem name_alone {name word before gap tail rest : List Char} (named : name.all isAttributeNameChar = true)
    (named' : word.all isAttributeNameChar = true) (blanks : before.all isBlank = true)
    (blanks' : gap.all isBlank = true) (eq : name ++ (before ++ '=' :: rest) = word ++ (gap ++ '=' :: tail)) :
    name = word := by
  obtain ⟨d,more,ends,other⟩ := gap_stops blanks rest
  obtain ⟨d',more',ends',other'⟩ := gap_stops blanks' tail
  have first := congrArg (List.takeWhile isAttributeNameChar) eq
  rwa [ends,ends',takeWhile_run named other,takeWhile_run named' other'] at first

theorem fieldAt?_data {a : QuotedAttribute} {field : EmbedField} {b : Char} (kind : a.field? = some field)
    (blank : isBlank b = true) (rest : List Char) :
    fieldAt? (b :: (a.name ++ a.onward rest)) = some (field,a.value,rest) := by
  have announces : Announces field (b :: (a.name ++ a.onward rest))
      (a.after ++ a.quote :: (a.value ++ a.quote :: rest)) :=
    ⟨b,a.name,a.before,rfl,blank,(a.field?_iff field).mp kind,a.blank.1⟩
  have held := embedValue?_quoted a.quoted a.free rest
  rw [← dropWhile_run a.blank.2 (quote_solid a.quoted)] at held
  exact fieldAt?_iff.mpr ⟨_,announces,held⟩

theorem fieldAt?_other {a : QuotedAttribute} (kind : a.field? = none) (b : Char) (rest : List Char) :
    fieldAt? (b :: (a.name ++ a.onward rest)) = none := by
  rw [Option.eq_none_iff_forall_ne_some]
  rintro ⟨field,value,after⟩ read
  obtain ⟨tail,⟨c,word,gap,eq,_,same,blanks⟩,_⟩ := fieldAt?_iff.mp read
  have alone := name_alone a.named.2 (word_nameChars same) a.blank.1 blanks (List.cons.inj eq).2
  rw [← alone,← a.field?_iff,kind] at same
  cases same

theorem fieldsIn_onward {a : QuotedAttribute} (quiet : Quiet a.value) (rest : List Char) :
    fieldsIn (a.onward rest) = fieldsIn rest := by
  have quote (rest : List Char) : fieldsIn (a.quote :: rest) = fieldsIn rest :=
    fieldsIn_stray (fieldAt?_solid (quote_solid a.quoted))
  have sign (rest : List Char) : fieldsIn ('=' :: rest) = fieldsIn rest := fieldsIn_stray (fieldAt?_solid rfl)
  rw [QuotedAttribute.onward,fieldsIn_blanks a.blank.1 rfl,sign,fieldsIn_blanks a.blank.2 (quote_noName a.quoted),
    quote,quiet_past a.quoted quiet,quote]

-- An attribute is read as it is written; of others than data attributes the value must be quiet.
theorem fieldsIn_attribute (a : QuotedAttribute) (quiet : a.field? = none → Quiet a.value) (rest : List Char) :
    fieldsIn (a.raw ++ rest) = a.row?.toList ++ fieldsIn rest := by
  obtain ⟨lead,b,eq⟩ : ∃ lead b, a.lead = lead ++ [b] := by
    rcases List.eq_nil_or_concat a.lead with none_ | some_
    · exact absurd none_ a.separated.1
    · simpa using some_
  obtain ⟨blanks,blank⟩ : lead.all isBlank = true ∧ isBlank b = true := by
    have all := a.separated.2
    rw [eq,List.all_append,Bool.and_eq_true] at all
    exact ⟨all.1,by simpa using all.2⟩
  rw [a.raw_append,eq,List.append_assoc,List.singleton_append,fieldsIn_blanks blanks (blank_noName blank)]
  cases kind : a.field? with
  | some field =>
      rw [fieldsIn_found (fieldAt?_data kind blank rest),QuotedAttribute.row?,kind]
      rfl
  | none =>
      have solid : ∀ c ∈ a.name, isBlank c = false := fun c member =>
        name_solid (List.all_eq_true.mp a.named.2 c member)
      rw [fieldsIn_stray (fieldAt?_other kind b rest),fieldsIn_solid solid,fieldsIn_onward (quiet kind),
        QuotedAttribute.row?,kind]
      rfl

theorem embedValue?_some {d : Char} {more : List Char} (solid : isBlank d = false) (other : d ≠ '>')
    (closes : isQuote d = true → d ∈ more) : ∃ held, embedValue? (d :: more) = some held := by
  simp only [embedValue?]
  split
  · rename_i quote
    split
    · exact ⟨_,rfl⟩
    · rename_i none_
      have member := closes (by simpa [isQuote] using quote)
      have whole := List.takeWhile_append_dropWhile (p := (· ≠ d)) (l := more)
      rw [none_,List.append_nil] at whole
      rw [← whole] at member
      have absent := List.all_eq_true.mp List.all_takeWhile d member
      simp at absent
  · rename_i bare
    rw [not_or] at bare
    rw [if_neg (by simp [solid,bare,other])]
    exact ⟨_,rfl⟩

-- From any other value something is taken, if quotes of both kinds follow.
theorem fieldsIn_loud (a : QuotedAttribute) (loud : ¬Quiet a.value) {rest : List Char}
    (both : '"' ∈ rest ∧ '\'' ∈ rest) : fieldsIn (a.raw ++ rest) ≠ [] := by
  intro empty
  obtain ⟨field,behind,tail,later,announces,ends⟩ : ∃ field behind tail, behind <:+ a.value ∧
      Announces field behind tail ∧ (tail.dropWhile isBlank).head? ≠ some '>' := by
    simpa [Quiet] using loud
  have member : ∀ q, isQuote q = true → q ∈ rest := fun q quote => by
    have both' : q = '"' ∨ q = '\'' := by simpa [isQuote] using quote
    rcases both' with rfl | rfl
    · exact both.1
    · exact both.2
  obtain ⟨d,more,left,solid,other,closes⟩ : ∃ d more, (tail ++ a.quote :: rest).dropWhile isBlank = d :: more ∧
      isBlank d = false ∧ d ≠ '>' ∧ (isQuote d = true → d ∈ more) := by
    rw [List.dropWhile_append]
    cases inner : tail.dropWhile isBlank with
    | nil =>
        refine ⟨a.quote,rest,?_,quote_solid a.quoted,?_,member a.quote⟩
        · exact List.dropWhile_cons_of_neg (by simp [quote_solid a.quoted])
        · rintro eq
          have quoted := a.quoted
          rw [eq] at quoted
          cases quoted
    | cons d more =>
        rw [inner] at ends
        have other : d ≠ '>' := fun eq => ends (congrArg some eq)
        refine ⟨d,more ++ a.quote :: rest,rfl,Markup.dropWhile_stop inner,other,fun quote => ?_⟩
        simp [member d quote]
  obtain ⟨⟨value,after⟩,held⟩ := embedValue?_some solid other closes
  rw [← left] at held
  have found := fieldAt?_iff.mpr ⟨_,announces_append (a.quote :: rest) announces,held⟩
  have place : behind ++ a.quote :: rest <:+ a.raw ++ rest := by
    obtain ⟨front,eq⟩ := later
    rw [a.raw_append,QuotedAttribute.onward,← eq]
    exact ⟨a.lead ++ (a.name ++ (a.before ++ '=' :: (a.after ++ a.quote :: front))),by simp⟩
  have filled : ∀ text found after, readField text = some (found,after) → found ≠ [] := by
    intro text found after read
    obtain ⟨_,_,eq⟩ := Option.map_eq_some_iff.mp read
    cases eq
    exact List.cons_ne_nil _ _
  have none_ := scan_empty readField_shortens filled empty _ place
  rw [readField,found] at none_
  cases none_

end Attributes

section Tags

structure QuotedTag where
  letter : Char
  name : List Char
  attributes : List QuotedAttribute
  tail : List Char
  named : isLetter letter = true ∧ name.all isAttributeNameChar = true
  ended : tail.all (fun c => isBlank c || c = '/') = true

namespace QuotedTag

def inside (tag : QuotedTag) : List Char :=
  tag.letter :: (tag.name ++ (tag.attributes.flatMap QuotedAttribute.raw ++ tag.tail))

def rows (tag : QuotedTag) : List (EmbedField × List Char) := tag.attributes.filterMap QuotedAttribute.row?

-- Of the attributes other than data attributes no value looks like one.
def Tidy (tag : QuotedTag) : Prop := ∀ a ∈ tag.attributes, a.field? = none → Quiet a.value

end QuotedTag

theorem fieldsIn_attributes {attributes : List QuotedAttribute}
    (quiet : ∀ a ∈ attributes, a.field? = none → Quiet a.value) (rest : List Char) :
    fieldsIn (attributes.flatMap QuotedAttribute.raw ++ rest) =
      attributes.filterMap QuotedAttribute.row? ++ fieldsIn rest := by
  induction attributes with
  | nil => rfl
  | cons a attributes ih =>
      obtain ⟨here,others⟩ := List.forall_mem_cons.mp quiet
      rw [List.flatMap_cons,List.append_assoc,fieldsIn_attribute a here,ih others]
      cases row : a.row? <;> simp [row]

theorem fieldsIn_name (tag : QuotedTag) (rest : List Char) :
    fieldsIn (tag.letter :: (tag.name ++ rest)) = fieldsIn rest := by
  have letter : isBlank tag.letter = false := name_solid (letter_name tag.named.1)
  have name : ∀ c ∈ tag.name, isBlank c = false := fun c member =>
    name_solid (List.all_eq_true.mp tag.named.2 c member)
  rw [fieldsIn_stray (fieldAt?_solid letter),fieldsIn_solid name]

theorem fieldsIn_tail (tag : QuotedTag) : fieldsIn tag.tail = [] := by
  have absent : '=' ∉ tag.tail := all_absent (by decide) tag.ended
  rw [← List.append_nil tag.tail]
  refine fieldsIn_past fun behind later _ => ?_
  rw [List.append_nil,Option.eq_none_iff_forall_ne_some]
  rintro ⟨field,value,after⟩ read
  obtain ⟨tail,⟨c,word,gap,rfl,_⟩,_⟩ := fieldAt?_iff.mp read
  exact absent (later.subset (by simp))

theorem fieldsIn_split {tag : QuotedTag} {front behind : List QuotedAttribute} (split : tag.attributes = front ++ behind)
    (quiet : ∀ a ∈ front, a.field? = none → Quiet a.value) : fieldsIn tag.inside =
      front.filterMap QuotedAttribute.row? ++ fieldsIn (behind.flatMap QuotedAttribute.raw ++ tag.tail) := by
  rw [QuotedTag.inside,fieldsIn_name,split,List.flatMap_append,List.append_assoc,fieldsIn_attributes quiet]

theorem fieldsIn_inside {tag : QuotedTag} (tidy : tag.Tidy) : fieldsIn tag.inside = tag.rows := by
  rw [fieldsIn_split (List.append_nil tag.attributes).symm tidy,List.flatMap_nil,List.nil_append,fieldsIn_tail,
    List.append_nil]
  rfl

theorem untilTagEnd_bare {text rest inside after : List Char} (bare : ∀ c ∈ text, isQuote c = false ∧ c ≠ '>')
    (ends : untilTagEnd none rest = some (inside,after)) :
    untilTagEnd none (text ++ rest) = some (text ++ inside,after) := by
  induction text with
  | nil => exact ends
  | cons c text ih =>
      obtain ⟨⟨quote,other⟩,others⟩ := List.forall_mem_cons.mp bare
      have quote' : ¬(c = '"' ∨ c = '\'') := by simpa [isQuote] using quote
      simp only [List.cons_append,untilTagEnd,if_neg other,if_neg quote',ih others,Option.map_some]

theorem untilTagEnd_value {q : Char} {value rest inside after : List Char} (free : q ∉ value)
    (ends : untilTagEnd none rest = some (inside,after)) :
    untilTagEnd (some q) (value ++ q :: rest) = some (value ++ q :: inside,after) := by
  induction value with
  | nil => simp only [List.nil_append,untilTagEnd,if_pos,ends,Option.map_some]
  | cons c value ih =>
      obtain ⟨other,free⟩ := not_or.mp fun here => free (List.mem_cons.mpr here)
      simp only [List.cons_append,untilTagEnd,if_neg (Ne.symm other),ih free,Option.map_some]

theorem untilTagEnd_attribute (a : QuotedAttribute) {rest inside after : List Char}
    (ends : untilTagEnd none rest = some (inside,after)) :
    untilTagEnd none (a.raw ++ rest) = some (a.raw ++ inside,after) := by
  have bare : ∀ c ∈ a.lead ++ (a.name ++ (a.before ++ '=' :: a.after)), isQuote c = false ∧ c ≠ '>' := by
    simp only [List.mem_append,List.mem_cons]
    rintro c (member | member | member | rfl | member)
    · exact blank_bare (List.all_eq_true.mp a.separated.2 c member)
    · exact name_bare (List.all_eq_true.mp a.named.2 c member)
    · exact blank_bare (List.all_eq_true.mp a.blank.1 c member)
    · decide
    · exact blank_bare (List.all_eq_true.mp a.blank.2 c member)
  have quoted : untilTagEnd none (a.quote :: (a.value ++ a.quote :: rest)) =
      some (a.quote :: (a.value ++ a.quote :: inside),after) := by
    have quote : a.quote = '"' ∨ a.quote = '\'' := by simpa [isQuote] using a.quoted
    have other : a.quote ≠ '>' := ne_of_holds a.quoted rfl
    simp only [untilTagEnd,if_neg other,if_pos quote,untilTagEnd_value a.free ends,Option.map_some]
  have front : ∀ text : List Char, a.raw ++ text =
      a.lead ++ (a.name ++ (a.before ++ '=' :: a.after)) ++ a.quote :: (a.value ++ a.quote :: text) := fun text => by
    simp [QuotedAttribute.raw,QuotedAttribute.onward]
  rw [front,front]
  exact untilTagEnd_bare bare quoted

theorem untilTagEnd_attributes (attributes : List QuotedAttribute) {rest inside after : List Char}
    (ends : untilTagEnd none rest = some (inside,after)) :
    untilTagEnd none (attributes.flatMap QuotedAttribute.raw ++ rest) =
      some (attributes.flatMap QuotedAttribute.raw ++ inside,after) := by
  induction attributes with
  | nil => exact ends
  | cons a attributes ih =>
      rw [List.flatMap_cons,List.append_assoc,List.append_assoc]
      exact untilTagEnd_attribute a ih

theorem tagAt?_tag (tag : QuotedTag) (rest : List Char) :
    tagAt? ('<' :: (tag.inside ++ '>' :: rest)) = some (tag.inside,rest) := by
  have letter : isFoldedLetter tag.letter = true := by
    have plain := tag.named.1
    simp only [isLetter] at plain
    simp [isFoldedLetter,plain]
  have name : ∀ c ∈ tag.name, isQuote c = false ∧ c ≠ '>' := fun c member =>
    name_bare (List.all_eq_true.mp tag.named.2 c member)
  have tail : ∀ c ∈ tag.tail, isQuote c = false ∧ c ≠ '>' := fun c member => by
    have held := List.all_eq_true.mp tag.ended c member
    rw [Bool.or_eq_true,decide_eq_true_eq] at held
    rcases held with blank | rfl
    · exact blank_bare blank
    · decide
  have ends : untilTagEnd none ('>' :: rest) = some ([],rest) := rfl
  have whole := untilTagEnd_bare name (untilTagEnd_attributes tag.attributes (untilTagEnd_bare tail ends))
  simp only [List.append_nil] at whole
  simp only [QuotedTag.inside,List.cons_append,List.append_assoc,tagAt?,letter,whole]
  rfl

end Tags

section Pages

-- Text without a bracket, start tags and end tags.
inductive Piece where
  | text (content : List Char) (plain : '<' ∉ content)
  | opening (tag : QuotedTag)
  | closing (tag : QuotedTag)

def Piece.raw : Piece → List Char
  | .text content _ => content
  | .opening tag => '<' :: (tag.inside ++ ['>'])
  | .closing tag => '<' :: '/' :: (tag.inside ++ ['>'])

def pageText (page : List Piece) : List Char := page.flatMap Piece.raw

def readTag (text : List Char) : Option (List EntityRef × List Char) :=
  (tagAt? text).map fun (inside,after) => ((embedIn? inside).toList,after)

theorem untilTagEnd_source {quote : Option Char} {text inside after : List Char}
    (ends : untilTagEnd quote text = some (inside,after)) : text = inside ++ '>' :: after := by
  induction text generalizing quote inside with
  | nil => cases ends
  | cons c text ih =>
      cases quote with
      | some q =>
          obtain ⟨⟨inner,behind⟩,found,eq⟩ := Option.map_eq_some_iff.mp ends
          cases eq
          rw [ih found]
          rfl
      | none =>
          simp only [untilTagEnd] at ends
          split at ends
          · rename_i bracket
            cases ends
            rw [bracket]
            rfl
          · obtain ⟨⟨inner,behind⟩,found,eq⟩ := Option.map_eq_some_iff.mp ends
            cases eq
            rw [ih found]
            rfl

theorem readTag_shortens : Shortens readTag := by
  intro text found after read
  obtain ⟨⟨inside,after'⟩,here,eq⟩ := Option.map_eq_some_iff.mp read
  cases eq
  unfold tagAt? at here
  split at here
  · split at here
    · obtain ⟨⟨inner,behind⟩,ends,eq⟩ := Option.map_eq_some_iff.mp here
      cases eq
      have source := congrArg List.length (untilTagEnd_source ends)
      simp only [List.length_append,List.length_cons] at source ⊢
      omega
    · cases here
  · cases here

theorem embedsWithin_cons (fuel : Nat) (c : Char) (rest : List Char) : embedsWithin (fuel + 1) (c :: rest) =
    match tagAt? (c :: rest) with
    | some (inside,after) => (embedIn? inside).toList ++ embedsWithin fuel after
    | none => embedsWithin fuel rest := by rfl

theorem embedsWithin_scan (fuel : Nat) (text : List Char) : embedsWithin fuel text = scanWithin readTag fuel text := by
  induction fuel generalizing text with
  | zero => cases text <;> rfl
  | succ fuel ih =>
      cases text with
      | nil => rfl
      | cons c rest =>
          rw [embedsWithin_cons,scanWithin,readTag]
          cases tagAt? (c :: rest) with
          | none => exact ih rest
          | some found => simp only [Option.map_some,ih]

def embedsIn (text : List Char) : List EntityRef := scan readTag text

theorem embeds_eq (text : List Char) : embeds (String.ofList text) = embedsIn text := by
  rw [embeds,String.toList_ofList,embedsWithin_scan]
  rfl

theorem embedIn?_eq (inside : List Char) : embedIn? inside = ((fieldsIn inside).foldl EmbedParts.add {}).ref? := by
  rw [embedIn?,fieldsWithin_scan]
  rfl

theorem embedsIn_plain {text rest : List Char} (plain : '<' ∉ text) : embedsIn (text ++ rest) = embedsIn rest := by
  refine scan_past fun behind later filled => ?_
  cases behind with
  | nil => exact absurd rfl filled
  | cons c behind =>
      have other : c ≠ '<' := by
        rintro rfl
        exact plain (later.subset List.mem_cons_self)
      have none_ : tagAt? (c :: (behind ++ rest)) = none := by
        unfold tagAt?
        split
        · rename_i eq
          exact absurd (List.cons.inj eq).1 other
        · rfl
      rw [List.cons_append,readTag,none_]
      rfl

theorem embedsIn_opening (tag : QuotedTag) (rest : List Char) :
    embedsIn ((Piece.opening tag).raw ++ rest) = (embedIn? tag.inside).toList ++ embedsIn rest := by
  have read : readTag ((Piece.opening tag).raw ++ rest) = some ((embedIn? tag.inside).toList,rest) := by
    have whole : (Piece.opening tag).raw ++ rest = '<' :: (tag.inside ++ '>' :: rest) := by simp [Piece.raw]
    rw [readTag,whole,tagAt?_tag]
    rfl
  exact scan_found readTag_shortens read

def Unopened (text : List Char) : Prop := ∀ c rest, '<' :: c :: rest <:+ text → isFoldedLetter c = false

theorem unopened_of_plain {text : List Char} (plain : '<' ∉ text) : Unopened text :=
  fun _ _ later => absurd (later.subset List.mem_cons_self) plain

theorem embedsIn_unopened {text rest : List Char} (unopened : Unopened text) :
    embedsIn (text ++ '>' :: rest) = embedsIn ('>' :: rest) := by
  refine scan_past fun behind later filled => ?_
  have none_ : tagAt? (behind ++ '>' :: rest) = none := by
    unfold tagAt?
    split
    · rename_i c more eq
      have other : isFoldedLetter c = false := by
        rcases behind with _ | ⟨b,_ | ⟨d,behind⟩⟩
        · exact absurd rfl filled
        · rw [← (List.cons.inj (List.cons.inj eq).2).1]
          decide
        · obtain ⟨rfl,same⟩ := List.cons.inj eq
          rw [← (List.cons.inj same).1]
          exact unopened d behind later
      rw [other,if_neg Bool.false_ne_true]
    · rfl
  rw [readTag,none_]
  rfl

theorem embedsIn_closing {tag : QuotedTag} (unopened : Unopened tag.inside) (rest : List Char) :
    embedsIn ((Piece.closing tag).raw ++ rest) = embedsIn rest := by
  have whole : (Piece.closing tag).raw ++ rest = '<' :: '/' :: (tag.inside ++ '>' :: rest) := by simp [Piece.raw]
  have slash (text : List Char) : embedsIn ('<' :: '/' :: text) = embedsIn text :=
    (scan_stray rfl).trans (scan_stray rfl)
  have bracket : embedsIn ('>' :: rest) = embedsIn rest := scan_stray rfl
  rw [whole,slash,embedsIn_unopened unopened,bracket]

end Pages

end Redline.Usage
