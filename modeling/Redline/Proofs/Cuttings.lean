import Redline.Proofs.Neighbours

namespace Redline.Markup

open Redline.Text
open Redline.Format (ne_of_holds)
open Redline.Usage (blank_noName name_bare name_solid quote_solid dropWhile_run)

section Tags

variable {tag : StartTag} {text rest : List Char}

-- The quote that is open behind the inside of a tag, unless the tag ends or breaks off in it.
def quoteAfter : Option Char → List Char → Option (Option Char)
  | quote,[] => some quote
  | some q,c :: rest => quoteAfter (if c = q then none else some q) rest
  | none,c :: rest => if c = '>' ∨ c = '<' then none else quoteAfter (if isQuote c then some c else none) rest

theorem splitTag_iff {quote : Option Char} {body : List Char} (rest : List Char) :
    splitTag quote (body ++ '>' :: rest) = some (body,rest) ↔ quoteAfter quote body = some none := by
  induction body generalizing quote with
  | nil =>
      cases quote with
      | none => exact ⟨fun _ => rfl,fun _ => rfl⟩
      | some q => simp [splitTag,quoteAfter]
  | cons c body ih =>
      cases quote with
      | some q => simp [splitTag,quoteAfter,← ih]
      | none =>
          by_cases close : c = '>'
          · simp [splitTag,quoteAfter,close]
          · by_cases open_ : c = '<'
            · simp [splitTag,quoteAfter,open_]
            · simp [splitTag,quoteAfter,close,open_,← ih]

theorem body_readParts (written body : List Char) : (StartTag.mk written (readParts body)).body = body :=
  readPartsWithin_source _ _

theorem readTag_start : readTag text = some (.opening tag,rest) ↔
    readName text = some (tag.written,tag.body ++ '>' :: rest) ∧ quoteAfter none tag.body = some none ∧
      tag.parts = readParts tag.body := by
  constructor
  · intro read
    unfold readTag at read
    split at read
    · obtain ⟨_,_,read⟩ := Option.bind_eq_some_iff.mp read
      obtain ⟨_,_,eq⟩ := Option.bind_eq_some_iff.mp read
      cases eq
    · obtain ⟨⟨written,inside⟩,name,read⟩ := Option.bind_eq_some_iff.mp read
      obtain ⟨⟨body,behind⟩,ends,eq⟩ := Option.bind_eq_some_iff.mp read
      cases eq
      rw [body_readParts]
      have source := splitTag_source ends
      rw [source] at name ends
      exact ⟨name,(splitTag_iff rest).mp ends,rfl⟩
  · rintro ⟨name,quotes,parts⟩
    have ends := (splitTag_iff rest).mpr quotes
    unfold readTag
    split
    · cases name
    · rw [name]
      simp only [Option.bind_eq_bind,Option.bind_some,ends,← parts]
      rfl

-- The name of a tag: a letter first, then the characters that a name can hold.
def Named (written : List Char) : Prop := written.head?.any isLetter = true ∧ written.all isTagNameChar = true

theorem readName_named {written inside : List Char} (read : readName text = some (written,inside)) : Named written := by
  cases text with
  | nil => cases read
  | cons c text =>
      simp only [readName] at read
      split at read
      · rename_i letter
        cases read
        have first : isTagNameChar c = true := by simp [isTagNameChar,letter]
        refine ⟨?_,List.all_takeWhile⟩
        simpa [first] using letter
      · cases read

theorem readName_run {written : List Char} (named : Named written) (rest : List Char) : readName (written ++ rest) =
    some (written ++ rest.takeWhile isTagNameChar,rest.dropWhile isTagNameChar) := by
  obtain ⟨first,chars⟩ := named
  have run := List.all_eq_true.mp chars
  cases written with
  | nil => cases first
  | cons c name =>
      have letter : isLetter c = true := by simpa using first
      have taken := @List.takeWhile_append_of_pos _ isTagNameChar _ rest run
      have left := @List.dropWhile_append_of_pos _ isTagNameChar _ rest run
      rw [List.cons_append] at taken left ⊢
      simp only [readName,if_pos letter,taken,left]

theorem raw_reads {again : StartTag} (named : Named tag.written) :
    readMarkup tag.raw = some (.opening again,[]) ∧ again.name = tag.name ↔
      tag.body.head?.any isTagNameChar = false ∧ quoteAfter none tag.body = some none ∧
        again = ⟨tag.written,readParts tag.body⟩ := by
  have read : readMarkup tag.raw = readTag (tag.written ++ (tag.body ++ ['>'])) := by
    have first := named.1
    rw [StartTag.raw,List.append_assoc]
    cases written : tag.written with
    | nil => simp [written] at first
    | cons c name =>
        have letter : isLetter c = true := by simpa [written] using first
        exact readMarkup_tag (tag_unmarked (.inl letter)) _
  have start : (tag.body ++ ['>']).head?.any isTagNameChar = tag.body.head?.any isTagNameChar := by
    cases tag.body <;> rfl
  have run := readName_run named (tag.body ++ ['>'])
  rw [read,readTag_start,run,Option.some.injEq,Prod.mk.injEq]
  constructor
  · rintro ⟨⟨⟨name,left⟩,quotes,parts⟩,same⟩
    rw [StartTag.name,← name] at same
    -- The name is read to its last character, so one that stays the same has taken nothing.
    have taken : (tag.body ++ ['>']).takeWhile isTagNameChar = [] :=
      Classical.byContradiction fun more => longer_name more same
    have whole := List.takeWhile_append_dropWhile (p := isTagNameChar) (l := tag.body ++ ['>'])
    rw [taken,left] at whole
    have inside : again.body = tag.body := List.append_cancel_right whole
    rw [taken,List.append_nil] at name
    rw [inside] at quotes parts
    refine ⟨?_,quotes,by rw [name,← parts]⟩
    rw [← start,← Bool.not_eq_true]
    exact fun more => goes_on more taken
  · rintro ⟨stops,quotes,rfl⟩
    rw [body_readParts]
    obtain ⟨taken,left⟩ := stops_here (start.trans stops)
    rw [taken,left,List.append_nil]
    exact ⟨⟨⟨rfl,rfl⟩,quotes,rfl⟩,rfl⟩

end Tags

section Cuts

variable {tag : StartTag}

-- Read again without its marker attributes, a tag has the same name, the same slash and the same other
-- attributes in the same order.
def StartTag.ReadsBack (tag : StartTag) : Prop :=
  ∃ again : StartTag, readMarkup tag.cleaned.raw = some (.opening again,[]) ∧ again.name = tag.name ∧
    again.selfClosing = tag.selfClosing ∧
    again.attributes.map Attribute.field = (tag.attributes.filter (·.marker?.isNone)).map Attribute.field

-- Without the marker attributes, the name of the element ends where it did, all quotes close, no attribute
-- takes from what comes to stand behind it, and the tag closes itself if and only if it did.
def StartTag.spaced (tag : StartTag) : Bool :=
  !tag.cleaned.body.head?.any isTagNameChar && quoteAfter none tag.cleaned.body = some none &&
    apart tag.cleaned.parts && tag.cleaned.selfClosing = tag.selfClosing

theorem kept_fields (parts : List BodyPart) : fields (parts.filter (·.marker?.isNone)) =
    ((parts.filterMap BodyPart.attribute?).filter (·.marker?.isNone)).map Attribute.field := by
  induction parts with
  | nil => rfl
  | cons part parts ih =>
      cases part with
      | filler content => exact ih
      | attr a =>
          have same : (BodyPart.attr a).marker? = a.marker? := rfl
          rw [List.filter_cons,same,List.filterMap_cons,BodyPart.attribute?]
          dsimp only
          rw [List.filter_cons]
          split
          · exact congrArg (a.field :: ·) ih
          · exact ih

theorem reads_back_iff (named : Named tag.written) (division : Division tag.body tag.parts) :
    tag.ReadsBack ↔ tag.spaced = true := by
  have sound : ∀ part ∈ tag.cleaned.parts, part.Sound :=
    fun part member => division.parts_sound part (List.mem_filter.mp member).1
  have body : tag.cleaned.body = tag.cleaned.parts.flatMap BodyPart.raw := rfl
  have again : fields (readParts tag.cleaned.body) = search fieldOf tag.cleaned.body :=
    (search_fields (readParts_division _)).symm
  have kept : (tag.attributes.filter (·.marker?.isNone)).map Attribute.field = fields tag.cleaned.parts :=
    (kept_fields tag.parts).symm
  have reads := @raw_reads tag.cleaned
  simp only [StartTag.spaced,Bool.and_eq_true,Bool.not_eq_true',decide_eq_true_eq]
  constructor
  · rintro ⟨found,read,same,slash,attributes⟩
    obtain ⟨stops,quotes,rfl⟩ := (reads named).mp ⟨read,same⟩
    rw [kept] at attributes
    refine ⟨⟨⟨stops,quotes⟩,?_⟩,?_⟩
    · rw [← search_apart sound,← body,← again]
      exact attributes
    · rw [← slash,StartTag.selfClosing,StartTag.selfClosing,body_readParts]
  · rintro ⟨⟨⟨stops,quotes⟩,free⟩,slash⟩
    obtain ⟨read,same⟩ := (reads named).mpr ⟨stops,quotes,rfl⟩
    refine ⟨_,read,same,?_,?_⟩
    · rw [← slash,StartTag.selfClosing,StartTag.selfClosing,body_readParts]
    · rw [kept,← (search_apart sound).mpr free,← body,← again]
      rfl

end Cuts

section Quotes

variable {a : Attribute}

theorem quoteAfter_append (quote : Option Char) (text more : List Char) :
    quoteAfter quote (text ++ more) = (quoteAfter quote text).bind fun quote => quoteAfter quote more := by
  induction text generalizing quote with
  | nil => rfl
  | cons c text ih =>
      cases quote with
      | some q => exact ih _
      | none =>
          rw [List.cons_append,quoteAfter,quoteAfter]
          split
          · rfl
          · exact ih _

-- A text behind which no quote of it is open.
def Closing (text : List Char) : Prop := ∀ quote, quoteAfter none text = some quote → quote = none

theorem closing_append {text more : List Char} (one : Closing text) (two : Closing more) : Closing (text ++ more) := by
  intro quote ends
  rw [quoteAfter_append,Option.bind_eq_some_iff] at ends
  obtain ⟨middle,here,there⟩ := ends
  rw [one middle here] at there
  exact two quote there

theorem closing_plain {text : List Char} (plain : ∀ c ∈ text, isQuote c = false) : Closing text := by
  induction text with
  | nil => exact fun quote ends => (Option.some.inj ends).symm
  | cons c text ih =>
      obtain ⟨here,others⟩ := List.forall_mem_cons.mp plain
      intro quote ends
      rw [quoteAfter,here] at ends
      split at ends
      · cases ends
      · exact ih others quote ends

theorem closing_quoted {q : Char} {value : List Char} (quote : isQuote q = true) (free : q ∉ value) :
    Closing (q :: (value ++ [q])) := by
  have value_ : ∀ value : List Char, q ∉ value → quoteAfter (some q) (value ++ [q]) = some none := by
    intro value free
    induction value with
    | nil => simp [quoteAfter]
    | cons c value ih =>
        obtain ⟨other,free⟩ := not_or.mp fun here => free (List.mem_cons.mpr here)
        rw [List.cons_append,quoteAfter,if_neg (Ne.symm other)]
        exact ih free
  intro open_ ends
  rw [quoteAfter,quote] at ends
  split at ends
  · cases ends
  · rw [if_pos rfl,value_ value free] at ends
    exact (Option.some.inj ends).symm

theorem closing_run {p : Char → Bool} {text : List Char} (apart : ∀ c, p c = true → isQuote c = false)
    (chars : text.all p = true) : Closing text :=
  closing_plain fun c member => apart c (List.all_eq_true.mp chars c member)

theorem closing_blank {text : List Char} (blank : text.all isBlank = true) : Closing text :=
  closing_run (fun _ blank => (blank_open blank).1) blank

theorem closing_sign {text : List Char} (closing : Closing text) : Closing ('=' :: text) :=
  @closing_append ['='] text (closing_plain (List.forall_mem_singleton.mpr rfl)) closing

theorem closing_ending {tail value : List Char} (ends : Ending tail value) : Closing tail := by
  cases ends with
  | none => exact closing_plain fun c member => nomatch member
  | quoted blank quote free =>
      have behind := closing_append (closing_blank blank.2) (closing_quoted quote free)
      exact closing_append (closing_blank blank.1) (closing_sign behind)
  | bare blank filled chars =>
      have behind := closing_append (closing_blank blank.2) (closing_run (fun _ bare => bare_noQuote bare) chars)
      exact closing_append (closing_blank blank.1) (closing_sign behind)

theorem closing_formed (formed : a.Formed) : Closing a.raw := by
  have name := closing_run (fun _ name => (name_bare name).1) formed.named.2
  exact closing_append (closing_append (closing_blank formed.blank) name) (closing_ending formed.ends)

theorem kept_quotes {parts : List BodyPart} (keep : BodyPart → Bool) (closing : ∀ part ∈ parts, Closing part.raw)
    (quotes : quoteAfter none (parts.flatMap BodyPart.raw) = some none) :
    quoteAfter none ((parts.filter keep).flatMap BodyPart.raw) = some none := by
  induction parts with
  | nil => rfl
  | cons part parts ih =>
      obtain ⟨here,others⟩ := List.forall_mem_cons.mp closing
      rw [List.flatMap_cons,quoteAfter_append,Option.bind_eq_some_iff] at quotes
      obtain ⟨quote,passed,quotes⟩ := quotes
      obtain rfl := here quote passed
      rw [List.filter_cons]
      split
      · rw [List.flatMap_cons,quoteAfter_append,passed]
        exact ih others quotes
      · exact ih others quotes

end Quotes

section Slashes

variable {a : Attribute}

-- No value, or one between quotes.
def Attribute.enclosed (a : Attribute) : Bool := a.tail.isEmpty || a.tail.getLast?.any isQuote

def lastSolid (text : List Char) : Option Char := text.reverse.find? fun c => !isBlank c

theorem selfClosing_last (tag : StartTag) : tag.selfClosing = decide (lastSolid tag.body = some '/') := by
  rw [StartTag.selfClosing,trimEnd,List.getLast?_reverse,lastSolid,List.find?_eq_head?_dropWhile_not]
  simp

theorem lastSolid_append (text more : List Char) : lastSolid (text ++ more) = (lastSolid more).or (lastSolid text) := by
  rw [lastSolid,List.reverse_append,List.find?_append]
  rfl

theorem last_noSlash (formed : a.Formed) (enclosed : a.enclosed = true) :
    ∃ c, a.raw.getLast? = some c ∧ isBlank c = false ∧ c ≠ '/' := by
  obtain ⟨filled,chars⟩ := formed.named
  rw [Attribute.raw,List.getLast?_append]
  rcases Bool.or_eq_true_iff.mp enclosed with empty | quoted
  · rw [List.isEmpty_iff.mp empty,List.getLast?_append,List.getLast?_eq_some_getLast filled]
    have name := List.all_eq_true.mp chars _ (List.getLast_mem filled)
    exact ⟨_,rfl,name_solid name,ne_of_holds name rfl⟩
  · cases last : a.tail.getLast? with
    | none => simp [last] at quoted
    | some q =>
        have quote : isQuote q = true := by simpa [last] using quoted
        exact ⟨q,rfl,quote_solid quote,ne_of_holds quote rfl⟩

theorem lastSolid_attribute (formed : a.Formed) (enclosed : a.enclosed = true) (rest : List Char) :
    lastSolid (a.raw ++ rest) = some '/' ↔ lastSolid rest = some '/' := by
  obtain ⟨c,last,solid,other⟩ := last_noSlash formed enclosed
  have here : lastSolid a.raw = some c := by
    rw [← List.head?_reverse] at last
    obtain ⟨back,eq⟩ := List.head?_eq_some_iff.mp last
    rw [lastSolid,eq,List.find?_cons_of_pos (by simp [solid])]
  rw [lastSolid_append,here]
  cases lastSolid rest with
  | none => simp [other]
  | some d => rfl

end Slashes

section Serialized

-- Tags as serializers write them: white space before each attribute, each value between quotes, and
-- nothing behind the attributes but white space and a slash.
def serialized : List BodyPart → Bool
  | [] => true
  | .attr a :: parts => !a.lead.isEmpty && a.enclosed && serialized parts
  | .filler content :: parts => (content.all fun c => isBlank c || c = '/') && parts.isEmpty

variable {a : Attribute} {content : List Char} {parts : List BodyPart}

theorem serialized_attr : serialized (.attr a :: parts) = true ↔
    a.lead ≠ [] ∧ a.enclosed = true ∧ serialized parts = true := by
  rw [serialized,Bool.and_eq_true,Bool.and_eq_true,and_assoc]
  simp

theorem serialized_filler : serialized (.filler content :: parts) = true ↔
    (∀ c ∈ content, isBlank c = true ∨ c = '/') ∧ parts = [] := by
  simp [serialized]

theorem serialized_kept (neat : serialized parts = true) :
    serialized (parts.filter (·.marker?.isNone)) = true := by
  induction parts with
  | nil => rfl
  | cons part parts ih =>
      cases part with
      | filler content =>
          obtain ⟨-,rfl⟩ := serialized_filler.mp neat
          exact neat
      | attr a =>
          obtain ⟨lead,enclosed,others⟩ := serialized_attr.mp neat
          rw [List.filter_cons]
          split
          · exact serialized_attr.mpr ⟨lead,enclosed,ih others⟩
          · exact ih others

theorem serialized_start (neat : serialized parts = true) (sound : ∀ part ∈ parts, part.Sound) {c : Char}
    (first : (parts.flatMap BodyPart.raw).head? = some c) : isBlank c = true ∨ c = '/' := by
  cases parts with
  | nil => cases first
  | cons part parts =>
      cases part with
      | attr a =>
          obtain ⟨filled,-⟩ := serialized_attr.mp neat
          have formed : a.Formed := sound _ List.mem_cons_self
          have blank := formed.blank
          cases lead : a.lead with
          | nil => exact absurd lead filled
          | cons b lead' =>
              have same : b = c := by simpa [BodyPart.raw,Attribute.raw,lead] using first
              rw [lead] at blank
              exact .inl (same ▸ List.all_eq_true.mp blank b List.mem_cons_self)
      | filler content =>
          obtain ⟨chars,rfl⟩ := serialized_filler.mp neat
          exact chars c (List.mem_of_mem_head? (by simpa [BodyPart.raw] using first))

theorem raw_named (formed : a.Formed) (rest : List Char) :
    ∃ c more, (a.raw ++ rest).dropWhile isBlank = c :: more ∧ isAttributeNameChar c = true := by
  obtain ⟨filled,chars⟩ := formed.named
  cases written : a.written with
  | nil => exact absurd written filled
  | cons c name =>
      rw [written] at chars
      have first : isAttributeNameChar c = true := List.all_eq_true.mp chars c List.mem_cons_self
      have whole : a.raw ++ rest = a.lead ++ c :: (name ++ (a.tail ++ rest)) := by simp [Attribute.raw,written]
      exact ⟨c,_,by rw [whole,dropWhile_run formed.blank (name_solid first)],first⟩

theorem serialized_noTail (neat : serialized parts = true) (sound : ∀ part ∈ parts, part.Sound) :
    (readTail (parts.flatMap BodyPart.raw)).2.1 = [] := by
  have noSign : ∀ rest, (parts.flatMap BodyPart.raw).dropWhile isBlank ≠ '=' :: rest := by
    intro rest left
    cases parts with
    | nil => cases left
    | cons part parts =>
        cases part with
        | attr a =>
            obtain ⟨c,more,behind,name⟩ := raw_named (sound _ List.mem_cons_self) (parts.flatMap BodyPart.raw)
            cases behind.symm.trans left
            cases name
        | filler content =>
            obtain ⟨chars,rfl⟩ := serialized_filler.mp neat
            have same : content.dropWhile isBlank = '=' :: rest := by simpa [BodyPart.raw] using left
            have suffix := List.dropWhile_suffix (l := content) isBlank
            rw [same] at suffix
            have sign := chars '=' (suffix.subset List.mem_cons_self)
            revert sign
            decide
  unfold readTail
  dsimp only
  split
  · rename_i rest left
    exact absurd left (noSign rest)
  · rfl

theorem serialized_apart (neat : serialized parts = true) (sound : ∀ part ∈ parts, part.Sound) :
    apart parts = true := by
  induction parts with
  | nil => rfl
  | cons part parts ih =>
      obtain ⟨-,others⟩ := List.forall_mem_cons.mp sound
      cases part with
      | filler content =>
          obtain ⟨-,rfl⟩ := serialized_filler.mp neat
          rfl
      | attr a =>
          obtain ⟨-,enclosed,neat⟩ := serialized_attr.mp neat
          have noName : (parts.flatMap BodyPart.raw).head?.any isAttributeNameChar = false := by
            cases first : (parts.flatMap BodyPart.raw).head? with
            | none => rfl
            | some c =>
                rcases serialized_start neat others first with blank | rfl
                · exact blank_noName blank
                · rfl
          rw [apart,ih neat others,Bool.and_true,Bool.not_eq_true']
          rcases Bool.or_eq_true_iff.mp enclosed with empty | quoted
          · simp only [Attribute.takes,if_pos empty,noName,serialized_noTail neat others]
            rfl
          · have valued : a.tail ≠ [] := fun empty => by simp [empty] at quoted
            rw [takes_valued valued,quoted]
            rfl

theorem serialized_closing (neat : serialized parts = true) (sound : ∀ part ∈ parts, part.Sound) :
    ∀ part ∈ parts, Closing part.raw := by
  induction parts with
  | nil => exact fun part member => nomatch member
  | cons part parts ih =>
      obtain ⟨here,others⟩ := List.forall_mem_cons.mp sound
      cases part with
      | attr a =>
          obtain ⟨-,-,neat⟩ := serialized_attr.mp neat
          exact List.forall_mem_cons.mpr ⟨closing_formed here,ih neat others⟩
      | filler content =>
          obtain ⟨chars,rfl⟩ := serialized_filler.mp neat
          refine List.forall_mem_singleton.mpr (closing_plain fun c member => ?_)
          rcases chars c member with blank | rfl
          · exact (blank_open blank).1
          · rfl

theorem serialized_slash (neat : serialized parts = true) (sound : ∀ part ∈ parts, part.Sound) :
    lastSolid ((parts.filter (·.marker?.isNone)).flatMap BodyPart.raw) = some '/' ↔
      lastSolid (parts.flatMap BodyPart.raw) = some '/' := by
  induction parts with
  | nil => rfl
  | cons part parts ih =>
      obtain ⟨here,others⟩ := List.forall_mem_cons.mp sound
      cases part with
      | filler content =>
          obtain ⟨-,rfl⟩ := serialized_filler.mp neat
          rfl
      | attr a =>
          obtain ⟨-,enclosed,neat⟩ := serialized_attr.mp neat
          have skip := lastSolid_attribute here enclosed
          rw [List.filter_cons,List.flatMap_cons,BodyPart.raw,skip]
          split
          · rw [List.flatMap_cons,BodyPart.raw,skip]
            exact ih neat others
          · exact ih neat others

theorem serialized_spaced {tag : StartTag} (division : Division tag.body tag.parts)
    (quotes : quoteAfter none tag.body = some none) (neat : serialized tag.parts = true) : tag.spaced = true := by
  have sound := division.parts_sound
  have sound' : ∀ part ∈ tag.cleaned.parts, part.Sound := fun part member => sound part (List.mem_filter.mp member).1
  have neat' : serialized tag.cleaned.parts = true := serialized_kept neat
  have stops : tag.cleaned.body.head?.any isTagNameChar = false := by
    cases first : tag.cleaned.body.head? with
    | none => rfl
    | some c =>
        rcases serialized_start neat' sound' first with blank | rfl
        · exact blank_noTagName blank
        · rfl
  have closed : quoteAfter none tag.cleaned.body = some none := kept_quotes _ (serialized_closing neat sound) quotes
  have slash : tag.cleaned.selfClosing = tag.selfClosing := by
    rw [selfClosing_last,selfClosing_last]
    exact decide_eq_decide.mpr (serialized_slash neat sound)
  simp [StartTag.spaced,stops,closed,slash,serialized_apart neat' sound']

end Serialized

section Results

variable {text rest : List Char} {tag : StartTag}

theorem opening_exact (read : readMarkup text = some (.opening tag,rest)) :
    Named tag.written ∧ Division tag.body tag.parts ∧ quoteAfter none tag.body = some none := by
  obtain ⟨inside,rfl,comment | ⟨-,declaration⟩ | read⟩ := readMarkup_cases read
  · obtain ⟨_,_,eq⟩ := Option.map_eq_some_iff.mp (Option.ite_none_right_eq_some.mp comment).2
    cases eq
  · obtain ⟨_,eq,_⟩ := readDeclaration_exact declaration
    cases eq
  · obtain ⟨name,quotes,parts⟩ := readTag_start.mp read
    have division := readParts_division tag.body
    rw [← parts] at division
    exact ⟨readName_named name,division,quotes⟩

def garbled (text : List Char) : Bool :=
  match readMarkup text with
  | some (.opening tag,[]) => !tag.spaced
  | _ => false

theorem garbled_iff : garbled text = true ↔ ∃ tag, readMarkup text = some (.opening tag,[]) ∧ ¬tag.ReadsBack := by
  constructor
  · intro lost
    unfold garbled at lost
    split at lost
    · rename_i tag read
      obtain ⟨named,division,-⟩ := opening_exact read
      refine ⟨tag,read,?_⟩
      rw [reads_back_iff named division]
      simpa using lost
    · cases lost
  · rintro ⟨tag,read,lost⟩
    obtain ⟨named,division,-⟩ := opening_exact read
    rw [reads_back_iff named division] at lost
    simpa [garbled,read] using lost

-- The spans that are found in a start tag are its attributes with the white space before them, in order, and
-- cutting goes through valid slices to the tag without its marker attributes. That tag reads back exactly
-- where what is left stays spaced, as it does in every tag that is written as serializers write it.
theorem cut_reads_back_iff (read : readMarkup text = some (.opening tag,rest)) :
    (tag.found.map Found.held = tag.attributes.map Attribute.unled ∧
      tag.found.map (fun f => slice tag.raw f.first f.last) = tag.attributes.map Attribute.raw ∧
      (∀ f ∈ tag.found, f.first ≤ f.last ∧ f.last < tag.raw.length) ∧
      tag.found.Pairwise (fun f g => f.last ≤ g.first) ∧ cutFrom tag.raw 0 tag.found = tag.cleaned.raw) ∧
    (tag.ReadsBack ↔ tag.spaced = true) ∧
    (serialized tag.parts = true → tag.ReadsBack) := by
  obtain ⟨named,division,quotes⟩ := opening_exact read
  have spaced := reads_back_iff named division
  exact ⟨found_exact division,spaced,fun neat => spaced.mpr (serialized_spaced division quotes neat)⟩

theorem cut_reads_back_iff_between :
    let tag : StartTag := ⟨['p'],[.attr ⟨" ".toList,"class".toList,"=\"a\"".toList,['a']⟩,
      .attr ⟨"  ".toList,"data-comment-start-before".toList,"=\"c\"".toList,['c']⟩,
      .attr ⟨" ".toList,"id".toList,"=\"b\"".toList,['b']⟩]⟩
    let text := "<p class=\"a\"  data-comment-start-before=\"c\" id=\"b\">x".toList
    readMarkup text = some (.opening tag,['x']) ∧
      tag.found.map (fun f => (f.first,f.last)) = [(2,12),(12,43),(43,50)] ∧
      cutFrom tag.raw 0 tag.found = "<p class=\"a\" id=\"b\">".toList ∧ tag.ReadsBack := by
  intro tag text
  have read : readMarkup text = some (.opening tag,['x']) := by decide +kernel
  obtain ⟨spans,-,neat⟩ := cut_reads_back_iff read
  refine ⟨read,by decide,?_,neat (by decide +kernel)⟩
  rw [spans.2.2.2.2]
  decide

-- The slash joins the value of src. So do names and values elsewhere, the name of the element grows, a sign
-- gives a value away, quotes pair up anew, and a slash comes last or goes with its attribute.
theorem cut_joins_neighbours :
    (stripChars "<img src=x.png data-comment-end-after=\"c\"/>".toList).html = "<img src=x.png/>".toList ∧
    (∃ tag, readMarkup "<img src=x.png/>".toList = some (.opening tag,[]) ∧
      tag.value? "src".toList = some "x.png/".toList) ∧
    ∀ text ∈ ["<img src=x.png data-comment-end-after=\"c\"/>","<p a data-comment-start-before=\"\"b>",
      "<p data-comment-start-before=\"\"b>","<p a data-comment-start-before=\"y\"=\"z\">",
      "<br / data-comment-start-before=\"c\">","<p data-comment-end-after=c/>",
      "<p \" data-comment-start-before='\" ' '>"],
      ∃ tag, readMarkup text.toList = some (.opening tag,[]) ∧ ¬tag.ReadsBack := by
  refine ⟨by decide,
    ⟨⟨"img".toList,[.attr ⟨[' '],"src".toList,"=x.png/".toList,"x.png/".toList⟩]⟩,by decide +kernel⟩,
    fun text member => garbled_iff.mp ?_⟩
  revert text
  decide +kernel

end Results

end Redline.Markup
