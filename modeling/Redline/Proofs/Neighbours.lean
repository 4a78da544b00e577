import Redline.Proofs.Spans

namespace Redline.Markup

open Redline.Text
open Redline.Usage (blank_noName quote_noName quote_solid takeWhile_run dropWhile_run gap_stops)

section Fields

def Attribute.field (a : Attribute) : List Char × List Char := (a.name,a.value)

def fieldOf (_ : Nat) (a : Attribute) (_ : Nat) : List Char × List Char := a.field

def fields (parts : List BodyPart) : List (List Char × List Char) :=
  (parts.filterMap BodyPart.attribute?).map Attribute.field

def BodyPart.Sound : BodyPart → Prop
  | attr a => a.Formed
  | filler content => ∀ c ∈ content, isAttributeNameChar c = false

theorem Division.parts_sound {text : List Char} {parts : List BodyPart} (division : Division text parts) :
    ∀ part ∈ parts, part.Sound := by
  induction division with
  | ended => exact fun part member => nomatch member
  | attr formed read further ih => exact List.forall_mem_cons.mpr ⟨formed,ih⟩
  | filler stray solid further ih => exact List.forall_mem_cons.mpr ⟨stray,ih⟩

theorem search_fields {text : List Char} {parts : List BodyPart} (division : Division text parts) :
    search fieldOf text = fields parts := by
  induction division with
  | ended => rfl
  | attr formed read further ih =>
      rw [search_attribute formed.blank read,ih]
      rfl
  | filler stray solid further ih =>
      rw [search_strays stray,ih]
      rfl

end Fields

section Neighbours

-- Whether an attribute would be read with a longer name or value, or with a value where it has none, if
-- `rest` stood right behind it.
def Attribute.takes (a : Attribute) (rest : List Char) : Bool :=
  if a.tail.isEmpty then rest.head?.any isAttributeNameChar || !(readTail rest).2.1.isEmpty
  else !a.tail.getLast?.any isQuote && rest.head?.any isBareValueChar

def apart : List BodyPart → Bool
  | [] => true
  | .attr a :: parts => !a.takes (parts.flatMap BodyPart.raw) && apart parts
  | .filler _ :: parts => apart parts

theorem readAttribute_name {written : List Char} (named : written ≠ [] ∧ written.all isAttributeNameChar = true)
    (rest : List Char) : readAttribute (written ++ rest) =
      let tail := readTail (rest.dropWhile isAttributeNameChar)
      some (⟨[],written ++ rest.takeWhile isAttributeNameChar,tail.1,tail.2.1⟩,tail.2.2) := by
  obtain ⟨filled,chars⟩ := named
  have run := List.all_eq_true.mp chars
  cases written with
  | nil => exact absurd rfl filled
  | cons c name =>
      have first : isAttributeNameChar c = true := run c List.mem_cons_self
      have taken := @List.takeWhile_append_of_pos _ isAttributeNameChar _ rest run
      have left := @List.dropWhile_append_of_pos _ isAttributeNameChar _ rest run
      rw [List.cons_append] at taken left ⊢
      simp only [readAttribute,if_pos first,taken,left]

theorem stops_here {p : Char → Bool} {rest : List Char} (stops : rest.head?.any p = false) :
    rest.takeWhile p = [] ∧ rest.dropWhile p = rest := by
  cases rest with
  | nil => exact ⟨rfl,rfl⟩
  | cons c rest =>
      have other : ¬p c = true := by simpa using stops
      exact ⟨List.takeWhile_cons_of_neg other,List.dropWhile_cons_of_neg other⟩

theorem goes_on {p : Char → Bool} {rest : List Char} (starts : rest.head?.any p = true) : rest.takeWhile p ≠ [] := by
  cases rest with
  | nil => cases starts
  | cons c rest =>
      have first : p c = true := by simpa using starts
      simp [first]

theorem longer_name {written more : List Char} (filled : more ≠ []) : lower (written ++ more) ≠ lower written := by
  intro same
  have size := congrArg List.length same
  simp [lower,filled] at size

theorem longer_value {value more : List Char} (filled : more ≠ []) : value ++ more ≠ value := by
  simpa using filled

theorem readTail_sign {before after text raw value left : List Char}
    (blank : before.all isBlank = true ∧ after.all isBlank = true)
    (solid : ∃ d more, text = d :: more ∧ isBlank d = false)
    (read : readValue text = some (raw,value,left)) : readTail (before ++ '=' :: (after ++ text)) =
      (before ++ '=' :: (after ++ raw),value,left) := by
  obtain ⟨d,more,rfl,solid⟩ := solid
  have sign : isBlank '=' = false := rfl
  simp only [readTail,dropWhile_run blank.1 sign,takeWhile_run blank.1 sign,dropWhile_run blank.2 solid,
    takeWhile_run blank.2 solid,read,List.append_assoc,List.cons_append]

theorem bare_noQuote {c : Char} (bare : isBareValueChar c = true) : isQuote c = false := by
  rw [← Bool.not_eq_true]
  intro quote
  simp [isBareValueChar,quote] at bare

theorem readValue_bare {value : List Char} (filled : value ≠ []) (chars : value.all isBareValueChar = true)
    (rest : List Char) : readValue (value ++ rest) =
      some (value ++ rest.takeWhile isBareValueChar,value ++ rest.takeWhile isBareValueChar,
        rest.dropWhile isBareValueChar) := by
  have run := List.all_eq_true.mp chars
  cases value with
  | nil => exact absurd rfl filled
  | cons c value =>
      have plain : ¬isQuote c = true := by simp [bare_noQuote (run c List.mem_cons_self)]
      have taken := @List.takeWhile_append_of_pos _ isBareValueChar _ rest run
      have left := @List.dropWhile_append_of_pos _ isBareValueChar _ rest run
      rw [List.cons_append] at taken left ⊢
      simp [readValue,if_neg plain,taken,left]

theorem empty_stray {tail : List Char} (ends : Ending tail []) : ∀ c ∈ tail, isAttributeNameChar c = false := by
  generalize held : ([] : List Char) = value at ends
  cases ends with
  | none => exact fun c member => nomatch member
  | bare blank filled chars => exact absurd held.symm filled
  | @quoted before after value q blank quote free =>
      subst held
      intro c member
      simp only [List.mem_append,List.mem_cons,List.nil_append,List.not_mem_nil,or_false] at member
      rcases member with front | rfl | back | rfl | rfl
      · exact blank_noName (List.all_eq_true.mp blank.1 c front)
      · rfl
      · exact blank_noName (List.all_eq_true.mp blank.2 c back)
      · exact quote_noName quote
      · exact quote_noName quote

-- What is read where an attribute begins, with `rest` right behind it.
def ReadBefore (a : Attribute) (rest : List Char) : Prop :=
  ∃ found left, readAttribute (a.written ++ (a.tail ++ rest)) = some (found,left) ∧
    (a.takes rest = true → found.field ≠ a.field) ∧
    (a.takes rest = false → found.field = a.field ∧ search fieldOf left = search fieldOf rest)

variable {lead written value : List Char}

theorem unvalued_before (named : written ≠ [] ∧ written.all isAttributeNameChar = true) (rest : List Char) :
    ReadBefore ⟨lead,written,[],[]⟩ rest := by
  refine ⟨_,_,readAttribute_name named rest,?_,?_⟩
  · intro takes
    cases starts : rest.head?.any isAttributeNameChar with
    | true => exact fun same => longer_name (goes_on starts) (congrArg Prod.fst same)
    | false =>
        have more : (readTail rest).2.1 ≠ [] := by simpa [Attribute.takes,starts] using takes
        obtain ⟨-,left⟩ := stops_here starts
        intro same
        have held : (readTail (rest.dropWhile isAttributeNameChar)).2.1 = [] := congrArg Prod.snd same
        rw [left] at held
        exact more held
  · -- an empty value may still be read from what follows; it changes nothing, and the search goes over its signs
    intro free
    simp only [Attribute.takes,List.isEmpty_nil,if_true,Bool.or_eq_false_iff,Bool.not_eq_false',
      List.isEmpty_iff] at free
    obtain ⟨taken,left⟩ := stops_here free.1
    rw [taken,left,List.append_nil]
    refine ⟨congrArg (lower written,·) free.2,?_⟩
    have ends := readTail_ending rest
    rw [free.2] at ends
    have past := @search_strays _ fieldOf _ (empty_stray ends) (readTail rest).2.2
    rw [readTail_source] at past
    exact past.symm

theorem takes_valued {a : Attribute} (valued : a.tail ≠ []) (rest : List Char) :
    a.takes rest = (!a.tail.getLast?.any isQuote && rest.head?.any isBareValueChar) := by
  rw [Attribute.takes,if_neg (by simpa using valued)]

theorem quoted_before {before after : List Char} {q : Char}
    (named : written ≠ [] ∧ written.all isAttributeNameChar = true)
    (blank : before.all isBlank = true ∧ after.all isBlank = true) (quote : isQuote q = true) (free : q ∉ value)
    (rest : List Char) : ReadBefore ⟨lead,written,before ++ '=' :: (after ++ q :: (value ++ [q])),value⟩ rest := by
  have tail : readTail (before ++ '=' :: (after ++ q :: (value ++ q :: rest))) =
      (before ++ '=' :: (after ++ q :: (value ++ [q])),value,rest) :=
    readTail_sign blank ⟨q,_,rfl,quote_solid quote⟩ (readValue_quoted quote free rest)
  obtain ⟨d,more,starts,other⟩ := gap_stops blank.1 (after ++ q :: (value ++ q :: rest))
  have stops : (before ++ '=' :: (after ++ q :: (value ++ q :: rest))).head?.any isAttributeNameChar = false := by
    rw [starts]
    simpa using other
  obtain ⟨taken,left⟩ := stops_here stops
  have read := readAttribute_name named (before ++ '=' :: (after ++ q :: (value ++ q :: rest)))
  rw [taken,left,tail,List.append_nil] at read
  refine ⟨⟨[],written,before ++ '=' :: (after ++ q :: (value ++ [q])),value⟩,rest,by simpa using read,?_,
    fun _ => ⟨rfl,rfl⟩⟩
  intro takes
  have whole : before ++ '=' :: (after ++ q :: (value ++ [q])) = (before ++ '=' :: (after ++ q :: value)) ++ [q] := by
    simp
  rw [takes_valued (by simp),whole,List.getLast?_concat,Option.any_some,quote] at takes
  cases takes

theorem bare_before {before after : List Char} (named : written ≠ [] ∧ written.all isAttributeNameChar = true)
    (blank : before.all isBlank = true ∧ after.all isBlank = true) (filled : value ≠ [])
    (chars : value.all isBareValueChar = true) (rest : List Char) :
    ReadBefore ⟨lead,written,before ++ '=' :: (after ++ value),value⟩ rest := by
  have solid : ∃ d more, value ++ rest = d :: more ∧ isBlank d = false := by
    cases value with
    | nil => exact absurd rfl filled
    | cons c value => exact ⟨c,_,rfl,bareValue_solid (List.all_eq_true.mp chars c List.mem_cons_self)⟩
  have tail := readTail_sign blank solid (readValue_bare filled chars rest)
  obtain ⟨d,more,starts,other⟩ := gap_stops blank.1 (after ++ (value ++ rest))
  have stops : (before ++ '=' :: (after ++ (value ++ rest))).head?.any isAttributeNameChar = false := by
    rw [starts]
    simpa using other
  obtain ⟨taken,left⟩ := stops_here stops
  have read := readAttribute_name named (before ++ '=' :: (after ++ (value ++ rest)))
  rw [taken,left,tail,List.append_nil] at read
  have takes : Attribute.takes ⟨lead,written,before ++ '=' :: (after ++ value),value⟩ rest =
      rest.head?.any isBareValueChar := by
    have last := List.getLast?_eq_some_getLast filled
    have plain := bare_noQuote (List.all_eq_true.mp chars _ (List.getLast_mem filled))
    have whole : before ++ '=' :: (after ++ value) = (before ++ '=' :: after) ++ value := by simp
    rw [takes_valued (by simp),whole,List.getLast?_append,last,Option.some_or,Option.any_some,plain]
    rfl
  have source : before ++ '=' :: (after ++ value) ++ rest = before ++ '=' :: (after ++ (value ++ rest)) := by simp
  rw [ReadBefore,takes,source]
  refine ⟨_,_,read,?_,?_⟩
  · exact fun starts same => longer_value (goes_on starts) (congrArg Prod.snd same)
  · intro stops
    obtain ⟨taken,left⟩ := stops_here stops
    rw [left,taken,List.append_nil]
    exact ⟨rfl,rfl⟩

theorem formed_before {a : Attribute} (formed : a.Formed) (rest : List Char) : ReadBefore a rest := by
  obtain ⟨lead,written,tail,value⟩ := a
  obtain ⟨-,named,ends⟩ := formed
  dsimp only at named ends
  cases ends with
  | none => exact unvalued_before named rest
  | quoted blank quote free => exact quoted_before named blank quote free rest
  | bare blank filled chars => exact bare_before named blank filled chars rest

-- Parts put together are read as they are exactly where no attribute takes from what follows it.
theorem search_apart {parts : List BodyPart} (sound : ∀ part ∈ parts, part.Sound) :
    search fieldOf (parts.flatMap BodyPart.raw) = fields parts ↔ apart parts = true := by
  induction parts with
  | nil => exact ⟨fun _ => rfl,fun _ => rfl⟩
  | cons part parts ih =>
      obtain ⟨here,others⟩ := List.forall_mem_cons.mp sound
      rw [List.flatMap_cons]
      cases part with
      | filler content =>
          rw [BodyPart.raw,search_strays here]
          exact ih others
      | attr a =>
          obtain ⟨found,left,read,longer,alone⟩ := formed_before here (parts.flatMap BodyPart.raw)
          have whole : fields (.attr a :: parts) = a.field :: fields parts := rfl
          rw [BodyPart.raw,search_attribute here.blank read,whole,apart,List.cons.injEq,Bool.and_eq_true,
            ← ih others]
          cases takes : a.takes (parts.flatMap BodyPart.raw) with
          | true => exact iff_of_false (fun both => longer takes both.1) (fun both => absurd both.1 Bool.false_ne_true)
          | false =>
              obtain ⟨same,rest⟩ := alone takes
              rw [rest]
              exact and_congr_left fun _ => ⟨fun _ => rfl,fun _ => same⟩

end Neighbours

end Redline.Markup
