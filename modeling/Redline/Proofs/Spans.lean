import Redline.Proofs.Markers
import Redline.Proofs.WrittenTags

namespace Redline.Markup

open Redline.Text
open Redline.Usage (scan Shortens scan_found scan_past blank_noName name_solid quote_solid takeWhile_run dropWhile_run)

section Division

inductive Ending : List Char → List Char → Prop
  | none : Ending [] []
  | quoted {before after value : List Char} {q : Char} (blank : before.all isBlank = true ∧ after.all isBlank = true)
      (quote : isQuote q = true) (free : q ∉ value) : Ending (before ++ '=' :: (after ++ q :: (value ++ [q]))) value
  | bare {before after value : List Char} (blank : before.all isBlank = true ∧ after.all isBlank = true)
      (filled : value ≠ []) (chars : value.all isBareValueChar = true) :
      Ending (before ++ '=' :: (after ++ value)) value

structure Attribute.Formed (a : Attribute) : Prop where
  blank : a.lead.all isBlank = true
  named : a.written ≠ [] ∧ a.written.all isAttributeNameChar = true
  ends : Ending a.tail a.value

def Attribute.unled (a : Attribute) : Attribute := { a with lead := [] }

def readAttribute : List Char → Option (Attribute × List Char)
  | [] => none
  | c :: rest =>
      if isAttributeNameChar c then
        let (tail,value,after) := readTail ((c :: rest).dropWhile isAttributeNameChar)
        some (⟨[],(c :: rest).takeWhile isAttributeNameChar,tail,value⟩,after)
      else none

def endsBlank (text : List Char) : Bool := text.getLast?.any isBlank

-- A text with the parts that it is read into. White space goes to the attribute it leads to, so that
-- no part but the last one ends in white space.
inductive Division : List Char → List BodyPart → Prop
  | ended : Division [] []
  | attr {a : Attribute} {after : List Char} {parts : List BodyPart} (formed : a.Formed)
      (read : readAttribute (a.written ++ (a.tail ++ after)) = some (a.unled,after)) (further : Division after parts) :
      Division (a.raw ++ after) (.attr a :: parts)
  | filler {content after : List Char} {parts : List BodyPart}
      (stray : ∀ c ∈ content, isAttributeNameChar c = false) (solid : parts = [] ∨ endsBlank content = false)
      (further : Division after parts) : Division (content ++ after) (.filler content :: parts)

theorem readValue_ending {text raw value after : List Char} (read : readValue text = some (raw,value,after)) :
    (∃ q, isQuote q = true ∧ q ∉ value ∧ raw = q :: (value ++ [q])) ∨
      raw = value ∧ value ≠ [] ∧ value.all isBareValueChar = true := by
  cases text with
  | nil => cases read
  | cons q rest =>
      simp only [readValue] at read
      split at read
      · rename_i quote
        split at read
        · cases read
          refine .inl ⟨q,quote,fun member => ?_,rfl⟩
          simpa using List.all_eq_true.mp List.all_takeWhile q member
        · cases read
      · split at read
        · cases read
        · rename_i filled
          cases read
          exact .inr ⟨rfl,by simpa using filled,List.all_takeWhile⟩

theorem readTail_ending (text : List Char) : Ending (readTail text).1 (readTail text).2.1 := by
  unfold readTail
  dsimp only
  split
  · rename_i rest _
    split
    · rename_i raw value after read
      have blank : (text.takeWhile isBlank).all isBlank = true ∧ (rest.takeWhile isBlank).all isBlank = true :=
        ⟨List.all_takeWhile,List.all_takeWhile⟩
      simp only [List.append_assoc,List.cons_append]
      rcases readValue_ending read with ⟨q,quote,free,rfl⟩ | ⟨rfl,filled,chars⟩
      · exact .quoted blank quote free
      · exact .bare blank filled chars
    · exact .none
  · exact .none

theorem readAttribute_formed {text after : List Char} {a : Attribute} (read : readAttribute text = some (a,after)) :
    text = a.written ++ (a.tail ++ after) ∧ a.lead = [] ∧ a.Formed := by
  cases text with
  | nil => cases read
  | cons c rest =>
      simp only [readAttribute] at read
      split at read
      · rename_i name
        cases read
        have run := List.takeWhile_append_dropWhile (p := isAttributeNameChar) (l := c :: rest)
        have tail := readTail_source ((c :: rest).dropWhile isAttributeNameChar)
        refine ⟨?_,rfl,rfl,⟨?_,List.all_takeWhile⟩,readTail_ending _⟩
        · dsimp only
          rw [tail,run]
        · simp [name]
      · cases read

theorem readPart_cases {text : List Char} (filled : text ≠ []) :
    (∃ a after, readPart text = (.attr a,after) ∧ text = a.raw ++ after ∧ a.Formed ∧
      readAttribute (a.written ++ (a.tail ++ after)) = some (a.unled,after)) ∨
    ∃ content after, readPart text = (.filler content,after) ∧ text = content ++ after ∧ content ≠ [] ∧
      (∀ c ∈ content, isAttributeNameChar c = false) ∧ (after = [] ∨ endsBlank content = false) := by
  have lead := List.takeWhile_append_dropWhile (p := isBlank) (l := text)
  have blanks : (text.takeWhile isBlank).all isBlank = true := List.all_takeWhile
  have stray : ∀ c ∈ text.takeWhile isBlank, isAttributeNameChar c = false :=
    fun c member => blank_noName (List.all_eq_true.mp blanks c member)
  cases left : text.dropWhile isBlank with
  | nil =>
      rw [left,List.append_nil] at lead
      refine .inr ⟨text.takeWhile isBlank,[],by simp only [readPart,left],by rw [lead,List.append_nil],?_,stray,
        .inl rfl⟩
      rwa [lead]
  | cons c rest =>
      rw [left] at lead
      by_cases name : isAttributeNameChar c = true
      · cases read : readAttribute (c :: rest) with
        | none => simp [readAttribute,name] at read
        | some found =>
            obtain ⟨a,after⟩ := found
            obtain ⟨source,unled,formed⟩ := readAttribute_formed read
            refine .inl ⟨{ a with lead := text.takeWhile isBlank },after,?_,?_,⟨blanks,formed.named,formed.ends⟩,?_⟩
            · simp only [readAttribute,if_pos name,Option.some.injEq,Prod.mk.injEq] at read
              obtain ⟨rfl,rfl⟩ := read
              simp only [readPart,left,if_pos name]
            · rw [source] at lead
              simpa [Attribute.raw] using lead.symm
            · rw [source] at read
              rw [read]
              simp [Attribute.unled,← unled]
      · rw [Bool.not_eq_true] at name
        have solid : isBlank c = false := dropWhile_stop left
        refine .inr ⟨text.takeWhile isBlank ++ [c],rest,by simp [readPart,left,name],by simp [lead],by simp,?_,.inr ?_⟩
        · intro d member
          rcases List.mem_append.mp member with front | here
          · exact stray d front
          · rw [List.mem_singleton.mp here]
            exact name
        · simp [endsBlank,solid]

theorem readPartsWithin_division {fuel : Nat} {text : List Char} (enough : text.length ≤ fuel) :
    Division text (readPartsWithin fuel text) := by
  induction fuel generalizing text with
  | zero =>
      rw [Nat.le_zero,List.length_eq_zero_iff] at enough
      subst enough
      exact .ended
  | succ fuel ih =>
      by_cases empty : text = []
      · subst empty
        exact .ended
      · rcases readPart_cases empty with
          ⟨a,after,read,source,formed,found⟩ | ⟨content,after,read,source,filled,stray,solid⟩
        · have size := List.length_pos_iff.mpr formed.named.1
          rw [readPartsWithin_filled empty read]
          rw [source] at enough ⊢
          simp only [Attribute.raw,List.length_append] at enough
          exact .attr formed found (ih (by omega))
        · have size := List.length_pos_iff.mpr filled
          rw [readPartsWithin_filled empty read]
          rw [source] at enough ⊢
          rw [List.length_append] at enough
          refine .filler stray (solid.imp ?_ id) (ih (by omega))
          rintro rfl
          cases fuel <;> rfl

theorem readParts_division (text : List Char) : Division text (readParts text) :=
  readPartsWithin_division (Nat.le_refl _)

end Division

section Search

variable {β : Type} {keep : Nat → Attribute → Nat → β}

-- The search for attributes. What is kept of each may depend on how much text is left where it begins and
-- behind it.
def readWith (keep : Nat → Attribute → Nat → β) (text : List Char) : Option (List β × List Char) :=
  (readAttribute text).map fun (a,after) => ([keep text.length a after.length],after)

def search (keep : Nat → Attribute → Nat → β) (text : List Char) : List β := scan (readWith keep) text

theorem readWith_shortens : Shortens (readWith keep) := by
  intro text found after read
  obtain ⟨⟨a,left⟩,here,eq⟩ := Option.map_eq_some_iff.mp read
  cases eq
  obtain ⟨rfl,_,formed⟩ := readAttribute_formed here
  have size := List.length_pos_iff.mpr formed.named.1
  simp only [List.length_append]
  omega

theorem search_strays {content : List Char} (stray : ∀ c ∈ content, isAttributeNameChar c = false)
    (rest : List Char) : search keep (content ++ rest) = search keep rest := by
  refine scan_past fun behind later filled => ?_
  cases behind with
  | nil => exact absurd rfl filled
  | cons c behind =>
      have other := stray c (later.subset List.mem_cons_self)
      simp [readWith,readAttribute,other]

theorem search_attribute {a found : Attribute} {after left : List Char} (blank : a.lead.all isBlank = true)
    (read : readAttribute (a.written ++ (a.tail ++ after)) = some (found,left)) : search keep (a.raw ++ after) =
      keep (a.written ++ (a.tail ++ after)).length found left.length :: search keep left := by
  have stray : ∀ c ∈ a.lead, isAttributeNameChar c = false :=
    fun c member => blank_noName (List.all_eq_true.mp blank c member)
  have here : readWith keep (a.written ++ (a.tail ++ after)) =
      some ([keep (a.written ++ (a.tail ++ after)).length found left.length],left) := by
    rw [readWith,read]
    rfl
  have source : a.raw ++ after = a.lead ++ (a.written ++ (a.tail ++ after)) := by simp [Attribute.raw]
  rw [source,search_strays stray]
  exact scan_found readWith_shortens here

end Search

section Layout

-- An attribute that was found, from where the white space before it begins to behind its value.
structure Found where
  held : Attribute
  first : Nat
  last : Nat
deriving DecidableEq

def blanksBefore (body : List Char) (place : Nat) : Nat := ((body.take place).reverse.takeWhile isBlank).length

def spanIn (offset : Nat) (body : List Char) (left : Nat) (a : Attribute) (behind : Nat) : Found :=
  let place := body.length - left
  ⟨a,offset + place - blanksBefore body place,offset + (body.length - behind)⟩

-- The attributes that the search finds in a tag, with their places in the whole of it.
def StartTag.found (tag : StartTag) : List Found :=
  search (spanIn (1 + tag.written.length) tag.body) tag.body

def layout (place : Nat) : List BodyPart → List Found
  | [] => []
  | .attr a :: parts => ⟨a.unled,place,place + a.raw.length⟩ :: layout (place + a.raw.length) parts
  | .filler content :: parts => layout (place + content.length) parts

theorem endsBlank_solid {text : List Char} (filled : text ≠ []) (solid : ∀ c ∈ text, isBlank c = false)
    (front : List Char) : endsBlank (front ++ text) = false := by
  have last := List.getLast?_eq_some_getLast filled
  simp [endsBlank,List.getLast?_append,last,solid _ (List.getLast_mem filled)]

theorem endsBlank_append {front text : List Char} (solid : endsBlank front = false) (solid' : endsBlank text = false) :
    endsBlank (front ++ text) = false := by
  unfold endsBlank at *
  rw [List.getLast?_append]
  cases last : text.getLast? with
  | none => exact solid
  | some c => rwa [last] at solid'

theorem name_chars {name : List Char} (chars : name.all isAttributeNameChar = true) : ∀ c ∈ name, isBlank c = false :=
  fun c member => name_solid (List.all_eq_true.mp chars c member)

theorem bareValue_solid {c : Char} (bare : isBareValueChar c = true) : isBlank c = false := by
  rw [← Bool.not_eq_true]
  intro blank
  simp [isBareValueChar,blank] at bare

theorem formed_endsBlank {a : Attribute} (formed : a.Formed) (front : List Char) :
    endsBlank (front ++ a.raw) = false := by
  obtain ⟨filled,chars⟩ := formed.named
  have ends := formed.ends
  rw [Attribute.raw]
  generalize a.tail = tail at ends ⊢
  generalize a.value = value at ends
  cases ends with
  | none =>
      rw [List.append_nil,← List.append_assoc]
      exact endsBlank_solid filled (name_chars chars) (front ++ a.lead)
  | @quoted before after value q _ quote _ =>
      have solid : ∀ c ∈ [q], isBlank c = false := List.forall_mem_singleton.mpr (quote_solid quote)
      have last := endsBlank_solid (List.cons_ne_nil q []) solid
        (front ++ (a.lead ++ a.written ++ (before ++ '=' :: (after ++ q :: value))))
      simpa using last
  | @bare before after value _ filled chars =>
      have solid : ∀ c ∈ value, isBlank c = false :=
        fun c member => bareValue_solid (List.all_eq_true.mp chars c member)
      have last := endsBlank_solid filled solid (front ++ (a.lead ++ a.written ++ (before ++ '=' :: after)))
      simpa using last

theorem blanksBefore_lead {front lead : List Char} (solid : endsBlank front = false) (blank : lead.all isBlank = true)
    (rest : List Char) : blanksBefore (front ++ (lead ++ rest)) (front.length + lead.length) = lead.length := by
  have place : (front ++ (lead ++ rest)).take (front.length + lead.length) = front ++ lead := by
    rw [← List.append_assoc,← List.length_append,List.take_left]
  have run : ∀ c ∈ lead.reverse, isBlank c = true :=
    fun c member => List.all_eq_true.mp blank c (List.mem_reverse.mp member)
  have stops : front.reverse.takeWhile isBlank = [] := by
    rw [endsBlank,← List.head?_reverse] at solid
    cases back : front.reverse with
    | nil => rfl
    | cons c behind =>
        rw [back] at solid
        exact List.takeWhile_cons_of_neg (by simpa using solid)
  rw [blanksBefore,place,List.reverse_append,List.takeWhile_append_of_pos run,stops,List.append_nil,List.length_reverse]

theorem search_layout {offset : Nat} {text : List Char} {parts : List BodyPart} (division : Division text parts)
    {front : List Char} (solid : endsBlank front = false) :
    search (spanIn offset (front ++ text)) text = layout (offset + front.length) parts := by
  induction division generalizing front with
  | ended => rfl
  | @attr a after parts formed read further ih =>
      have still := ih (formed_endsBlank formed front)
      have blanks := blanksBefore_lead solid formed.blank (a.written ++ (a.tail ++ after))
      have whole : front ++ (a.raw ++ after) = front ++ (a.lead ++ (a.written ++ (a.tail ++ after))) := by
        simp [Attribute.raw]
      -- What stands before ends in no white space, so reaching back finds the lead of this attribute only.
      rw [search_attribute formed.blank read,layout]
      rw [List.append_assoc,List.length_append,← Nat.add_assoc] at still
      rw [still]
      congr 1
      simp only [spanIn,Found.mk.injEq,true_and]
      have place : (front ++ (a.raw ++ after)).length - (a.written ++ (a.tail ++ after)).length =
          front.length + a.lead.length := by
        rw [whole]
        simp only [List.length_append]
        omega
      constructor
      · rw [place,whole,blanks]
        omega
      · simp only [List.length_append]
        omega
  | @filler content after parts stray solid' further ih =>
      rw [search_strays stray,layout]
      rcases solid' with rfl | solid'
      · cases further
        rfl
      · have still := ih (endsBlank_append solid solid')
        rwa [List.append_assoc,List.length_append,← Nat.add_assoc] at still

theorem found_layout {tag : StartTag} (division : Division tag.body tag.parts) :
    tag.found = layout (1 + tag.written.length) tag.parts :=
  @search_layout _ tag.body tag.parts division [] rfl

end Layout

section Cutting

def slice (raw : List Char) (first last : Nat) : List Char := (raw.take last).drop first

-- The tag is copied in slices: each runs from the last span that was left out to the next one.
def cutFrom (raw : List Char) (last : Nat) : List Found → List Char
  | [] => raw.drop last
  | f :: found =>
      if f.held.marker?.isSome then slice raw last f.first ++ cutFrom raw f.last found else cutFrom raw last found

theorem slice_middle (front part back : List Char) :
    slice (front ++ (part ++ back)) front.length (front.length + part.length) = part := by
  rw [slice,← List.append_assoc,← List.length_append,List.take_left,List.drop_left]

theorem layout_slices (front : List Char) (parts : List BodyPart) (back : List Char) :
    (layout front.length parts).map (fun f => slice (front ++ (parts.flatMap BodyPart.raw ++ back)) f.first f.last) =
      (parts.filterMap BodyPart.attribute?).map Attribute.raw := by
  induction parts generalizing front with
  | nil => rfl
  | cons part parts ih =>
      have further := ih (front ++ part.raw)
      rw [List.length_append,List.append_assoc] at further
      cases part with
      | filler content => simpa [layout,BodyPart.raw,BodyPart.attribute?,List.filterMap_cons] using further
      | attr a =>
          have here := slice_middle front a.raw (parts.flatMap BodyPart.raw ++ back)
          simpa [layout,BodyPart.raw,BodyPart.attribute?,List.filterMap_cons,here] using further

theorem layout_within {place : Nat} {parts : List BodyPart} {f : Found} (member : f ∈ layout place parts) :
    place ≤ f.first ∧ f.first ≤ f.last ∧ f.last ≤ place + (parts.flatMap BodyPart.raw).length := by
  induction parts generalizing place with
  | nil => cases member
  | cons part parts ih =>
      rw [List.flatMap_cons,List.length_append]
      cases part with
      | filler content =>
          have inside := ih member
          simp only [BodyPart.raw]
          omega
      | attr a =>
          simp only [BodyPart.raw]
          rcases List.mem_cons.mp member with rfl | later
          · dsimp only
            omega
          · have inside := ih later
            omega

theorem layout_ordered (place : Nat) (parts : List BodyPart) :
    (layout place parts).Pairwise fun f g => f.last ≤ g.first := by
  induction parts generalizing place with
  | nil => exact .nil
  | cons part parts ih =>
      cases part with
      | filler content => exact ih (place + content.length)
      | attr a => exact List.pairwise_cons.mpr ⟨fun g later => (layout_within later).1,ih (place + a.raw.length)⟩

theorem layout_fields (place : Nat) (parts : List BodyPart) :
    (layout place parts).map Found.held = (parts.filterMap BodyPart.attribute?).map Attribute.unled := by
  induction parts generalizing place with
  | nil => rfl
  | cons part parts ih =>
      cases part with
      | filler content => exact ih (place + content.length)
      | attr a => exact congrArg (a.unled :: ·) (ih (place + a.raw.length))

theorem cutFrom_layout (front waiting : List Char) (parts : List BodyPart) (back : List Char) :
    cutFrom (front ++ (waiting ++ (parts.flatMap BodyPart.raw ++ back))) front.length
      (layout (front.length + waiting.length) parts) =
        waiting ++ ((parts.filter (·.marker?.isNone)).flatMap BodyPart.raw ++ back) := by
  induction parts generalizing front waiting with
  | nil => simp [layout,cutFrom]
  | cons part parts ih =>
      have kept := ih front (waiting ++ part.raw)
      rw [List.length_append,List.append_assoc,← Nat.add_assoc] at kept
      cases part with
      | filler content => simpa [layout,BodyPart.raw,BodyPart.marker?,BodyPart.attribute?] using kept
      | attr a =>
          have same : a.unled.marker? = a.marker? := rfl
          rw [layout,cutFrom,same]
          cases marker : a.marker? with
          | none => simpa [BodyPart.raw,BodyPart.marker?,BodyPart.attribute?,marker] using kept
          | some found =>
              have here := slice_middle front waiting (a.raw ++ (parts.flatMap BodyPart.raw ++ back))
              have later := ih (front ++ (waiting ++ a.raw)) []
              simp only [List.length_append,List.length_nil,Nat.add_zero,List.nil_append,List.append_assoc,
                ← Nat.add_assoc] at later
              simp only [Option.isSome_some,if_true,List.flatMap_cons,BodyPart.raw,List.append_assoc,here,later]
              simp [BodyPart.marker?,BodyPart.attribute?,marker]

theorem raw_split (tag : StartTag) :
    tag.raw = '<' :: tag.written ++ (tag.parts.flatMap BodyPart.raw ++ ['>']) := by
  simp [StartTag.raw,StartTag.body]

theorem found_exact {tag : StartTag} (division : Division tag.body tag.parts) :
    tag.found.map Found.held = tag.attributes.map Attribute.unled ∧
      tag.found.map (fun f => slice tag.raw f.first f.last) = tag.attributes.map Attribute.raw ∧
      (∀ f ∈ tag.found, f.first ≤ f.last ∧ f.last < tag.raw.length) ∧
      tag.found.Pairwise (fun f g => f.last ≤ g.first) ∧ cutFrom tag.raw 0 tag.found = tag.cleaned.raw := by
  have size : 1 + tag.written.length = ('<' :: tag.written).length := Nat.add_comm 1 tag.written.length
  rw [found_layout division,size,raw_split tag,raw_split tag.cleaned]
  refine ⟨layout_fields _ tag.parts,layout_slices _ tag.parts ['>'],?_,layout_ordered _ tag.parts,?_⟩
  · intro f member
    have inside := layout_within member
    simp only [List.length_append,List.length_singleton]
    omega
  · have cut := cutFrom_layout [] ('<' :: tag.written) tag.parts ['>']
    rwa [List.nil_append,List.length_nil,Nat.zero_add] at cut

end Cutting

end Redline.Markup
