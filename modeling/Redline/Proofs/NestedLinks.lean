import Redline.Proofs.Linking

namespace Redline.Format

open Redline.Text

section Anchors

def endsName (c : Char) : Bool := c = '>' || isBlank c

-- An anchor tag at the start of a text, as far as the filter reads it.
def AnchorAt (start text : List Char) : Prop :=
  ∃ a c rest, text = start ++ a :: c :: rest ∧ isAnchorLetter a = true ∧ endsName c = true

def NoneCloses (text : List Char) : Prop := ∀ behind, behind <:+ text → ¬AnchorAt ['<','/'] behind

-- An anchor tag opens somewhere in the text, and none closes from there on.
def LastOpens (text : List Char) : Prop := ∃ rest, rest <:+ text ∧ AnchorAt ['<'] rest ∧ NoneCloses rest

variable {start text : List Char} {a c : Char}

theorem not_anchorAt_nil : ¬AnchorAt start [] := by
  rintro ⟨a,c,rest,eq,_⟩
  cases start <;> cases eq

theorem anchorAt_append (more : List Char) (here : AnchorAt start text) : AnchorAt start (text ++ more) := by
  obtain ⟨a,c,rest,rfl,reads⟩ := here
  exact ⟨a,c,rest ++ more,by simp,reads⟩

theorem anchorAt_concat : AnchorAt start (text ++ [c]) ↔
    AnchorAt start text ∨ ∃ a, text = start ++ [a] ∧ isAnchorLetter a = true ∧ endsName c = true := by
  constructor
  · rintro ⟨a,d,rest,eq,letter,ends⟩
    rcases List.eq_nil_or_concat rest with rfl | ⟨rest,last,rfl⟩
    · have whole : text ++ [c] = (start ++ [a]) ++ [d] := by rw [eq]; simp
      obtain ⟨rfl,same⟩ := List.append_inj' whole rfl
      cases same
      exact .inr ⟨a,rfl,letter,ends⟩
    · have whole : text ++ [c] = (start ++ a :: d :: rest) ++ [last] := by rw [eq]; simp
      obtain ⟨rfl,_⟩ := List.append_inj' whole rfl
      exact .inl ⟨a,d,rest,rfl,letter,ends⟩
  · rintro (here | ⟨a,rfl,letter,ends⟩)
    · exact anchorAt_append [c] here
    · exact ⟨a,c,[],by simp,letter,ends⟩

theorem lastOpens_opened (tag : ['<',a] <:+ text) (letter : isAnchorLetter a = true) (ends : endsName c = true) :
    LastOpens (text ++ [c]) := by
  refine ⟨['<',a] ++ [c],List.suffix_append_self_iff.mpr tag,⟨a,c,[],rfl,letter,ends⟩,?_⟩
  rintro behind suffix ⟨b,d,rest,rfl,_⟩
  have short := suffix.length_le
  simp only [List.length_append,List.length_cons,List.length_nil] at short
  omega

theorem not_lastOpens_closed (tag : ['<','/',a] <:+ text) (letter : isAnchorLetter a = true)
    (ends : endsName c = true) : ¬LastOpens (text ++ [c]) := by
  rintro ⟨rest,suffix,opens,none_⟩
  have whole : ['<','/',a,c] <:+ text ++ [c] := List.suffix_append_self_iff.mpr tag
  rcases List.suffix_or_suffix_of_suffix whole suffix with inside | inside
  · exact none_ _ inside ⟨a,c,[],rfl,letter,ends⟩
  · obtain ⟨b,d,more,rfl,other,_⟩ := opens
    obtain ⟨rfl,_⟩ : b = '/' ∧ d = a ∧ more = [c] := by simpa [List.suffix_cons_iff] using inside
    cases other

theorem lastOpens_concat (open_ : ∀ a, ['<',a] <:+ text → isAnchorLetter a = true → endsName c = false)
    (close : ∀ a, ['<','/',a] <:+ text → isAnchorLetter a = true → endsName c = false) :
    LastOpens (text ++ [c]) ↔ LastOpens text := by
  constructor
  · rintro ⟨rest,suffix,opens,none_⟩
    rcases List.suffix_concat_iff.mp suffix with rfl | ⟨rest,rfl,inside⟩
    · exact absurd opens not_anchorAt_nil
    · refine ⟨rest,inside,?_,fun behind later closes => ?_⟩
      · rcases anchorAt_concat.mp opens with opens | ⟨a,rfl,letter,ends⟩
        · exact opens
        · cases (open_ a inside letter).symm.trans ends
      · exact none_ (behind ++ [c]) (List.suffix_append_self_iff.mpr later) (anchorAt_append [c] closes)
  · rintro ⟨rest,suffix,opens,none_⟩
    refine ⟨rest ++ [c],List.suffix_append_self_iff.mpr suffix,anchorAt_append [c] opens,fun behind later closes => ?_⟩
    rcases List.suffix_concat_iff.mp later with rfl | ⟨behind,rfl,inside⟩
    · exact not_anchorAt_nil closes
    · rcases anchorAt_concat.mp closes with closes | ⟨a,rfl,letter,ends⟩
      · exact none_ behind inside closes
      · cases (close a (inside.trans suffix) letter).symm.trans ends

theorem insideAnchor_cons (c : Char) (past : List Char) : insideAnchor (c :: past) =
    if endsName c then match past with
      | a :: '<' :: _ => if isAnchorLetter a then true else insideAnchor past
      | a :: '/' :: '<' :: _ => if isAnchorLetter a then false else insideAnchor past
      | _ => insideAnchor past
    else insideAnchor past := rfl

-- The filter, which reads backwards, asks whether the last anchor tag opens.
theorem insideAnchor_iff (past : List Char) : insideAnchor past = true ↔ LastOpens past.reverse := by
  have read : ∀ word past : List Char, word <:+ past.reverse ↔ word.reverse <+: past := fun word past => by
    rw [← List.reverse_prefix,List.reverse_reverse]
  induction past with
  | nil =>
      refine ⟨fun no => absurd no Bool.false_ne_true,?_⟩
      rintro ⟨rest,suffix,opens,_⟩
      rw [List.suffix_nil.mp suffix] at opens
      exact absurd opens not_anchorAt_nil
  | cons c past ih =>
      rw [List.reverse_cons,insideAnchor_cons]
      by_cases ends : endsName c = true
      · have other : (∀ a, [a,'<'] <+: past → isAnchorLetter a = false) →
            (∀ a, [a,'/','<'] <+: past → isAnchorLetter a = false) →
            (insideAnchor past = true ↔ LastOpens (past.reverse ++ [c])) := by
          intro open_ close
          refine ih.trans (lastOpens_concat (fun a tag letter => ?_) fun a tag letter => ?_).symm
          · cases (open_ a ((read _ _).mp tag)).symm.trans letter
          · cases (close a ((read _ _).mp tag)).symm.trans letter
        rw [if_pos ends]
        -- The three ways in which the filter looks at what stands before the character.
        split
        · rename_i a rest
          split
          · rename_i letter
            exact iff_of_true rfl (lastOpens_opened ((read _ _).mpr ⟨rest,rfl⟩) letter ends)
          · rename_i letter
            exact other (by simpa using letter) (by simp)
        · rename_i a rest
          split
          · rename_i letter
            exact iff_of_false Bool.false_ne_true (not_lastOpens_closed ((read _ _).mpr ⟨rest,rfl⟩) letter ends)
          · rename_i letter
            exact other (by simp) (by simpa using letter)
        · rename_i opened closed
          refine other ?_ ?_
          · rintro a ⟨rest,rfl⟩
            exact absurd rfl (opened a rest)
          · rintro a ⟨rest,rfl⟩
            exact absurd rfl (closed a rest)
      · rw [if_neg ends]
        rw [Bool.not_eq_true] at ends
        exact ih.trans (lastOpens_concat (fun _ _ _ => ends) fun _ _ _ => ends).symm

theorem lastOpens_append (earlier : List Char) (opens : AnchorAt ['<'] text) :
    LastOpens (earlier ++ text) ↔ LastOpens text := by
  constructor
  · rintro ⟨rest,suffix,opensRest,none_⟩
    rcases List.suffix_or_suffix_of_suffix suffix (List.suffix_append earlier text) with inside | across
    · exact ⟨rest,inside,opensRest,none_⟩
    · exact ⟨text,List.suffix_refl text,opens,fun behind later => none_ behind (later.trans across)⟩
  · rintro ⟨rest,suffix,opensRest,none_⟩
    exact ⟨rest,suffix.trans (List.suffix_append earlier text),opensRest,none_⟩

end Anchors

section Pages

-- What a tag holds behind its name: values in double quotes, which may hold any brackets, and
-- characters outside of them.
inductive Part where
  | bare (c : Char) (plain : isValueChar c = true)
  | value (text : List Char) (quoted : '"' ∉ text)

def Part.raw : Part → List Char
  | bare c _ => [c]
  | value text _ => '"' :: text ++ ['"']

def partsRaw (parts : List Part) : List Char := parts.flatMap Part.raw

-- A tag of any other element than `a`.
structure FreeTag where
  closes : Bool
  name : List Char
  body : List Part
  named : name ≠ [] ∧ name.all isNameChar = true
  free : ∀ a, name = [a] → isAnchorLetter a = false

def FreeTag.raw (tag : FreeTag) : List Char :=
  '<' :: ((if tag.closes then ['/'] else []) ++ tag.name ++ partsRaw tag.body ++ ['>'])

structure Flow (α : Type) where
  lead : TextRun
  rest : List (α × TextRun)

def flowRest (write : α → List Char) (rest : List (α × TextRun)) : List Char :=
  rest.flatMap fun (piece,run) => write piece ++ run.content

def Flow.raw (write : α → List Char) (flow : Flow α) : List Char := flow.lead.content ++ flowRest write flow.rest

-- An `a` element: it is closed, and there is no other one in it.
structure Anchor where
  letter : Char
  body : List Part
  content : Flow FreeTag
  closing : Char
  blanks : List Char
  named : isAnchorLetter letter = true ∧ isAnchorLetter closing = true
  apart : ∀ c, (partsRaw body).head? = some c → isBlank c = true
  blank : blanks.all isBlank = true

namespace Anchor

def openingTag (a : Anchor) : List Char := '<' :: a.letter :: (partsRaw a.body ++ ['>'])

def inner (a : Anchor) : List Char := a.content.raw FreeTag.raw

def closingTag (a : Anchor) : List Char := '<' :: '/' :: a.closing :: (a.blanks ++ ['>'])

end Anchor

inductive Node where
  | tag (free : FreeTag)
  | anchor (a : Anchor)

namespace Node

def raw : Node → List Char
  | .tag free => free.raw
  | .anchor a => a.openingTag ++ (a.inner ++ a.closingTag)

def anchor? : Node → Option Anchor
  | .tag _ => none
  | .anchor a => some a

-- Addresses may be linked in tags of other elements and in the opening tag, not from there to the end.
def Keeps : Node → List Char → Prop
  | .tag free,result => Rewritten free.raw result
  | .anchor a,result => ∃ opening', Rewritten a.openingTag opening' ∧ result = opening' ++ (a.inner ++ a.closingTag)

end Node

def anchors (page : Flow Node) : List Anchor := page.rest.filterMap fun piece => piece.1.anchor?

def KeepsRest : List (Node × TextRun) → List Char → Prop
  | [],result => result = []
  | (node,run) :: rest,result => ∃ node' run' result', node.Keeps node' ∧ Rewritten run.content run' ∧
      KeepsRest rest result' ∧ result = node' ++ (run' ++ result')

-- The result is the page with some of its addresses made into links, none of them within an `a` element.
def KeepsLinks (page : Flow Node) (result : List Char) : Prop :=
  ∃ lead' result', Rewritten page.lead.content lead' ∧ KeepsRest page.rest result' ∧ result = lead' ++ result'

def valueOpenings : List (List Char) := ["href=\"".toList,"href='".toList,"src=\"".toList,"src='".toList]

-- Where the filter leaves an address alone: behind one of four words, or next to a tag if of the anchor
-- tags before it the last one opens. `before` is the content of the element up to there.
def Anchor.LeftAt (a : Anchor) (before : List Char) : Prop :=
  (∃ word ∈ valueOpenings, word <:+ before) ∨
    (before = [] ∨ ['>'] <:+ before) ∧ LastOpens (a.openingTag ++ before)

def Anchor.LeftAlone (a : Anchor) : Prop := ∀ before address, Found a.inner before address → a.LeftAt before

theorem opens_anchor (a : Anchor) (rest : List Char) : AnchorAt ['<'] (a.openingTag ++ rest) := by
  cases parts : partsRaw a.body with
  | nil => exact ⟨a.letter,'>',rest,by simp [Anchor.openingTag,parts],a.named.1,rfl⟩
  | cons c more =>
      have blank := a.apart c (by rw [parts]; rfl)
      exact ⟨a.letter,c,more ++ '>' :: rest,by simp [Anchor.openingTag,parts],a.named.1,by simp [endsName,blank]⟩

theorem closing_unchanged (a : Anchor) (past : List Char) : linkFrom past 0 a.closingTag = a.closingTag := by
  have blank : a.blanks.count '/' = 0 := List.count_eq_zero.mpr (all_absent (by decide) a.blank)
  have letter : a.closing ≠ '/' := ne_of_holds a.named.2 (by decide)
  refine linkFrom_bare past ?_
  simp [Anchor.closingTag,blank,letter]

theorem standsInMarkup_inner (a : Anchor) (past before : List Char) :
    standsInMarkup (before.reverse ++ (a.openingTag.reverse ++ past)) = true ↔ a.LeftAt before := by
  obtain ⟨more,ends⟩ : ∃ more, a.openingTag.reverse ++ past = '>' :: more :=
    ⟨(partsRaw a.body).reverse ++ (a.letter :: '<' :: past),by simp [Anchor.openingTag]⟩
  have values : opensValue (before.reverse ++ (a.openingTag.reverse ++ past)) = true ↔
      ∃ word ∈ valueOpenings, word <:+ before := by
    have word : ∀ word : List Char, '>' ∉ word →
        (word <+: before.reverse ++ '>' :: more ↔ word.reverse <:+ before) := fun word free => by
      rw [prefix_stop free,← List.reverse_prefix,List.reverse_reverse]
    rw [ends]
    simp only [opensValue,List.any_cons,List.any_nil,Bool.or_false,Bool.or_eq_true,List.isPrefixOf_iff_prefix]
    rw [word _ (by decide),word _ (by decide),word _ (by decide),word _ (by decide)]
    simp [valueOpenings]
  have next : (before.reverse ++ (a.openingTag.reverse ++ past)).head? = some '>' ↔ before = [] ∨ ['>'] <:+ before := by
    rw [ends,← List.reverse_prefix]
    cases reversed : before.reverse with
    | nil => simp [List.reverse_eq_nil_iff.mp reversed]
    | cons c rest =>
        have filled : before ≠ [] := by
          rintro rfl
          cases reversed
        simp [filled,List.cons_prefix_cons,eq_comm]
  have last : insideAnchor (before.reverse ++ (a.openingTag.reverse ++ past)) = true ↔
      LastOpens (a.openingTag ++ before) := by
    rw [insideAnchor_iff,← lastOpens_append past.reverse (opens_anchor a before)]
    simp
  rw [standsInMarkup,Bool.or_eq_true,Bool.and_eq_true,decide_eq_true_eq,values,next,last]
  rfl

theorem linkFrom_opening (a : Anchor) (past rest : List Char) : linkFrom past 0 (a.openingTag ++ rest) =
    linkFrom past 0 a.openingTag ++ linkFrom (a.openingTag.reverse ++ past) 0 rest :=
  @linkFrom_afresh '>' rfl past ('<' :: a.letter :: partsRaw a.body) rest

theorem linkFrom_node (node : Node) (past rest : List Char) : linkFrom past 0 (node.raw ++ rest) =
    linkFrom past 0 node.raw ++ linkFrom (node.raw.reverse ++ past) 0 rest := by
  obtain ⟨front,ends⟩ : ∃ front, node.raw = front ++ ['>'] := by
    cases node with
    | tag free => exact ⟨'<' :: ((if free.closes then ['/'] else []) ++ free.name ++ partsRaw free.body),rfl⟩
    | anchor a =>
        exact ⟨a.openingTag ++ (a.inner ++ '<' :: '/' :: a.closing :: a.blanks),by simp [Node.raw,Anchor.closingTag]⟩
  rw [ends]
  exact @linkFrom_afresh '>' rfl past front rest

theorem linkFrom_flow (past text : List Char) (rest : List (Node × TextRun)) :
    linkFrom past 0 (text ++ flowRest Node.raw rest) =
      linkFrom past 0 text ++ linkFrom (text.reverse ++ past) 0 (flowRest Node.raw rest) := by
  refine linkFrom_before_tag past text fun c head => ?_
  rcases rest with _ | ⟨⟨_ | _,run⟩,rest⟩
  · cases head
  · exact (Option.some.inj head).symm
  · exact (Option.some.inj head).symm

theorem linkFrom_anchor (a : Anchor) (past : List Char) : linkFrom past 0 (Node.anchor a).raw =
    linkFrom past 0 a.openingTag ++ (linkFrom (a.openingTag.reverse ++ past) 0 a.inner ++ a.closingTag) := by
  have opens : ∀ c, a.closingTag.head? = some c → c = '<' := fun c head => (Option.some.inj head).symm
  rw [Node.raw,linkFrom_opening,linkFrom_before_tag _ a.inner opens,closing_unchanged]

theorem keeps_unique {node : Node} {past node' restOne restTwo : List Char} (keeps : node.Keeps node')
    (same : linkFrom past 0 node.raw ++ restOne = node' ++ restTwo) :
    linkFrom past 0 node.raw = node' ∧ restOne = restTwo := by
  cases node with
  | tag free => exact (linkFrom_rewritten past free.raw).unique_of_append keeps same
  | anchor a =>
      obtain ⟨opening',rewritten,rfl⟩ := keeps
      simp only [linkFrom_anchor,List.append_assoc] at same
      obtain ⟨opening,behind⟩ := (linkFrom_rewritten past a.openingTag).unique_of_append rewritten same
      obtain ⟨inner,others⟩ := (linkFrom_rewritten _ a.inner).unique_of_append (.refl a.inner) behind
      rw [linkFrom_anchor,opening,inner]
      exact ⟨rfl,List.append_cancel_left others⟩

theorem node_keeps_iff (past : List Char) (node : Node) :
    node.Keeps (linkFrom past 0 node.raw) ↔ ∀ a, node.anchor? = some a → a.LeftAlone := by
  cases node with
  | tag free => exact iff_of_true (linkFrom_rewritten past free.raw) fun a none_ => by cases none_
  | anchor a =>
      have alone : linkFrom (a.openingTag.reverse ++ past) 0 a.inner = a.inner ↔ a.LeftAlone := by
        rw [linkFrom_unchanged]
        exact forall_congr' fun before => forall_congr' fun address => forall_congr' fun _ =>
          standsInMarkup_inner a past before
      simp only [Node.anchor?,Option.some.injEq,forall_eq',← alone]
      rw [linkFrom_anchor]
      constructor
      · rintro ⟨opening',rewritten,same⟩
        have rest := ((linkFrom_rewritten past a.openingTag).unique_of_append rewritten same).2
        exact List.append_cancel_right rest
      · intro same
        rw [same]
        exact ⟨_,linkFrom_rewritten past a.openingTag,rfl⟩

theorem keepsRest_iff (past : List Char) (rest : List (Node × TextRun)) :
    KeepsRest rest (linkFrom past 0 (flowRest Node.raw rest)) ↔
      ∀ piece ∈ rest, ∀ a, piece.1.anchor? = some a → a.LeftAlone := by
  induction rest generalizing past with
  | nil => simp [KeepsRest,flowRest,linkFrom]
  | cons first rest ih =>
      obtain ⟨node,run⟩ := first
      have split_ : linkFrom past 0 (flowRest Node.raw ((node,run) :: rest)) = linkFrom past 0 node.raw ++
          (linkFrom (node.raw.reverse ++ past) 0 run.content ++
            linkFrom (run.content.reverse ++ (node.raw.reverse ++ past)) 0 (flowRest Node.raw rest)) := by
        rw [← linkFrom_flow,← linkFrom_node]
        simp [flowRest]
      rw [split_,List.forall_mem_cons,← node_keeps_iff past node,
        ← ih (run.content.reverse ++ (node.raw.reverse ++ past))]
      constructor
      · rintro ⟨node',run',result',keeps,rewritten,others,same⟩
        obtain ⟨here,behind⟩ := keeps_unique keeps same
        obtain ⟨_,later⟩ := (linkFrom_rewritten _ run.content).unique_of_append rewritten behind
        exact ⟨by rw [here]; exact keeps,by rw [later]; exact others⟩
      · rintro ⟨keeps,others⟩
        exact ⟨_,_,_,keeps,linkFrom_rewritten _ run.content,others,rfl⟩

end Pages

section Unbracketed

-- No value of the element's tags holds an opening bracket.
def Anchor.Unbracketed (a : Anchor) : Prop :=
  '<' ∉ partsRaw a.body ∧ ∀ piece ∈ a.content.rest, '<' ∉ partsRaw piece.1.body

theorem noneCloses_nil : NoneCloses [] := fun behind suffix => by
  rw [List.suffix_nil.mp suffix]
  exact not_anchorAt_nil

theorem noneCloses_cons {c : Char} {text : List Char} :
    NoneCloses (c :: text) ↔ ¬AnchorAt ['<','/'] (c :: text) ∧ NoneCloses text := by
  simp only [NoneCloses,List.suffix_cons_iff,or_imp,forall_and,forall_eq]

theorem noneCloses_plain {text rest : List Char} (free : '<' ∉ text) (none_ : NoneCloses rest) :
    NoneCloses (text ++ rest) := by
  induction text with
  | nil => exact none_
  | cons c text ih =>
      obtain ⟨other,behind⟩ := not_or.mp fun here => free (List.mem_cons.mpr here)
      refine noneCloses_cons.mpr ⟨?_,ih behind⟩
      rintro ⟨_,_,_,eq,_⟩
      exact other (List.cons.inj eq).1.symm

theorem noneCloses_begins {front text : List Char} (begins : front <+: text) (none_ : NoneCloses text) :
    NoneCloses front := by
  obtain ⟨rest,rfl⟩ := begins
  intro behind suffix closes
  exact none_ (behind ++ rest) (List.suffix_append_self_iff.mpr suffix) (anchorAt_append rest closes)

theorem noneCloses_tag {inner rest : List Char} (other : ¬AnchorAt ['<','/'] ('<' :: (inner ++ rest)))
    (free : '<' ∉ inner) (none_ : NoneCloses rest) : NoneCloses ('<' :: (inner ++ rest)) :=
  noneCloses_cons.mpr ⟨other,noneCloses_plain free none_⟩

theorem not_closes_opening {c : Char} {rest : List Char} (other : c ≠ '/') : ¬AnchorAt ['<','/'] ('<' :: c :: rest) := by
  rintro ⟨_,_,_,eq,_⟩
  exact other (List.cons.inj (List.cons.inj eq).2).1

theorem name_goesOn {c : Char} (named : isNameChar c = true) : endsName c = false := by
  rw [Bool.eq_false_iff]
  intro ends
  rw [endsName,Bool.or_eq_true,decide_eq_true_eq] at ends
  rcases ends with rfl | blank
  · cases named
  · simp [isNameChar,isAddressChar,blank] at named

theorem not_closes_free (tag : FreeTag) (rest : List Char) : ¬AnchorAt ['<','/'] (tag.raw ++ rest) := by
  obtain ⟨closes,name,body,⟨nonempty,named⟩,free⟩ := tag
  cases name with
  | nil => exact absurd rfl nonempty
  | cons first others =>
      have each := List.all_eq_true.mp named
      cases closes with
      | false => exact not_closes_opening (ne_of_holds (each first List.mem_cons_self) (by decide))
      | true =>
          rintro ⟨b,c,more,eq,letter,ends⟩
          have behind : first :: others ++ partsRaw body ++ ['>'] ++ rest = b :: c :: more :=
            (List.cons.inj (List.cons.inj eq).2).2
          cases others with
          | nil =>
              have alone := free first rfl
              rw [(List.cons.inj behind).1,letter] at alone
              cases alone
          | cons second others =>
              have held := each second (by simp)
              rw [(List.cons.inj (List.cons.inj behind).2).1] at held
              cases (name_goesOn held).symm.trans ends

theorem noneCloses_flow (rest : List (FreeTag × TextRun)) (free : ∀ piece ∈ rest, '<' ∉ partsRaw piece.1.body) :
    NoneCloses (flowRest FreeTag.raw rest) := by
  induction rest with
  | nil => exact noneCloses_nil
  | cons first rest ih =>
      obtain ⟨tag,run⟩ := first
      obtain ⟨here,others⟩ := List.forall_mem_cons.mp free
      have inside : '<' ∉ (if tag.closes then ['/'] else []) ++ tag.name ++ partsRaw tag.body ++ ['>'] := by
        have slash : '<' ∉ if tag.closes then ['/'] else [] := by split <;> simp
        have name : '<' ∉ tag.name := all_absent (by decide) tag.named.2
        simp [slash,name,here]
      have behind := noneCloses_plain (all_absent (by decide) run.plain) (ih others)
      have raw : flowRest FreeTag.raw ((tag,run) :: rest) = tag.raw ++ (run.content ++ flowRest FreeTag.raw rest) := by
        simp [flowRest]
      rw [raw]
      exact noneCloses_tag (not_closes_free tag _) inside behind

-- In such an element an address is left alone exactly next to a tag, and behind the four words.
theorem leftAlone_unbracketed {a : Anchor} (unbracketed : a.Unbracketed) : a.LeftAlone ↔
    ∀ before address, Found a.inner before address →
      (∃ word ∈ valueOpenings, word <:+ before) ∨ before = [] ∨ ['>'] <:+ before := by
  have none_ : NoneCloses (a.openingTag ++ a.inner) := by
    have inside : '<' ∉ a.letter :: (partsRaw a.body ++ ['>']) := by
      have letter : a.letter ≠ '<' := ne_of_holds a.named.1 (by decide)
      simp [letter.symm,unbracketed.1]
    exact noneCloses_tag (not_closes_opening (ne_of_holds a.named.1 (by decide))) inside
      (noneCloses_plain (all_absent (by decide) a.content.lead.plain) (noneCloses_flow _ unbracketed.2))
  refine forall_congr' fun before => forall_congr' fun address => forall_congr' fun found => ?_
  have opens : LastOpens (a.openingTag ++ before) := by
    refine ⟨_,List.suffix_refl _,opens_anchor a before,?_⟩
    exact noneCloses_begins ((List.prefix_append_right_inj _).mpr (found_begins found)) none_
  exact or_congr_right (and_iff_left opens)

end Unbracketed

-- No link is written into an `a` element of a page exactly when every address in one stands where the
-- filter takes it for the text of a link: next to the opening tag or to an inner tag, with no closing
-- anchor tag written in a value since; or behind a word that begins a value.
theorem links_unnested_iff (page : Flow Node) :
    KeepsLinks page (linkAddresses (page.raw Node.raw)) ↔ ∀ a ∈ anchors page, a.LeftAlone := by
  have each : (∀ a ∈ anchors page, a.LeftAlone) ↔
      ∀ piece ∈ page.rest, ∀ a, piece.1.anchor? = some a → a.LeftAlone := by
    simp only [anchors,List.mem_filterMap]
    exact ⟨fun all piece member a here => all a ⟨piece,member,here⟩,
      fun all a ⟨piece,member,here⟩ => all piece member a here⟩
  rw [each,← keepsRest_iff (page.lead.content.reverse ++ []) page.rest,linkAddresses,Flow.raw,linkFrom_flow]
  constructor
  · rintro ⟨lead',result',rewritten,keeps,same⟩
    rw [((linkFrom_rewritten _ page.lead.content).unique_of_append rewritten same).2]
    exact keeps
  · intro keeps
    exact ⟨_,_,linkFrom_rewritten _ _,keeps,rfl⟩

theorem link_nested :
    let a : Anchor := ⟨'a',[.bare ' ' rfl,.bare 'h' rfl,.bare 'r' rfl,.bare 'e' rfl,.bare 'f' rfl,.bare '=' rfl,
      .value "/x".toList (by decide)],⟨⟨"see https://x.org".toList,rfl⟩,[]⟩,'a',[],⟨rfl,rfl⟩,
      fun c head => by cases head; rfl,rfl⟩
    let page : Flow Node := ⟨⟨[],rfl⟩,[(.anchor a,⟨[],rfl⟩)]⟩
    page.raw Node.raw = "<a href=\"/x\">see https://x.org</a>".toList ∧
      ¬KeepsLinks page (linkAddresses (page.raw Node.raw)) := by
  intro a page
  refine ⟨rfl,?_⟩
  rintro ⟨lead',result',rewritten,⟨node',run',more,⟨opening',opened,rfl⟩,_,_,rfl⟩,same⟩
  cases rewritten with
  | nil =>
      have linked : linkAddresses (page.raw Node.raw) =
          a.openingTag ++ ("see ".toList ++ link "https://x.org".toList ++ a.closingTag) := by decide +kernel
      rw [linked,List.nil_append,List.append_assoc opening'] at same
      have behind := ((Rewritten.refl a.openingTag).unique_of_append opened same).2
      have bracket := congrArg (·[4]?) behind
      cases bracket
  | linked found => cases found

end Redline.Format
