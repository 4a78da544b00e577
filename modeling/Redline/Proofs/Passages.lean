import Mathlib
import Redline.Proofs.Finality
import Redline.Proofs.Scanning
import Redline.Proofs.WrittenTags

namespace Redline.Markup

open Redline.Text

section Grammar

-- A tag that closes itself opens nothing.
def WrittenTag.opensRawText (tag : WrittenTag) : Bool := !tag.slash && rawTextElements.contains (lower tag.written)

-- An element that holds raw text comes with what it holds and with its end tag.
inductive Passage where
  | text (content : List Char) (filled : content ≠ []) (plain : '<' ∉ content)
  | comment (inner : List Char) (closed : ¬commentClose <:+: inner)
  | declaration (mark : Char) (inner : List Char) (marked : mark = '!' ∨ mark = '?')
      (plain : ∀ c ∈ inner, c ≠ '<' ∧ c ≠ '>') (other : ¬commentOpen <+: mark :: inner)
  | opening (tag : WrittenTag) (plain : tag.opensRawText = false)
  | closing (tag : WrittenTag)
  | rawText (tag : WrittenTag) (held : List Char) (ends : WrittenTag) (opens : tag.opensRawText = true)
      (free : containsFold ('<' :: '/' :: lower tag.written) held = false)
      (same : lower ends.written = lower tag.written)

def WrittenTag.openingText (tag : WrittenTag) : List Char := '<' :: (tag.written ++ (tag.inside ++ ['>']))

def WrittenTag.closingText (tag : WrittenTag) : List Char := '<' :: '/' :: (tag.written ++ (tag.inside ++ ['>']))

namespace Passage

def raw : Passage → List Char
  | text content .. => content
  | comment inner _ => '<' :: commentOpen ++ inner ++ commentClose
  | declaration mark inner .. => '<' :: mark :: inner ++ ['>']
  | opening tag _ => tag.openingText
  | closing tag => tag.closingText
  | rawText tag held ends .. => tag.openingText ++ held ++ ends.closingText

def tokens : Passage → List Token
  | text content .. => [.text content]
  | comment inner _ => [.other ('<' :: commentOpen ++ inner ++ commentClose)]
  | declaration mark inner .. => [.other ('<' :: mark :: inner ++ ['>'])]
  | opening tag _ => [.opening tag.startTag]
  | closing tag => [.closing tag.written tag.inside]
  | rawText tag held ends .. => .opening tag.startTag :: textToken held ++ [.closing ends.written ends.inside]

def isText : Passage → Bool
  | text .. => true
  | _ => false

end Passage

def pageText (passages : List Passage) : List Char := passages.flatMap Passage.raw

def Apart (passages : List Passage) : Prop :=
  passages.IsChain fun first second => first.isText = false ∨ second.isText = false

end Grammar

section StartTags

theorem startTag_name (tag : WrittenTag) : tag.startTag.name = lower tag.written := rfl

theorem startTag_body (tag : WrittenTag) : tag.startTag.body = tag.inside := by
  rw [StartTag.body,← readParts_inside]
  exact readPartsWithin_source tag.inside.length tag.inside

theorem startTag_attributes (tag : WrittenTag) :
    tag.startTag.attributes = tag.attributes.map TagAttribute.part := by
  have written : (tag.attributes.map fun a => BodyPart.attr a.part).filterMap BodyPart.attribute? =
      tag.attributes.map TagAttribute.part := by
    rw [List.filterMap_map]
    exact congrFun List.filterMap_eq_map _
  rw [StartTag.attributes,WrittenTag.startTag,List.filterMap_append,written]
  split <;> simp [BodyPart.attribute?]

theorem attributesText_last {attributes : List TagAttribute} (some_ : attributes ≠ []) :
    ∃ q, isQuote q = true ∧ (attributesText attributes).getLast? = some q := by
  obtain ⟨front,a,rfl⟩ := (List.eq_nil_or_concat' attributes).resolve_left some_
  have whole : attributesText (front ++ [a]) = attributesText front ++
      (a.lead ++ (a.name ++ (a.before ++ '=' :: (a.after ++ a.quote :: a.value)))) ++ [a.quote] := by
    simp [attributesText,Usage.QuotedAttribute.raw,Usage.QuotedAttribute.onward]
  exact ⟨a.quote,a.quoted,by rw [whole]; exact List.getLast?_concat ..⟩

-- Behind the attributes only a slash is no blank, and before it a value ends with its quote.
theorem startTag_selfClosing (tag : WrittenTag) : tag.startTag.selfClosing = tag.slash := by
  rw [StartTag.selfClosing,startTag_body,WrittenTag.inside,WrittenTag.tail,← List.append_assoc]
  cases tag.slash with
  | true =>
      have last : (attributesText tag.attributes ++ tag.gap ++ ['/']).getLast? = some '/' := List.getLast?_concat ..
      simp only [if_true]
      rw [trimEnd_solid last rfl,last]
      rfl
  | false =>
      simp only [Bool.false_eq_true,if_false,List.append_nil]
      rw [trimEnd_padded _ tag.blank]
      by_cases none_ : tag.attributes = []
      · rw [none_]
        rfl
      · obtain ⟨q,quote,last⟩ := attributesText_last none_
        have other : q ≠ '/' := Format.ne_of_holds quote rfl
        rw [trimEnd_solid last (Usage.quote_solid quote),last]
        simpa using other

theorem startTag_opensRawText (tag : WrittenTag) : tag.startTag.opensRawText = tag.opensRawText := by
  rw [StartTag.opensRawText,startTag_selfClosing]
  rfl

end StartTags

section Passages

variable {rest : List Char}

theorem tokensFrom_text {content : List Char} (plain : '<' ∉ content) (pending : List Char) :
    tokensFrom pending (content ++ rest) = tokensFrom (content.reverse ++ pending) rest :=
  tokensFrom_past (fun before after eq => absurd (by simp [eq]) plain) pending

theorem readMarkup_opening (tag : WrittenTag) (rest : List Char) :
    readMarkup (tag.openingText ++ rest) = some (.opening tag.startTag,rest) := by
  have whole : tag.openingText ++ rest = '<' :: tag.letter :: (tag.name ++ (tag.inside ++ '>' :: rest)) := by
    simp [WrittenTag.openingText,WrittenTag.written]
  rw [whole,readMarkup_tag (tag_unmarked (.inl tag.named.1))]
  exact readTag_opening tag rest

theorem readMarkup_closing (tag : WrittenTag) (rest : List Char) :
    readMarkup (tag.closingText ++ rest) = some (.closing tag.written tag.inside,rest) := by
  have whole : tag.closingText ++ rest = '<' :: '/' :: (tag.written ++ (tag.inside ++ '>' :: rest)) := by
    simp [WrittenTag.closingText]
  rw [whole,readMarkup_tag (tag_unmarked (.inr rfl))]
  exact readTag_closing tag rest

-- A terminator does not begin inside a comment and end in its own: only its last character is a bracket.
theorem splitFirst_comment {inner : List Char} (closed : ¬commentClose <:+: inner) (rest : List Char) :
    splitFirst commentClose (inner ++ (commentClose ++ rest)) = some (inner,rest) := by
  induction inner with
  | nil => exact splitFirst_here commentClose rest
  | cons c inner ih =>
      have later : ¬commentClose.isPrefixOf (c :: (inner ++ (commentClose ++ rest))) = true := by
        intro here
        rcases inner with _ | ⟨d,_ | ⟨e,inner⟩⟩
        · simp [commentClose] at here
        · simp [commentClose] at here
        · have short : commentClose <+: c :: d :: e :: inner := by
            simp only [commentClose,List.cons_append,List.isPrefixOf_iff_prefix,List.cons_prefix_cons] at here ⊢
            exact ⟨here.1,here.2.1,here.2.2.1,List.nil_prefix⟩
          exact closed short.isInfix
      have inside : ¬commentClose <:+: inner := fun place => closed (place.trans (List.suffix_cons c inner).isInfix)
      rw [List.cons_append,splitFirst,if_neg later,ih inside]
      rfl

theorem readMarkup_comment {inner : List Char} (closed : ¬commentClose <:+: inner) (rest : List Char) :
    readMarkup ('<' :: commentOpen ++ inner ++ commentClose ++ rest) =
      some (.other ('<' :: commentOpen ++ inner ++ commentClose),rest) := by
  have whole : '<' :: commentOpen ++ inner ++ commentClose ++ rest =
      '<' :: (commentOpen ++ (inner ++ (commentClose ++ rest))) := by simp
  rw [whole,readMarkup,readComment_open,splitFirst_comment closed]
  rfl

theorem readMarkup_declaration {mark : Char} {inner : List Char} (marked : mark = '!' ∨ mark = '?')
    (plain : ∀ c ∈ inner, c ≠ '<' ∧ c ≠ '>') (other : ¬commentOpen <+: mark :: inner) (rest : List Char) :
    readMarkup ('<' :: mark :: inner ++ ['>'] ++ rest) = some (.other ('<' :: mark :: inner ++ ['>']),rest) := by
  have whole : '<' :: mark :: inner ++ ['>'] ++ rest = '<' :: (mark :: inner ++ '>' :: rest) := by simp
  have noComment : readComment (mark :: inner ++ '>' :: rest) = none := by
    have absent : ¬commentOpen.isPrefixOf (mark :: inner ++ '>' :: rest) = true := by
      rwa [List.isPrefixOf_iff_prefix,prefix_stop (by decide)]
    rw [readComment,if_neg absent]
  have run : inner.all (fun c => c ≠ '<' ∧ c ≠ '>') = true :=
    List.all_eq_true.mpr fun c member => decide_eq_true (plain c member)
  have taken : (inner ++ '>' :: rest).takeWhile (fun c => c ≠ '<' ∧ c ≠ '>') = inner := Usage.takeWhile_run run rfl
  have left : (inner ++ '>' :: rest).dropWhile (fun c => c ≠ '<' ∧ c ≠ '>') = '>' :: rest := Usage.dropWhile_run run rfl
  rw [whole,readMarkup,noComment,Option.none_or]
  simp only [List.cons_append,readDeclaration,if_pos marked,taken,left,Option.some_or]

theorem tokensFrom_passage (p : Passage) (markup : p.isText = false) (pending rest : List Char) :
    tokensFrom pending (p.raw ++ rest) = textToken pending.reverse ++ (p.tokens ++ tokensFrom [] rest) := by
  cases p with
  | text content filled plain => cases markup
  | comment inner closed =>
      rw [Passage.raw,tokensFrom_markup pending (readMarkup_comment closed rest)]
      simp [rawTextAfter,Passage.tokens,textToken]
  | declaration mark inner marked plain other =>
      rw [Passage.raw,tokensFrom_markup pending (readMarkup_declaration marked plain other rest)]
      simp [rawTextAfter,Passage.tokens,textToken]
  | opening tag plain =>
      rw [← startTag_opensRawText] at plain
      rw [Passage.raw,tokensFrom_markup pending (readMarkup_opening tag rest),rawTextAfter_plain plain]
      simp [Passage.tokens,textToken]
  | closing tag =>
      rw [Passage.raw,tokensFrom_markup pending (readMarkup_closing tag rest)]
      simp [rawTextAfter,Passage.tokens,textToken]
  | rawText tag held ends opens free same =>
      rw [← startTag_opensRawText] at opens
      have form : (Token.closing ends.written ends.inside).raw = ends.closingText := by
        simp [Token.raw,WrittenTag.closingText]
      have stop : rawTextAfter (.opening tag.startTag) (held ++ (ends.closingText ++ rest)) =
          (held,ends.closingText ++ rest) := form ▸ rawTextAfter_end opens free same rest
      rw [Passage.raw,List.append_assoc,List.append_assoc,tokensFrom_markup pending (readMarkup_opening tag _),stop,
        tokensFrom_markup [] (readMarkup_closing ends rest)]
      simp [rawTextAfter,Passage.tokens,textToken]

theorem tokensFrom_page {passages : List Passage} (apart : Apart passages) (pending : List Char)
    (begins : pending = [] ∨ ∀ p ∈ passages.head?, p.isText = false) :
    tokensFrom pending (pageText passages) = textToken pending.reverse ++ passages.flatMap Passage.tokens := by
  induction passages generalizing pending with
  | nil => exact (List.append_nil _).symm
  | cons p passages ih =>
      have whole : pageText (p :: passages) = p.raw ++ pageText passages := rfl
      have later : Apart passages := apart.tail
      rw [whole]
      cases text : p.isText with
      | false =>
          rw [tokensFrom_passage p text,ih later [] (.inl rfl)]
          simp [textToken]
      | true =>
          cases p with
          | text content filled plain =>
              have nothing : pending = [] := by
                rcases begins with nothing | markup
                · exact nothing
                · exact absurd (markup _ rfl) (by simp [text])
              have ended : ∀ p ∈ passages.head?, p.isText = false := by
                intro q first
                cases passages with
                | nil => cases first
                | cons r passages =>
                    cases first
                    simpa [Passage.isText] using (List.isChain_cons_cons.mp apart).1
              rw [nothing,Passage.raw,tokensFrom_text plain,ih later _ (.inr ended)]
              simp [textToken,Passage.tokens,filled]
          | _ => cases text

theorem passage_source (p : Passage) : source p.tokens = p.raw := by
  have start (tag : WrittenTag) : tag.startTag.raw = tag.openingText := by
    rw [StartTag.raw,startTag_body]
    simp [WrittenTag.startTag,WrittenTag.openingText]
  cases p with
  | opening tag plain => simp [Passage.tokens,Passage.raw,Token.raw,start]
  | rawText tag held ends opens free same =>
      simp [Passage.tokens,Passage.raw,Token.raw,start,WrittenTag.closingText]
  | _ => simp [Passage.tokens,Passage.raw,Token.raw,WrittenTag.closingText]

-- Of every text the scan makes one list of tokens. They are not empty, and together they are the text.
-- The tokens of a document without neighbouring texts are those of its passages, each with the characters that
-- the passage was written in; a start tag has its name and its attributes with their values, in their order.
theorem tokenize_exact :
    (∀ text : List Char, (∀ tokens, Scans true [] text tokens ↔ tokens = tokenize text) ∧
      source (tokenize text) = text ∧ ∀ t ∈ tokenize text, t.raw ≠ []) ∧
    (∀ passages : List Passage, Apart passages → tokenize (pageText passages) = passages.flatMap Passage.tokens) ∧
    (∀ p : Passage, source p.tokens = p.raw) ∧
    ∀ tag : WrittenTag, tag.startTag.name = lower tag.written ∧
      (tag.startTag.attributes.map fun a => (a.name,a.value)) = tag.attributes.map fun a => (lower a.name,a.value) := by
  refine ⟨fun text => ⟨scans_iff (closable_true text),source_tokenize text,tokensFrom_filled [] text⟩,?_,passage_source,?_⟩
  · intro passages apart
    exact tokensFrom_page apart [] (.inl rfl)
  · intro tag
    rw [startTag_attributes,List.map_map]
    exact ⟨startTag_name tag,rfl⟩

theorem tokenize_exact_script :
    let title : TagAttribute :=
      ⟨⟨[' '],['T','i'],[],[' '],'"',['<','b','>'],by decide,by decide,by decide,by decide,by decide⟩,by decide⟩
    let p : WrittenTag := ⟨'P',[],[title],[],false,by decide,by decide⟩
    let script : WrittenTag := ⟨'s',['c','r','i','p','t'],[],[],false,by decide,by decide⟩
    let ended : WrittenTag := ⟨'S',['C','R','I','P','T'],[],[' '],false,by decide,by decide⟩
    let passages : List Passage := [.text ['a','>'] (by decide) (by decide),.comment ['-'] (by decide),
      .opening p (by decide),.rawText script ['<','/','p','>'] ended (by decide) (by decide) (by decide)]
    Apart passages ∧
      tokenize ("a><!----->".toList ++ "<P Ti= \"<b>\">".toList ++ "<script></p></SCRIPT >".toList) =
        [.text ['a','>'],.other "<!----->".toList,.opening p.startTag,.opening script.startTag,
          .text ['<','/','p','>'],.closing ['S','C','R','I','P','T'] [' ']] := by
  intro title p script ended passages
  have apart : Apart passages := by
    simp [Apart,passages,Passage.isText]
  have read := tokenize_exact.2.1 passages apart
  have written : pageText passages =
      "a><!----->".toList ++ "<P Ti= \"<b>\">".toList ++ "<script></p></SCRIPT >".toList := by decide
  rw [written] at read
  exact ⟨apart,read⟩

end Passages

end Redline.Markup
