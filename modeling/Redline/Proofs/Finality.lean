import Mathlib.Logic.Function.Iterate
import Redline.Proofs.Markers

namespace Redline.Markup

open Redline.Text

section Reading

theorem unmarked_textToken (content : List Char) : Unmarked (textToken content) := by
  intro t member
  unfold textToken at member
  split at member
  · cases member
  · rw [List.mem_singleton.mp member]
    rfl

theorem unmarked_append {tokens more : List Token} :
    Unmarked (tokens ++ more) ↔ Unmarked tokens ∧ Unmarked more := by
  simp only [Unmarked,List.mem_append,or_imp,forall_and]

theorem unmarked_cons {t : Token} {tokens : List Token} :
    Unmarked (t :: tokens) ↔ t.marked = false ∧ Unmarked tokens := by
  simp only [Unmarked,List.mem_cons,or_imp,forall_and,forall_eq]

theorem tokensFrom_unmarked (pending text : List Char) :
    Unmarked (tokensFrom pending text) ↔ Unmarked (tokenize text) := by
  refine reading_induction (motive := fun pending text =>
    ∀ other, Unmarked (tokensFrom pending text) ↔ Unmarked (tokensFrom other text)) ?_ ?_ ?_ pending text []
  · intro pending other
    rw [tokensFrom_nil,tokensFrom_nil]
    exact iff_of_true (unmarked_textToken _) (unmarked_textToken _)
  · intro pending c rest stray ih other
    rw [tokensFrom_stray pending stray,tokensFrom_stray other stray]
    exact ih (c :: other)
  · intro pending c rest t after read _ other
    rw [tokensFrom_markup pending read,tokensFrom_markup other read]
    simp only [unmarked_append,unmarked_textToken,true_and]

theorem tokenize_stray {content : List Char} (rest : List Char)
    (stray : ∀ before after, content = before ++ '<' :: after → readMarkup ('<' :: (after ++ rest)) = none) :
    Unmarked (tokenize (content ++ rest)) ↔ Unmarked (tokenize rest) := by
  rw [show tokenize (content ++ rest) = tokensFrom [] (content ++ rest) from rfl,tokensFrom_past stray]
  exact tokensFrom_unmarked _ rest

theorem tokenize_markup {text after : List Char} {t : Token} (read : readMarkup text = some (t,after)) :
    Unmarked (tokenize text) ↔ t.marked = false ∧ Unmarked (tokenize (rawTextAfter t after).2) := by
  have tokens : tokenize text = t :: textToken (rawTextAfter t after).1 ++
      tokenize (rawTextAfter t after).2 := tokensFrom_markup [] read
  rw [tokens]
  simp only [unmarked_append,unmarked_cons,unmarked_textToken,and_true]

end Reading

-- Reading pieces in step, up to those that are left: a text piece holds no bracket that opens
-- markup, any other reads back as itself, and text held by a raw text element ends with a piece.
inductive InStep : List Piece → List Piece → Prop where
  | here {left : List Piece} : InStep left left
  | text {piece : Piece} {rest left : List Piece} : (∀ before after, piece.raw = before ++ '<' :: after →
        readMarkup ('<' :: (after ++ written rest)) = none) →
      InStep rest left → InStep (piece :: rest) left
  | markup {piece : Piece} {held rest left : List Piece} {t : Token} :
      readMarkup (piece.raw ++ written (held ++ rest)) = some (t,written (held ++ rest)) →
      t.marked = false → rawTextAfter t (written (held ++ rest)) = (written held,written rest) →
      InStep rest left → InStep (piece :: (held ++ rest)) left

-- Only what is left when reading falls out of step can bring a marker.
theorem InStep.unmarked_iff {pieces left : List Piece} (step : InStep pieces left) :
    Unmarked (tokenize (written pieces)) ↔ Unmarked (tokenize (written left)) := by
  induction step with
  | here => rfl
  | @text piece rest left stray _ ih => exact (tokenize_stray (written rest) stray).trans ih
  | @markup piece held rest left t read plain ends _ ih =>
      have whole : written (piece :: (held ++ rest)) = piece.raw ++ written (held ++ rest) := rfl
      rw [whole,tokenize_markup read,ends]
      simpa [plain] using ih

section Pieces

def opensMarkup (c : Char) : Bool := isLetter c || c = '/' || c = '!' || c = '?'

-- Text whose brackets open nothing, whatever comes behind it.
def inert : List Char → Bool
  | [] => true
  | c :: rest => (c ≠ '<' || rest.head?.any (!opensMarkup ·)) && inert rest

theorem inert_bracket {content before after : List Char} (inert_ : inert content = true)
    (here : content = before ++ '<' :: after) : ∃ c rest, after = c :: rest ∧ opensMarkup c = false := by
  induction before generalizing content with
  | nil =>
      rw [here,List.nil_append,inert,Bool.and_eq_true] at inert_
      cases after with
      | nil => cases inert_.1
      | cons c rest => exact ⟨c,rest,rfl,by simpa using inert_.1⟩
  | cons first before ih =>
      rw [here,List.cons_append,inert,Bool.and_eq_true] at inert_
      exact ih inert_.2 rfl

theorem readMarkup_inert {c : Char} (plain : opensMarkup c = false) (rest : List Char) :
    readMarkup ('<' :: c :: rest) = none := by
  simp only [opensMarkup,Bool.or_eq_false_iff,decide_eq_false_iff_not] at plain
  obtain ⟨⟨⟨letter,slash⟩,bang⟩,question⟩ := plain
  rw [readMarkup_tag ⟨bang,question⟩]
  unfold readTag
  split
  · rename_i same
    cases same
    exact absurd rfl slash
  · simp [readName,letter]

-- A piece that reads back as one token without markers before any rest.
def Reads (raw : List Char) (t : Token) : Prop :=
  t.marked = false ∧ ∀ behind, readMarkup (raw ++ behind) = some (t,behind)

-- Pieces that are read in step before any rest. Text inside a raw text element counts together
-- with the end tag of the element.
inductive Legible : List Piece → Prop where
  | nil : Legible []
  | text {piece : Piece} {rest : List Piece} : inert piece.raw = true → Legible rest → Legible (piece :: rest)
  | markup {piece : Piece} {rest : List Piece} {t : Token} : Reads piece.raw t →
      (∀ behind, rawTextAfter t behind = ([],behind)) → Legible rest → Legible (piece :: rest)
  | rawText {piece : Piece} {held rest : List Piece} {name content : List Char} {t : Token} :
      Reads piece.raw t →
      (∀ behind, rawTextAfter t (written held ++ (content ++ behind)) = (written held,content ++ behind)) →
      Legible (.closing name content :: rest) → Legible (piece :: (held ++ .closing name content :: rest))

theorem Legible.append {pieces more : List Piece} (one : Legible pieces) (two : Legible more) :
    Legible (pieces ++ more) := by
  induction one with
  | nil => exact two
  | text plain _ ih => exact .text plain ih
  | markup reads plain _ ih => exact .markup reads plain ih
  | rawText reads ends _ ih =>
      rw [List.cons_append,List.append_assoc]
      exact .rawText reads ends ih

theorem Legible.init_opening {pieces kept : List Piece} {name content : List Char} (legible : Legible pieces)
    (last : pieces = kept ++ [.opening name false content]) : Legible kept := by
  induction legible generalizing kept with
  | nil => simp at last
  | @text piece rest plain _ ih =>
      cases kept with
      | nil => exact .nil
      | cons first kept =>
          rw [List.cons_append,List.cons.injEq] at last
          rw [← last.1]
          exact .text plain (ih last.2)
  | @markup piece rest t reads plain _ ih =>
      cases kept with
      | nil => exact .nil
      | cons first kept =>
          rw [List.cons_append,List.cons.injEq] at last
          rw [← last.1]
          exact .markup reads plain (ih last.2)
  | @rawText piece held rest name' final t reads ends _ ih =>
      -- The end tag is not the piece that goes, so the cut lies behind it.
      rcases List.eq_nil_or_concat (.closing name' final :: rest) with empty | ⟨front,end_,eq⟩
      · cases empty
      · rw [List.concat_eq_append] at eq
        have whole : piece :: (held ++ .closing name' final :: rest) = piece :: (held ++ front) ++ [end_] := by
          rw [eq]
          simp
        rw [whole] at last
        obtain ⟨rfl,tail⟩ := List.append_inj' last rfl
        rw [List.singleton_inj.mp tail] at eq
        have before := ih eq
        cases front with
        | nil => cases eq
        | cons first front =>
            rw [List.cons_append,List.cons.injEq] at eq
            rw [← eq.1] at before ⊢
            exact .rawText reads ends before

theorem Legible.without_startTags {kept given : List Piece} (legible : Legible (kept ++ given))
    (tags : Stripper.StartTags given) : Legible kept := by
  induction given generalizing kept with
  | nil => simpa using legible
  | cons piece given ih =>
      have before : Legible (kept ++ [piece]) := by
        apply ih
        · simpa using legible
        · exact fun other member => tags other (List.mem_cons_of_mem _ member)
      obtain ⟨name,content,rfl⟩ := tags piece List.mem_cons_self
      exact before.init_opening rfl

theorem Legible.inStep_nil {pieces : List Piece} (legible : Legible pieces) : InStep pieces [] := by
  induction legible with
  | nil => exact .here
  | @text piece rest quiet _ ih =>
      refine .text ?_ ih
      intro before after eq
      obtain ⟨c,tail,rfl,plain⟩ := inert_bracket quiet eq
      exact readMarkup_inert plain (tail ++ written rest)
  | @markup piece rest t reads plain _ ih =>
      exact @InStep.markup piece [] rest [] t (reads.2 _) reads.1 (plain _) ih
  | @rawText piece held rest name content t reads ends _ ih =>
      refine @InStep.markup piece held (.closing name content :: rest) [] t (reads.2 _) reads.1 ?_ ih
      have whole : written (held ++ .closing name content :: rest) = written held ++ (content ++ written rest) := by
        simp [written,Piece.raw]
      rw [whole]
      exact ends (written rest)

end Pieces

section Tokens

-- A token is text or was read as markup.
def Token.Read (t : Token) : Prop :=
  (∃ content, t = .text content) ∨ ∃ text after, readMarkup text = some (t,after)

theorem tokenize_read (text : List Char) : ∀ t ∈ tokenize text, t.Read := by
  have plain : ∀ content, ∀ t ∈ textToken content, t.Read := by
    intro content t member
    unfold textToken at member
    split at member
    · cases member
    · exact .inl ⟨content,List.mem_singleton.mp member⟩
  refine reading_induction (motive := fun pending text => ∀ t ∈ tokensFrom pending text, t.Read) ?_ ?_ ?_ [] text
  · intro pending
    exact plain pending.reverse
  · intro pending c rest stray ih
    rw [tokensFrom_stray pending stray]
    exact ih
  · intro pending c rest t after read ih u member
    rw [tokensFrom_markup pending read] at member
    rcases List.mem_append.mp member with front | later
    · rcases List.mem_append.mp front with before | inside
      · exact plain _ u before
      · rcases List.mem_cons.mp inside with rfl | held
        · exact .inr ⟨c :: rest,after,read⟩
        · exact plain _ u held
    · exact ih u later

-- A start tag that reads back once its marker attributes are cut out.
def StartTag.separable (tag : StartTag) : Bool :=
  tag.cleaned = tag ||
    readMarkup tag.cleaned.raw = some (.opening tag.cleaned,[]) && tag.cleaned.opensRawText = tag.opensRawText

-- A token that reads back by itself once markers are cut out of it: text without a bracket that
-- could open markup, a terminated comment, and tags; raw text elements need their end tag.
def Token.alone : Token → Bool
  | .text content => inert content
  | .other content => (Token.other content).settled
  | .closing _ _ => true
  | .opening tag => tag.markerElement?.isSome || tag.separable && !tag.opensRawText

-- Documents without loose brackets, unterminated comments, attributes that would run together or
-- raw text elements without their end tag. Nothing is asked of ranges and of markers.
def tidy : List Token → Bool
  | [] => true
  | .opening tag :: .closing name tail :: rest =>
      if tag.opensRawText then tag.separable && lower name = tag.name && tidy rest
      else (Token.opening tag).alone && tidy (.closing name tail :: rest)
  | .opening tag :: .text held :: .closing name tail :: rest =>
      if tag.opensRawText then
        tag.separable && !containsFold ('<' :: '/' :: tag.name) held && lower name = tag.name && tidy rest
      else (Token.opening tag).alone && tidy (.text held :: .closing name tail :: rest)
  | t :: rest => t.alone && tidy rest

theorem cleaned_unmarked {tag : StartTag} (ordinary : tag.markerElement? = none) :
    (Token.opening tag.cleaned).marked = false := by
  have same : tag.cleaned.markerElement? = tag.markerElement? := rfl
  have none_ : tag.cleaned.parts.any (·.marker?.isSome) = false := by
    rw [List.any_eq_false]
    intro part member
    have kept := (List.mem_filter.mp member).2
    simpa using kept
  simp only [Token.marked,same,ordinary,none_]
  rfl

theorem Token.Read.reads_raw {t : Token} (read : t.Read) (markup : ∀ content, t ≠ .text content)
    (settled : t.settled = true) (plain : t.marked = false) : Reads t.raw t := by
  rcases read with ⟨content,eq⟩ | ⟨text,after,read⟩
  · exact absurd eq (markup content)
  · exact ⟨plain,readMarkup_before read settled⟩

theorem cleaned_reads {tag : StartTag} (read : (Token.opening tag).Read) (separable : tag.separable = true)
    (ordinary : tag.markerElement? = none) :
    Reads tag.cleaned.raw (.opening tag.cleaned) ∧ tag.cleaned.opensRawText = tag.opensRawText := by
  have plain := cleaned_unmarked ordinary
  simp only [StartTag.separable,Bool.or_eq_true,Bool.and_eq_true,decide_eq_true_eq] at separable
  rcases separable with whole | ⟨again,same⟩
  · rw [whole] at plain ⊢
    exact ⟨read.reads_raw (by simp) rfl plain,rfl⟩
  · exact ⟨⟨plain,readMarkup_before again rfl⟩,same⟩

theorem rawTextAfter_plain {tag : StartTag} (plain : tag.opensRawText = false) (behind : List Char) :
    rawTextAfter (.opening tag) behind = ([],behind) := by
  simp [rawTextAfter,plain]

end Tokens

section RawText

theorem splitBeforeFold_end {word held rest : List Char} (plain : '<' ∉ lower word)
    (free : containsFold ('<' :: word) held = false)
    (ends : startsWithFold ('<' :: word) ('<' :: rest) = true) :
    splitBeforeFold ('<' :: word) (held ++ '<' :: rest) = (held,'<' :: rest) := by
  induction held with
  | nil => simp only [List.nil_append,splitBeforeFold,ends,if_true]
  | cons c held ih =>
      simp only [containsFold,Bool.or_eq_false_iff] at free
      have later : startsWithFold ('<' :: word) (c :: (held ++ '<' :: rest)) = false := by
        rw [Bool.eq_false_iff]
        intro here
        rw [startsWithFold_iff] at here
        have bracket : Char.toLower '<' = '<' := by decide
        simp only [lower,List.map_cons,List.map_append,bracket,List.cons_prefix_cons] at here
        -- The word holds no other bracket, so it cannot reach into the end tag.
        have inside := (prefix_stop plain).mp here.2
        have first : startsWithFold ('<' :: word) (c :: held) = true := by
          rw [startsWithFold_iff]
          simp only [lower,List.map_cons,bracket,List.cons_prefix_cons]
          exact ⟨here.1,inside⟩
        rw [free.1] at first
        cases first
      simp only [List.cons_append,splitBeforeFold,later,Bool.false_eq_true,if_false,ih free.2]

theorem rawTextElements_name {name : List Char} (member : rawTextElements.contains name = true) :
    lower name = name ∧ '<' ∉ name ∧ voidElements.contains name = false ∧ MarkerElement.ofName? name = none := by
  rw [List.contains_iff_mem] at member
  simp only [rawTextElements,List.mem_cons,List.not_mem_nil,or_false] at member
  rcases member with rfl | rfl | rfl | rfl <;> decide

theorem rawTextAfter_end {tag : StartTag} (opens : tag.opensRawText = true) {held name tail : List Char}
    (free : containsFold ('<' :: '/' :: tag.name) held = false) (same : lower name = tag.name)
    (behind : List Char) : rawTextAfter (.opening tag) (held ++ ((Token.closing name tail).raw ++ behind)) =
      (held,(Token.closing name tail).raw ++ behind) := by
  have member : rawTextElements.contains tag.name = true := by
    simp only [StartTag.opensRawText,Bool.and_eq_true] at opens
    exact opens.2
  obtain ⟨low,plain,_⟩ := rawTextElements_name member
  have form : (Token.closing name tail).raw ++ behind = '<' :: ('/' :: (name ++ (tail ++ '>' :: behind))) := by
    simp [Token.raw]
  simp only [rawTextAfter,opens,if_true]
  rw [form]
  have slash : Char.toLower '/' = '/' := by decide
  apply splitBeforeFold_end _ free
  · rw [startsWithFold_iff]
    have whole : lower ('<' :: '/' :: (name ++ (tail ++ '>' :: behind))) =
        lower ('<' :: '/' :: tag.name) ++ lower (tail ++ '>' :: behind) := by
      simp only [lower,List.map_cons,List.map_append,List.cons_append] at same low ⊢
      rw [same,low]
    rw [whole]
    exact List.prefix_append _ _
  · intro inside
    simp only [lower,List.map_cons,slash] at inside low
    rw [low] at inside
    rcases List.mem_cons.mp inside with bracket | later
    · cases bracket
    · exact plain later

end RawText

section Runs

theorem residue_legible {t : Token} (alone : t.alone = true) (read : t.Read) {piece : Piece}
    (raw : piece.raw = t.residue) : Legible [piece] := by
  have nothing : t.residue = [] → Legible [piece] := by
    intro empty
    rw [empty] at raw
    exact .text (by rw [raw]; rfl) .nil
  cases t with
  | text content =>
      have same : piece.raw = content := raw
      exact .text (by rw [same]; exact alone) .nil
  | other content =>
      have reads := read.reads_raw (by simp) alone rfl
      have same : piece.raw = (Token.other content).raw := raw
      rw [← same] at reads
      exact .markup reads (fun _ => rfl) .nil
  | closing name tail =>
      cases marker : (MarkerElement.ofName? (lower name)).isSome with
      | true => exact nothing (by simp [Token.residue,marker])
      | false =>
          have reads := read.reads_raw (by simp) rfl marker
          have same : piece.raw = (Token.closing name tail).raw := by simp [raw,Token.residue,marker]
          rw [← same] at reads
          exact .markup reads (fun _ => rfl) .nil
  | opening tag =>
      cases marker : tag.markerElement?.isSome with
      | true => exact nothing (by simp [Token.residue,marker])
      | false =>
          have ordinary : tag.markerElement? = none := by simpa using marker
          have same : piece.raw = tag.cleaned.raw := by simp [raw,Token.residue,marker]
          simp only [Token.alone,marker,Bool.false_or,Bool.and_eq_true,Bool.not_eq_true'] at alone
          obtain ⟨reads,raw⟩ := cleaned_reads read alone.1 ordinary
          rw [← same] at reads
          exact .markup reads (rawTextAfter_plain (raw.trans alone.2)) .nil

theorem step_legible {s : Stripper} (upright : s.Upright) (legible : Legible s.pending) {t : Token}
    (alone : t.alone = true) (read : t.Read) : (s.step t).Upright ∧ Legible (s.step t).pending := by
  obtain ⟨next,kept,given,tags,eq,added⟩ := Stripper.step_grows upright t
  refine ⟨next,?_⟩
  rw [eq] at legible
  have before := legible.without_startTags tags
  rcases added with same | ⟨piece,more,raw⟩
  · rw [same]
    exact before
  · rw [more]
    exact before.append (residue_legible alone read raw)

theorem rawText_pending {s : Stripper} (upright : s.Upright) {tag : StartTag} {name held : List Char}
    (opens : tag.opensRawText = true) (same : lower name = tag.name) {inside : List Token}
    (text : inside = [] ∨ inside = [.text held]) (tail : List Char) :
    ((inside ++ [Token.closing name tail]).foldl Stripper.step (s.step (.opening tag))).Upright ∧
      (((inside ++ [Token.closing name tail]).foldl Stripper.step (s.step (.opening tag))).pending = s.pending ∨
        ∃ kept : List Piece, (written kept = [] ∨ written kept = held) ∧
          ((inside ++ [Token.closing name tail]).foldl Stripper.step (s.step (.opening tag))).pending =
            s.pending ++ .opening tag.name false tag.cleaned.raw ::
              (kept ++ [.closing tag.name (Token.closing name tail).raw])) := by
  simp only [StartTag.opensRawText,Bool.and_eq_true,Bool.not_eq_true'] at opens
  obtain ⟨_,_,plain,ordinary⟩ := rawTextElements_name opens.2
  have element : s.step (.opening tag) = s.element tag := by
    have marker : tag.markerElement? = none := ordinary
    simp only [Stripper.step,Stripper.startTag,marker]
  have open_ : tag.isVoid = false := by simp only [StartTag.isVoid,opens.1,plain,Bool.or_self]
  have entered := Stripper.element_upright upright tag
  have first := Stripper.element_open_pending upright open_
  have stack : (s.element tag).stack = s.entered tag :: s.stack := by
    rw [Stripper.element_open s tag open_]
    simp
  -- The text inside leaves the stack alone and may be taken out.
  have within : ∃ s₁, inside.foldl Stripper.step (s.element tag) = s₁ ∧ s₁.Upright ∧
      s₁.stack = s.entered tag :: s.stack ∧ ∃ kept, (kept = [] ∨ kept = [.text held]) ∧
        s₁.pending = (s.element tag).pending ++ kept := by
    rcases text with rfl | rfl
    · exact ⟨_,rfl,entered,stack,[],.inl rfl,by simp⟩
    · refine ⟨_,rfl,Stripper.emitIfKept_upright entered _,?_,?_⟩
      · exact (Stripper.emitIfKept_stack _ _).trans stack
      · rcases Stripper.emitIfKept_pending entered (.text held) with none_ | more
        · exact ⟨[],.inl rfl,by rw [List.append_nil]; exact none_⟩
        · exact ⟨[.text held],.inr rfl,more⟩
  obtain ⟨s₁,run,middle,stack₁,kept,kinds,pending₁⟩ := within
  have marker : (MarkerElement.ofName? (s.entered tag).name).isSome = false := by
    change (MarkerElement.ofName? tag.name).isSome = false
    rw [ordinary]
    rfl
  have closing : s₁.step (.closing name tail) = s₁.closeTop (some (Token.closing name tail).raw) := by
    rw [Stripper.step,same]
    exact Stripper.endTag_top _ stack₁ marker
  obtain ⟨last,done⟩ := Stripper.closeTop_pending middle (some (Token.closing name tail).raw) stack₁
  rw [List.foldl_append,element,run,List.foldl_cons,List.foldl_nil,closing]
  refine ⟨last,?_⟩
  rcases done with written_ | given
  · refine .inr ⟨kept,?_,?_⟩
    · rcases kinds with rfl | rfl
      · exact .inl rfl
      · exact .inr (by simp [written,Piece.raw])
    · rw [written_,pending₁,first]
      simp [Stripper.entered]
  · left
    rw [pending₁,first] at given
    rcases kinds with rfl | rfl
    · rw [List.append_nil] at given
      exact (List.append_inj' given rfl).1.symm
    · cases (List.append_inj' given rfl).2

theorem rawText_legible {tag : StartTag} {held name tail : List Char} (start : (Token.opening tag).Read)
    (final : (Token.closing name tail).Read) (separable : tag.separable = true) (opens : tag.opensRawText = true)
    (free : containsFold ('<' :: '/' :: tag.name) held = false) (same : lower name = tag.name)
    {kept : List Piece} (text : written kept = [] ∨ written kept = held) :
    Legible (.opening tag.name false tag.cleaned.raw ::
      (kept ++ [.closing tag.name (Token.closing name tail).raw])) := by
  have member : rawTextElements.contains tag.name = true := by
    simp only [StartTag.opensRawText,Bool.and_eq_true] at opens
    exact opens.2
  obtain ⟨_,_,_,ordinary⟩ := rawTextElements_name member
  obtain ⟨reads,raw⟩ := cleaned_reads start separable ordinary
  have still : tag.cleaned.opensRawText = true := raw.trans opens
  have plain : (Token.closing name tail).marked = false := by
    simp only [Token.marked,same,ordinary]
    rfl
  have ends := final.reads_raw (by simp) rfl plain
  refine .rawText reads ?_ (.markup ends (fun _ => rfl) .nil)
  intro behind
  rcases text with none_ | whole
  · rw [none_]
    exact rawTextAfter_end still rfl same behind
  · rw [whole]
    exact rawTextAfter_end still free same behind

theorem rawText_run {s : Stripper} (upright : s.Upright) (legible : Legible s.pending) {tag : StartTag}
    {name held tail : List Char} (start : (Token.opening tag).Read) (final : (Token.closing name tail).Read)
    (separable : tag.separable = true) (opens : tag.opensRawText = true)
    (free : containsFold ('<' :: '/' :: tag.name) held = false) (same : lower name = tag.name)
    {inside : List Token} (text : inside = [] ∨ inside = [.text held]) :
    ((inside ++ [Token.closing name tail]).foldl Stripper.step (s.step (.opening tag))).Upright ∧
      Legible ((inside ++ [Token.closing name tail]).foldl Stripper.step (s.step (.opening tag))).pending := by
  obtain ⟨next,gone | ⟨kept,inner,whole⟩⟩ := rawText_pending upright opens same text tail
  · rw [gone]
    exact ⟨next,legible⟩
  · rw [whole]
    exact ⟨next,legible.append (rawText_legible start final separable opens free same inner)⟩

theorem tidy_run {s : Stripper} (upright : s.Upright) (legible : Legible s.pending) {tokens : List Token}
    (neat : tidy tokens = true) (read : ∀ t ∈ tokens, t.Read) :
    (tokens.foldl Stripper.step s).Upright ∧ Legible (tokens.foldl Stripper.step s).pending := by
  induction tokens using tidy.induct generalizing s with
  | case1 => exact ⟨upright,legible⟩
  | case2 tag name tail rest opens ih =>
      simp only [tidy,opens,if_true,Bool.and_eq_true,decide_eq_true_eq] at neat
      obtain ⟨⟨separable,same⟩,more⟩ := neat
      have free : containsFold ('<' :: '/' :: tag.name) [] = false := rfl
      obtain ⟨next,still⟩ := rawText_run upright legible (read _ (by simp)) (read (.closing name tail) (by simp))
        separable opens free same (.inl rfl)
      exact ih next still more fun u member => read u (by simp [member])
  | case3 tag name tail rest closed ih =>
      rw [tidy,if_neg closed,Bool.and_eq_true] at neat
      obtain ⟨next,still⟩ := step_legible upright legible neat.1 (read _ List.mem_cons_self)
      exact ih next still neat.2 fun u member => read u (List.mem_cons_of_mem _ member)
  | case4 tag held name tail rest opens ih =>
      simp only [tidy,opens,if_true,Bool.and_eq_true,Bool.not_eq_true',decide_eq_true_eq] at neat
      obtain ⟨⟨⟨separable,free⟩,same⟩,more⟩ := neat
      obtain ⟨next,still⟩ := rawText_run upright legible (read _ (by simp)) (read (.closing name tail) (by simp))
        separable opens free same (.inr rfl)
      exact ih next still more fun u member => read u (by simp [member])
  | case5 tag held name tail rest closed ih =>
      rw [tidy,if_neg closed,Bool.and_eq_true] at neat
      obtain ⟨next,still⟩ := step_legible upright legible neat.1 (read _ List.mem_cons_self)
      exact ih next still neat.2 fun u member => read u (List.mem_cons_of_mem _ member)
  | case6 t rest bare filled ih =>
      simp only [tidy,Bool.and_eq_true] at neat
      obtain ⟨next,still⟩ := step_legible upright legible neat.1 (read _ List.mem_cons_self)
      exact ih next still neat.2 fun u member => read u (List.mem_cons_of_mem _ member)

end Runs

-- A document without markers, which stripping leaves alone.
def Final (html : List Char) : Prop := Unmarked (tokenize html) ∧ (stripChars html).html = html

instance (html : List Char) : Decidable (Final html) :=
  inferInstanceAs (Decidable ((∀ t ∈ tokenize html, t.marked = false) ∧ (stripChars html).html = html))

theorem final_iff (html : List Char) : Final html ↔ Unmarked (tokenize html) :=
  ⟨And.left,fun plain => ⟨plain,(strip_same_iff html).mpr plain⟩⟩

theorem tidy_inStep {text : List Char} (neat : tidy (tokenize text) = true) :
    InStep (resolve (tokenize text)).out.toList [] := by
  have start : Legible (Stripper.start (closableStarts (tokenize text))).pending := .nil
  have legible : Legible (readThrough (tokenize text)).pending :=
    (tidy_run (Stripper.start_upright _) start neat (tokenize_read text)).2
  obtain ⟨given,tags,eq⟩ := resolve_out (tokenize text)
  rw [eq] at legible
  exact (legible.without_startTags tags).inStep_nil

example : tidy (tokenize
    "<p data-comment-start-before=c>1 < 2<suggestion-start name=deletion><script>a<b</script></p><suggestion-end>".toList) =
      true := by decide +kernel

-- What is left of a document holds none of the markers read from it, and a second pass leaves it
-- alone exactly when no marker is read from it either. That is decided where reading falls out of
-- step with the pieces, wherever in step one stops; tidy documents are final.
theorem strip_final_iff (text : List Char) :
    (stripChars text).html.Sublist ((tokenize text).flatMap Token.residue) ∧
    ((stripChars (stripChars text).html).html = (stripChars text).html ↔
      Unmarked (tokenize (stripChars text).html)) ∧
    (∀ left, InStep (resolve (tokenize text)).out.toList left →
      (Final (stripChars text).html ↔ Unmarked (tokenize (written left)))) ∧
    (tidy (tokenize text) = true → Final (stripChars text).html) := by
  have decided : ∀ left, InStep (resolve (tokenize text)).out.toList left →
      (Final (stripChars text).html ↔ Unmarked (tokenize (written left))) := by
    intro left step
    rw [final_iff,stripChars_html]
    exact step.unmarked_iff
  refine ⟨?_,strip_same_iff (stripChars text).html,decided,fun neat => (decided [] (tidy_inStep neat)).mpr ?_⟩
  · rw [stripChars_html]
    exact resolve_residue (tokenize text)
  · exact fun t member => (List.not_mem_nil member).elim

-- A loose bracket completed by what follows the marker, attribute names run together, and a raw
-- text element that is none once its attribute is cut out: each leaves a marker behind.
theorem strip_uncovers_markers :
    (stripChars "<<comment-start>comment-start>".toList).html = "<comment-start>".toList ∧
      ¬Final (stripChars "<<comment-start>comment-start>".toList).html ∧
      ¬Final (stripChars "<p d data-comment-start-before=\"\"ata-comment-start-before=\"\">".toList).html ∧
      ¬Final (stripChars "<script / data-comment-end-after=c><comment-end></script>".toList).html := by
  decide +kernel

-- Each pass that is not the last shortens the document, so the passes end.
theorem strip_settles (text : List Char) :
    ∃ count, count ≤ text.length ∧ Final ((fun html => (stripChars html).html)^[count] text) := by
  induction short : text.length using Nat.strongRecOn generalizing text with
  | _ n ih =>
      by_cases plain : Unmarked (tokenize text)
      · exact ⟨0,Nat.zero_le _,(final_iff text).mpr plain⟩
      · have less := strip_shorter plain
        obtain ⟨count,within,last⟩ := ih _ (short ▸ less) (stripChars text).html rfl
        exact ⟨count + 1,by omega,last⟩

end Redline.Markup
