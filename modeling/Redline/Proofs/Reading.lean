import Redline.Markup.Lexer

namespace Redline.Markup

open Redline.Text

section Sources

theorem dropWhile_stop {p : Char → Bool} {text rest : List Char} {c : Char}
    (left : text.dropWhile p = c :: rest) : p c = false := by
  have stops := List.head?_dropWhile_not p text
  rw [left] at stops
  exact stops

theorem splitFirst_source {word text before after : List Char}
    (read : splitFirst word text = some (before,after)) : text = before ++ word ++ after := by
  induction text generalizing before with
  | nil =>
      unfold splitFirst at read
      split at read
      · rename_i empty
        cases read
        rw [List.isEmpty_iff.mp empty]
        rfl
      · cases read
  | cons c rest ih =>
      unfold splitFirst at read
      split at read
      · rename_i here
        cases read
        obtain ⟨tail,eq⟩ := List.isPrefixOf_iff_prefix.mp here
        rw [← eq,List.drop_left,List.nil_append]
      · obtain ⟨⟨mid,tail⟩,found,eq⟩ := Option.map_eq_some_iff.mp read
        cases eq
        rw [ih found]
        rfl

theorem splitTag_source {quote : Option Char} {text body after : List Char}
    (read : splitTag quote text = some (body,after)) : text = body ++ '>' :: after := by
  induction text generalizing quote body with
  | nil => cases read
  | cons c rest ih =>
      cases quote with
      | some q =>
          obtain ⟨⟨inner,behind⟩,found,eq⟩ := Option.map_eq_some_iff.mp read
          cases eq
          rw [ih found]
          rfl
      | none =>
          simp only [splitTag] at read
          split at read
          · rename_i ends
            cases read
            rw [ends]
            rfl
          · split at read
            · cases read
            · obtain ⟨⟨inner,behind⟩,found,eq⟩ := Option.map_eq_some_iff.mp read
              cases eq
              rw [ih found]
              rfl

theorem readValue_source {text raw value after : List Char}
    (read : readValue text = some (raw,value,after)) : text = raw ++ after := by
  cases text with
  | nil => cases read
  | cons q rest =>
      simp only [readValue] at read
      split at read
      · split at read
        · rename_i c behind left
          cases read
          have closes : c = q := by simpa using dropWhile_stop left
          have whole := List.takeWhile_append_dropWhile (p := (· ≠ q)) (l := rest)
          rw [left,closes] at whole
          change q :: rest = q :: (_ ++ [q] ++ _)
          rw [List.append_assoc]
          exact congrArg (q :: ·) whole.symm
        · cases read
      · split at read
        · cases read
        · cases read
          exact List.takeWhile_append_dropWhile.symm

theorem readTail_source (text : List Char) : (readTail text).1 ++ (readTail text).2.2 = text := by
  unfold readTail
  dsimp only
  split
  · rename_i rest left
    split
    · rename_i raw value after read
      have whole := List.takeWhile_append_dropWhile (p := isBlank) (l := text)
      have inner := List.takeWhile_append_dropWhile (p := isBlank) (l := rest)
      rw [readValue_source read] at inner
      rw [left,← inner] at whole
      simpa using whole
    · rfl
  · rfl

theorem readPart_source (text : List Char) : (readPart text).1.raw ++ (readPart text).2 = text := by
  have lead := List.takeWhile_append_dropWhile (p := isBlank) (l := text)
  unfold readPart
  dsimp only
  split
  · rename_i left
    rw [left] at lead
    exact lead
  · rename_i c rest left
    rw [left] at lead
    split
    · have name := List.takeWhile_append_dropWhile (p := isAttributeNameChar) (l := c :: rest)
      have tail := readTail_source ((c :: rest).dropWhile isAttributeNameChar)
      simp only [BodyPart.raw,Attribute.raw,List.append_assoc]
      rw [tail,name,lead]
    · simpa [BodyPart.raw] using lead

theorem readPartsWithin_source (fuel : Nat) (text : List Char) :
    (readPartsWithin fuel text).flatMap BodyPart.raw = text := by
  induction fuel generalizing text with
  | zero => cases text <;> simp [readPartsWithin,BodyPart.raw]
  | succ fuel ih =>
      cases text with
      | nil => rfl
      | cons c rest =>
          simp only [readPartsWithin,List.flatMap_cons]
          rw [ih]
          exact readPart_source (c :: rest)

theorem readName_source {text written inside : List Char}
    (read : readName text = some (written,inside)) : text = written ++ inside := by
  cases text with
  | nil => cases read
  | cons c rest =>
      simp only [readName] at read
      split at read
      · cases read
        exact List.takeWhile_append_dropWhile.symm
      · cases read

end Sources

section Delimiters

theorem splitFirst_here (word rest : List Char) : splitFirst word (word ++ rest) = some ([],rest) := by
  cases text : word ++ rest with
  | nil =>
      obtain ⟨rfl,rfl⟩ := List.append_eq_nil_iff.mp text
      rfl
  | cons c behind =>
      have here : word.isPrefixOf (c :: behind) = true := by
        rw [← text,List.isPrefixOf_iff_prefix]
        exact List.prefix_append _ _
      simp only [splitFirst,here,if_true]
      rw [← text,List.drop_left]

theorem splitFirst_before {word text before after : List Char} (read : splitFirst word text = some (before,after))
    (rest : List Char) : splitFirst word (before ++ (word ++ rest)) = some (before,rest) := by
  induction text generalizing before with
  | nil =>
      unfold splitFirst at read
      split at read
      · cases read
        exact splitFirst_here word rest
      · cases read
  | cons c text ih =>
      unfold splitFirst at read
      split at read
      · cases read
        exact splitFirst_here word rest
      · rename_i later
        obtain ⟨⟨mid,tail⟩,found,eq⟩ := Option.map_eq_some_iff.mp read
        cases eq
        have short : word.length ≤ (c :: (mid ++ word)).length := by
          simp only [List.length_cons,List.length_append]
          omega
        have still : word.isPrefixOf (c :: (mid ++ (word ++ rest))) = false := by
          rw [Bool.eq_false_iff]
          intro here
          apply later
          rw [List.isPrefixOf_iff_prefix] at here ⊢
          rw [← List.append_assoc,← List.cons_append] at here
          have inside := List.prefix_of_prefix_length_le here (List.prefix_append _ _) short
          rw [splitFirst_source found,← List.cons_append]
          exact inside.trans (List.prefix_append _ _)
        simp only [List.cons_append,splitFirst,still,Bool.false_eq_true,if_false]
        rw [ih found]
        rfl

theorem splitTag_before {quote : Option Char} {text body after : List Char}
    (read : splitTag quote text = some (body,after)) (rest : List Char) :
    splitTag quote (body ++ '>' :: rest) = some (body,rest) := by
  induction text generalizing quote body with
  | nil => cases read
  | cons c text ih =>
      cases quote with
      | some q =>
          obtain ⟨⟨inner,behind⟩,found,eq⟩ := Option.map_eq_some_iff.mp read
          cases eq
          simp only [List.cons_append,splitTag,ih found,Option.map_some]
      | none =>
          simp only [splitTag] at read
          split at read
          · cases read
            rfl
          · rename_i inside
            split at read
            · cases read
            · rename_i closed
              obtain ⟨⟨inner,behind⟩,found,eq⟩ := Option.map_eq_some_iff.mp read
              cases eq
              simp only [List.cons_append,splitTag,inside,closed,if_false,ih found,Option.map_some]

theorem readName_before {text written body after : List Char}
    (read : readName text = some (written,body ++ '>' :: after)) (rest : List Char) :
    readName (written ++ (body ++ '>' :: rest)) = some (written,body ++ '>' :: rest) ∧
      ∃ c name, written = c :: name ∧ isLetter c = true := by
  cases text with
  | nil => cases read
  | cons c text =>
      simp only [readName] at read
      split at read
      · rename_i letter
        simp only [Option.some.injEq,Prod.mk.injEq] at read
        obtain ⟨rfl,left⟩ := read
        have first : isTagNameChar c = true := by simp [isTagNameChar,letter]
        have head : (c :: text).takeWhile isTagNameChar = c :: text.takeWhile isTagNameChar := by
          simp [first]
        have all : ∀ x ∈ (c :: text).takeWhile isTagNameChar, isTagNameChar x = true :=
          fun x member => List.all_eq_true.mp List.all_takeWhile x member
        have stops : (body ++ '>' :: rest).takeWhile isTagNameChar = [] ∧
            (body ++ '>' :: rest).dropWhile isTagNameChar = body ++ '>' :: rest := by
          cases body with
          | nil => exact ⟨rfl,rfl⟩
          | cons b body =>
              have other := dropWhile_stop left
              simp [other]
        refine ⟨?_,c,_,head,letter⟩
        have taken := @List.takeWhile_append_of_pos _ isTagNameChar _ (body ++ '>' :: rest) all
        have dropped := @List.dropWhile_append_of_pos _ isTagNameChar _ (body ++ '>' :: rest) all
        rw [stops.1,List.append_nil] at taken
        rw [stops.2] at dropped
        rw [head] at taken dropped ⊢
        simp only [readName,List.cons_append,letter,if_true] at taken dropped ⊢
        rw [taken,dropped]
      · cases read

end Delimiters

def Token.settled : Token → Bool
  | .other content => !commentOpen.isPrefixOf (content.drop 1) || (readComment (content.drop 1)).isSome
  | _ => true

section Tokens

theorem readComment_exact {text after : List Char} {t : Token} (read : readComment text = some (t,after)) :
    ∃ inside, t.raw = '<' :: inside ∧ text = inside ++ after ∧
      ∀ rest, readComment (inside ++ rest) = some (t,rest) := by
  unfold readComment at read
  split at read
  · rename_i opens
    obtain ⟨⟨inner,behind⟩,found,eq⟩ := Option.map_eq_some_iff.mp read
    cases eq
    obtain ⟨body,rfl⟩ := List.isPrefixOf_iff_prefix.mp opens
    have dropped : ∀ body, (commentOpen ++ body).drop 3 = body := fun _ => rfl
    rw [dropped] at found
    refine ⟨commentOpen ++ (inner ++ commentClose),by simp [Token.raw],?_,?_⟩
    · rw [splitFirst_source found]
      simp
    · intro rest
      have still : commentOpen.isPrefixOf (commentOpen ++ (inner ++ commentClose) ++ rest) = true := rfl
      rw [readComment,if_pos still,List.append_assoc,dropped,List.append_assoc,splitFirst_before found]
      simp
  · cases read

theorem readDeclaration_exact {text after : List Char} {t : Token}
    (read : readDeclaration text = some (t,after)) : ∃ inside, t = .other ('<' :: inside ++ ['>']) ∧
      text = inside ++ '>' :: after ∧ ∀ rest, readDeclaration (inside ++ '>' :: rest) = some (t,rest) := by
  cases text with
  | nil => cases read
  | cons mark text =>
      simp only [readDeclaration] at read
      split at read
      · rename_i opens
        split at read
        · rename_i behind left
          cases read
          have whole := List.takeWhile_append_dropWhile (p := fun c => c ≠ '<' ∧ c ≠ '>') (l := text)
          rw [left] at whole
          have plain : ∀ x ∈ text.takeWhile fun c => c ≠ '<' ∧ c ≠ '>', (x ≠ '<' ∧ x ≠ '>') := by
            intro x member
            simpa using List.all_eq_true.mp List.all_takeWhile x member
          refine ⟨mark :: text.takeWhile fun c => c ≠ '<' ∧ c ≠ '>',rfl,congrArg (mark :: ·) whole.symm,?_⟩
          intro rest
          have all := fun x member => decide_eq_true (plain x member)
          have taken := @List.takeWhile_append_of_pos _ _ _ ('>' :: rest) all
          have dropped := @List.dropWhile_append_of_pos _ _ _ ('>' :: rest) all
          simp only [List.cons_append,readDeclaration,if_pos opens]
          rw [taken,dropped]
          simp
        · cases read
      · cases read

-- Whether a tag is read depends on what stands up to its closing bracket; it opens with a letter
-- or with a slash.
theorem readTag_exact {text after : List Char} {t : Token} (read : readTag text = some (t,after)) :
    ∃ c inside, t.raw = '<' :: c :: inside ∧ text = c :: inside ++ after ∧ (isLetter c = true ∨ c = '/') ∧
      t.settled = true ∧ ∀ rest, readTag (c :: inside ++ rest) = some (t,rest) := by
  unfold readTag at read
  split at read
  · rename_i rest
    obtain ⟨⟨written,inside⟩,name,read⟩ := Option.bind_eq_some_iff.mp read
    obtain ⟨⟨tail,behind⟩,ends,eq⟩ := Option.bind_eq_some_iff.mp read
    cases eq
    have source := readName_source name
    have body := splitTag_source ends
    rw [body] at name source
    refine ⟨'/',written ++ (tail ++ ['>']),by simp [Token.raw],by simp [source],.inr rfl,rfl,?_⟩
    intro rest
    have again := (readName_before name rest).1
    have closes := splitTag_before ends rest
    simp [readTag,again,closes]
  · obtain ⟨⟨written,inside⟩,name,read⟩ := Option.bind_eq_some_iff.mp read
    obtain ⟨⟨body,behind⟩,ends,eq⟩ := Option.bind_eq_some_iff.mp read
    cases eq
    have source := readName_source name
    have split := splitTag_source ends
    rw [split] at name source
    obtain ⟨_,c,tail,rfl,letter⟩ := readName_before name []
    refine ⟨c,tail ++ (body ++ ['>']),?_,by simp [source],.inl letter,rfl,?_⟩
    · simp [Token.raw,StartTag.raw,StartTag.body,readParts,readPartsWithin_source]
    · intro rest
      have again := (readName_before name rest).1
      have closes := splitTag_before ends rest
      have other : c ≠ '/' := by
        rintro rfl
        cases letter
      simp only [List.cons_append,List.append_assoc,List.nil_append] at again ⊢
      unfold readTag
      split
      · rename_i same
        cases same
        exact absurd rfl other
      · simp [again,closes]

theorem readMarkup_cases {text after : List Char} {t : Token} (read : readMarkup text = some (t,after)) :
    ∃ rest, text = '<' :: rest ∧ (readComment rest = some (t,after) ∨
      readComment rest = none ∧ readDeclaration rest = some (t,after) ∨ readTag rest = some (t,after)) := by
  unfold readMarkup at read
  split at read
  · rename_i rest
    refine ⟨rest,rfl,?_⟩
    rcases Option.or_eq_some_iff.mp read with comment | ⟨open_,read⟩
    · exact .inl comment
    · rcases Option.or_eq_some_iff.mp read with declaration | ⟨_,tag⟩
      · exact .inr (.inl ⟨open_,declaration⟩)
      · exact .inr (.inr tag)
  · cases read

theorem readMarkup_source {text after : List Char} {t : Token} (read : readMarkup text = some (t,after)) :
    text = t.raw ++ after ∧ ∃ inside, t.raw = '<' :: inside := by
  obtain ⟨rest,rfl,comment | ⟨_,declaration⟩ | tag⟩ := readMarkup_cases read
  · obtain ⟨inside,raw,rfl,_⟩ := readComment_exact comment
    exact ⟨by rw [raw]; rfl,inside,raw⟩
  · obtain ⟨inside,rfl,rfl,_⟩ := readDeclaration_exact declaration
    exact ⟨by simp [Token.raw],_,rfl⟩
  · obtain ⟨c,inside,raw,rfl,_⟩ := readTag_exact tag
    exact ⟨by rw [raw]; rfl,c :: inside,raw⟩

theorem readComment_none {inside after : List Char}
    (settled : (Token.other ('<' :: inside ++ ['>'])).settled = true)
    (open_ : readComment (inside ++ '>' :: after) = none) (rest : List Char) :
    readComment (inside ++ '>' :: rest) = none := by
  have start : commentOpen.isPrefixOf (inside ++ ['>']) = false := by
    rw [Bool.eq_false_iff]
    intro opens
    have closed : (readComment (inside ++ ['>'])).isSome = true := by
      simpa [Token.settled,opens] using settled
    obtain ⟨⟨u,left⟩,comment⟩ := Option.isSome_iff_exists.mp closed
    obtain ⟨inner,_,eq,before⟩ := readComment_exact comment
    have here := before (left ++ after)
    rw [← List.append_assoc,← eq,List.append_assoc] at here
    rw [List.singleton_append,open_] at here
    cases here
  have stop : '>' ∉ commentOpen := by decide
  have absent : ¬commentOpen.isPrefixOf (inside ++ '>' :: rest) = true := by
    rw [List.isPrefixOf_iff_prefix,prefix_stop stop]
    rw [Bool.eq_false_iff,Ne,List.isPrefixOf_iff_prefix,prefix_stop stop] at start
    exact start
  rw [readComment,if_neg absent]

theorem readMarkup_other {c : Char} (other : c ≠ '<') (rest : List Char) : readMarkup (c :: rest) = none := by
  unfold readMarkup
  split
  · rename_i same
    exact absurd (List.cons.inj same).1 other
  · rfl

theorem readMarkup_tag {c : Char} (plain : c ≠ '!' ∧ c ≠ '?') (text : List Char) :
    readMarkup ('<' :: c :: text) = readTag (c :: text) := by
  have noComment : readComment (c :: text) = none := by
    have other : ¬commentOpen.isPrefixOf (c :: text) = true := by simp [commentOpen,Ne.symm plain.1]
    rw [readComment,if_neg other]
  have noDeclaration : readDeclaration (c :: text) = none := by simp [readDeclaration,plain]
  simp only [readMarkup,noComment,noDeclaration,Option.none_or]

theorem tag_unmarked {c : Char} (opens : isLetter c = true ∨ c = '/') : c ≠ '!' ∧ c ≠ '?' := by
  rcases opens with letter | rfl
  · constructor <;> (rintro rfl; cases letter)
  · decide

theorem readMarkup_before {text after : List Char} {t : Token} (read : readMarkup text = some (t,after))
    (settled : t.settled = true) (rest : List Char) : readMarkup (t.raw ++ rest) = some (t,rest) := by
  obtain ⟨text,rfl,comment | ⟨open_,declaration⟩ | tag⟩ := readMarkup_cases read
  · obtain ⟨inside,raw,_,again⟩ := readComment_exact comment
    simp [raw,readMarkup,again]
  · obtain ⟨inside,rfl,rfl,again⟩ := readDeclaration_exact declaration
    have form : Token.raw (.other ('<' :: inside ++ ['>'])) ++ rest = '<' :: (inside ++ '>' :: rest) := by
      simp [Token.raw]
    rw [form]
    simp [readMarkup,readComment_none settled open_,again]
  · obtain ⟨c,inside,raw,rfl,opens,_,again⟩ := readTag_exact tag
    rw [raw]
    exact (readMarkup_tag (tag_unmarked opens) (inside ++ rest)).trans (again rest)

end Tokens

section Passes

theorem rawTextAfter_source (t : Token) (rest : List Char) :
    (rawTextAfter t rest).1 ++ (rawTextAfter t rest).2 = rest := by
  unfold rawTextAfter
  split
  · split
    · exact splitBeforeFold_append _ _
    · rfl
  · rfl

theorem after_shorter {c : Char} {text after : List Char} {t : Token}
    (read : readMarkup (c :: text) = some (t,after)) : (rawTextAfter t after).2.length ≤ text.length := by
  obtain ⟨whole,inside,raw⟩ := readMarkup_source read
  have source := congrArg List.length whole
  have tail := congrArg List.length (rawTextAfter_source t after)
  rw [raw] at source
  simp only [List.length_cons,List.length_append] at source tail
  omega

theorem tokenizeWithin_enough {fuel bound : Nat} (pending text : List Char) (enough : text.length ≤ fuel)
    (within : text.length ≤ bound) : tokenizeWithin fuel pending text = tokenizeWithin bound pending text := by
  induction fuel generalizing bound pending text with
  | zero =>
      rw [Nat.le_zero,List.length_eq_zero_iff] at enough
      subst enough
      cases bound <;> rfl
  | succ fuel ih =>
      cases text with
      | nil => cases bound <;> rfl
      | cons c rest =>
          simp only [List.length_cons] at enough within
          cases bound with
          | zero => omega
          | succ bound =>
              simp only [tokenizeWithin]
              cases read : readMarkup (c :: rest) with
              | none => exact ih (c :: pending) rest (by omega) (by omega)
              | some pair =>
                  obtain ⟨t,after⟩ := pair
                  have shorter := after_shorter read
                  have further : tokenizeWithin fuel [] (rawTextAfter t after).2 =
                      tokenizeWithin bound [] (rawTextAfter t after).2 := ih [] _ (by omega) (by omega)
                  dsimp only
                  rw [further]

-- The tokens of a text where `pending` was read as text just before it, last character first.
def tokensFrom (pending text : List Char) : List Token := tokenizeWithin text.length pending text

theorem tokensFrom_nil (pending : List Char) : tokensFrom pending [] = textToken pending.reverse := rfl

theorem tokensFrom_stray {c : Char} {rest : List Char} (pending : List Char)
    (stray : readMarkup (c :: rest) = none) : tokensFrom pending (c :: rest) = tokensFrom (c :: pending) rest := by
  simp only [tokensFrom,List.length_cons,tokenizeWithin,stray]

theorem tokensFrom_markup {text after : List Char} {t : Token} (pending : List Char)
    (read : readMarkup text = some (t,after)) : tokensFrom pending text =
      textToken pending.reverse ++ t :: textToken (rawTextAfter t after).1 ++
        tokensFrom [] (rawTextAfter t after).2 := by
  cases text with
  | nil => cases read
  | cons c rest =>
      have enough := tokenizeWithin_enough [] _ (after_shorter read) (Nat.le_refl _)
      simp only [tokensFrom,List.length_cons,tokenizeWithin,read,enough]

theorem tokensFrom_past {content rest : List Char}
    (stray : ∀ before after, content = before ++ '<' :: after → readMarkup ('<' :: (after ++ rest)) = none)
    (pending : List Char) : tokensFrom pending (content ++ rest) = tokensFrom (content.reverse ++ pending) rest := by
  induction content generalizing pending with
  | nil => rfl
  | cons c content ih =>
      have none_ : readMarkup (c :: (content ++ rest)) = none := by
        by_cases bracket : c = '<'
        · rw [bracket]
          exact stray [] content (by rw [bracket]; rfl)
        · exact readMarkup_other bracket (content ++ rest)
      have later := ih fun before after eq => stray (c :: before) after (by rw [eq]; rfl)
      rw [List.cons_append,tokensFrom_stray pending none_,later,List.reverse_cons,List.append_assoc]
      rfl

-- Reading goes on one character later, after a token, or is done.
theorem reading_induction {motive : List Char → List Char → Prop}
    (done : ∀ pending, motive pending [])
    (stray : ∀ pending c rest, readMarkup (c :: rest) = none → motive (c :: pending) rest →
      motive pending (c :: rest))
    (markup : ∀ pending c rest t after, readMarkup (c :: rest) = some (t,after) →
      motive [] (rawTextAfter t after).2 → motive pending (c :: rest)) :
    ∀ pending text, motive pending text := by
  have bounded : ∀ bound pending text, text.length ≤ bound → motive pending text := by
    intro bound
    induction bound with
    | zero =>
        intro pending text short
        rw [Nat.le_zero,List.length_eq_zero_iff] at short
        exact short ▸ done pending
    | succ bound ih =>
        intro pending text short
        cases text with
        | nil => exact done pending
        | cons c rest =>
            rw [List.length_cons] at short
            cases read : readMarkup (c :: rest) with
            | none => exact stray pending c rest read (ih (c :: pending) rest (by omega))
            | some pair =>
                obtain ⟨t,after⟩ := pair
                have shorter := after_shorter read
                exact markup pending c rest t after read (ih [] _ (by omega))
  exact fun pending text => bounded text.length pending text (Nat.le_refl _)

@[simp] theorem source_nil : source [] = [] := rfl

@[simp] theorem source_cons (t : Token) (tokens : List Token) : source (t :: tokens) = t.raw ++ source tokens := rfl

@[simp] theorem source_append (tokens more : List Token) :
    source (tokens ++ more) = source tokens ++ source more := List.flatMap_append

@[simp] theorem source_textToken (content : List Char) : source (textToken content) = content := by
  cases content <;> simp [textToken,source,Token.raw]

theorem tokensFrom_source (pending text : List Char) :
    source (tokensFrom pending text) = pending.reverse ++ text := by
  refine reading_induction (motive := fun pending text =>
    source (tokensFrom pending text) = pending.reverse ++ text) ?_ ?_ ?_ pending text
  · intro pending
    rw [tokensFrom_nil,source_textToken,List.append_nil]
  · intro pending c rest stray ih
    rw [tokensFrom_stray pending stray,ih]
    simp
  · intro pending c rest t after read ih
    have whole := rawTextAfter_source t after
    rw [tokensFrom_markup pending read,(readMarkup_source read).1]
    simp only [source_append,source_cons,source_textToken,ih,List.reverse_nil,List.nil_append,
      List.append_assoc,whole]

theorem source_tokenize (text : List Char) : source (tokenize text) = text := tokensFrom_source [] text

end Passes

end Redline.Markup
