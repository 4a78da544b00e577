import Redline.Format.Pipeline

namespace Redline.Format

open Redline.Text

section Writing

abbrev Row := Char × List Char

-- How a table writes one character.
def written (rows : List Row) (c : Char) : List Char := (rows.lookup c).getD [c]

theorem written_here (row : Row) (rest : List Row) : written (row :: rest) row.1 = row.2 := by
  rw [written,List.lookup_cons,beq_self_eq_true]
  rfl

theorem written_later {row : Row} {c : Char} (other : c ≠ row.1) (rest : List Row) :
    written (row :: rest) c = written rest c := by
  have apart : (c == row.1) = false := beq_false_of_ne other
  rw [written,List.lookup_cons,apart]
  rfl

-- No word holds a character that is replaced after it.
def Ordered (rows : List Row) : Prop := rows.Pairwise fun first later => later.1 ∉ first.2

instance (rows : List Row) : Decidable (Ordered rows) := inferInstanceAs (Decidable (List.Pairwise _ _))

theorem written_plain {rows : List Row} {text : List Char} (absent : ∀ row ∈ rows, row.1 ∉ text) :
    text.flatMap (written rows) = text := by
  induction text with
  | nil => rfl
  | cons c rest ih =>
      have unlisted : rows.lookup c = none := by
        rw [List.lookup_eq_none_iff]
        intro row member
        have other : c ≠ row.1 := fun same => absent row member (same ▸ List.mem_cons_self)
        simpa using other
      have later := ih fun row member inside => absent row member (List.mem_cons_of_mem _ inside)
      simp [written,unlisted,later]

theorem substitutes_written (rows : List Row) (ordered : Ordered rows) (text : List Char) :
    rows.foldl (fun text row => substitute row.1 row.2 text) text = text.flatMap (written rows) := by
  induction rows generalizing text with
  | nil => exact (written_plain (by simp)).symm
  | cons row rest ih =>
      obtain ⟨apart,others⟩ := List.pairwise_cons.mp ordered
      have stays : row.2.flatMap (written rest) = row.2 := written_plain apart
      rw [List.foldl_cons,ih others,substitute,List.flatMap_assoc]
      refine congrArg (text.flatMap ·) (funext fun c => ?_)
      by_cases same : c = row.1
      · rw [if_pos same,same,stays,written_here]
      · rw [if_neg same,List.flatMap_singleton,written_later same]

theorem listed_row {rows : List Row} {c : Char} {word : List Char} (listed : rows.lookup c = some word) :
    (c,word) ∈ rows := by
  obtain ⟨before,after,rfl,_⟩ := List.lookup_eq_some_iff.mp listed
  exact List.mem_append_right before (.head after)

theorem entities_ordered : Ordered entities := by decide

theorem escapeHtml_written (text : List Char) : escapeHtml text = text.flatMap (written entities) :=
  substitutes_written entities entities_ordered text

end Writing

section Reading

-- One pass from left to right, in which each word of the table that is met gives way to its
-- character. The number counts the characters left of a word already read.
def restoredFrom (rows : List Row) : Nat → List Char → List Char
  | _,[] => []
  | left + 1,_ :: rest => restoredFrom rows left rest
  | 0,c :: rest =>
      match rows.find? fun row => row.2.isPrefixOf (c :: rest) with
      | some row => row.1 :: restoredFrom rows (row.2.length - 1) rest
      | none => c :: restoredFrom rows 0 rest

def restored (rows : List Row) (text : List Char) : List Char := restoredFrom rows 0 text

def joinLines (text : List Char) : List Char := restored [('\n',lineBreak)] text

def decodeEntities (text : List Char) : List Char := restored entities text

-- Words that can be told apart by what they begin with.
structure Distinct (rows : List Row) : Prop where
  filled : ∀ row ∈ rows, row.2 ≠ []
  apart : ∀ first ∈ rows, ∀ second ∈ rows, first.2 <+: second.2 → first = second

theorem restoredFrom_skip (rows : List Row) (word rest : List Char) :
    restoredFrom rows word.length (word ++ rest) = restoredFrom rows 0 rest := by
  induction word with
  | nil => rfl
  | cons c word ih => exact ih

theorem restored_word {rows : List Row} (distinct : Distinct rows) {row : Row} (member : row ∈ rows)
    (rest : List Char) : restored rows (row.2 ++ rest) = row.1 :: restored rows rest := by
  cases word : row.2 with
  | nil => exact absurd word (distinct.filled row member)
  | cons c tail =>
      have met : (rows.find? fun row => row.2.isPrefixOf (c :: (tail ++ rest))) = some row := by
        cases found : rows.find? fun row => row.2.isPrefixOf (c :: (tail ++ rest)) with
        | none =>
            have missed := List.find?_eq_none.mp found row member
            simp [word] at missed
        | some other =>
            have met := List.find?_some found
            have reads := List.isPrefixOf_iff_prefix.mp met
            have own : row.2 <+: c :: (tail ++ rest) := ⟨rest,by simp [word]⟩
            have listed := List.mem_of_find?_eq_some found
            rcases List.prefix_or_prefix_of_prefix reads own with shorter | longer
            · rw [distinct.apart other listed row member shorter]
            · rw [distinct.apart row member other listed longer]
      rw [restored,List.cons_append,restoredFrom,met]
      dsimp only
      rw [word,List.length_cons,Nat.add_sub_cancel,restoredFrom_skip]
      rfl

theorem restored_other {rows : List Row} {c : Char} (begins : ∀ row ∈ rows, row.2.head? ≠ some c)
    (distinct : Distinct rows) (rest : List Char) : restored rows (c :: rest) = c :: restored rows rest := by
  have missed : (rows.find? fun row => row.2.isPrefixOf (c :: rest)) = none := by
    rw [List.find?_eq_none]
    intro row member reads
    cases word : row.2 with
    | nil => exact distinct.filled row member word
    | cons d tail =>
        have first := begins row member
        rw [word,List.isPrefixOf_iff_prefix,List.cons_prefix_cons] at reads
        exact first (by rw [word,List.head?_cons,reads.1])
  rw [restored,restoredFrom,missed]
  rfl

-- What a table wrote it reads back, if no word begins like a character that it left as it was.
theorem restored_written {rows : List Row} (distinct : Distinct rows) {text : List Char}
    (legible : ∀ c ∈ text, rows.lookup c = none → ∀ row ∈ rows, row.2.head? ≠ some c) :
    restored rows (text.flatMap (written rows)) = text := by
  induction text with
  | nil => rfl
  | cons c rest ih =>
      have later := ih fun d member => legible d (List.mem_cons_of_mem _ member)
      cases listed : rows.lookup c with
      | none =>
          have begins := legible c List.mem_cons_self listed
          simp [written,listed,restored_other begins distinct,later]
      | some word =>
          have member : (c,word) ∈ rows := listed_row listed
          have read := restored_word distinct member (rest.flatMap (written rows))
          simp only [List.flatMap_cons,written,listed,Option.getD_some]
          rw [read,later]

theorem entities_distinct : Distinct entities := ⟨by decide,by decide⟩

theorem lineBreak_distinct : Distinct [('\n',lineBreak)] := ⟨by decide,by decide⟩

-- The ampersand, with which every entity begins, is never left as it was.
theorem decodeEntities_escapeHtml (text : List Char) : decodeEntities (escapeHtml text) = text := by
  rw [escapeHtml_written]
  refine restored_written entities_distinct fun c _ unlisted row member begins => ?_
  have ampersand : ∀ row ∈ entities, row.2.head? = some '&' := by decide
  rw [ampersand row member,Option.some.injEq] at begins
  subst begins
  cases unlisted

theorem breakLines_written (text : List Char) : breakLines text = text.flatMap (written [('\n',lineBreak)]) :=
  substitutes_written [('\n',lineBreak)] (List.pairwise_singleton ..) text

theorem escaped_unbracketed (text : List Char) : '<' ∉ escapeHtml text := by
  rw [escapeHtml_written]
  intro inside
  obtain ⟨c,_,piece⟩ := List.mem_flatMap.mp inside
  cases listed : entities.lookup c with
  | none =>
      rw [written,listed,Option.getD_none,List.mem_singleton] at piece
      subst piece
      cases listed
  | some word =>
      have free : ∀ row ∈ entities, '<' ∉ row.2 := by decide
      rw [written,listed] at piece
      exact free _ (listed_row listed) piece

theorem joinLines_breakLines {text : List Char} (escaped : '<' ∉ text) : joinLines (breakLines text) = text := by
  rw [breakLines_written]
  refine restored_written lineBreak_distinct fun c inside _ row member begins => ?_
  cases List.mem_singleton.mp member
  cases begins
  exact escaped inside

end Reading

section Characters

def shown (c : Char) : List Char := (written entities c).flatMap (written [('\n',lineBreak)])

theorem breakLines_escapeHtml (text : List Char) : breakLines (escapeHtml text) = text.flatMap shown := by
  rw [breakLines_written,escapeHtml_written,List.flatMap_assoc]
  rfl

-- Where a character may stand in a text that is shown: `inner` is read before it and `behind`
-- after it, as far as the piece goes that it belongs to.
structure WellPlaced (inner : List Char) (c : Char) (behind : List Char) : Prop where
  noQuote : c ≠ '"' ∧ c ≠ '\''
  opens : c = '<' → inner = [] ∧ behind = ['b','r','>','\n']
  closes : c = '>' → inner = ['<','b','r'] ∧ behind = ['\n']
  starts : c = '&' → inner = [] ∧ ∃ row ∈ entities, row.2 = '&' :: behind

instance (inner : List Char) (c : Char) (behind : List Char) : Decidable (WellPlaced inner c behind) :=
  decidable_of_iff (_ ∧ _ ∧ _ ∧ _)
    ⟨fun ⟨noQuote,opens,closes,starts⟩ => ⟨noQuote,opens,closes,starts⟩,
      fun ⟨noQuote,opens,closes,starts⟩ => ⟨noQuote,opens,closes,starts⟩⟩

def places : List Char → List (List Char × Char × List Char)
  | [] => []
  | c :: rest => ([],c,rest) :: (places rest).map fun (inner,d,behind) => (c :: inner,d,behind)

theorem mem_places (inner : List Char) (c : Char) (behind : List Char) :
    (inner,c,behind) ∈ places (inner ++ c :: behind) := by
  induction inner with
  | nil => exact List.mem_cons_self
  | cons d inner ih => exact List.mem_cons_of_mem _ (List.mem_map.mpr ⟨_,ih,rfl⟩)

theorem shown_cases (c : Char) :
    shown c ∈ lineBreak :: entities.map Prod.snd ∨ shown c = [c] ∧ c ∉ ['&','<','>','"','\''] := by
  cases listed : entities.lookup c with
  | some word =>
      have member : word ∈ entities.map Prod.snd := List.mem_map.mpr ⟨_,listed_row listed,rfl⟩
      have oneLine : ∀ word ∈ entities.map Prod.snd, word.flatMap (written [('\n',lineBreak)]) = word := by decide
      have whole : shown c = word := by
        rw [shown,written,listed]
        exact oneLine word member
      exact .inl (List.mem_cons_of_mem _ (whole ▸ member))
  | none =>
      have alone : shown c = written [('\n',lineBreak)] c := by simp [shown,written,listed]
      have ordinary : c ∉ ['&','<','>','"','\''] := by
        have special : (['&','<','>','"','\''].all fun d => (entities.lookup d).isSome) = true := by decide
        intro member
        have found := List.all_eq_true.mp special c member
        rw [listed] at found
        cases found
      by_cases line : c = '\n'
      · subst line
        exact .inl List.mem_cons_self
      · exact .inr ⟨alone.trans (written_later line []),ordinary⟩

theorem shown_placed {source c : Char} {inner behind : List Char} (eq : shown source = inner ++ c :: behind) :
    WellPlaced inner c behind := by
  rcases shown_cases source with listed | ⟨same,ordinary⟩
  · have all : ∀ piece ∈ lineBreak :: entities.map Prod.snd, ∀ place ∈ places piece,
        WellPlaced place.1 place.2.1 place.2.2 := by decide
    exact all _ listed _ (eq ▸ mem_places inner c behind)
  · have inside : c ∈ [source] := by
      rw [← same,eq]
      exact List.mem_append_right _ List.mem_cons_self
    cases List.mem_singleton.mp inside
    simp only [List.mem_cons,List.not_mem_nil,or_false,not_or] at ordinary
    obtain ⟨ampersand,left,right,double,single⟩ := ordinary
    exact ⟨⟨double,single⟩,fun same => absurd same left,fun same => absurd same right,fun same => absurd same ampersand⟩

theorem flatMap_around {f : Char → List Char} {text before after : List Char} {c : Char}
    (eq : text.flatMap f = before ++ c :: after) :
    ∃ source front inner behind back, f source = inner ++ c :: behind ∧ before = front ++ inner ∧
      after = behind ++ back := by
  induction text generalizing before with
  | nil => simp at eq
  | cons d rest ih =>
      rw [List.flatMap_cons,List.append_eq_append_iff] at eq
      rcases eq with ⟨front,rfl,later⟩ | ⟨piece,here,whole⟩
      · obtain ⟨source,front',inner,behind,back,eq,rfl,rfl⟩ := ih later
        exact ⟨source,f d ++ front',inner,behind,back,eq,(List.append_assoc ..).symm,rfl⟩
      · cases piece with
        | nil =>
            obtain ⟨source,front,inner,behind,back,eq,empty,rfl⟩ := @ih [] whole.symm
            refine ⟨source,before,inner,behind,back,eq,?_,rfl⟩
            rw [(List.append_eq_nil_iff.mp empty.symm).2,List.append_nil]
        | cons first piece =>
            obtain ⟨rfl,rfl⟩ := List.cons.inj whole
            exact ⟨d,[],before,piece,rest.flatMap f,here,rfl,rfl⟩

theorem shown_around {text before after : List Char} {c : Char} (eq : text.flatMap shown = before ++ c :: after) :
    ∃ inner behind, WellPlaced inner c behind ∧ inner <:+ before ∧ behind <+: after := by
  obtain ⟨source,front,inner,behind,back,piece,rfl,rfl⟩ := flatMap_around eq
  exact ⟨inner,behind,shown_placed piece,⟨front,rfl⟩,⟨back,rfl⟩⟩

end Characters

-- What is promised of a text that is shown as it is.
structure ShowsPlain (source shown : List Char) : Prop where
  noQuotes : '"' ∉ shown ∧ '\'' ∉ shown
  opensBreak : ∀ before after, shown = before ++ '<' :: after → ['b','r','>','\n'] <+: after
  closesBreak : ∀ before after, shown = before ++ '>' :: after → ['<','b','r'] <:+ before ∧ ['\n'] <+: after
  startsEntity : ∀ before after, shown = before ++ '&' :: after → ∃ row ∈ entities, row.2 <+: '&' :: after
  restores : decodeEntities (joinLines shown) = source

-- A text comes out without quotes, with brackets only in line breaks and ampersands only at the
-- start of entities, and nothing of it is lost.
theorem plain_text_restores (text : List Char) :
    ShowsPlain (Markup.stripChars text).html (TextFormat.plainText.apply text) := by
  have out : TextFormat.plainText.apply text = breakLines (escapeHtml (Markup.stripChars text).html) := by
    simp only [TextFormat.apply,TextFormat.pipeline,Pipeline.apply,List.foldl_cons,List.foldl_nil,Filter.apply]
  generalize (Markup.stripChars text).html = source at out ⊢
  generalize TextFormat.plainText.apply text = result at out ⊢
  have whole : result = source.flatMap shown := out.trans (breakLines_escapeHtml source)
  refine ⟨⟨fun quote => ?_,fun quote => ?_⟩,fun before after eq => ?_,fun before after eq => ?_,
    fun before after eq => ?_,?_⟩
  · obtain ⟨before,after,eq⟩ := List.append_of_mem quote
    obtain ⟨_,_,placed,_⟩ := shown_around (whole.symm.trans eq)
    exact placed.noQuote.1 rfl
  · obtain ⟨before,after,eq⟩ := List.append_of_mem quote
    obtain ⟨_,_,placed,_⟩ := shown_around (whole.symm.trans eq)
    exact placed.noQuote.2 rfl
  · obtain ⟨inner,behind,placed,_,follows⟩ := shown_around (whole.symm.trans eq)
    obtain ⟨_,rfl⟩ := placed.opens rfl
    exact follows
  · obtain ⟨inner,behind,placed,precedes,follows⟩ := shown_around (whole.symm.trans eq)
    obtain ⟨rfl,rfl⟩ := placed.closes rfl
    exact ⟨precedes,follows⟩
  · obtain ⟨inner,behind,placed,_,follows⟩ := shown_around (whole.symm.trans eq)
    obtain ⟨_,row,member,word⟩ := placed.starts rfl
    exact ⟨row,member,by rw [word]; exact List.cons_prefix_cons.mpr ⟨rfl,follows⟩⟩
  · rw [out,joinLines_breakLines (escaped_unbracketed source),decodeEntities_escapeHtml]

end Redline.Format
