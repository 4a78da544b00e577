import Redline.Usage.Embed
import Redline.Markup.Lexer
import Redline.Proofs.Linking

namespace Redline.Usage

open Redline.Text
open Redline.Markup (isLetter isQuote isAttributeNameChar)
open Redline.Format (ne_of_holds)

section Characters

theorem ascii_each {P : Char → Prop} (each : ∀ n : Fin 128, P (Char.ofNat n)) {c : Char} (low : c.toNat < 128) :
    P c := by
  have here := each ⟨c.toNat,low⟩
  rwa [Char.ofNat_toNat] at here

theorem ascii_below {c d : Char} (least : c ≤ d) (low : d.toNat < 128) : c.toNat < 128 := Nat.lt_of_le_of_lt least low

theorem toLower_nameChar (c : Char) : isAttributeNameChar c.toLower = isAttributeNameChar c := by
  by_cases low : c.toNat < 128
  · exact ascii_each (P := fun c => isAttributeNameChar c.toLower = isAttributeNameChar c) (by decide +kernel) low
  · have same : c.toLower = c := dif_neg fun upper => low (Nat.lt_of_le_of_lt upper.2 (by decide))
    rw [same]

theorem blank_noName {c : Char} (blank : isBlank c = true) : isAttributeNameChar c = false := by
  simp [isAttributeNameChar,blank]

theorem quote_noName {c : Char} (quote : isQuote c = true) : isAttributeNameChar c = false := by
  simp [isAttributeNameChar,quote]

theorem letter_ascii {c : Char} (letter : isLetter c = true) : c.toNat < 128 := by
  simp only [isLetter,Bool.or_eq_true,Bool.and_eq_true,decide_eq_true_eq] at letter
  rcases letter with ⟨_,least⟩ | ⟨_,least⟩
  · exact ascii_below least (by decide)
  · exact ascii_below least (by decide)

theorem letter_name {c : Char} (letter : isLetter c = true) : isAttributeNameChar c = true :=
  ascii_each (P := fun c => isLetter c = true → isAttributeNameChar c = true) (by decide) (letter_ascii letter)
    letter

theorem quote_solid {c : Char} (quote : isQuote c = true) : isBlank c = false := by
  rw [isQuote,Bool.or_eq_true,decide_eq_true_eq,decide_eq_true_eq] at quote
  rcases quote with rfl | rfl <;> rfl

theorem false_of_apart {p q : Char → Bool} {c : Char} (apart : p c = true → q c = false) (holds : q c = true) :
    p c = false := by
  rw [← Bool.not_eq_true]
  intro other
  cases (apart other).symm.trans holds

theorem blank_bare {c : Char} (blank : isBlank c = true) : isQuote c = false ∧ c ≠ '>' :=
  ⟨false_of_apart quote_solid blank,ne_of_holds blank rfl⟩

theorem name_bare {c : Char} (name : isAttributeNameChar c = true) : isQuote c = false ∧ c ≠ '>' :=
  ⟨false_of_apart quote_noName name,ne_of_holds name rfl⟩

theorem name_solid {c : Char} (name : isAttributeNameChar c = true) : isBlank c = false :=
  false_of_apart blank_noName name

theorem dropWhile_run {p : Char → Bool} {front rest : List Char} {c : Char} (run : front.all p = true)
    (stops : p c = false) : (front ++ c :: rest).dropWhile p = c :: rest := by
  rw [List.dropWhile_append_of_pos (List.all_eq_true.mp run),List.dropWhile_cons_of_neg (by simp [stops])]

theorem takeWhile_run {p : Char → Bool} {front rest : List Char} {c : Char} (run : front.all p = true)
    (stops : p c = false) : (front ++ c :: rest).takeWhile p = front := by
  rw [List.takeWhile_append_of_pos (List.all_eq_true.mp run),List.takeWhile_cons_of_neg (by simp [stops]),
    List.append_nil]

end Characters

section Scans

variable {β : Type} {read : List Char → Option (List β × List Char)}

-- Taking what `read` finds from left to right; where it finds nothing, going on one character later.
def scanWithin (read : List Char → Option (List β × List Char)) : Nat → List Char → List β
  | _,[] => []
  | 0,_ => []
  | fuel + 1,c :: rest =>
      match read (c :: rest) with
      | some (found,after) => found ++ scanWithin read fuel after
      | none => scanWithin read fuel rest

def scan (read : List Char → Option (List β × List Char)) (text : List Char) : List β :=
  scanWithin read text.length text

def Shortens (read : List Char → Option (List β × List Char)) : Prop :=
  ∀ text found after, read text = some (found,after) → after.length < text.length

theorem scanWithin_enough (shortens : Shortens read) {fuel bound : Nat} (text : List Char)
    (enough : text.length ≤ fuel) (within : text.length ≤ bound) :
    scanWithin read fuel text = scanWithin read bound text := by
  induction fuel generalizing bound text with
  | zero =>
      rw [Nat.le_zero,List.length_eq_zero_iff] at enough
      subst enough
      cases bound <;> rfl
  | succ fuel ih =>
      cases text with
      | nil => cases bound <;> rfl
      | cons c rest =>
          simp only [List.length_cons] at enough within
          cases bound with
          | zero => omega
          | succ bound =>
              simp only [scanWithin]
              cases here : read (c :: rest) with
              | none => exact ih rest (by omega) (by omega)
              | some pair =>
                  obtain ⟨found,after⟩ := pair
                  have shorter := shortens _ _ _ here
                  rw [List.length_cons] at shorter
                  exact congrArg (found ++ ·) (ih after (by omega) (by omega))

theorem scan_found (shortens : Shortens read) {text after : List Char} {found : List β}
    (here : read text = some (found,after)) : scan read text = found ++ scan read after := by
  have shorter := shortens _ _ _ here
  cases text with
  | nil => exact absurd shorter (Nat.not_lt_zero _)
  | cons c rest =>
      have enough := scanWithin_enough shortens after (Nat.le_of_lt_succ shorter) (Nat.le_refl _)
      simp only [scan,List.length_cons,scanWithin,here,enough]

theorem scan_stray {c : Char} {rest : List Char} (stray : read (c :: rest) = none) :
    scan read (c :: rest) = scan read rest := by
  simp only [scan,List.length_cons,scanWithin,stray]

-- Characters at which nothing is found.
theorem scan_past {front rest : List Char}
    (past : ∀ behind, behind <:+ front → behind ≠ [] → read (behind ++ rest) = none) :
    scan read (front ++ rest) = scan read rest := by
  induction front with
  | nil => rfl
  | cons c front ih =>
      have stray : read (c :: (front ++ rest)) = none := past (c :: front) List.suffix_rfl (List.cons_ne_nil c front)
      rw [List.cons_append,scan_stray stray]
      exact ih fun behind later => past behind (later.trans (List.suffix_cons c front))

theorem scan_empty (shortens : Shortens read)
    (filled : ∀ text found after, read text = some (found,after) → found ≠ []) {text : List Char}
    (empty : scan read text = []) (behind : List Char) (later : behind <:+ text) : read behind = none := by
  induction text with
  | nil =>
      rw [List.suffix_nil.mp later]
      cases here : read [] with
      | none => rfl
      | some pair => exact absurd (shortens _ _ _ here) (Nat.not_lt_zero _)
  | cons c rest ih =>
      cases here : read (c :: rest) with
      | some pair =>
          rw [scan_found shortens here,List.append_eq_nil_iff] at empty
          exact absurd empty.1 (filled _ _ _ here)
      | none =>
          rw [scan_stray here] at empty
          rcases List.suffix_cons_iff.mp later with rfl | inside
          · exact here
          · exact ih empty inside

end Scans

section Fields

def EmbedField.ending : EmbedField → List Char
  | .type => typeWord
  | .uuid => uuidWord

def EmbedField.word (field : EmbedField) : List Char := dataWord ++ field.ending

def readField (text : List Char) : Option (List (EmbedField × List Char) × List Char) :=
  (fieldAt? text).map fun (field,value,after) => ([(field,value)],after)

def fieldsIn (inside : List Char) : List (EmbedField × List Char) := scan readField inside

theorem fieldsWithin_cons (fuel : Nat) (c : Char) (rest : List Char) : fieldsWithin (fuel + 1) (c :: rest) =
    match fieldAt? (c :: rest) with
    | some (field,value,after) => (field,value) :: fieldsWithin fuel after
    | none => fieldsWithin fuel rest := by rfl

theorem fieldsWithin_scan (fuel : Nat) (text : List Char) : fieldsWithin fuel text = scanWithin readField fuel text := by
  induction fuel generalizing text with
  | zero => cases text <;> rfl
  | succ fuel ih =>
      cases text with
      | nil => rfl
      | cons c rest =>
          rw [fieldsWithin_cons,scanWithin,readField]
          cases fieldAt? (c :: rest) with
          | none => exact ih rest
          | some found => simp only [Option.map_some,List.singleton_append,ih]

theorem startsWithFold_drop {word text after : List Char} :
    startsWithFold word text = true ∧ text.drop word.length = after ↔
      ∃ written, text = written ++ after ∧ lower written = lower word := by
  rw [startsWithFold_iff]
  constructor
  · rintro ⟨⟨more,eq⟩,rfl⟩
    refine ⟨text.take word.length,(List.take_append_drop word.length text).symm,?_⟩
    rw [lower,List.map_take,← lower,← eq,List.take_left' (by simp [lower])]
  · rintro ⟨written,rfl,same⟩
    have size : word.length = written.length := by simpa [lower] using (congrArg List.length same).symm
    refine ⟨⟨lower after,?_⟩,by rw [size,List.drop_left]⟩
    rw [← same]
    exact List.map_append.symm

theorem ending_alone {field other : EmbedField} {text : List Char} (here : startsWithFold field.ending text = true)
    (there : startsWithFold other.ending text = true) : field = other := by
  rw [startsWithFold_iff] at here there
  obtain ⟨c,starts⟩ : ∃ c, ∀ field : EmbedField, lower field.ending <+: lower text →
      (lower field.ending).head? = some c := by
    cases text with
    | nil => exact ⟨'t',fun field starts => by cases field <;> cases List.prefix_nil.mp starts⟩
    | cons c text => exact ⟨c.toLower,fun field starts => by
        obtain ⟨more,eq⟩ := starts
        cases field <;> exact congrArg some (List.cons.inj eq).1⟩
  have same := (starts field here).trans (starts other there).symm
  revert same
  cases field <;> cases other <;> decide

theorem fieldNameAt?_eq {text after : List Char} {field : EmbedField} : fieldNameAt? text = some (field,after) ↔
    startsWithFold dataWord text = true ∧ startsWithFold field.ending (text.drop dataWord.length) = true ∧
      (text.drop dataWord.length).drop field.ending.length = after := by
  have four : field.ending.length = 4 := by cases field <;> rfl
  rw [fieldNameAt?,four]
  by_cases data : startsWithFold dataWord text = true
  · rw [data,if_neg (by decide)]
    dsimp only
    split
    · rename_i type
      constructor
      · intro read
        cases read
        exact ⟨rfl,type,rfl⟩
      · rintro ⟨-,ends,rfl⟩
        rw [@ending_alone field .type _ ends type]
    · rename_i type
      split
      · rename_i uuid
        constructor
        · intro read
          cases read
          exact ⟨rfl,uuid,rfl⟩
        · rintro ⟨-,ends,rfl⟩
          rw [@ending_alone field .uuid _ ends uuid]
      · rename_i uuid
        refine ⟨fun read => (nomatch read),?_⟩
        rintro ⟨-,ends,-⟩
        cases field with
        | type => exact absurd ends type
        | uuid => exact absurd ends uuid
  · rw [Bool.not_eq_true] at data
    simp [data]

theorem fieldNameAt?_iff {text after : List Char} {field : EmbedField} : fieldNameAt? text = some (field,after) ↔
    ∃ word, text = word ++ after ∧ lower word = field.word := by
  have data : lower dataWord = dataWord := by decide
  have ending : lower field.ending = field.ending := by cases field <;> decide
  rw [fieldNameAt?_eq]
  constructor
  · rintro ⟨starts,ends,rest⟩
    obtain ⟨front,whole,same⟩ := startsWithFold_drop.mp ⟨starts,rfl⟩
    obtain ⟨back,behind,same'⟩ := startsWithFold_drop.mp ⟨ends,rest⟩
    refine ⟨front ++ back,?_,?_⟩
    · rw [List.append_assoc,← behind,← whole]
    · rw [lower,List.map_append,← lower,← lower,same,same',data,ending]
      rfl
  · rintro ⟨word,rfl,same⟩
    obtain ⟨front,back,rfl,same,same'⟩ := List.map_eq_append_iff.mp same
    obtain ⟨starts,rest⟩ :=
      startsWithFold_drop.mpr ⟨front,List.append_assoc front back after,same.trans data.symm⟩
    rw [rest]
    exact ⟨starts,startsWithFold_drop.mpr ⟨back,rfl,same'.trans ending.symm⟩⟩

-- A blank, the name of a data attribute and an equals sign, with `tail` behind it.
def Announces (field : EmbedField) (text tail : List Char) : Prop :=
  ∃ c word gap, text = c :: (word ++ (gap ++ '=' :: tail)) ∧ isBlank c = true ∧ lower word = field.word ∧
    gap.all isBlank = true

theorem fieldAt?_iff {text value after : List Char} {field : EmbedField} : fieldAt? text = some (field,value,after) ↔
    ∃ tail, Announces field text tail ∧ embedValue? (tail.dropWhile isBlank) = some (value,after) := by
  constructor
  · intro read
    cases text with
    | nil => cases read
    | cons c rest =>
        rw [fieldAt?] at read
        split at read
        · cases read
        · rename_i blank
          obtain ⟨⟨field',behind⟩,name,further⟩ := Option.bind_eq_some_iff.mp read
          obtain ⟨word,rfl,same⟩ := fieldNameAt?_iff.mp name
          dsimp only at further
          split at further
          · rename_i tail left
            obtain ⟨⟨value',after'⟩,held,eq⟩ := Option.bind_eq_some_iff.mp further
            cases eq
            have gap := List.takeWhile_append_dropWhile (p := isBlank) (l := behind)
            rw [left] at gap
            refine ⟨tail,⟨c,word,behind.takeWhile isBlank,?_,by simpa using blank,same,List.all_takeWhile⟩,held⟩
            rw [gap]
          · cases further
  · rintro ⟨tail,⟨c,word,gap,rfl,blank,same,blanks⟩,held⟩
    have name : fieldNameAt? (word ++ (gap ++ '=' :: tail)) = some (field,gap ++ '=' :: tail) :=
      fieldNameAt?_iff.mpr ⟨word,rfl,same⟩
    have left : (gap ++ '=' :: tail).dropWhile isBlank = '=' :: tail := dropWhile_run blanks rfl
    rw [fieldAt?,blank,if_neg (by decide),name]
    simp only [Option.bind_eq_bind,Option.bind_some,left,held]
    rfl

theorem embedValue?_shorter {text value after : List Char} (held : embedValue? text = some (value,after)) :
    after.length ≤ text.length := by
  cases text with
  | nil => cases held
  | cons q rest =>
      simp only [embedValue?] at held
      split at held
      · split at held
        · rename_i c behind left
          cases held
          have shorter := (List.dropWhile_suffix (p := (· ≠ q)) (l := rest)).length_le
          rw [left,List.length_cons] at shorter
          rw [List.length_cons]
          omega
        · cases held
      · split at held
        · cases held
        · cases held
          exact (List.dropWhile_suffix _).length_le

theorem readField_shortens : Shortens readField := by
  intro text found after read
  obtain ⟨⟨field,value,after'⟩,here,eq⟩ := Option.map_eq_some_iff.mp read
  cases eq
  obtain ⟨tail,⟨c,word,gap,rfl,_⟩,held⟩ := fieldAt?_iff.mp here
  have shorter := Nat.le_trans (embedValue?_shorter held) (List.dropWhile_suffix isBlank).length_le
  simp only [List.length_cons,List.length_append]
  omega

theorem word_nameChars {word : List Char} {field : EmbedField} (same : lower word = field.word) :
    word.all isAttributeNameChar = true := by
  have plain : field.word.all isAttributeNameChar = true := by cases field <;> decide
  rw [← same] at plain
  refine List.all_eq_true.mpr fun c member => ?_
  rw [← toLower_nameChar]
  exact List.all_eq_true.mp plain c.toLower (List.mem_map_of_mem member)

theorem fieldsIn_found {text value after : List Char} {field : EmbedField}
    (here : fieldAt? text = some (field,value,after)) : fieldsIn text = (field,value) :: fieldsIn after := by
  have read : readField text = some ([(field,value)],after) := by rw [readField,here]; rfl
  exact scan_found readField_shortens read

theorem fieldsIn_past {front rest : List Char}
    (past : ∀ behind, behind <:+ front → behind ≠ [] → fieldAt? (behind ++ rest) = none) :
    fieldsIn (front ++ rest) = fieldsIn rest :=
  scan_past fun behind later filled => by rw [readField,past behind later filled]; rfl

theorem fieldsIn_stray {c : Char} {rest : List Char} (stray : fieldAt? (c :: rest) = none) :
    fieldsIn (c :: rest) = fieldsIn rest :=
  scan_stray (by rw [readField,stray]; rfl)

theorem fieldAt?_gap {c d : Char} {rest : List Char} (other : isAttributeNameChar d = false) :
    fieldAt? (c :: d :: rest) = none := by
  rw [Option.eq_none_iff_forall_ne_some]
  rintro ⟨field,value,after⟩ read
  obtain ⟨tail,⟨c',word,gap,eq,_,same,_⟩,_⟩ := fieldAt?_iff.mp read
  cases word with
  | nil => cases field <;> cases same
  | cons e word =>
      have first : d = e := (List.cons.inj (List.cons.inj eq).2).1
      have held := List.all_eq_true.mp (word_nameChars same) e List.mem_cons_self
      rw [← first,other] at held
      cases held

theorem fieldAt?_solid {c : Char} {rest : List Char} (solid : isBlank c = false) : fieldAt? (c :: rest) = none := by
  rw [fieldAt?,solid]
  rfl

theorem fieldsIn_solid {text rest : List Char} (solid : ∀ c ∈ text, isBlank c = false) :
    fieldsIn (text ++ rest) = fieldsIn rest := by
  refine fieldsIn_past fun behind later filled => ?_
  cases behind with
  | nil => exact absurd rfl filled
  | cons c behind => exact fieldAt?_solid (solid c (later.subset List.mem_cons_self))

theorem fieldsIn_blanks {gap rest : List Char} {d : Char} (blanks : gap.all isBlank = true)
    (other : isAttributeNameChar d = false) : fieldsIn (gap ++ d :: rest) = fieldsIn (d :: rest) := by
  refine fieldsIn_past fun behind later filled => ?_
  rcases behind with _ | ⟨c,_ | ⟨e,behind⟩⟩
  · exact absurd rfl filled
  · exact fieldAt?_gap other
  · exact fieldAt?_gap (blank_noName (List.all_eq_true.mp blanks e (later.subset (by simp))))

end Fields

end Redline.Usage
