import Redline.Proofs.Reading
import Redline.Revision.Compare

namespace Redline.Revision

open Redline.Text

section Reading

theorem kind_bracketed (inner : List Char) : kind ('<' :: inner ++ ['>']) = .tag := by
  have last : ('<' :: inner ++ ['>']).getLast? = some '>' := List.getLast?_concat ..
  have head : ('<' :: inner ++ ['>']).head? = some '<' := rfl
  rw [kind,last,head]
  simp

theorem kind_blank {unit : Unit} (blank : unit.all isBlank = true) : kind unit ≠ .word := by
  rw [kind,if_pos blank]
  split <;> exact UnitKind.noConfusion

theorem commentUnit?_source {text unit after : List Char} (read : commentUnit? text = some (unit,after)) :
    text = unit ++ after ∧ kind unit = .tag := by
  unfold commentUnit? at read
  split at read
  · rename_i opens
    obtain ⟨⟨inner,behind⟩,found,eq⟩ := Option.map_eq_some_iff.mp read
    cases eq
    obtain ⟨tail,rfl⟩ := List.isPrefixOf_iff_prefix.mp opens
    have inside : tail = inner ++ ['-','-','>'] ++ after := Markup.splitFirst_source found
    refine ⟨by rw [inside]; simp,?_⟩
    simpa using kind_bracketed ('!' :: '-' :: '-' :: inner ++ ['-','-'])
  · cases read

theorem tagUnit?_source {text unit after : List Char} (read : tagUnit? text = some (unit,after)) :
    text = unit ++ after ∧ kind unit = .tag := by
  unfold tagUnit? at read
  split at read
  · rename_i rest
    split at read
    · rename_i behind left
      cases read
      have whole := List.takeWhile_append_dropWhile (p := fun c => decide (c ≠ '<' ∧ c ≠ '>')) (l := rest)
      rw [left] at whole
      refine ⟨?_,kind_bracketed _⟩
      rw [List.cons_append,List.cons_append,List.append_assoc,List.singleton_append,whole]
    · cases read
  · cases read

-- A unit that counts as a word holds no white space.
def Clear (unit : Unit) : Prop := kind unit = .word → ∀ c ∈ unit, isBlank c = false

theorem takeWhile_nonempty {p : Char → Bool} {c : Char} {rest : List Char} (holds : p c = true) :
    (c :: rest).takeWhile p ≠ [] := by
  rw [List.takeWhile_cons_of_pos holds]
  exact List.cons_ne_nil _ _

theorem unitAt_parts (c : Char) (rest : List Char) :
    (unitAt c rest).1 ++ (unitAt c rest).2 = c :: rest ∧ (unitAt c rest).1 ≠ [] ∧ Clear (unitAt c rest).1 := by
  have tagged : ∀ unit after : List Char, c :: rest = unit ++ after ∧ kind unit = .tag →
      unit ++ after = c :: rest ∧ unit ≠ [] ∧ Clear unit := by
    rintro unit after ⟨eq,tag⟩
    refine ⟨eq.symm,?_,?_⟩
    · rintro rfl
      cases tag
    · intro word
      rw [tag] at word
      cases word
  unfold unitAt
  split
  · rename_i found here
    rcases Option.or_eq_some_iff.mp here with comment | ⟨_,tag⟩
    · exact tagged _ _ (commentUnit?_source comment)
    · exact tagged _ _ (tagUnit?_source tag)
  · split
    · rename_i stray
      subst stray
      exact ⟨rfl,List.cons_ne_nil _ _,fun _ d member => by rw [List.mem_singleton.mp member]; decide⟩
    · split
      · rename_i blank
        refine ⟨List.takeWhile_append_dropWhile,takeWhile_nonempty blank,?_⟩
        exact fun word => absurd word (kind_blank List.all_takeWhile)
      · rename_i ordinary visible
        refine ⟨List.takeWhile_append_dropWhile,
          takeWhile_nonempty (p := fun d => d ≠ '<' && !isBlank d) (by simp [ordinary,visible]),?_⟩
        intro _ d member
        have inWord : (decide (d ≠ '<') && !isBlank d) = true := List.all_eq_true.mp List.all_takeWhile d member
        rw [Bool.and_eq_true,Bool.not_eq_true'] at inWord
        exact inWord.2

end Reading

theorem unitsWithin_each {P : Unit → Prop} (each : ∀ c rest, P (unitAt c rest).1) {fuel : Nat} {text : List Char}
    (enough : text.length ≤ fuel) : ∀ unit ∈ unitsWithin fuel text, P unit := by
  induction fuel generalizing text with
  | zero =>
      rw [List.length_eq_zero_iff.mp (Nat.le_zero.mp enough)]
      simp [unitsWithin]
  | succ fuel ih =>
      cases text with
      | nil => simp [unitsWithin]
      | cons c rest =>
          obtain ⟨whole,nonempty,_⟩ := unitAt_parts c rest
          have size := congrArg List.length whole
          have some_ := List.length_pos_iff.mpr nonempty
          simp only [List.length_append,List.length_cons] at size enough
          intro unit member
          simp only [unitsWithin,List.mem_cons] at member
          rcases member with rfl | later
          · exact each c rest
          · exact ih (by omega) unit later

theorem units_clear (text : List Char) : ∀ unit ∈ units text, Clear unit :=
  unitsWithin_each (fun c rest => (unitAt_parts c rest).2.2) (Nat.le_refl _)

section Words

@[simp] theorem words_nil : words [] = [] := rfl

@[simp] theorem words_append (first second : List Unit) : words (first ++ second) = words first ++ words second :=
  List.filter_append ..

theorem words_word {units : List Unit} {unit : Unit} (member : unit ∈ words units) : kind unit = .word := by
  simpa using (List.mem_filter.mp member).2

theorem word_nonempty {unit : Unit} (word : kind unit = .word) : unit ≠ [] := by
  rintro rfl
  cases word

theorem splitParts_clear {separator : Char} {piece : List Char} (clear : separator ∉ piece) :
    splitParts separator piece = (piece,[]) := by
  induction piece with
  | nil => rfl
  | cons c rest ih =>
      rw [List.mem_cons,not_or] at clear
      simp [splitParts,ih clear.2,Ne.symm clear.1]

theorem splitParts_here {separator : Char} {piece : List Char} (rest : List Char) (clear : separator ∉ piece) :
    splitParts separator (piece ++ separator :: rest) = (piece,splitOn separator rest) := by
  induction piece with
  | nil => simp [splitParts,splitOn]
  | cons c behind ih =>
      rw [List.mem_cons,not_or] at clear
      simp [splitParts,ih clear.2,Ne.symm clear.1]

theorem splitOn_joinWith {separator : Char} (piece : List Char) (pieces : List (List Char))
    (clear : ∀ p ∈ piece :: pieces, separator ∉ p) :
    splitOn separator (joinWith [separator] (piece :: pieces)) = piece :: pieces := by
  induction pieces generalizing piece with
  | nil =>
      have alone := splitParts_clear (clear piece (by simp))
      simp [joinWith,splitOn,alone]
  | cons next rest ih =>
      have here := splitParts_here (joinWith [separator] (next :: rest)) (clear piece (by simp))
      have later := ih next fun p member => clear p (List.mem_cons_of_mem _ member)
      have joined : joinWith [separator] (piece :: next :: rest) =
          piece ++ separator :: joinWith [separator] (next :: rest) := by simp [joinWith]
      rw [joined,splitOn,here,later]

def spaced (text : List Char) : List Unit := (splitOn ' ' text).filter fun piece => !piece.isEmpty

theorem spaced_visible {run : List Unit} (clear : ∀ unit ∈ run, Clear unit) : spaced (visible run) = words run := by
  unfold spaced visible
  have each : ∀ unit ∈ words run, ' ' ∉ unit ∧ (!unit.isEmpty) = true := by
    intro unit member
    have word := words_word member
    have dense := clear unit (List.mem_filter.mp member).1 word
    refine ⟨fun space => absurd (dense ' ' space) (by decide),?_⟩
    cases unit with
    | nil => exact absurd rfl (word_nonempty word)
    | cons c rest => rfl
  generalize words run = pieces at each
  cases pieces with
  | nil => rfl
  | cons piece pieces =>
      rw [splitOn_joinWith piece pieces fun p member => (each p member).1]
      exact List.filter_eq_self.mpr fun p member => (each p member).2

theorem visible_empty {run : List Unit} : visible run = [] ↔ words run = [] := by
  unfold visible
  constructor
  · intro empty
    cases here : words run with
    | nil => rfl
    | cons first rest =>
        rw [here,joinWith,List.append_eq_nil_iff] at empty
        exact absurd empty.1 (word_nonempty (words_word (here ▸ List.mem_cons_self)))
  · intro none_
    rw [none_]
    rfl

end Words

def side (keepMarkup : Bool) (text : String) : List Unit :=
  units (if keepMarkup then text.toList else (Markup.stripChars text.toList).html)

theorem side_clear (keepMarkup : Bool) (text : String) : ∀ unit ∈ side keepMarkup text, Clear unit := units_clear _

theorem compare_side (old new : String) (keepMarkup : Bool) :
    compare old new keepMarkup = ofScript (side keepMarkup new) (script (side keepMarkup old) (side keepMarkup new)) := by
  cases keepMarkup <;> rfl

end Redline.Revision
