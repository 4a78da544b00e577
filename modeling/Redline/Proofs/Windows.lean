import Redline.Proofs.Patching

namespace Redline.Revision

open Redline.Text

section Bounds

-- A slice of a list, refused unless it begins no later than it ends, and ends within the list.
def slice? (items : List α) (first stop : Nat) : Option (List α) :=
  if first ≤ stop ∧ stop ≤ items.length then some ((items.take stop).drop first) else none

def Comparison.surroundingsWithin? (c : Comparison) (limit : Nat) (change : Change) (count : Nat) :
    Option Surroundings := do
  let first := change.start - count
  let last := min (min limit (change.stop + count)) c.words.length
  let before ← slice? c.words first change.start
  let after ← slice? c.words change.stop last
  pure ⟨joinWith [' '] before,joinWith [' '] after,decide (0 < first),decide (last < c.words.length)⟩

theorem slice?_some {items : List α} {first stop : Nat} (ordered : first ≤ stop) (inBounds : stop ≤ items.length) :
    slice? items first stop = some ((items.take stop).drop first) := if_pos ⟨ordered,inBounds⟩

theorem surroundings_checked {c : Comparison} {change : Change} (fits : change.Fits c.words) (limit count : Nat)
    (counted : c.words.length ≤ limit) :
    c.surroundingsWithin? limit change count = some (c.surroundings change count) := by
  have ordered := fits.ordered
  have inBounds := fits.inBounds
  have last : min (min limit (change.stop + count)) c.words.length = min (change.stop + count) c.words.length := by
    omega
  unfold Comparison.surroundingsWithin?
  dsimp only
  rw [last,slice?_some (Nat.sub_le _ _) (Nat.le_trans ordered inBounds),slice?_some (by omega) (by omega)]
  rfl

end Bounds

section Windows

-- Words cut into what a window leaves out before it, its three parts and what it leaves out behind.
structure Cut (held : List Unit) where
  skipped : List Unit
  before : List Unit
  own : List Unit
  after : List Unit
  left : List Unit
  whole : held = skipped ++ before ++ own ++ after ++ left

-- A window around the inserted words of a change behind the first `ahead` words: as many words on
-- each side as were asked for and are there.
structure Cut.Shows {held : List Unit} (cut : Cut held) (ahead : Nat) (change : Change) (count : Nat)
    (around : Surroundings) : Prop where
  ahead_eq : (cut.skipped ++ cut.before).length = ahead
  before_length : cut.before.length = min count ahead
  after_length : cut.after.length = min count (cut.after ++ cut.left).length
  own_eq : joinWith [' '] cut.own = change.inserted
  before_eq : around.before = joinWith [' '] cut.before
  after_eq : around.after = joinWith [' '] cut.after
  cutBefore_iff : around.cutBefore = true ↔ cut.skipped ≠ []
  cutAfter_iff : around.cutAfter = true ↔ cut.left ≠ []

def Window (held : List Unit) (ahead : Nat) (change : Change) (count : Nat) (around : Surroundings) : Prop :=
  ∃ cut : Cut held, cut.Shows ahead change count around

variable {c : Comparison} {change : Change}

theorem window_held (fits : change.Fits c.words) (count : Nat) :
    Window c.words change.start change count (c.surroundings change count) := by
  obtain ⟨ordered,inBounds,holds,_⟩ := fits
  have around : c.surroundings change count = ⟨joinWith [' '] ((c.words.take change.start).drop (change.start - count)),
      joinWith [' '] ((c.words.take (min (change.stop + count) c.words.length)).drop change.stop),
      decide (0 < change.start - count),decide (min (change.stop + count) c.words.length < c.words.length)⟩ := rfl
  have first_ : change.start - count ≤ change.start := Nat.sub_le _ _
  have last_ : change.stop ≤ min (change.stop + count) c.words.length := by omega
  generalize firstEq : change.start - count = first at around first_
  generalize lastEq : min (change.stop + count) c.words.length = last at around last_
  have upToStart := take_drop_parts c.words first_
  have upToStop := take_drop_parts c.words ordered
  have upToLast := take_drop_parts c.words last_
  rw [around]
  refine ⟨⟨c.words.take first,(c.words.take change.start).drop first,(c.words.take change.stop).drop change.start,
    (c.words.take last).drop change.stop,c.words.drop last,?_⟩,?_,?_,?_,holds,rfl,rfl,?_,?_⟩
  · rw [← upToStart,← upToStop,← upToLast,List.take_append_drop]
  · dsimp only
    rw [← upToStart,List.length_take]
    omega
  · simp only [List.length_drop,List.length_take]
    omega
  · simp only [List.length_append,List.length_drop,List.length_take]
    omega
  · rw [decide_eq_true_eq,← List.length_pos_iff,List.length_take]
    omega
  · rw [decide_eq_true_eq,← List.length_pos_iff,List.length_drop]
    omega

theorem window_ahead {held : List Unit} {ahead : Nat}
    (exact_ : ∀ count, Window held ahead change count (c.surroundings change count)) : change.start = ahead := by
  have enough : ∀ count, ahead ≤ count ↔ change.start ≤ count := by
    intro count
    obtain ⟨cut,shows_⟩ := exact_ count
    have length := shows_.ahead_eq
    have before := shows_.before_length
    have skips := shows_.cutBefore_iff
    have flag : (c.surroundings change count).cutBefore = decide (0 < change.start - count) := rfl
    rw [flag,decide_eq_true_eq,← List.length_pos_iff] at skips
    rw [List.length_append] at length
    omega
  have above := enough ahead
  have below := enough change.start
  omega

end Windows

section Places

-- A change of the script, with the number of new words that the page has before it.
def Stands (new : List Unit) (edits : List (Edit Unit)) (change : Change) (ahead : Nat) : Prop :=
  ∃ front edit rest, edits = front ++ edit :: rest ∧ changeAt new (newSide front).length edit = some change ∧
    ahead = (words (newSide front)).length

theorem mem_changes_stands {new : List Unit} {edits : List (Edit Unit)} {change : Change} :
    change ∈ (ofScript new edits).changes ↔ ∃ ahead, Stands new edits change ahead := by
  refine mem_changesFrom.trans ?_
  simp only [Nat.zero_add]
  constructor
  · rintro ⟨front,edit,rest,whole,here⟩
    exact ⟨_,front,edit,rest,whole,here,rfl⟩
  · rintro ⟨_,front,edit,rest,whole,here,_⟩
    exact ⟨front,edit,rest,whole,here⟩

end Places

section Comparisons

def sidesScript (old new : String) (keepMarkup : Bool) : List (Edit Unit) :=
  script (side keepMarkup old) (side keepMarkup new)

structure Comparison.Bounded (c : Comparison) (change : Change) : Prop where
  fits : change.Fits c.words
  checked : ∀ limit count, c.words.length ≤ limit →
    c.surroundingsWithin? limit change count = some (c.surroundings change count)

-- Every window of a change is exact, if as many words are ahead of it.
def Comparison.Exact (c : Comparison) (change : Change) (ahead : Nat) : Prop :=
  ∀ count, Window c.words ahead change count (c.surroundings change count)

-- Deletions are recorded within the new revision, so every window can be cut, and it is exact around
-- the place that its change holds. The windows are exact around the places that the page shows the
-- changes at as long as no insertion has slid past a recorded deletion of words, and only then.
theorem windows_exact_iff (old new : String) (keepMarkup : Bool) :
    (∀ place ∈ recorded (sidesScript old new keepMarkup), place ≤ (side keepMarkup new).length) ∧
      (∀ change ∈ (compare old new keepMarkup).changes,
        (compare old new keepMarkup).Bounded change ∧ (compare old new keepMarkup).Exact change change.start) ∧
      ((∀ change ahead, Stands (side keepMarkup new) (sidesScript old new keepMarkup) change ahead →
        (compare old new keepMarkup).Exact change ahead) ↔
          DeletionsFound (side keepMarkup new) (sidesScript old new keepMarkup)) := by
  have near : ∀ place ∈ recorded (sidesScript old new keepMarkup), place ≤ (side keepMarkup new).length :=
    script_recorded _ _
  have leads : newSide (sidesScript old new keepMarkup) = side keepMarkup new := (script_leads _ _).newSide_eq
  have same : compare old new keepMarkup = ofScript (side keepMarkup new) (sidesScript old new keepMarkup) :=
    compare_side old new keepMarkup
  rw [same]
  generalize sidesScript old new keepMarkup = edits at near leads
  generalize side keepMarkup new = fresh at near leads
  subst leads
  have fits : ∀ change ahead, Stands (newSide edits) edits change ahead → change.Fits (words (newSide edits)) :=
    fun change ahead stands => changes_fit edits change (mem_changes_stands.mpr ⟨ahead,stands⟩)
  refine ⟨near,fun change member => ?_,?_,?_⟩
  · obtain ⟨ahead,stands⟩ := mem_changes_stands.mp member
    have fit := fits change ahead stands
    exact ⟨⟨fit,surroundings_checked fit⟩,window_held fit⟩
  · intro exact_ front items place rest whole told
    exact window_ahead (exact_ _ _ ⟨front,_,rest,whole,deletion_changes told,rfl⟩)
  · intro found change ahead stands
    have fit := fits change ahead stands
    obtain ⟨front,edit,rest,rfl,here,rfl⟩ := stands
    have own := foundBehind_iff.mp (deletionsFound_iff.mp found) front edit rest rfl
    rw [Nat.zero_add] at own
    have around : newSide (front ++ edit :: rest) = newSide front ++ edit.newItems ++ newSide rest := by simp
    rw [around] at here own
    rw [← (found_located here own).start]
    exact window_held fit

theorem window_misplaced :
    let c := compare "b a" "a  a" false
    let change : Change := ⟨.delete,['b'],[],1,1⟩
    c.page = "<del class=\"diffdel\">b </del>a  <ins class=\"diffins\">a</ins>".toList ∧ change ∈ c.changes ∧
      Stands (side false "a  a") (sidesScript "b a" "a  a" false) change 0 ∧
      ¬c.Exact change 0 := by
  intro c change
  have slid : sidesScript "b a" "a  a" false =
      [.delete [['b'],[' ']] 2,.equal [['a']],.insert [[' ',' '],['a']]] := by decide +kernel
  refine ⟨by decide +kernel,by decide +kernel,⟨[],_,_,slid,by decide,rfl⟩,?_⟩
  intro exact_
  obtain ⟨cut,shows_⟩ := exact_ 3
  have shown : (c.surroundings change 3).before = ['a'] := by decide
  have none_ := List.length_eq_zero_iff.mp (shows_.before_length.trans (Nat.min_zero 3))
  have other := shows_.before_eq
  rw [shown,none_] at other
  cases other

end Comparisons

end Redline.Revision
