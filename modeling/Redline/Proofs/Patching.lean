import Mathlib.Data.List.Induction
import Redline.Proofs.EditScripts
import Redline.Proofs.Units

namespace Redline.Revision

-- Every deletion of words is recorded behind as many words as the script has before it.
def DeletionsFound (new : List Unit) (edits : List (Edit Unit)) : Prop :=
  ∀ front items place rest, edits = front ++ .delete items place :: rest → words items ≠ [] →
    wordsBefore new place = (words (newSide front)).length

def Edit.Found (new : List Unit) (ahead : Nat) : Edit Unit → Prop
  | .delete items place => words items ≠ [] → wordsBefore new place = ahead
  | _ => True

instance (new : List Unit) (ahead : Nat) : (edit : Edit Unit) → Decidable (edit.Found new ahead)
  | .delete items place => inferInstanceAs (Decidable (words items ≠ [] → wordsBefore new place = ahead))
  | .equal _ => .isTrue trivial
  | .insert _ => .isTrue trivial
  | .replace _ _ => .isTrue trivial

def FoundBehind (new : List Unit) : Nat → List (Edit Unit) → Prop
  | _,[] => True
  | ahead,edit :: rest => edit.Found new ahead ∧ FoundBehind new (ahead + (words edit.newItems).length) rest

instance foundDecidable (new : List Unit) : (ahead : Nat) → (edits : List (Edit Unit)) →
    Decidable (FoundBehind new ahead edits)
  | _,[] => .isTrue trivial
  | ahead,edit :: rest =>
      have := foundDecidable new (ahead + (words edit.newItems).length) rest
      inferInstanceAs (Decidable (edit.Found new ahead ∧ FoundBehind new (ahead + (words edit.newItems).length) rest))

section Found
variable {new : List Unit} {edits : List (Edit Unit)}

theorem foundBehind_append {ahead : Nat} {first second : List (Edit Unit)} : FoundBehind new ahead (first ++ second) ↔
    FoundBehind new ahead first ∧ FoundBehind new (ahead + (words (newSide first)).length) second := by
  induction first generalizing ahead with
  | nil => simp [FoundBehind]
  | cons edit first ih => simp [FoundBehind,ih,and_assoc,Nat.add_assoc]

theorem foundBehind_iff {ahead : Nat} : FoundBehind new ahead edits ↔
    ∀ front edit rest, edits = front ++ edit :: rest → edit.Found new (ahead + (words (newSide front)).length) := by
  constructor
  · rintro found front edit rest rfl
    exact (foundBehind_append.mp found).2.1
  · intro each
    induction edits generalizing ahead with
    | nil => trivial
    | cons first rest ih =>
        refine ⟨each [] first rest rfl,ih fun front edit behind whole => ?_⟩
        simpa [Nat.add_assoc] using each (first :: front) edit behind (by rw [whole,List.cons_append])

theorem deletionsFound_iff : DeletionsFound new edits ↔ FoundBehind new 0 edits := by
  rw [foundBehind_iff]
  constructor
  · intro found front edit rest whole
    rw [Nat.zero_add]
    cases edit with
    | delete items place => exact found front items place rest whole
    | _ => trivial
  · intro each front items place rest whole
    have there := each front _ rest whole
    rw [Nat.zero_add] at there
    exact there

-- Deletions are found one behind the other.
theorem found_of_fronts (each : ∀ front edit rest, edits = front ++ edit :: rest → FoundBehind new 0 front →
    edit.Found new (words (newSide front)).length) : FoundBehind new 0 edits := by
  induction edits using List.reverseRecOn with
  | nil => trivial
  | append_singleton edits edit ih =>
      have before := ih fun front other rest whole => each front other (rest ++ [edit]) (by simp [whole])
      rw [foundBehind_append,Nat.zero_add]
      exact ⟨before,each edits edit [] rfl before,trivial⟩

end Found

-- Where the comparison looks for an edit: a deletion is looked for where it was recorded.
def Edit.placeAt (place : Nat) : Edit α → Nat
  | .delete _ recorded => recorded
  | _ => place

-- The words with each change taken back; `place` is where they begin.
def restored (place : Nat) (held : List Unit) : List Change → List Unit
  | [] => held
  | change :: rest =>
      held.take (change.start - place) ++ spaced change.removed ++
        restored change.stop (held.drop (change.stop - place)) rest

-- The words before a place, with the changes of the first edits taken back.
def takenBack (new : List Unit) (front : List (Edit Unit)) (place : Nat) : List Unit :=
  restored 0 ((words new).take place) (changesFrom new 0 front)

def PatchesUpTo (new : List Unit) (edits : List (Edit Unit)) : Prop :=
  ∀ front edit rest change, edits = front ++ edit :: rest → changeAt new (newSide front).length edit = some change →
    takenBack new front change.start = words (oldSide front)

def Change.KindFits (change : Change) : Prop :=
  match change.kind with
  | .insert => change.removed = [] ∧ change.inserted ≠ []
  | .delete => change.removed ≠ [] ∧ change.inserted = []
  | .replace => change.removed ≠ [] ∧ change.inserted ≠ []

structure Change.Fits (held : List Unit) (change : Change) : Prop where
  ordered : change.start ≤ change.stop
  inBounds : change.stop ≤ held.length
  holdsInserted : Text.joinWith [' '] ((held.take change.stop).drop change.start) = change.inserted
  kindFits : change.KindFits

structure WordPatch (old : List Unit) (c : Comparison) : Prop where
  restores : restored 0 c.words c.changes = old
  inOrder : c.changes.Pairwise fun first second => first.stop ≤ second.start
  fits : ∀ change ∈ c.changes, change.Fits c.words

theorem changeKind?_some {removed inserted : List Char} {kind : ChangeKind} (start stop : Nat)
    (here : changeKind? removed inserted = some kind) : Change.KindFits ⟨kind,removed,inserted,start,stop⟩ := by
  cases removed <;> cases inserted <;> cases here <;> exact ⟨by simp,by simp⟩

theorem changeKind?_none {removed inserted : List Char} (here : changeKind? removed inserted = none) :
    removed = [] ∧ inserted = [] := by
  cases removed <;> cases inserted <;> cases here
  exact ⟨rfl,rfl⟩

theorem wordsBefore_append (front behind : List Unit) :
    wordsBefore (front ++ behind) front.length = (words front).length := by
  rw [wordsBefore,List.take_left]

section Changes
variable {new : List Unit} {place : Nat} {edit : Edit Unit}

theorem changeAt_none (here : changeAt new place edit = none) : words edit.oldItems = words edit.newItems := by
  have silent : changeKind? (visible edit.oldItems) (visible edit.newItems) = none →
      words edit.oldItems = words edit.newItems := by
    intro none_
    have empty := changeKind?_none none_
    rw [visible_empty.mp empty.1,visible_empty.mp empty.2]
  cases edit with
  | equal items => rfl
  | delete items recorded => exact silent (Option.map_eq_none_iff.mp here)
  | insert items => exact silent (Option.map_eq_none_iff.mp here)
  | replace items others => exact silent (Option.map_eq_none_iff.mp here)

-- A change is that of its edit, at the place that the edit was recorded at.
theorem changeAt_edit {change : Change} (here : changeAt new place edit = some change) :
    ∃ kind, changeKind? (visible edit.oldItems) (visible edit.newItems) = some kind ∧
      change = ⟨kind,visible edit.oldItems,visible edit.newItems,wordsBefore new (edit.placeAt place),
        wordsBefore new (edit.placeAt place + edit.newItems.length)⟩ := by
  cases edit with
  | equal items => cases here
  | delete items recorded =>
      obtain ⟨kind,found,rfl⟩ := Option.map_eq_some_iff.mp here
      exact ⟨kind,found,rfl⟩
  | insert items =>
      obtain ⟨kind,found,rfl⟩ := Option.map_eq_some_iff.mp here
      exact ⟨kind,found,rfl⟩
  | replace items others =>
      obtain ⟨kind,found,rfl⟩ := Option.map_eq_some_iff.mp here
      exact ⟨kind,found,rfl⟩

theorem changesFrom_append (first second : List (Edit Unit)) : changesFrom new place (first ++ second) =
    changesFrom new place first ++ changesFrom new (place + (newSide first).length) second := by
  induction first generalizing place with
  | nil => rfl
  | cons edit first ih =>
      rw [List.cons_append,changesFrom,changesFrom,ih,List.append_assoc,newSide_cons,List.length_append,Nat.add_assoc]

theorem deletion_changes {items : List Unit} {recorded : Nat} (told : words items ≠ []) :
    changeAt new place (.delete items recorded) =
      some ⟨.delete,visible items,[],wordsBefore new recorded,wordsBefore new recorded⟩ := by
  have shown : visible items ≠ [] := fun empty => told (visible_empty.mp empty)
  have kind : changeKind? (visible items) (visible []) = some .delete := by
    cases here : visible items with
    | nil => exact absurd here shown
    | cons c text => rfl
  unfold changeAt
  dsimp only [Edit.delete_oldItems,Edit.delete_newItems]
  rw [kind]
  rfl

-- A change belongs to one edit of the script; its place is what the edits before it leave behind.
theorem mem_changesFrom {edits : List (Edit Unit)} {change : Change} : change ∈ changesFrom new place edits ↔
    ∃ front edit rest, edits = front ++ edit :: rest ∧
      changeAt new (place + (newSide front).length) edit = some change := by
  induction edits generalizing place with
  | nil => simp [changesFrom]
  | cons first others ih =>
      rw [changesFrom,List.mem_append,Option.mem_toList,ih]
      constructor
      · rintro (here | ⟨front,edit,rest,rfl,here⟩)
        · exact ⟨[],first,others,rfl,by simpa using here⟩
        · exact ⟨first :: front,edit,rest,rfl,by simpa [Nat.add_assoc] using here⟩
      · rintro ⟨front,edit,rest,eq,here⟩
        cases front with
        | nil =>
            cases eq
            exact .inl (by simpa using here)
        | cons _ front =>
            cases eq
            exact .inr ⟨front,edit,rest,rfl,by simpa [Nat.add_assoc] using here⟩

end Changes

section Places
variable {before behind : List Unit} {edit : Edit Unit} {change : Change}

structure Change.Located (change : Change) (before behind : List Unit) (edit : Edit Unit) : Prop where
  removed : change.removed = visible edit.oldItems
  start : change.start = (words before).length
  stop : change.stop = (words (before ++ edit.newItems)).length
  fits : change.Fits (words (before ++ edit.newItems ++ behind))

theorem change_located {place : Nat} (here : changeAt (before ++ edit.newItems ++ behind) place edit = some change)
    (start : wordsBefore (before ++ edit.newItems ++ behind) (edit.placeAt place) = (words before).length)
    (stop : wordsBefore (before ++ edit.newItems ++ behind) (edit.placeAt place + edit.newItems.length) =
      (words (before ++ edit.newItems)).length) : change.Located before behind edit := by
  obtain ⟨kind,told,rfl⟩ := changeAt_edit here
  refine ⟨rfl,start,stop,?_,?_,?_,changeKind?_some _ _ told⟩
  · dsimp only
    rw [start,stop]
    simp
  · dsimp only
    rw [stop]
    simp
  · dsimp only
    rw [start,stop,words_append (before ++ edit.newItems),List.take_left,words_append,List.drop_left]
    rfl

theorem edit_located (here : changeAt (before ++ edit.newItems ++ behind) before.length edit = some change)
    (other : edit.placeAt before.length = before.length) : change.Located before behind edit := by
  have start := wordsBefore_append before (edit.newItems ++ behind)
  have stop := wordsBefore_append (before ++ edit.newItems) behind
  rw [← List.append_assoc] at start
  rw [List.length_append] at stop
  exact change_located here (by rw [other,start]) (by rw [other,stop])

theorem found_located (here : changeAt (before ++ edit.newItems ++ behind) before.length edit = some change)
    (found : edit.Found (before ++ edit.newItems ++ behind) (words before).length) :
    change.Located before behind edit := by
  cases edit with
  | delete items place =>
      obtain ⟨kind,told,rfl⟩ := changeAt_edit here
      have there := found fun silent => by
        have nothing : visible items = [] := visible_empty.mpr silent
        rw [Edit.delete_oldItems,nothing] at told
        cases told
      refine change_located here there ?_
      rw [Edit.delete_newItems,List.append_nil] at there ⊢
      exact there
  | _ => exact edit_located here rfl

theorem change_fits (here : changeAt (before ++ edit.newItems ++ behind) before.length edit = some change) :
    change.Fits (words (before ++ edit.newItems ++ behind)) := by
  cases edit with
  | delete items place =>
      have cut := List.take_append_drop place (before ++ (Edit.delete items place).newItems ++ behind)
      generalize before ++ (Edit.delete items place).newItems ++ behind = new at here cut
      have again : new = new.take place ++ (Edit.delete items place).newItems ++ new.drop place := by
        rw [Edit.delete_newItems,List.append_nil,cut]
      have there : wordsBefore new place = (words (new.take place)).length := rfl
      rw [again] at here
      have located := change_located here (by rw [← again]; exact there)
        (by rw [← again,Edit.delete_newItems,List.append_nil]; exact there)
      have fits := located.fits
      rwa [← again] at fits
  | _ => exact (edit_located here rfl).fits

end Places

section Restoring

structure Laid (first last : Nat) (changes : List Change) : Prop where
  inOrder : changes.Pairwise fun one other => one.stop ≤ other.start
  within : ∀ change ∈ changes, first ≤ change.start ∧ change.start ≤ change.stop ∧ change.stop ≤ last

theorem Laid.tail {first last : Nat} {change : Change} {changes : List Change} (laid : Laid first last (change :: changes)) :
    Laid change.stop last changes := by
  obtain ⟨before,inOrder⟩ := List.pairwise_cons.mp laid.inOrder
  exact ⟨inOrder,fun other member => ⟨before other member,(laid.within other (.tail _ member)).2⟩⟩

theorem restored_more {place : Nat} {held : List Unit} {changes : List Change}
    (laid : Laid place (place + held.length) changes) (more : List Unit) :
    restored place (held ++ more) changes = restored place held changes ++ more := by
  induction changes generalizing place held with
  | nil => rfl
  | cons change rest ih =>
      obtain ⟨first,ordered,last⟩ := laid.within change (.head rest)
      have later := laid.tail
      have length : change.stop + (held.drop (change.stop - place)).length = place + held.length := by
        rw [List.length_drop]
        omega
      rw [← length] at later
      rw [restored,restored,List.take_append_of_le_length (by omega),List.drop_append_of_le_length (by omega),ih later,
        List.append_assoc _ _ more]

theorem restored_at {place : Nat} {held : List Unit} {changes : List Change} {change : Change}
    (laid : Laid place change.start changes) (ordered : change.start ≤ change.stop) (later : List Change) :
    restored place held (changes ++ change :: later) = restored place (held.take (change.start - place)) changes ++
      (spaced change.removed ++ restored change.stop (held.drop (change.stop - place)) later) := by
  induction changes generalizing place held with
  | nil => simp [restored]
  | cons first rest ih =>
      obtain ⟨_,ordered_,last⟩ := laid.within first (.head rest)
      rw [List.cons_append,restored,ih laid.tail,restored,List.take_take,List.drop_take,List.drop_drop]
      have here : min (first.start - place) (change.start - place) = first.start - place := by omega
      have rest_ : first.stop - place + (change.stop - first.stop) = change.stop - place := by omega
      have taken : change.start - place - (first.stop - place) = change.start - first.stop := by omega
      rw [here,rest_,taken]
      simp only [List.append_assoc]

end Restoring

section Runs
variable {new front behind : List Unit} {edits : List (Edit Unit)}

-- On the way through the script: `front` holds the units passed, `kept` the words since the last
-- change, which are still to be copied.
theorem changes_restore (whole : new = front ++ newSide edits ++ behind)
    (found : FoundBehind new (words front).length edits) (clear : ∀ unit ∈ oldSide edits, Clear unit)
    {kept : List Unit} (within : kept.length ≤ (words front).length) :
    restored ((words front).length - kept.length) (kept ++ words (newSide edits)) (changesFrom new front.length edits) =
      kept ++ words (oldSide edits) := by
  induction edits generalizing front kept with
  | nil => simp [changesFrom,restored]
  | cons edit rest ih =>
      have passed : new = (front ++ edit.newItems) ++ newSide rest ++ behind := by simp [whole]
      have split_ : new = front ++ edit.newItems ++ (newSide rest ++ behind) := by simp [whole]
      have later : FoundBehind new (words (front ++ edit.newItems)).length rest := by
        rw [words_append,List.length_append]
        exact found.2
      have clearLater : ∀ unit ∈ oldSide rest, Clear unit := fun unit member => clear unit (by simp [member])
      have place : front.length + edit.newItems.length = (front ++ edit.newItems).length := by simp
      rw [changesFrom]
      cases here : changeAt new front.length edit with
      | none =>
          have same := changeAt_none here
          have run := @ih (front ++ edit.newItems) passed later clearLater (kept ++ words edit.newItems)
            (by simp only [words_append,List.length_append]; omega)
          have begins : (words (front ++ edit.newItems)).length - (kept ++ words edit.newItems).length =
              (words front).length - kept.length := by
            simp only [words_append,List.length_append]
            omega
          rw [begins] at run
          rw [place]
          simpa [same] using run
      | some change =>
          have found_ := found.1
          rw [split_] at here found_
          obtain ⟨removed,start,stop,_⟩ := found_located here found_
          have clearHere : ∀ unit ∈ edit.oldItems, Clear unit := fun unit member => clear unit (by simp [member])
          have run := @ih (front ++ edit.newItems) passed later clearLater [] (Nat.zero_le _)
          have lead : change.start - ((words front).length - kept.length) = kept.length := by omega
          have skip : change.stop - ((words front).length - kept.length) = (kept ++ words edit.newItems).length := by
            rw [stop]
            simp only [words_append,List.length_append]
            omega
          rw [Option.toList_some,List.singleton_append,restored,lead,skip,removed,spaced_visible clearHere,
            newSide_cons,words_append,← List.append_assoc kept,List.drop_left,List.append_assoc kept,List.take_left,
            stop,place]
          simpa using run

theorem changes_laid (whole : new = front ++ newSide edits ++ behind)
    (found : FoundBehind new (words front).length edits) :
    Laid (words front).length (words (front ++ newSide edits)).length (changesFrom new front.length edits) := by
  induction edits generalizing front with
  | nil => exact ⟨.nil,fun _ none_ => absurd none_ List.not_mem_nil⟩
  | cons edit rest ih =>
      have passed : new = (front ++ edit.newItems) ++ newSide rest ++ behind := by simp [whole]
      have split_ : new = front ++ edit.newItems ++ (newSide rest ++ behind) := by simp [whole]
      have later : FoundBehind new (words (front ++ edit.newItems)).length rest := by
        rw [words_append,List.length_append]
        exact found.2
      obtain ⟨inOrder,within⟩ := ih passed later
      rw [List.length_append] at inOrder
      rw [List.length_append,List.append_assoc,← newSide_cons] at within
      have farther : (words front).length ≤ (words (front ++ edit.newItems)).length := by simp
      have last : (words (front ++ edit.newItems)).length ≤ (words (front ++ newSide (edit :: rest))).length := by
        simp
      have behind_ : ∀ change ∈ changesFrom new (front.length + edit.newItems.length) rest,
          (words front).length ≤ change.start ∧ change.start ≤ change.stop ∧
            change.stop ≤ (words (front ++ newSide (edit :: rest))).length :=
        fun change member => (within change member).imp_left (Nat.le_trans farther)
      rw [changesFrom]
      cases here : changeAt new front.length edit with
      | none => exact ⟨inOrder,behind_⟩
      | some change =>
          have found_ := found.1
          rw [split_] at here found_
          have located := found_located here found_
          refine ⟨List.pairwise_cons.mpr ⟨fun other member => ?_,inOrder⟩,List.forall_mem_cons.mpr ⟨?_,behind_⟩⟩
          · rw [located.stop]
            exact (within other member).1
          · exact ⟨Nat.le_of_eq located.start.symm,located.fits.ordered,located.stop ▸ last⟩

theorem changes_fit (edits : List (Edit Unit)) :
    ∀ change ∈ changesFrom (newSide edits) 0 edits, change.Fits (words (newSide edits)) := by
  intro change member
  obtain ⟨front,edit,rest,rfl,here⟩ := mem_changesFrom.mp member
  have split_ : newSide (front ++ edit :: rest) = newSide front ++ edit.newItems ++ newSide rest := by simp
  rw [split_,Nat.zero_add] at here
  rw [split_]
  exact change_fits here

end Runs

section Slides

theorem take_drop_parts (items : List α) {first middle : Nat} (ordered : first ≤ middle) :
    items.take middle = items.take first ++ (items.take middle).drop first := by
  have cut := List.take_append_drop first (items.take middle)
  rw [List.take_take,Nat.min_eq_left ordered] at cut
  exact cut.symm

theorem nodup_slid {slid items rest others : List α} (distinct : (slid ++ (items ++ rest)).Nodup)
    (same : slid ++ (items ++ rest) = items ++ others) (some_ : items ≠ []) : slid = [] := by
  cases slid with
  | nil => rfl
  | cons one slid =>
      cases items with
      | nil => exact absurd rfl some_
      | cons item items =>
          obtain ⟨rfl,_⟩ := List.cons.inj same
          exact absurd (by simp) (List.nodup_cons.mp distinct).1

variable {front : List (Edit Unit)} {new behind : List Unit} {place : Nat}

def Beyond (one other slid : List Unit) : Prop := one = other ++ slid ∨ other = one ++ slid

-- The first part of a script, taken back from the words before any place behind its changes.
theorem front_slid (whole : new = newSide front ++ behind) (found : FoundBehind new 0 front)
    (clear : ∀ unit ∈ oldSide front, Clear unit) (inBounds : place ≤ (words new).length)
    (laid : Laid 0 place (changesFrom new 0 front)) : ∃ slid, Beyond (takenBack new front place) (words (oldSide front)) slid ∧
      (slid = [] → place = (words (newSide front)).length) := by
  have own : (words new).take (words (newSide front)).length = words (newSide front) := by
    rw [whole,words_append,List.take_left]
  have restores : restored 0 (words (newSide front)) (changesFrom new 0 front) = words (oldSide front) :=
    @changes_restore new [] behind front whole found clear [] (Nat.le_refl _)
  have laid_ : Laid 0 (words (newSide front)).length (changesFrom new 0 front) :=
    @changes_laid new [] behind front whole found
  unfold takenBack
  generalize words new = held at inBounds own ⊢
  rcases Nat.le_total (words (newSide front)).length place with past | short
  · have parts := take_drop_parts held past
    rw [own] at parts
    generalize (held.take place).drop (words (newSide front)).length = slid at parts
    have length := congrArg List.length parts
    rw [List.length_take,Nat.min_eq_left inBounds,List.length_append] at length
    refine ⟨slid,.inl ?_,fun none_ => by rw [length,none_]; rfl⟩
    rw [parts,restored_more (by rw [Nat.zero_add]; exact laid_),restores]
  · have parts := take_drop_parts held short
    rw [own] at parts
    generalize (words (newSide front)).drop place = slid at parts
    have taken : (held.take place).length = place := by rw [List.length_take,Nat.min_eq_left inBounds]
    have length := congrArg List.length parts
    rw [List.length_append,taken] at length
    refine ⟨slid,.inr ?_,fun none_ => by rw [length,none_]; rfl⟩
    rw [← restored_more (by rw [Nat.zero_add,taken]; exact laid),← parts,restores]

end Slides

def compareBy (differ : List Unit → List Unit → List (Edit Unit)) (old new : String) (keepMarkup : Bool) : Comparison :=
  ofScript (side keepMarkup new) (differ (side keepMarkup old) (side keepMarkup new))

theorem compare_differ : compare = compareBy script := by
  funext old new keepMarkup
  exact compare_side old new keepMarkup

section Patches
variable {edits : List (Edit Unit)}

theorem deletion_split {front rest : List (Edit Unit)} {items : List Unit} {place : Nat} {new : List Unit}
    (told : words items ≠ []) : ∃ later, changesFrom new 0 (front ++ .delete items place :: rest) =
      changesFrom new 0 front ++ ⟨.delete,visible items,[],wordsBefore new place,wordsBefore new place⟩ :: later := by
  rw [changesFrom_append,changesFrom,deletion_changes told]
  exact ⟨_,rfl⟩

theorem laid_before {changes later : List Change} {change : Change} {held : List Unit}
    (inOrder : (changes ++ change :: later).Pairwise fun first second => first.stop ≤ second.start)
    (fits : ∀ one ∈ changes, one.Fits held) : Laid 0 change.start changes := by
  obtain ⟨before,_,apart⟩ := List.pairwise_append.mp inOrder
  exact ⟨before,fun one member => ⟨Nat.zero_le _,(fits one member).ordered,apart one member change (.head _)⟩⟩

theorem patch_of_found (found : FoundBehind (newSide edits) 0 edits) (clear : ∀ unit ∈ oldSide edits, Clear unit) :
    WordPatch (words (oldSide edits)) (ofScript (newSide edits) edits) ∧ PatchesUpTo (newSide edits) edits := by
  have whole : newSide edits = [] ++ newSide edits ++ [] := (List.append_nil _).symm
  refine ⟨⟨changes_restore whole found clear (Nat.le_refl _),(changes_laid whole found).inOrder,changes_fit edits⟩,?_⟩
  intro front edit rest change split_ here
  have parts : newSide edits = newSide front ++ newSide (edit :: rest) := by rw [split_,newSide_append]
  have around : newSide edits = newSide front ++ edit.newItems ++ newSide rest := by simp [parts]
  have own := found
  rw [split_] at own
  obtain ⟨before,own,_⟩ := foundBehind_append.mp own
  rw [← split_] at before own
  rw [Nat.zero_add] at own
  have start : change.start = (words (newSide front)).length := by
    rw [around] at here own
    exact (found_located here own).start
  have clearFront : ∀ unit ∈ oldSide front, Clear unit := fun unit member => clear unit (by rw [split_]; simp [member])
  rw [takenBack,start]
  have taken : (words (newSide edits)).take (words (newSide front)).length = words (newSide front) := by
    rw [parts,words_append,List.take_left]
  rw [taken]
  exact @changes_restore _ [] _ front parts before clearFront [] (Nat.le_refl _)

-- Deletions are found if the words before the place of each are those that the old revision has before it.
theorem found_of_slides (clear : ∀ unit ∈ oldSide edits, Clear unit)
    (inOrder : (changesFrom (newSide edits) 0 edits).Pairwise fun first second => first.stop ≤ second.start)
    (still : ∀ front items place rest, edits = front ++ .delete items place :: rest → words items ≠ [] →
      Laid 0 (wordsBefore (newSide edits) place) (changesFrom (newSide edits) 0 front) → ∀ slid,
        Beyond (takenBack (newSide edits) front (wordsBefore (newSide edits) place)) (words (oldSide front)) slid →
          slid = []) : FoundBehind (newSide edits) 0 edits := by
  refine found_of_fronts fun front edit rest whole found => ?_
  cases edit with
  | delete items place =>
      intro told
      obtain ⟨later,changes⟩ := @deletion_split front rest items place (newSide edits) told
      rw [← whole] at changes
      have fits := changes_fit edits
      rw [changes] at inOrder fits
      have laid : Laid 0 (wordsBefore (newSide edits) place) (changesFrom (newSide edits) 0 front) :=
        laid_before inOrder fun one member => fits one (List.mem_append_left _ member)
      have inBounds : wordsBefore (newSide edits) place ≤ (words (newSide edits)).length :=
        (fits _ (List.mem_append_right _ (.head _))).inBounds
      have clearFront : ∀ unit ∈ oldSide front, Clear unit := fun unit member => clear unit (by rw [whole]; simp [member])
      have parts : newSide edits = newSide front ++ newSide (.delete items place :: rest) := by
        rw [whole,newSide_append]
      obtain ⟨slid,beyond,place_⟩ := front_slid parts found clearFront inBounds laid
      exact place_ (still front items place rest whole told laid slid beyond)
  | _ => trivial

theorem found_of_patchesUpTo (clear : ∀ unit ∈ oldSide edits, Clear unit)
    (inOrder : (changesFrom (newSide edits) 0 edits).Pairwise fun first second => first.stop ≤ second.start)
    (upTo : PatchesUpTo (newSide edits) edits) : FoundBehind (newSide edits) 0 edits := by
  refine found_of_slides clear inOrder fun front items place rest whole told _ slid beyond => ?_
  have exact_ : takenBack (newSide edits) front (wordsBefore (newSide edits) place) = words (oldSide front) :=
    upTo front _ rest _ whole (deletion_changes told)
  rw [exact_] at beyond
  exact beyond.elim List.self_eq_append_right.mp List.self_eq_append_right.mp

theorem found_of_distinct (clear : ∀ unit ∈ oldSide edits, Clear unit) (distinct : (words (oldSide edits)).Nodup)
    (patch : WordPatch (words (oldSide edits)) (ofScript (newSide edits) edits)) :
    FoundBehind (newSide edits) 0 edits := by
  refine found_of_slides clear patch.inOrder fun front items place rest whole told laid slid beyond => ?_
  obtain ⟨later,changes⟩ := @deletion_split front rest items place (newSide edits) told
  rw [← whole] at changes
  have old : words (oldSide edits) = words (oldSide front) ++ (words items ++ words (oldSide rest)) := by
    rw [whole]
    simp
  have clearHere : ∀ unit ∈ items, Clear unit := fun unit member => clear unit (by rw [whole]; simp [member])
  have restores : restored 0 (words (newSide edits)) (changesFrom (newSide edits) 0 edits) = words (oldSide edits) :=
    patch.restores
  rw [changes,restored_at laid (Nat.le_refl _)] at restores
  dsimp only at restores
  rw [Nat.sub_zero,spaced_visible clearHere,← takenBack] at restores
  rcases beyond with past | short
  · rw [past,List.append_assoc] at restores
    rw [← restores] at distinct
    rw [old] at restores
    exact nodup_slid (List.nodup_append.mp distinct).2.1 (List.append_cancel_left restores) told
  · rw [old,short,List.append_assoc] at restores distinct
    exact nodup_slid (List.nodup_append.mp distinct).2.1 (List.append_cancel_left restores).symm told

end Patches

-- Every change holds its inserted words, and a kind that says which of its texts are there. Taking the
-- changes back, up to each of them and in full, gives the old words just when every deletion of words is
-- recorded where it is. A revision without a word twice is restored in full only then.
theorem changes_patch_iff (differ : List Unit → List Unit → List (Edit Unit)) (old new : String) (keepMarkup : Bool)
    (leads : Leads (differ (side keepMarkup old) (side keepMarkup new)) (side keepMarkup old) (side keepMarkup new)) :
    let before := words (side keepMarkup old)
    let after := side keepMarkup new
    let edits := differ (side keepMarkup old) (side keepMarkup new)
    let c := compareBy differ old new keepMarkup
    (∀ change ∈ c.changes, change.Fits c.words) ∧
      (WordPatch before c ∧ PatchesUpTo after edits ↔ DeletionsFound after edits) ∧
      (before.Nodup → (WordPatch before c ↔ DeletionsFound after edits)) := by
  have clear := side_clear keepMarkup old
  have same : compareBy differ old new keepMarkup = ofScript (side keepMarkup new)
      (differ (side keepMarkup old) (side keepMarkup new)) := rfl
  dsimp only
  rw [same]
  generalize differ (side keepMarkup old) (side keepMarkup new) = edits at leads
  obtain ⟨oldSide_eq,newSide_eq⟩ := leads
  rw [← oldSide_eq] at clear
  rw [← oldSide_eq,← newSide_eq,deletionsFound_iff]
  refine ⟨changes_fit edits,⟨fun patch => ?_,fun found => patch_of_found found clear⟩,fun distinct => ?_⟩
  · exact found_of_patchesUpTo clear patch.1.inOrder patch.2
  · exact ⟨found_of_distinct clear distinct,fun found => (patch_of_found found clear).1⟩

theorem changes_patch_iff_reworded :
    let old := "<p>The old red car stops</p> here"
    let new := "<p>The <b>blue</b> car stops</p> here now"
    Leads (script (side false old) (side false new)) (side false old) (side false new) ∧
      WordPatch (words (side false old)) (compare old new false) := by
  intro old new
  have leads := script_leads (side false old) (side false new)
  have found : DeletionsFound (side false new) (script (side false old) (side false new)) :=
    deletionsFound_iff.mpr (by decide +kernel)
  rw [compare_differ]
  exact ⟨leads,((changes_patch_iff script old new false leads).2.1.mpr found).1⟩

-- An insertion has slid past a deletion, and taking both back gives the old words in another order.
theorem patch_misplaced :
    let c := compare "b a" "a  a" false
    Leads (script (side false "b a") (side false "a  a")) (side false "b a") (side false "a  a") ∧
      c.changes = [⟨.delete,['b'],[],1,1⟩,⟨.insert,[],['a'],1,2⟩] ∧
      restored 0 c.words c.changes = [['a'],['b']] ∧ words (side false "b a") = [['b'],['a']] ∧
      ¬WordPatch (words (side false "b a")) c := by
  intro c
  have changes : c.changes = [⟨.delete,['b'],[],1,1⟩,⟨.insert,[],['a'],1,2⟩] := by decide
  have taken : restored 0 c.words c.changes = [['a'],['b']] := by decide
  have whole : words (side false "b a") = [['b'],['a']] := by decide
  refine ⟨script_leads _ _,changes,taken,whole,fun patch => ?_⟩
  have restores := patch.restores
  rw [taken,whole] at restores
  cases restores

end Redline.Revision
