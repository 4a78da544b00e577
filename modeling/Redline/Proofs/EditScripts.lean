import Redline.Revision.Compact

namespace Redline.Revision

@[simp] theorem oldSide_nil : oldSide ([] : List (Edit α)) = [] := rfl
@[simp] theorem newSide_nil : newSide ([] : List (Edit α)) = [] := rfl
@[simp] theorem oldSide_cons (edit : Edit α) (rest : List (Edit α)) :
    oldSide (edit :: rest) = edit.oldItems ++ oldSide rest := rfl
@[simp] theorem newSide_cons (edit : Edit α) (rest : List (Edit α)) :
    newSide (edit :: rest) = edit.newItems ++ newSide rest := rfl

namespace Edit

@[simp] theorem equal_oldItems (items : List α) : (equal items).oldItems = items := rfl
@[simp] theorem equal_newItems (items : List α) : (equal items).newItems = items := rfl
@[simp] theorem delete_oldItems (items : List α) (place : Nat) : (delete items place).oldItems = items := rfl
@[simp] theorem delete_newItems (items : List α) (place : Nat) : (delete items place).newItems = [] := rfl
@[simp] theorem insert_oldItems (items : List α) : (insert items).oldItems = [] := rfl
@[simp] theorem insert_newItems (items : List α) : (insert items).newItems = items := rfl
@[simp] theorem replace_oldItems (old new : List α) : (replace old new).oldItems = old := rfl
@[simp] theorem replace_newItems (old new : List α) : (replace old new).newItems = new := rfl

end Edit

-- Both sides of a script, in full and in order.
structure Leads (edits : List (Edit α)) (old new : List α) : Prop where
  oldSide_eq : oldSide edits = old
  newSide_eq : newSide edits = new

theorem Leads.append {first second : List (Edit α)} {old old' new new' : List α}
    (one : Leads first old new) (two : Leads second old' new') :
    Leads (first ++ second) (old ++ old') (new ++ new') :=
  ⟨by rw [oldSide_append,one.oldSide_eq,two.oldSide_eq],by rw [newSide_append,one.newSide_eq,two.newSide_eq]⟩

-- Replacements come last: until then a script keeps, deletes and inserts only.
def Edit.IsPlain : Edit α → Prop
  | .replace _ _ => False
  | _ => True

def Plain (edits : List (Edit α)) : Prop := ∀ edit ∈ edits, edit.IsPlain

@[simp] theorem plain_nil : Plain ([] : List (Edit α)) := by simp [Plain]
@[simp] theorem plain_cons (edit : Edit α) (rest : List (Edit α)) :
    Plain (edit :: rest) ↔ edit.IsPlain ∧ Plain rest := by simp [Plain]
@[simp] theorem plain_append (first second : List (Edit α)) :
    Plain (first ++ second) ↔ Plain first ∧ Plain second := by
  simp only [Plain,List.mem_append,or_imp,forall_and]
@[simp] theorem plain_reverse (edits : List (Edit α)) : Plain edits.reverse ↔ Plain edits := by simp [Plain]

@[simp] theorem Edit.isPlain_equal (items : List α) : (Edit.equal items).IsPlain := trivial
@[simp] theorem Edit.isPlain_delete (items : List α) (place : Nat) : (Edit.delete items place).IsPlain := trivial
@[simp] theorem Edit.isPlain_insert (items : List α) : (Edit.insert items).IsPlain := trivial

-- The places that deletions were recorded at.
def Edit.recorded : Edit α → List Nat
  | .delete _ place => [place]
  | _ => []

def recorded (edits : List (Edit α)) : List Nat := edits.flatMap Edit.recorded

@[simp] theorem recorded_nil : recorded ([] : List (Edit α)) = [] := rfl
@[simp] theorem recorded_cons (edit : Edit α) (rest : List (Edit α)) :
    recorded (edit :: rest) = edit.recorded ++ recorded rest := rfl
@[simp] theorem recorded_append (first second : List (Edit α)) :
    recorded (first ++ second) = recorded first ++ recorded second := List.flatMap_append
@[simp] theorem mem_recorded_reverse (edits : List (Edit α)) (place : Nat) :
    place ∈ recorded edits.reverse ↔ place ∈ recorded edits := by simp [recorded]

@[simp] theorem Edit.recorded_equal (items : List α) : (Edit.equal items).recorded = [] := rfl
@[simp] theorem Edit.recorded_delete (items : List α) (place : Nat) : (Edit.delete items place).recorded = [place] := rfl
@[simp] theorem Edit.recorded_insert (items : List α) : (Edit.insert items).recorded = [] := rfl
@[simp] theorem Edit.recorded_replace (old new : List α) : (Edit.replace old new).recorded = [] := rfl

-- A script that does the same, is plain if the first one is, and records no place anew.
structure Tidied (before after : List (Edit α)) : Prop where
  oldSide_eq : oldSide after = oldSide before
  newSide_eq : newSide after = newSide before
  plain : Plain before → Plain after
  places : ∀ place ∈ recorded after, place ∈ recorded before

theorem Tidied.refl (edits : List (Edit α)) : Tidied edits edits := ⟨rfl,rfl,id,fun _ => id⟩

theorem Tidied.trans {a b c : List (Edit α)} (ab : Tidied a b) (bc : Tidied b c) : Tidied a c :=
  ⟨bc.oldSide_eq.trans ab.oldSide_eq,bc.newSide_eq.trans ab.newSide_eq,fun plain => bc.plain (ab.plain plain),
    fun place member => ab.places place (bc.places place member)⟩

theorem Tidied.within_script {a b : List (Edit α)} (tidied : Tidied a b) (front behind : List (Edit α)) :
    Tidied (front ++ a ++ behind) (front ++ b ++ behind) := by
  refine ⟨by simp [tidied.oldSide_eq],by simp [tidied.newSide_eq],?_,?_⟩
  · intro plain
    simp only [plain_append] at plain ⊢
    exact ⟨⟨plain.1.1,tidied.plain plain.1.2⟩,plain.2⟩
  · intro place member
    simp only [recorded_append,List.mem_append] at member ⊢
    exact member.imp_left (.imp_right (tidied.places place))

theorem equalEdit_leads (items : List α) : Leads (equalEdit items) items items := by
  unfold equalEdit
  split
  · rename_i empty
    rw [List.isEmpty_iff.mp empty]
    exact ⟨rfl,rfl⟩
  · exact ⟨by simp,by simp⟩

theorem equalEdit_recorded (items : List α) : recorded (equalEdit items) = [] := by
  unfold equalEdit
  split <;> rfl

theorem equalEdit_plain (items : List α) : Plain (equalEdit items) := by
  unfold equalEdit
  split <;> simp

section Cutting
variable [DecidableEq α]

theorem commonSuffix_left (as bs : List α) :
    as.take (as.length - (commonSuffix as bs).length) ++ commonSuffix as bs = as := by
  have cut := congrArg List.reverse (commonPrefix_left as.reverse bs.reverse)
  rw [List.reverse_append,List.reverse_reverse] at cut
  rw [commonSuffix,List.length_reverse]
  rw [List.drop_reverse,List.reverse_reverse] at cut
  exact cut

theorem commonSuffix_comm (as bs : List α) : commonSuffix as bs = commonSuffix bs as := by
  rw [commonSuffix,commonPrefix_comm,commonSuffix]

inductive Conquered (fuel : Nat) (old new : List α) (place : Nat) : List (Edit α) → Prop where
  | same : old = [] → new = [] → Conquered fuel old new place []
  | deleted : new = [] → Conquered fuel old new place [.delete old place]
  | inserted : old = [] → Conquered fuel old new place [.insert new]
  | split (x y : Nat) : Conquered fuel old new place
      (conquer fuel (old.take x) (new.take y) place ++ conquer fuel (old.drop x) (new.drop y) (place + (new.take y).length))
  | apart : Conquered fuel old new place [.delete old place,.insert new]

theorem conquer_step (fuel : Nat) (old new : List α) (place : Nat) : ∃ before old' new' after inner,
    old = before ++ old' ++ after ∧ new = before ++ new' ++ after ∧
      Conquered fuel old' new' (place + before.length) inner ∧
      conquer (fuel + 1) old new place = equalEdit before ++ inner ++ equalEdit after := by
  have cutOld := commonPrefix_left old new
  have cutNew := commonPrefix_left new old
  rw [commonPrefix_comm new old] at cutNew
  simp only [conquer]
  generalize commonPrefix old new = before at cutOld cutNew
  generalize old.drop before.length = old₁ at cutOld
  generalize new.drop before.length = new₁ at cutNew
  have restOld := commonSuffix_left old₁ new₁
  have restNew := commonSuffix_left new₁ old₁
  rw [commonSuffix_comm new₁ old₁] at restNew
  generalize commonSuffix old₁ new₁ = after at restOld restNew
  generalize old₁.take (old₁.length - after.length) = old₂ at restOld
  generalize new₁.take (new₁.length - after.length) = new₂ at restNew
  refine ⟨before,old₂,new₂,after,_,?_,?_,?_,rfl⟩
  · rw [List.append_assoc,restOld,cutOld]
  · rw [List.append_assoc,restNew,cutNew]
  · split
    · rename_i empty
      simp only [Bool.and_eq_true,List.isEmpty_iff] at empty
      exact .same empty.1 empty.2
    · split
      · rename_i empty
        exact .deleted (List.isEmpty_iff.mp empty)
      · split
        · rename_i empty
          exact .inserted (List.isEmpty_iff.mp empty)
        · split
          · exact .split _ _
          · exact .apart

theorem conquer_leads (fuel : Nat) (old new : List α) (place : Nat) :
    Leads (conquer fuel old new place) old new := by
  induction fuel generalizing old new place with
  | zero => exact ⟨by simp [conquer],by simp [conquer]⟩
  | succ fuel ih =>
      obtain ⟨before,old',new',after,inner,rfl,rfl,made,whole⟩ := conquer_step fuel old new place
      rw [whole]
      refine ((equalEdit_leads before).append ?_).append (equalEdit_leads after)
      cases made with
      | same noOld noNew => exact ⟨noOld.symm,noNew.symm⟩
      | deleted noNew => exact ⟨by simp,by simp [noNew]⟩
      | inserted noOld => exact ⟨by simp [noOld],by simp⟩
      | split x y =>
          have both := (ih (old'.take x) (new'.take y) (place + before.length)).append
            (ih (old'.drop x) (new'.drop y) (place + before.length + (new'.take y).length))
          rwa [List.take_append_drop,List.take_append_drop] at both
      | apart => exact ⟨by simp,by simp⟩

theorem conquer_plain (fuel : Nat) (old new : List α) (place : Nat) : Plain (conquer fuel old new place) := by
  induction fuel generalizing old new place with
  | zero => simp [conquer]
  | succ fuel ih =>
      obtain ⟨before,old',new',after,inner,_,_,made,whole⟩ := conquer_step fuel old new place
      rw [whole]
      simp only [plain_append]
      refine ⟨⟨equalEdit_plain _,?_⟩,equalEdit_plain _⟩
      cases made with
      | split x y => exact (plain_append _ _).mpr ⟨ih _ _ _,ih _ _ _⟩
      | _ => simp

-- A deletion is recorded within the new items, or directly behind them.
theorem conquer_recorded (fuel : Nat) (old new : List α) (place : Nat) :
    ∀ found ∈ recorded (conquer fuel old new place), found ≤ place + new.length := by
  induction fuel generalizing old new place with
  | zero => simp [conquer]
  | succ fuel ih =>
      obtain ⟨before,old',new',after,inner,_,rfl,made,whole⟩ := conquer_step fuel old new place
      rw [whole]
      intro found member
      simp only [recorded_append,equalEdit_recorded,List.nil_append,List.append_nil] at member
      simp only [List.length_append]
      cases made with
      | same => cases member
      | inserted => cases member
      | deleted =>
          cases List.mem_singleton.mp member
          omega
      | apart =>
          cases List.mem_singleton.mp member
          omega
      | split x y =>
          have parts := congrArg List.length (List.take_append_drop y new')
          rw [List.length_append] at parts
          rcases List.mem_append.mp ((recorded_append _ _) ▸ member) with first | second
          · have bound := ih _ _ _ found first
            omega
          · have bound := ih _ _ _ found second
            omega

end Cutting

theorem growFront_tidied (items : List α) (edits : List (Edit α)) :
    Tidied (.equal items :: edits) (growFront items edits) := by
  unfold growFront
  split
  · exact ⟨by simp,by simp,by simp,by simp⟩
  · exact .refl _

theorem growBack_tidied (items : List α) (edits : List (Edit α)) :
    Tidied (edits.reverse ++ [.equal items]) (growBack items edits).reverse := by
  unfold growBack
  split
  · exact ⟨by simp,by simp,by simp,by simp⟩
  · rw [List.reverse_cons]
    exact .refl _

section Sliding
variable [DecidableEq α]

-- An insertion that ends like the equal run before it can be made earlier by as much.
theorem slide_up (shared items : List α) (before behind : List (Edit α)) :
    let slid := commonSuffix shared items
    let kept := shared.take (shared.length - slid.length)
    Tidied (before.reverse ++ .equal shared :: .insert items :: behind)
      ((if kept.isEmpty then before else .equal kept :: before).reverse ++
        .insert (slid ++ items.take (items.length - slid.length)) :: growFront slid behind) := by
  have cutShared := commonSuffix_left shared items
  have cutItems := commonSuffix_left items shared
  rw [commonSuffix_comm items shared] at cutItems
  dsimp only
  generalize commonSuffix shared items = slid at cutShared cutItems
  generalize shared.take (shared.length - slid.length) = kept at cutShared
  generalize items.take (items.length - slid.length) = lead at cutItems
  subst cutShared cutItems
  have grown := (growFront_tidied slid behind).within_script (before.reverse ++ equalEdit kept ++ [.insert (slid ++ lead)]) []
  have front : (if kept.isEmpty then before else .equal kept :: before).reverse = before.reverse ++ equalEdit kept := by
    unfold equalEdit
    split <;> simp
  rw [front]
  refine Tidied.trans ⟨?_,?_,?_,?_⟩ (by simpa using grown)
  · simp [(equalEdit_leads kept).oldSide_eq]
  · simp [(equalEdit_leads kept).newSide_eq]
  · intro plain
    simp_all [equalEdit_plain]
  · simp [equalEdit_recorded]

theorem slide_down (shared items : List α) (before behind : List (Edit α)) :
    let slid := commonPrefix shared items
    let kept := shared.drop slid.length
    Tidied (before.reverse ++ .insert items :: .equal shared :: behind)
      ((growBack slid before).reverse ++ .insert (items.drop slid.length ++ slid) ::
        if kept.isEmpty then behind else .equal kept :: behind) := by
  have cutShared := commonPrefix_left shared items
  have cutItems := commonPrefix_left items shared
  rw [commonPrefix_comm items shared] at cutItems
  dsimp only
  generalize commonPrefix shared items = slid at cutShared cutItems
  generalize shared.drop slid.length = kept at cutShared
  generalize items.drop slid.length = tail at cutItems
  subst cutShared cutItems
  have grown := (growBack_tidied slid before).within_script [] (.insert (tail ++ slid) :: equalEdit kept ++ behind)
  have last : (if kept.isEmpty then behind else .equal kept :: behind) = equalEdit kept ++ behind := by
    unfold equalEdit
    split <;> simp
  rw [last]
  refine Tidied.trans ⟨?_,?_,?_,?_⟩ (by simpa using grown)
  · simp [(equalEdit_leads kept).oldSide_eq]
  · simp [(equalEdit_leads kept).newSide_eq]
  · intro plain
    simp_all [equalEdit_plain]
  · simp [equalEdit_recorded]

theorem up_tidied {c next : Cursor α} (moved : c.up? = some next) : Tidied c.edits next.edits := by
  obtain ⟨before,current,behind⟩ := c
  unfold Cursor.up? at moved
  dsimp only at moved
  split at moved
  · rename_i items shared rest
    split at moved
    · split at moved
      · rename_i empty
        cases moved
        simp only [Cursor.edits,List.isEmpty_iff.mp empty]
        exact ⟨by simp,by simp,by simp,by simp⟩
      · cases moved
    · cases moved
      simpa [Cursor.edits] using slide_up shared items rest behind
  · split at moved
    · rename_i empty
      cases moved
      simp only [Cursor.edits,List.isEmpty_iff.mp empty]
      exact ⟨by simp,by simp,by simp,by simp⟩
    · cases moved
  -- What is left changes places with its neighbour or joins it.
  all_goals
    cases moved <;> exact ⟨by simp [Cursor.edits],by simp [Cursor.edits],by simp +contextual [Cursor.edits],
      by simp +contextual [Cursor.edits,or_imp]⟩

theorem down_tidied {c next : Cursor α} (moved : c.down? = some next) : Tidied c.edits next.edits := by
  obtain ⟨before,current,behind⟩ := c
  unfold Cursor.down? at moved
  dsimp only at moved
  split at moved
  · rename_i items shared rest
    split at moved
    · split at moved
      · rename_i empty
        cases moved
        simp only [Cursor.edits,List.isEmpty_iff.mp empty]
        exact ⟨by simp,by simp,by simp,by simp⟩
      · cases moved
    · cases moved
      simpa [Cursor.edits] using slide_down shared items before rest
  · split at moved
    · rename_i empty
      cases moved
      simp only [Cursor.edits,List.isEmpty_iff.mp empty]
      exact ⟨by simp,by simp,by simp,by simp⟩
    · cases moved
  all_goals
    cases moved <;> exact ⟨by simp [Cursor.edits],by simp [Cursor.edits],by simp +contextual [Cursor.edits],
      by simp +contextual [Cursor.edits,or_imp]⟩

theorem rise_tidied (c : Cursor α) (fuel : Nat) : Tidied c.edits (c.rise fuel).edits := by
  induction fuel generalizing c with
  | zero => exact .refl _
  | succ fuel ih =>
      unfold Cursor.rise
      split
      · rename_i next moved
        exact (up_tidied moved).trans (ih next)
      · exact .refl _

theorem sink_tidied (c : Cursor α) (fuel : Nat) : Tidied c.edits (c.sink fuel).edits := by
  induction fuel generalizing c with
  | zero => exact .refl _
  | succ fuel ih =>
      unfold Cursor.sink
      split
      · rename_i next moved
        exact (down_tidied moved).trans (ih next)
      · exact .refl _

theorem settle_tidied (c : Cursor α) : Tidied c.edits c.settle.edits :=
  (rise_tidied c _).trans (sink_tidied _ _)

theorem settleAll_tidied (wanted : Edit α → Bool) (fuel : Nat) (before behind : List (Edit α)) :
    Tidied (before.reverse ++ behind) (settleAll wanted fuel before behind) := by
  induction fuel generalizing before behind with
  | zero =>
      cases behind with
      | nil => simpa [settleAll] using Tidied.refl before.reverse
      | cons edit rest => exact .refl _
  | succ fuel ih =>
      cases behind with
      | nil => simpa [settleAll] using Tidied.refl before.reverse
      | cons edit rest =>
          simp only [settleAll]
          split
          · have settled := settle_tidied ⟨before,edit,rest⟩
            generalize Cursor.settle ⟨before,edit,rest⟩ = next at settled ⊢
            refine settled.trans ?_
            simpa [Cursor.edits] using ih (next.current :: next.before) next.behind
          · simpa using ih (edit :: before) rest

theorem compacted_tidied (edits : List (Edit α)) : Tidied edits (compacted edits) :=
  (settleAll_tidied isDelete _ [] edits).trans (settleAll_tidied isInsert _ [] _)

end Sliding

def Gap.oldItems (gap : Gap α) : List α := (gap.deleted.map Prod.fst).getD []

def Gap.newItems (gap : Gap α) : List α := gap.inserted.getD []

theorem Gap.edits_leads (gap : Gap α) : Leads gap.edits gap.oldItems gap.newItems := by
  rcases gap with ⟨_ | ⟨old,place⟩,_ | new⟩ <;> exact ⟨by simp [edits,oldItems],by simp [edits,newItems]⟩

theorem Gap.add_oldItems (gap : Gap α) {edit : Edit α} (plain : edit.IsPlain) (unequal : edit.isEqual = false) :
    (gap.add edit).oldItems = gap.oldItems ++ edit.oldItems := by
  obtain ⟨deleted,inserted⟩ := gap
  cases edit with
  | equal items => cases unequal
  | replace old new => cases plain
  | delete items place => cases deleted <;> simp [add,oldItems]
  | insert items => cases inserted <;> simp [add,oldItems]

theorem Gap.add_newItems (gap : Gap α) {edit : Edit α} (plain : edit.IsPlain) (unequal : edit.isEqual = false) :
    (gap.add edit).newItems = gap.newItems ++ edit.newItems := by
  obtain ⟨deleted,inserted⟩ := gap
  cases edit with
  | equal items => cases unequal
  | replace old new => cases plain
  | delete items place => cases deleted <;> simp [add,newItems]
  | insert items => cases inserted <;> simp [add,newItems]

theorem gathered_leads (gap : Gap α) (edits : List (Edit α)) (plain : Plain edits) :
    Leads (gathered gap edits) (gap.oldItems ++ oldSide edits) (gap.newItems ++ newSide edits) := by
  induction edits generalizing gap with
  | nil => simpa [gathered] using gap.edits_leads
  | cons edit rest ih =>
      obtain ⟨first,others⟩ := (plain_cons edit rest).mp plain
      cases edit with
      | equal items =>
          have run : Leads [.equal items] items items := ⟨by simp,by simp⟩
          simpa [gathered,Gap.oldItems,Gap.newItems] using gap.edits_leads.append (run.append (ih {} others))
      | replace old new => cases first
      | delete items place =>
          have more := ih (gap.add (.delete items place)) others
          rw [gap.add_oldItems first rfl,gap.add_newItems first rfl] at more
          simpa [gathered] using more
      | insert items =>
          have more := ih (gap.add (.insert items)) others
          rw [gap.add_oldItems first rfl,gap.add_newItems first rfl] at more
          simpa [gathered] using more

-- Where the deletion of a gap was recorded: deletions that join it later do not move it.
def Gap.recorded (gap : Gap α) : List Nat := (gap.deleted.map Prod.snd).toList

theorem Gap.edits_recorded (gap : Gap α) : ∀ place ∈ Revision.recorded gap.edits, place ∈ gap.recorded := by
  rcases gap with ⟨_ | ⟨old,place⟩,_ | new⟩ <;> simp [edits,recorded]

theorem Gap.add_recorded (gap : Gap α) (edit : Edit α) :
    ∀ place ∈ (gap.add edit).recorded, place ∈ gap.recorded ++ edit.recorded := by
  obtain ⟨deleted,inserted⟩ := gap
  cases edit with
  | delete items place => cases deleted <;> simp [add,recorded]
  | insert items => cases inserted <;> simp [add,recorded]
  | equal items => simp [add,recorded]
  | replace old new => simp [add,recorded]

theorem gathered_recorded (gap : Gap α) (edits : List (Edit α)) :
    ∀ place ∈ recorded (gathered gap edits), place ∈ gap.recorded ++ recorded edits := by
  induction edits generalizing gap with
  | nil => simpa [gathered] using gap.edits_recorded
  | cons edit rest ih =>
      intro place member
      have added : gathered gap (edit :: rest) = gathered (gap.add edit) rest →
          place ∈ gap.recorded ++ recorded (edit :: rest) := by
        intro eq
        rw [eq] at member
        rw [recorded_cons,← List.append_assoc,List.mem_append]
        exact (List.mem_append.mp (ih _ place member)).imp_left (gap.add_recorded edit place)
      cases edit with
      | equal items =>
          simp only [gathered,recorded_append,recorded_cons,Edit.recorded_equal,List.nil_append,List.mem_append] at member ⊢
          exact member.imp (gap.edits_recorded place) fun later => by simpa [Gap.recorded] using ih {} place later
      | delete items found => exact added rfl
      | insert items => exact added rfl
      | replace old new => exact added rfl

theorem script_recorded [DecidableEq α] (old new : List α) : ∀ place ∈ recorded (script old new), place ≤ new.length := by
  intro place member
  have raw := (compacted_tidied _).places place (gathered_recorded {} _ place member)
  simpa using conquer_recorded _ old new 0 place raw

theorem script_leads [DecidableEq α] (old new : List α) : Leads (script old new) old new := by
  have raw := conquer_leads (old.length + new.length + 1) old new 0
  have tidied := compacted_tidied (rawScript old new)
  have whole := gathered_leads {} _ (tidied.plain (conquer_plain _ old new 0))
  rw [tidied.oldSide_eq,tidied.newSide_eq,rawScript,raw.oldSide_eq,raw.newSide_eq] at whole
  exact whole

end Redline.Revision
