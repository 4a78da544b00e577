import Redline.Proofs.Patching

namespace Redline.Revision

def document (keepMarkup : Bool) (text : String) : String :=
  if keepMarkup then text else Markup.strip text

structure ReportsChanges (old new : String) (c : Comparison) : Prop where
  found : c.hasChanges = false ↔ old = new
  page : c.hasChanges = false → String.ofList c.page = new
  silent : c.hasChanges = false → c.changes = [] ∧ c.added = [] ∧ ∀ count, c.snippets count = []

section Units

-- No character is lost between units, also where a comment has no end or a bracket stands alone.
theorem unitsWithin_flatten {fuel : Nat} {text : List Char} (enough : text.length ≤ fuel) :
    (unitsWithin fuel text).flatten = text := by
  induction fuel generalizing text with
  | zero =>
      rw [List.length_eq_zero_iff.mp (Nat.le_zero.mp enough)]
      rfl
  | succ fuel ih =>
      cases text with
      | nil => rfl
      | cons c rest =>
          obtain ⟨whole,nonempty,_⟩ := unitAt_parts c rest
          have size := congrArg List.length whole
          have wide := List.length_pos_iff.mpr nonempty
          simp only [List.length_append,List.length_cons] at size enough
          simp only [unitsWithin,List.flatten_cons]
          rw [ih (by omega),whole]

theorem units_flatten (text : List Char) : (units text).flatten = text := unitsWithin_flatten (Nat.le_refl _)

theorem units_injective {text other : List Char} (same : units text = units other) : text = other := by
  rw [← units_flatten text,same,units_flatten]

variable (keepMarkup : Bool) (text other : String)

theorem side_document : side keepMarkup text = units (document keepMarkup text).toList := by
  cases keepMarkup with
  | true => rfl
  | false => simp [side,document,Markup.strip]

theorem side_eq_iff : side keepMarkup text = side keepMarkup other ↔ document keepMarkup text = document keepMarkup other := by
  rw [side_document,side_document]
  exact ⟨fun same => String.toList_inj.mp (units_injective same),fun same => by rw [same]⟩

end Units

section Scripts

-- Only equal edits.
def Still (edits : List (Edit α)) : Prop := edits.all Edit.isEqual = true

@[simp] theorem still_nil : Still ([] : List (Edit α)) := rfl
@[simp] theorem still_cons (edit : Edit α) (rest : List (Edit α)) :
    Still (edit :: rest) ↔ edit.isEqual = true ∧ Still rest := by simp [Still]

theorem Still.sides_eq {edits : List (Edit α)} (still : Still edits) : oldSide edits = newSide edits := by
  induction edits with
  | nil => rfl
  | cons edit rest ih =>
      obtain ⟨equal,others⟩ := (still_cons edit rest).mp still
      cases edit with
      | equal items => rw [oldSide_cons,newSide_cons,ih others]; rfl
      | _ => cases equal

theorem settleAll_still [DecidableEq α] {wanted : Edit α → Bool} {edits : List (Edit α)}
    (unwanted : ∀ edit ∈ edits, wanted edit = false) (fuel : Nat) (before : List (Edit α)) :
    settleAll wanted fuel before edits = before.reverse ++ edits := by
  induction edits generalizing fuel before with
  | nil => cases fuel <;> simp [settleAll]
  | cons edit rest ih =>
      obtain ⟨here,behind⟩ := List.forall_mem_cons.mp unwanted
      cases fuel with
      | zero => rfl
      | succ fuel => simp [settleAll,here,ih behind]

theorem compacted_still [DecidableEq α] {edits : List (Edit α)} (still : Still edits) : compacted edits = edits := by
  have equal := List.all_eq_true.mp still
  have noDelete : ∀ edit ∈ edits, isDelete edit = false := by
    intro edit member
    have kept := equal edit member
    cases edit with
    | equal items => rfl
    | _ => cases kept
  have noInsert : ∀ edit ∈ edits, isInsert edit = false := by
    intro edit member
    have kept := equal edit member
    cases edit with
    | equal items => rfl
    | _ => cases kept
  rw [compacted,settleAll_still noDelete]
  exact settleAll_still noInsert _ []

theorem gathered_still {edits : List (Edit α)} (still : Still edits) : gathered {} edits = edits := by
  induction edits with
  | nil => rfl
  | cons edit rest ih =>
      obtain ⟨equal,others⟩ := (still_cons edit rest).mp still
      cases edit with
      | equal items => rw [gathered,ih others]; rfl
      | _ => cases equal

theorem commonPrefix_self [DecidableEq α] (items : List α) : commonPrefix items items = items := by
  induction items with
  | nil => rfl
  | cons item rest ih => simp [commonPrefix,ih]

theorem equalEdit_still (items : List α) : Still (equalEdit items) := by
  unfold equalEdit
  split <;> simp [Edit.isEqual]

theorem script_same [DecidableEq α] (items : List α) : Still (script items items) := by
  have raw : rawScript items items = equalEdit items := by
    simp [rawScript,conquer,commonPrefix_self,commonSuffix,equalEdit]
  have still := equalEdit_still items
  rw [script,raw,compacted_still still,gathered_still still]
  exact still

end Scripts

section Reports

variable {edits : List (Edit Unit)}

theorem page_still (still : Still edits) : (edits.flatMap highlight).flatMap Highlight.raw = (newSide edits).flatten := by
  induction edits with
  | nil => rfl
  | cons edit rest ih =>
      obtain ⟨equal,others⟩ := (still_cons edit rest).mp still
      cases edit with
      | equal items =>
          have plain : (items.map Highlight.plain).flatMap Highlight.raw = items.flatten := by
            rw [List.flatMap_map,← List.flatMap_id]
            rfl
          rw [List.flatMap_cons,List.flatMap_append,ih others,newSide_cons,List.flatten_append]
          exact congrArg (· ++ _) plain
      | _ => cases equal

theorem changesFrom_still (still : Still edits) (new : List Unit) (place : Nat) : changesFrom new place edits = [] := by
  induction edits generalizing place with
  | nil => rfl
  | cons edit rest ih =>
      obtain ⟨equal,others⟩ := (still_cons edit rest).mp still
      cases edit with
      | equal items => rw [changesFrom,ih others]; rfl
      | _ => cases equal

theorem compareBy_reports {differ : List Unit → List Unit → List (Edit Unit)} {old new : String} {keepMarkup : Bool}
    (leads : Leads (differ (side keepMarkup old) (side keepMarkup new)) (side keepMarkup old) (side keepMarkup new))
    (settled : side keepMarkup old = side keepMarkup new → Still (differ (side keepMarkup old) (side keepMarkup new))) :
    ReportsChanges (document keepMarkup old) (document keepMarkup new) (compareBy differ old new keepMarkup) := by
  have whole : (side keepMarkup new).flatten = (document keepMarkup new).toList := by
    rw [side_document,units_flatten]
  have unchanged : (compareBy differ old new keepMarkup).hasChanges = false ↔
      Still (differ (side keepMarkup old) (side keepMarkup new)) := by
    simp only [compareBy,ofScript,Comparison.hasChanges,Still,Bool.not_eq_false']
  obtain ⟨oldSide_eq,newSide_eq⟩ := leads
  refine ⟨?_,fun same => ?_,fun same => ?_⟩
  · rw [unchanged,← side_eq_iff]
    exact ⟨fun still => by rw [← oldSide_eq,still.sides_eq,newSide_eq],settled⟩
  · have page := page_still (unchanged.mp same)
    rw [newSide_eq,whole] at page
    exact (congrArg String.ofList page).trans String.ofList_toList
  · have changes : (compareBy differ old new keepMarkup).changes = [] :=
      changesFrom_still (unchanged.mp same) _ 0
    refine ⟨changes,?_,fun count => ?_⟩
    · rw [Comparison.added,changes]
      rfl
    · rw [Comparison.snippets,changes]
      rfl

end Reports

-- A comparison finds changes exactly between documents that differ, and shows a document as it is
-- when there are none. So does one by any other differ that can be relied on as far.
theorem changes_found_exactly (old new : String) (keepMarkup : Bool) :
    ReportsChanges (document keepMarkup old) (document keepMarkup new) (compare old new keepMarkup) ∧
      ∀ differ : List Unit → List Unit → List (Edit Unit),
        Leads (differ (side keepMarkup old) (side keepMarkup new)) (side keepMarkup old) (side keepMarkup new) →
        (side keepMarkup old = side keepMarkup new → Still (differ (side keepMarkup old) (side keepMarkup new))) →
        ReportsChanges (document keepMarkup old) (document keepMarkup new) (compareBy differ old new keepMarkup) := by
  refine ⟨?_,fun differ => compareBy_reports⟩
  rw [compare_differ]
  refine compareBy_reports (script_leads _ _) fun same => ?_
  rw [same]
  exact script_same _

theorem changes_found_exactly_markers :
    let old := "<p>a <comment-start name=\"1\"></comment-start>b</p>"
    let new := "<p>a b</p>"
    let differ : List Unit → List Unit → List (Edit Unit) := fun _ shared => [.equal shared]
    Leads (differ (side false old) (side false new)) (side false old) (side false new) ∧
      (side false old = side false new → Still (differ (side false old) (side false new))) ∧
      ReportsChanges (document false old) (document false new) (compareBy differ old new false) ∧
      (compareBy differ old new false).hasChanges = false := by
  intro old new differ
  have leads : Leads (differ (side false old) (side false new)) (side false old) (side false new) :=
    ⟨by decide +kernel,by decide⟩
  have settled : side false old = side false new → Still (differ (side false old) (side false new)) := fun _ => rfl
  exact ⟨leads,settled,(changes_found_exactly old new false).2 differ leads settled,rfl⟩

example : (compare "a b" "a  b" false).hasChanges = true ∧ (compare "a b" "a  b" false).changes = [] := by decide +kernel

end Redline.Revision
