import Redline.Proofs.Exporting

namespace Redline.Exchange

open Files Files.Tree

section Refusals

def Warning.refuses : Warning → Bool
  | .unsafeType _ => true
  | _ => false

-- A desk without the entities of types with an unsafe name.
def guarded (desk : Desk) : Desk := { desk with store := desk.store.filter fun row => isSafe row.1.entityType }

-- Two reports that say the same, but for warnings of certain types in the first one.
structure Beside (refused : List Warning) (report bare : Report) : Prop where
  counts : report.counts = bare.counts
  unchanged : report.unchanged = bare.unchanged
  removed : report.removed = bare.removed
  others : report.warnings.filter (!·.refuses) = bare.warnings
  refused : report.warnings.filter Warning.refuses = refused

variable {refused : List Warning} {report bare : Report} {tree : Tree}

theorem Beside.warn (beside : Beside refused report bare) {warning : Warning} (other : warning.refuses = false) :
    Beside refused (report.warn warning) (bare.warn warning) := by
  obtain ⟨counts,unchanged,removed,others,own⟩ := beside
  refine ⟨counts,unchanged,removed,?_,?_⟩
  · simp only [Report.warn,List.filter_append,others,List.filter_cons,other]
    rfl
  · simp only [Report.warn,List.filter_append,own,List.filter_cons,other]
    exact List.append_nil _

theorem Beside.refuse (beside : Beside refused report bare) (problem : SegmentProblem) :
    Beside (refused ++ [.unsafeType problem]) (report.warn (.unsafeType problem)) bare := by
  obtain ⟨counts,unchanged,removed,others,own⟩ := beside
  refine ⟨counts,unchanged,removed,?_,?_⟩
  · rw [Report.warn,List.filter_append,others]
    exact List.append_nil _
  · rw [Report.warn,List.filter_append,own]
    rfl

theorem Beside.count (beside : Beside refused report bare) (entityType : String) :
    Beside refused (report.count entityType) (bare.count entityType) := by
  obtain ⟨counts,unchanged,removed,others,own⟩ := beside
  refine ⟨?_,unchanged,removed,others,own⟩
  simp only [Report.count,counts]

-- Two ways that an export has come as far, the second one with no types of unsafe names.
structure Level (refused : List Warning) (p q : Progress) : Prop where
  tree : p.tree = q.tree
  report : Beside refused p.report q.report

variable {p q : Progress}

theorem writeEntity_level (level : Level refused p q) (here : Location) (stamp : String) (e : Entity) :
    Level refused (p.writeEntity here stamp e) (q.writeEntity here stamp e) := by
  obtain ⟨tree,report⟩ := p
  obtain ⟨tree',bare⟩ := q
  obtain ⟨rfl,beside⟩ := level
  simp only [Progress.writeEntity]
  split
  · exact ⟨rfl,beside.counts,congrArg (· + 1) beside.unchanged,beside.removed,beside.others,beside.refused⟩
  · split
    · exact ⟨rfl,beside.count e.entityType⟩
    · exact ⟨rfl,beside.warn rfl⟩

theorem removeStale_level (level : Level refused p q) (here : Location) (keep : List String) (name : String) :
    Level refused (p.removeStale here keep name) (q.removeStale here keep name) := by
  obtain ⟨tree,report⟩ := p
  obtain ⟨tree',bare⟩ := q
  obtain ⟨rfl,beside⟩ := level
  simp only [Progress.removeStale]
  split
  · exact ⟨rfl,beside⟩
  · split
    · exact ⟨rfl,beside.counts,beside.unchanged,congrArg (· + 1) beside.removed,beside.others,beside.refused⟩
    · exact ⟨rfl,beside.warn rfl⟩

theorem foldl_level {α : Type} {work : Progress → α → Progress}
    (keeps : ∀ p q item, Level refused p q → Level refused (work p item) (work q item)) (items : List α)
    (level : Level refused p q) : Level refused (items.foldl work p) (items.foldl work q) := by
  induction items generalizing p q with
  | nil => exact level
  | cons item rest ih => exact ih (keeps p q item level)

theorem writeAll_level (level : Level refused p q) (here : Location) (stamp : String) (cleaning : Bool)
    (entities : List Entity) :
    Level refused (p.writeAll here stamp cleaning entities) (q.writeAll here stamp cleaning entities) := by
  have written : Level refused (entities.foldl (Progress.writeEntity here stamp) p)
      (entities.foldl (Progress.writeEntity here stamp) q) :=
    foldl_level (fun _ _ e level => writeEntity_level level here stamp e) entities level
  simp only [Progress.writeAll]
  split
  · simp only [Progress.clean,written.tree]
    split
    · exact foldl_level (fun _ _ name level => removeStale_level level here _ name) _ written
    · exact ⟨written.tree,written.report.warn rfl⟩
  · exact written

variable {desk : Desk}

theorem guarded_list {entityType : String} (safe : isSafe entityType = true) :
    (guarded desk).store.list entityType = desk.store.list entityType := by
  unfold guarded Store.list
  rw [List.filter_filter]
  congr 1
  apply List.filter_congr
  intro row _
  by_cases own : row.1.entityType = entityType
  · simp [own,safe]
  · simp [own]

theorem guarded_types (ordered : Table.Ordered desk.store) : (guarded desk).store.types = safeTypes desk.store := by
  have kept : Table.Ordered (guarded desk).store := ordered.filter _
  have distinct : (safeTypes desk.store).Nodup := (Store.types_nodup ordered).filter _
  apply List.Perm.eq_of_pairwise _ (Store.types_ascending kept) (safeTypes_ascending ordered)
  · rw [List.perm_ext_iff_of_nodup (Store.types_nodup kept) distinct]
    intro entityType
    rw [safeTypes,List.mem_filter,Store.mem_types,Store.mem_types]
    constructor
    · rintro ⟨row,member,rfl⟩
      obtain ⟨stored,safe⟩ := List.mem_filter.mp member
      exact ⟨⟨row,stored,rfl⟩,safe⟩
    · rintro ⟨⟨row,stored,rfl⟩,safe⟩
      exact ⟨row,List.mem_filter.mpr ⟨stored,safe⟩,rfl⟩
  · exact fun _ _ _ _ less greater => absurd greater (String.lt_asymm less)

theorem exportType_level (level : Level refused p q) (order : ExportOrder) {entityType : String} (safe : isSafe entityType = true) :
    Level refused (exportType desk order p entityType).1 (exportType (guarded desk) order q entityType).1 ∧
      (exportType desk order p entityType).2 = (exportType (guarded desk) order q entityType).2 := by
  have unbroken : segmentProblem? entityType = none := Option.isNone_iff_eq_none.mp safe
  have same : (guarded desk).list entityType = desk.list entityType := by
    unfold Desk.list
    rw [guarded_list safe]
    rfl
  simp only [exportType,unbroken,same,← level.tree]
  split
  · exact ⟨⟨rfl,level.report⟩,rfl⟩
  · split
    · exact ⟨⟨rfl,level.report⟩,rfl⟩
    · have written (made : Tree) := @writeAll_level refused ⟨made,p.report⟩ ⟨made,q.report⟩ ⟨rfl,level.report⟩
        (order.place.child entityType) order.stamp order.clean
      exact ⟨written _ _,rfl⟩

theorem exportTypes_level (order : ExportOrder) (types : List String) (level : Level refused p q) :
    (exportTypes desk order p types).1.tree = (exportTypes (guarded desk) order q (types.filter isSafe)).1.tree ∧
      (exportTypes desk order p types).2 = (exportTypes (guarded desk) order q (types.filter isSafe)).2 ∧
      ((exportTypes desk order p types).2 = none →
        Level (refused ++ types.filterMap fun entityType => (segmentProblem? entityType).map .unsafeType)
          (exportTypes desk order p types).1 (exportTypes (guarded desk) order q (types.filter isSafe)).1) := by
  induction types generalizing p q refused with
  | nil => exact ⟨level.tree,rfl,fun _ => by rw [List.filterMap_nil,List.append_nil]; exact level⟩
  | cons entityType rest ih =>
      cases broken : segmentProblem? entityType with
      | some problem =>
          have refusal : exportType desk order p entityType = (p.warn (.unsafeType problem),none) := by
            rw [exportType,broken]
          have further := ih (p := p.warn (.unsafeType problem)) ⟨level.tree,level.report.refuse problem⟩
          rw [List.append_assoc] at further
          rw [exportTypes,refusal,List.filter_cons_of_neg (by simp [isSafe_some broken]),List.filterMap_cons,broken]
          exact further
      | none =>
          have safe : isSafe entityType = true := isSafe_none broken
          have single := @exportType_level _ _ _ desk level order _ safe
          rw [List.filter_cons_of_pos safe,List.filterMap_cons,broken,exportTypes,exportTypes]
          cases done : exportType desk order p entityType with
          | mk middle stop =>
              cases done' : exportType (guarded desk) order q entityType with
              | mk middle' stop' =>
                  rw [done,done'] at single
                  obtain ⟨first,rfl⟩ := single
                  cases stop with
                  | none => exact ih first
                  | some failure => exact ⟨first.tree,rfl,fun odd => by cases odd⟩

-- What two exports come to that are alike but for warnings of certain types.
inductive Alike (refused : List Warning) : Attempt Report → Attempt Report → Prop where
  | done {report bare : Report} (beside : Beside refused report bare) : Alike refused (.ok report) (.ok bare)
  | failed (failure : Failure) : Alike refused (.error failure) (.error failure)

-- Entities of types with an unsafe name make no difference but one warning for each of these types.
theorem exportContent_guarded (ordered : Table.Ordered desk.store) (order : ExportOrder) (tree : Tree) :
    (exportContent desk order tree).2 = (exportContent (guarded desk) order tree).2 ∧
      Alike (unsafeWarnings desk.store) (exportContent desk order tree).1 (exportContent (guarded desk) order tree).1 := by
  unfold exportContent
  cases started : tree.ensureDirectory order.place.path with
  | error problem => exact ⟨rfl,.failed _⟩
  | ok made =>
      have asked := types_answer desk
      have asked' : (guarded desk).types = if desk.failing.contains .entityTypes then
          throw (Failure.of (.offline .entityTypes)) else return safeTypes desk.store := by
        rw [← guarded_types ordered]
        exact types_answer (guarded desk)
      by_cases offline : desk.failing.contains .entityTypes = true
      · rw [if_pos offline] at asked asked'
        rw [asked,asked']
        exact ⟨rfl,.failed _⟩
      · rw [if_neg offline] at asked asked'
        have start : Level [] ⟨made,{}⟩ ⟨made,{}⟩ := ⟨rfl,rfl,rfl,rfl,rfl,rfl⟩
        have run := @exportTypes_level _ _ _ desk order desk.store.types start
        rw [← safeTypes] at run
        have types : desk.types = .ok desk.store.types := asked
        have types' : (guarded desk).types = .ok (safeTypes desk.store) := asked'
        simp only [types,types']
        cases ran : exportTypes desk order ⟨made,{}⟩ desk.store.types with
        | mk p stop =>
            cases ran' : exportTypes (guarded desk) order ⟨made,{}⟩ (safeTypes desk.store) with
            | mk q stop' =>
                rw [ran,ran'] at run
                obtain ⟨trees,rfl,level⟩ := run
                cases stop with
                | none => exact ⟨trees,.done (level rfl).report⟩
                | some failure => exact ⟨trees,.failed failure⟩

end Refusals

end Redline.Exchange
