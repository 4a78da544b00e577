import Redline.Proofs.Findings
import Redline.Proofs.Storages

namespace Redline.Files

open Files.Tree

-- The same nodes, listed in another order in each directory.
structure Relisted (a b : Tree) : Prop where
  nodes : ∀ path, node? a path = node? b path
  listed : ∀ path, (children a path).Perm (children b path)

-- In whatever order the rows stand, a path names what its row says.
theorem Relisted.of_perm {a b : Tree} (distinct : (a.map Prod.fst).Nodup) (same : a.Perm b) : Relisted a b := by
  refine ⟨fun path => ?_,fun path => same.filterMap _⟩
  unfold node?
  split
  · rfl
  · have distinct' : (b.map Prod.fst).Nodup := (same.map Prod.fst).nodup_iff.mp distinct
    apply Option.ext
    intro node
    constructor
    · exact fun held => Exchange.lookup_of_mem distinct' (same.mem_iff.mp (mem_of_lookup held))
    · exact fun held => Exchange.lookup_of_mem distinct (same.mem_iff.mpr (mem_of_lookup held))

namespace Tree

-- A walk meets the tree at the nodes of its way only.
theorem walk_congr {a b : Tree} (nodes : ∀ path, node? a path = node? b path) (followLast : Bool) (links : Nat)
    (current rest : Path) : walk a followLast links current rest = walk b followLast links current rest := by
  fun_induction walk a followLast links current rest with
  | case1 => rw [walk]
  | case2 links current name rest dot ih => rw [walk,if_pos dot,ih]
  | case3 links current rest dot ih => rw [walk,if_neg dot,if_pos rfl,ih]
  | case4 links current name rest dot dots long => rw [walk,if_neg dot,if_neg dots,if_pos long]
  | case5 links current name rest dot dots long here stands last
  | case6 links current name rest dot dots long here stands last
  | case8 links current name rest dot dots long here content stands last
  | case9 links current name rest dot dots long here content stands last
  | case10 links current name rest dot dots long here target stands last
  | case11 current name rest dot dots long here target stands last =>
      replace stands := (nodes (current ++ [name])).symm.trans stands
      rw [walk,if_neg dot,if_neg dots,if_neg long]
      simp [stands,last,here]
  | case7 links current name rest dot dots long here stands ih =>
      replace stands := (nodes (current ++ [name])).symm.trans stands
      rw [walk,if_neg dot,if_neg dots,if_neg long]
      simp only [stands]
      exact ih
  | case12 current name rest dot dots long here target stands last links absolute =>
      replace stands := (nodes (current ++ [name])).symm.trans stands
      rw [walk,if_neg dot,if_neg dots,if_neg long]
      simp [stands,last,absolute]
  | case13 current name rest dot dots long here target stands last links relative ih =>
      replace stands := (nodes (current ++ [name])).symm.trans stands
      rw [walk,if_neg dot,if_neg dots,if_neg long]
      simp only [stands]
      rw [if_neg last,if_neg relative]
      exact ih

variable {a b : Tree} (same : Relisted a b)

include same

theorem resolve_relisted (followLast : Bool) (path : Path) : resolve a followLast path = resolve b followLast path :=
  walk_congr same.nodes followLast 40 [] path

theorem look_relisted (followLast : Bool) (path : Path) : look a followLast path = look b followLast path := by
  simp only [look,resolve_relisted same,same.nodes]

theorem readText_relisted (path : Path) : readText a path = readText b path := by
  simp only [readText,look_relisted same]

theorem list_relisted (path : Path) : (∃ problem, list a path = .error problem ∧ list b path = .error problem) ∨
    ∃ names names', list a path = .ok names ∧ list b path = .ok names' ∧ names.Perm names' := by
  simp only [list,resolve_relisted same,← same.nodes]
  cases resolve b true path with
  | error problem => exact .inl ⟨problem,rfl,rfl⟩
  | ok place =>
      simp only [bind,Except.bind]
      cases node? a place with
      | none => exact .inl ⟨_,rfl,rfl⟩
      | some node =>
          cases node with
          | directory => exact .inr ⟨_,_,rfl,rfl,same.listed place⟩
          | file | link => exact .inl ⟨_,rfl,rfl⟩

end Tree

end Redline.Files
namespace Redline.Exchange

open Files Files.Tree

section Reading

variable {a b : Tree} (same : Relisted a b)

include same

theorem readFile_relisted (here : Location) (directory name : String) :
    readFile a here directory name = readFile b here directory name := by
  simp only [readFile,look_relisted same,readText_relisted same]

omit same in
theorem byName_relisted {found found' : List Found} (perm : found.Perm found')
    (told : ∀ f ∈ found, ∀ g ∈ found, f.file = g.file → f = g) : byName found = byName found' := by
  have sorted (files : List Found) : (byName files).Pairwise fun f g => f.file ≤ g.file := by
    have pairs : (byName files).Pairwise fun f g => decide (f.file ≤ g.file) = true := List.pairwise_mergeSort
      (fun x y z first second => by
        simp only [decide_eq_true_eq] at first second ⊢
        exact String.le_trans first second)
      (fun x y => by
        simp only [Bool.or_eq_true,decide_eq_true_eq]
        exact String.le_total x.file y.file) files
    exact pairs.imp of_decide_eq_true
  have same := (byName_all found).trans (perm.trans (byName_all found').symm)
  apply List.Perm.eq_of_pairwise _ (sorted found) (sorted found') same
  intro f g one two low high
  have known := (byName_all found).mem_iff.mp one
  have known' := perm.mem_iff.mpr ((byName_all found').mem_iff.mp two)
  exact told f known g known' (String.le_antisymm low high)

theorem readNames_relisted (here : Location) (directory : String) {names names' : List String} (perm : names.Perm names') :
    (readNames a here directory names).1.Perm (readNames b here directory names').1 ∧
      (readNames a here directory names).2 = (readNames b here directory names').2 := by
  have read : ((names.filter isContentName).map (readFile a here directory)).Perm
      ((names'.filter isContentName).map (readFile b here directory)) := by
    rw [funext (readFile_relisted same here directory)]
    exact (perm.filter _).map _
  have told : ∀ f ∈ ((names.filter isContentName).map (readFile a here directory)).filterMap Prod.snd,
      ∀ g ∈ ((names.filter isContentName).map (readFile a here directory)).filterMap Prod.snd, f.file = g.file → f = g := by
    intro f one g two equal
    simp only [List.filterMap_map,List.mem_filterMap,Function.comp] at one two
    obtain ⟨name,_,came⟩ := one
    obtain ⟨other,_,came'⟩ := two
    rw [found_file came,found_file came'] at equal
    subst equal
    exact Option.some.inj (came.symm.trans came')
  simp only [readNames]
  rw [byName_relisted (read.filterMap Prod.snd) told]
  exact ⟨(read.flatMap_right _).append_right _,rfl⟩

theorem lookInto_relisted (place : Location) (directory : String) :
    (lookInto a place directory).1.Perm (lookInto b place directory).1 ∧
      (lookInto a place directory).2 = (lookInto b place directory).2 := by
  unfold lookInto
  rcases list_relisted same (place.child directory).path with ⟨problem,first,second⟩ | ⟨names,names',first,second,perm⟩
  · rw [first,second]
    exact readNames_relisted same _ _ (.refl _)
  · rw [first,second]
    exact readNames_relisted same _ _ perm

theorem readEntry_relisted (place : Location) (directory : String) :
    (readEntry a place {} directory).warnings.Perm (readEntry b place {} directory).warnings ∧
      (readEntry a place {} directory).groups = (readEntry b place {} directory).groups := by
  have looked := look_relisted same false (place.child directory).path
  by_cases enters : Enters b place directory
  · obtain ⟨warnings,found⟩ := lookInto_relisted same place directory
    rw [readEntry_entered ⟨enters.visible,looked.trans enters.plain,enters.safe⟩,readEntry_entered enters,found]
    exact ⟨warnings,rfl⟩
  · have equal : readEntry a place {} directory = readEntry b place {} directory := by
      simp only [readEntry,looked]
      split
      · rfl
      · rename_i visible
        split
        · rename_i plain
          split
          · rfl
          · rename_i safe
            exact absurd ⟨visible,plain,safe⟩ enters
        · rfl
    rw [equal]
    exact ⟨.refl _,rfl⟩

theorem readTree_relisted (place : Location) :
    (∃ failure, readTree a place = .error failure ∧ readTree b place = .error failure) ∨
      ∃ first second, readTree a place = .ok first ∧ readTree b place = .ok second ∧
        first.warnings.Perm second.warnings ∧ first.groups = second.groups := by
  unfold readTree
  rcases list_relisted same place.path with ⟨problem,first,second⟩ | ⟨names,names',first,second,perm⟩
  · rw [first,second]
    exact .inl ⟨_,rfl,rfl⟩
  · rw [first,second]
    refine .inr ⟨_,_,rfl,rfl,?_,?_⟩
    · simp only [readEntries_add,List.nil_append]
      exact (List.Perm.flatMap_left _ fun directory _ => (readEntry_relisted same place directory).1).trans
        (perm.flatMap_right _)
    · simp only [readEntries_add]
      rw [← funext fun directory => (readEntry_relisted same place directory).2]
      exact Table.insertAll_perm (perm.flatMap_right _) (entryGroups_agree names) []

end Reading

-- Two imports that come to the same: the same failure, or the same storage and report, the warnings
-- in any order.
def SameOutcome {σ : Type} : Attempt (Report × σ) → Attempt (Report × σ) → Prop
  | .error failure,.error failure' => failure = failure'
  | .ok (report,left),.ok (report',left') => left = left' ∧ report.counts = report'.counts ∧
      report.unchanged = report'.unchanged ∧ report.removed = report'.removed ∧
      report.warnings.Perm report'.warnings
  | _,_ => False

theorem imports_relisted {a b : Tree} (same : Relisted a b) {σ : Type} (storage : Storage σ) (start : σ)
    (place : Location) (dryRun : Bool) :
    SameOutcome (storage.imports start a place dryRun) (storage.imports start b place dryRun) := by
  rcases readTree_relisted same place with ⟨failure,first,second⟩ | ⟨found,found',first,second,warnings,groups⟩
  · rw [Storage.imports,Storage.imports,first,second]
    exact rfl
  · cases dryRun with
    | true =>
        rw [Storage.imports,Storage.imports,first,second]
        exact ⟨rfl,by simp only [Findings.preview,groups],rfl,rfl,warnings⟩
    | false =>
        have files : found.files = found'.files := by rw [Findings.files,groups,Findings.files]
        simp only [Storage.imports_eq,first,second,files]
        exact ⟨rfl,rfl,rfl,rfl,warnings.append_right _⟩

-- Whatever the storage, and whatever files are in the way of each other: in which order the
-- directories are listed is told by the order of the warnings only.
theorem import_ignores_listing_order {a b : Tree} (same : Relisted a b) (place : Location) (dryRun : Bool) :
    (∀ desk, SameOutcome (importContent desk a place dryRun) (importContent desk b place dryRun)) ∧
      ∀ {σ : Type} (storage : Storage σ) (start : σ),
        SameOutcome (storage.imports start a place dryRun) (storage.imports start b place dryRun) := by
  refine ⟨fun desk => ?_,fun storage start => imports_relisted same storage start place dryRun⟩
  rw [importContent_storage,importContent_storage]
  exact imports_relisted same deskStorage desk place dryRun

theorem import_ignores_listing_order_copied :
    let tree := siteOf "2024-01-01T00:00:00Z" copies
    let turned := siteOf "2024-01-01T00:00:00Z" copies.reverse
    let page := sharedPage "Page"
    Tree.list tree sitePlace.path = .ok ["page","archive"] ∧ Tree.list turned sitePlace.path = .ok ["archive","page"] ∧
      ∃ report report', importContent {} tree sitePlace false = .ok (report,{ store := [(page.ref,page)] }) ∧
        importContent {} turned sitePlace false = .ok (report',{ store := [(page.ref,page)] }) ∧
        report.counts = report'.counts ∧ report.warnings.length = 2 ∧ report.warnings.Perm report'.warnings := by
  intro tree turned page
  have relisted : Relisted tree turned := .of_perm (by decide) (.cons _ (.map _ (.flatMap_right _ copies.reverse_perm.symm)))
  have first := importContent_through {} List.not_mem_nil tree sitePlace
  rw [readTree_copies] at first
  have same := (import_ignores_listing_order relisted sitePlace false).1 {}
  rw [first] at same
  refine ⟨list_site _ _,list_site _ _,?_⟩
  cases second : importContent {} turned sitePlace false with
  | error failure =>
      rw [second] at same
      cases same
  | ok outcome =>
      rw [second] at same
      obtain ⟨left,counts,_,_,warnings⟩ := same
      exact ⟨_,outcome.1,first,congrArg (fun left => Except.ok (outcome.1,left)) left.symm,counts,rfl,warnings⟩

end Redline.Exchange
