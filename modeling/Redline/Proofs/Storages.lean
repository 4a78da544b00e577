import Redline.Proofs.Calls
import Redline.Proofs.Contents
import Redline.Proofs.Shelves

namespace Redline.Exchange

open Files

-- A storage as an import meets it. Each save goes through or fails, and may depend on all that went
-- before. One that goes through puts the entity in the place of what stood under its reference; one
-- that fails changes no content.
structure Storage (σ : Type) where
  content : σ → Store
  save : σ → Entity → Option Failure × σ
  upserts : ∀ state e, content (save state e).2 =
    match (save state e).1 with
    | none => (content state).save e
    | some _ => content state

-- A file with the directory it was found in.
abbrev Filed := String × Found

def Filed.entity (file : Filed) : Entity := file.2.entity

def Filed.label (file : Filed) : String := labelOf file.1 file.2.file

def Findings.files (findings : Findings) : List Filed :=
  findings.groups.flatMap fun group => group.2.map fun found => (group.1,found)

abbrev Trial := Filed × Option Failure

def saved? : Trial → Option Filed
  | (file,none) => some file
  | (_,some _) => none

def refusal? : Trial → Option Warning
  | (file,some failure) => some (.notSaved file.label failure)
  | (_,none) => none

def countFiles (counts : Table String Nat) (files : List Filed) : Table String Nat :=
  files.foldl (fun counts file => counts.alter file.1 0 (· + 1)) counts

def Report.told (report : Report) (trials : List Trial) : Report :=
  { report with
    counts := countFiles report.counts (trials.filterMap saved?)
    warnings := report.warnings ++ trials.filterMap refusal? }

namespace Storage

variable {σ : Type} (storage : Storage σ)

def takeOver (state : Report × σ) (file : Filed) : Report × σ :=
  match storage.save state.2 file.entity with
  | (none,next) => (state.1.count file.1,next)
  | (some failure,next) => (state.1.warn (.notSaved file.label failure),next)

def imports (start : σ) (tree : Tree) (place : Location) (dryRun : Bool) : Attempt (Report × σ) := do
  let findings ← readTree tree place
  if dryRun then return (findings.preview,start)
  else return findings.files.foldl storage.takeOver ({ warnings := findings.warnings },start)

-- An import that was cut off behind some of its saves.
def cutOff (start : σ) (tree : Tree) (place : Location) (reached : Nat) : σ :=
  match readTree tree place with
  | .error _ => start
  | .ok findings => ((findings.files.take reached).foldl storage.takeOver ({},start)).2

def trials (start : σ) : List Filed → List Trial × σ
  | [] => ([],start)
  | file :: rest =>
      match storage.save start file.entity with
      | (answer,next) =>
          match trials next rest with
          | (later,last) => ((file,answer) :: later,last)

theorem trials_cons (start : σ) (file : Filed) (rest : List Filed) : storage.trials start (file :: rest) =
    ((file,(storage.save start file.entity).1) :: (storage.trials (storage.save start file.entity).2 rest).1,
      (storage.trials (storage.save start file.entity).2 rest).2) := rfl

theorem takeOver_all (files : List Filed) (report : Report) (start : σ) :
    files.foldl storage.takeOver (report,start) =
      (report.told (storage.trials start files).1,(storage.trials start files).2) := by
  induction files generalizing report start with
  | nil => simp [trials,Report.told,countFiles]
  | cons file rest ih =>
      rw [List.foldl_cons,trials_cons,takeOver]
      rcases storage.save start file.entity with ⟨_ | failure,next⟩
      · simp [ih,Report.told,countFiles,Report.count,List.filterMap_cons,refusal?,saved?]
      · simp [ih,Report.told,countFiles,Report.warn,List.filterMap_cons,refusal?,saved?]

theorem content_trials (files : List Filed) (start : σ) : storage.content (storage.trials start files).2 =
    (((storage.trials start files).1.filterMap saved?).map Filed.entity).foldl Store.save (storage.content start) := by
  induction files generalizing start with
  | nil => rfl
  | cons file rest ih =>
      have kept := storage.upserts start file.entity
      rw [trials_cons,ih,kept]
      cases (storage.save start file.entity).1 <;> simp [List.filterMap_cons,saved?]

theorem trials_files (files : List Filed) (start : σ) : (storage.trials start files).1.map Prod.fst = files := by
  induction files generalizing start with
  | nil => rfl
  | cons file rest ih => simp [trials_cons,ih]

theorem imports_eq (start : σ) (tree : Tree) (place : Location) : storage.imports start tree place false =
    match readTree tree place with
    | .error failure => .error failure
    | .ok findings =>
        .ok (Report.told { warnings := findings.warnings } (storage.trials start findings.files).1,
          (storage.trials start findings.files).2) := by
  unfold imports
  rcases readTree tree place with failure | findings
  · rfl
  · exact congrArg Except.ok (storage.takeOver_all findings.files _ start)

end Storage

section Desks

def deskStorage : Storage Desk where
  content := Desk.store
  save desk e :=
    match desk.save e with
    | .ok saved => (none,saved)
    | .error failure => (some failure,desk)
  upserts desk e := by
    by_cases offline : .save ∈ desk.failing
    · simp only [save_offline offline]
    · simp only [save_through offline]

theorem saveFound_takes (directory : String) (state : Report × Desk) (found : Found) :
    saveFound directory state found = deskStorage.takeOver state (directory,found) := by
  simp only [saveFound,Storage.takeOver,deskStorage,Filed.entity,Filed.label]
  rcases state.2.save found.entity with failure | saved <;> rfl

theorem importContent_storage (desk : Desk) (tree : Tree) (place : Location) (dryRun : Bool) :
    importContent desk tree place dryRun = deskStorage.imports desk tree place dryRun := by
  have all (groups : List (String × List Found)) (state : Report × Desk) : groups.foldl saveGroup state =
      (groups.flatMap fun group => group.2.map fun found => (group.1,found)).foldl deskStorage.takeOver state := by
    simp only [List.foldl_flatMap,List.foldl_map,← saveFound_takes]
    rfl
  simp only [importContent,Storage.imports,all]
  rfl

variable {desk : Desk} (through : .save ∉ desk.failing)

include through

theorem trials_through (files : List Filed) : deskStorage.trials desk files = (files.map fun file => (file,none),
    { desk with store := (files.map Filed.entity).foldl Store.save desk.store }) := by
  induction files generalizing desk with
  | nil => rfl
  | cons file rest ih =>
      have saved : deskStorage.save desk file.entity = (none,{ desk with store := desk.store.save file.entity }) := by
        simp only [deskStorage,save_through through]
      rw [Storage.trials_cons,saved,@ih { desk with store := desk.store.save file.entity } through]
      rfl

variable (desk) in
theorem importContent_through (tree : Tree) (place : Location) : importContent desk tree place false =
    match readTree tree place with
    | .error failure => .error failure
    | .ok findings =>
        .ok (Report.told { warnings := findings.warnings } (findings.files.map fun file => (file,none)),
          { desk with store := (findings.files.map Filed.entity).foldl Store.save desk.store }) := by
  simp only [importContent_storage,Storage.imports_eq,trials_through through]

end Desks

section Cutting

variable {σ : Type} (storage : Storage σ)

theorem cutOff_content (start : σ) {tree : Tree} {place : Location} {findings : Findings}
    (read : readTree tree place = .ok findings) (reached : Nat) :
    ∃ taken : List Filed, (∀ file ∈ taken, file ∈ findings.files) ∧
      storage.content (storage.cutOff start tree place reached) =
        (taken.map Filed.entity).foldl Store.save (storage.content start) := by
  refine ⟨((storage.trials start (findings.files.take reached)).1.filterMap saved?),?_,?_⟩
  · intro file member
    obtain ⟨⟨tried,failure⟩,listed,went⟩ := List.mem_filterMap.mp member
    have known : tried ∈ findings.files.take reached := by
      rw [← storage.trials_files (findings.files.take reached) start]
      exact List.mem_map_of_mem listed
    cases failure with
    | some => cases went
    | none =>
        cases went
        exact List.mem_of_mem_take known
  · simp only [Storage.cutOff,read,Storage.takeOver_all,Storage.content_trials]

end Cutting

section Counts

theorem find?_countFiles (files : List Filed) (counts : Table String Nat) (directory : String) :
    (countFiles counts files).find? directory =
      if files.countP (fun file => file.1 = directory) = 0 then counts.find? directory
      else some ((counts.find? directory).getD 0 + files.countP fun file => file.1 = directory) := by
  induction files generalizing counts with
  | nil => rfl
  | cons file rest ih =>
      rw [countFiles,List.foldl_cons,← countFiles,ih,List.countP_cons]
      by_cases own : file.1 = directory
      · subst own
        simp only [Table.alter,Table.find?_insert_self,decide_true,if_true,Option.getD_some]
        split
        · rename_i none_
          rw [none_]
          rfl
        · rw [if_neg (Nat.succ_ne_zero _),Nat.add_assoc,Nat.add_comm 1]
      · rw [Table.alter,Table.find?_insert_other _ _ _ _ (Ne.symm own)]
        have absent : decide (file.1 = directory) = false := decide_eq_false own
        simp only [absent,Bool.false_eq_true,if_false,Nat.add_zero]

end Counts

-- What a run did that came to its end: every file was tried in its turn; those whose save went through
-- are in the content and are counted, and each of the others has a warning.
structure Carried {σ : Type} (storage : Storage σ) (findings : Findings) (start : σ) (report : Report) (last : σ) :
    Prop where
  tried : (storage.trials start findings.files).1.map Prod.fst = findings.files
  content : storage.content last =
    (((storage.trials start findings.files).1.filterMap saved?).map Filed.entity).foldl Store.save (storage.content start)
  warnings : report.warnings = findings.warnings ++ (storage.trials start findings.files).1.filterMap refusal?
  counts : ∀ directory, report.counts.find? directory =
    match ((storage.trials start findings.files).1.filterMap saved?).countP fun file => file.1 = directory with
    | 0 => none
    | count + 1 => some (count + 1)

-- A storage that fails as it is told, save by save, and then no more.
def faltering : Storage (Store × List (Option Failure)) where
  content := Prod.fst
  save state e :=
    match state.2 with
    | some failure :: rest => (some failure,state.1,rest)
    | none :: rest => (none,state.1.save e,rest)
    | [] => (none,state.1.save e,[])
  upserts state e := by
    rcases state with ⟨store,_ | ⟨_ | failure,rest⟩⟩ <;> rfl

-- Whatever saves of an import took effect, the import that is made again leaves what it would have
-- left without them; and an import some of whose saves fail makes all the others.
theorem interrupted_import_resumes (tree : Tree) (place : Location) :
    (∀ desk dryRun, importContent desk tree place dryRun = deskStorage.imports desk tree place dryRun) ∧
    ∀ {σ : Type} (storage : Storage σ) (start : σ),
      (∀ (reached : Nat) (desk : Desk), .save ∉ desk.failing →
        importContent { desk with store := storage.content (storage.cutOff start tree place reached) } tree place false =
          importContent { desk with store := storage.content start } tree place false) ∧
      match readTree tree place with
      | .error failure => storage.imports start tree place false = .error failure
      | .ok findings => ∃ report last, storage.imports start tree place false = .ok (report,last) ∧
          Carried storage findings start report last := by
  refine ⟨fun desk => importContent_storage desk tree place,fun storage start => ⟨fun reached desk through => ?_,?_⟩⟩
  · rw [importContent_through { desk with store := storage.content (storage.cutOff start tree place reached) } through,
      importContent_through { desk with store := storage.content start } through]
    cases read : readTree tree place with
    | error failure => rfl
    | ok findings =>
        obtain ⟨taken,within,left⟩ := cutOff_content storage start read reached
        have again : ∀ e ∈ taken.map Filed.entity, ∃ a ∈ findings.files.map Filed.entity, a.ref = e.ref := by
          intro e member
          obtain ⟨file,listed,rfl⟩ := List.mem_map.mp member
          exact ⟨file.entity,List.mem_map_of_mem (within file listed),rfl⟩
        simp only [left,Store.saves_again again]
        rfl
  · have ran := storage.imports_eq start tree place
    cases read : readTree tree place with
    | error failure =>
        rw [read] at ran
        exact ran
    | ok findings =>
        rw [read] at ran
        refine ⟨_,_,ran,storage.trials_files findings.files start,storage.content_trials findings.files start,rfl,?_⟩
        intro directory
        refine (find?_countFiles _ [] directory).trans ?_
        cases ((storage.trials start findings.files).1.filterMap saved?).countP fun file => file.1 = directory with
        | zero => rfl
        | succ count => exact congrArg some (Nat.zero_add _)

theorem interrupted_import_resumes_copied :
    let tree := siteOf "2024-01-01T00:00:00Z" copies
    let page := sharedPage "Page"
    let start : Store × List (Option Failure) := ([],[none,some (.of (.offline .save))])
    (∃ report last, faltering.imports start tree sitePlace false = .ok (report,last) ∧
      last.1 = [(page.ref,sharedPage "Draft")] ∧ report.counts.find? "archive" = some 1 ∧
      report.counts.find? "page" = none ∧ report.warnings.length = 3) ∧
    ∃ report, importContent { store := faltering.content (faltering.cutOff start tree sitePlace 2) } tree sitePlace false =
      .ok (report,{ store := [(page.ref,page)] }) := by
  intro tree page start
  obtain ⟨resumes,runs⟩ := (interrupted_import_resumes tree sitePlace).2 faltering start
  have again := resumes 2 {} List.not_mem_nil
  have whole := importContent_through {} List.not_mem_nil tree sitePlace
  rw [readTree_copies] at runs whole
  obtain ⟨report,last,ran,_,content,warnings,counts⟩ := runs
  refine ⟨⟨report,last,ran,content.trans rfl,counts "archive",counts "page",?_⟩,⟨_,again.trans whole⟩⟩
  rw [warnings]
  rfl

end Redline.Exchange
