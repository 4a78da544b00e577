import Mathlib.Data.List.Nodup
import Redline.Proofs.Findings
import Redline.Proofs.Storages

namespace Redline.Exchange

open Files Files.Tree

section Previews

theorem importContent_dry (desk : Desk) (tree : Tree) (place : Location) : importContent desk tree place true =
    match readTree tree place with
    | .error failure => .error failure
    | .ok findings => .ok (findings.preview,desk) := by
  unfold importContent
  rcases readTree tree place with failure | findings <;> rfl

theorem countFiles_group (directory : String) (found : List Found) (counts : Table String Nat) :
    countFiles counts (found.map fun f => (directory,f)) = countTimes directory found.length counts := by
  induction found generalizing counts with
  | nil => rfl
  | cons first rest ih =>
      rw [List.map_cons,countFiles,List.foldl_cons,← countFiles,ih]
      rfl

theorem countFiles_groups {groups : List (String × List Found)} (ordered : Table.Ordered groups)
    (filled : ∀ group ∈ groups, group.2 ≠ []) (counts : Table String Nat)
    (last : ∀ row ∈ counts, ∀ group ∈ groups, KeyOrder.before row.1 group.1 = true) :
    countFiles counts (groups.flatMap fun group => group.2.map fun found => (group.1,found)) =
      counts ++ groups.map fun group => (group.1,group.2.length) := by
  induction groups generalizing counts with
  | nil => rw [List.map_nil,List.append_nil]; rfl
  | cons group rest ih =>
      obtain ⟨first,behind⟩ := List.pairwise_cons.mp ordered
      obtain ⟨n,some_⟩ := Nat.exists_eq_succ_of_ne_zero fun none_ =>
        filled group (.head _) (List.length_eq_zero_iff.mp none_)
      have counted : countFiles counts (group.2.map fun found => (group.1,found)) =
          counts ++ [(group.1,group.2.length)] := by
        rw [countFiles_group,some_]
        exact countTimes_last (fun row member => last row member group (.head _)) n
      have next : ∀ row ∈ counts ++ [(group.1,group.2.length)], ∀ other ∈ rest, KeyOrder.before row.1 other.1 = true := by
        intro row member other later
        rcases List.mem_append.mp member with before | new
        · exact last row before other (.tail _ later)
        · rw [List.mem_singleton.mp new]
          exact first other later
      have others := ih behind (fun other member => filled other (.tail _ member)) _ next
      rw [List.flatMap_cons,countFiles,List.foldl_append,← countFiles,← countFiles,counted,others,List.append_assoc]
      rfl

variable {tree : Tree} {place : Location} {findings : Findings} (read : readTree tree place = .ok findings)

theorem saved_all (files : List Filed) : (files.map fun file => ((file,none) : Trial)).filterMap saved? = files := by
  rw [List.filterMap_map]
  exact List.filterMap_some

theorem refused_none (files : List Filed) : (files.map fun file => ((file,none) : Trial)).filterMap refusal? = [] := by
  rw [List.filterMap_map,List.filterMap_eq_nil_iff]
  exact fun _ _ => rfl

include read

theorem told_preview : Report.told { warnings := findings.warnings } (findings.files.map fun file => (file,none)) =
    findings.preview := by
  have filled : ∀ group ∈ findings.groups, group.2 ≠ [] := by
    intro group member
    obtain ⟨_,_,_,_,filled,_⟩ := (mem_groups read).mp member
    exact filled
  have counted := countFiles_groups (groups_ordered read) filled [] (List.forall_mem_nil _)
  simp only [Report.told,saved_all,refused_none,List.append_nil,Findings.preview,Findings.files,counted,List.nil_append]

omit read in
theorem preview_total : findings.preview.total = findings.files.length := by
  simp only [Report.total,Findings.preview,Findings.files,Table.values,List.map_map,List.length_flatMap,List.length_map]
  rfl

end Previews

section Quiet

theorem mismatches_none {directory name : String} {uuid : Uuid} {d : Document}
    (quiet : mismatches directory name uuid d = []) : d.entity.uuid = uuid ∧ d.entity.entityType = directory := by
  unfold mismatches at quiet
  simp only [List.append_eq_nil_iff] at quiet
  obtain ⟨⟨_,uuids⟩,types⟩ := quiet
  constructor
  · by_contra apart
    rw [if_pos apart] at uuids
    cases uuids
  · by_contra apart
    rw [if_pos apart] at types
    cases types

theorem dropDuplicates_quiet {directory : String} {found : List Found} {seen : List Uuid}
    (quiet : (dropDuplicates directory seen found).1 = []) : (dropDuplicates directory seen found).2 = found ∧
      (found.map fun f => f.entity.uuid).Nodup ∧ ∀ f ∈ found, f.entity.uuid ∉ seen := by
  induction found generalizing seen with
  | nil => exact ⟨rfl,.nil,List.forall_mem_nil _⟩
  | cons first rest ih =>
      by_cases known : seen.contains first.entity.uuid = true
      · rw [dropDuplicates,if_pos known] at quiet
        cases quiet
      · rw [dropDuplicates,if_neg known] at quiet ⊢
        obtain ⟨kept,distinct,fresh⟩ := ih quiet
        rw [List.contains_iff_mem] at known
        refine ⟨congrArg (first :: ·) kept,List.nodup_cons.mpr ⟨?_,distinct⟩,List.forall_mem_cons.mpr ⟨known,?_⟩⟩
        · rintro again
          obtain ⟨f,member,same⟩ := List.mem_map.mp again
          exact fresh f member (same ▸ .head _)
        · exact fun f member old => fresh f member (.tail _ old)

variable {tree : Tree} {place : Location} {directory : String}

-- A file of a directory that is read.
structure Taken (tree : Tree) (place : Location) (directory : String) (found : Found) : Prop where
  listed : ∃ names, tree.list (place.child directory).path = .ok names ∧ found.file ∈ names
  named : isContentName found.file = true
  reads : ∃ uuid d, Reads tree (place.child directory) found.file uuid d ∧ d.entity = found.entity

theorem mem_read {found : Found} : found ∈ (((tree.list (place.child directory).path).toOption.getD []).filter
      isContentName |>.map (readFile tree (place.child directory) directory)).filterMap Prod.snd ↔
    Taken tree place directory found := by
  simp only [List.filterMap_map,List.mem_filterMap,List.mem_filter,Function.comp]
  constructor
  · rintro ⟨name,⟨listed,named⟩,came⟩
    obtain ⟨uuid,d,reads,rfl⟩ := reads_of_found came
    refine ⟨?_,named,uuid,d,reads,rfl⟩
    cases names : tree.list (place.child directory).path with
    | error problem =>
        rw [names] at listed
        cases listed
    | ok names' =>
        rw [names] at listed
        exact ⟨names',rfl,listed⟩
  · rintro ⟨⟨names,listed,inside⟩,named,uuid,d,reads,own⟩
    refine ⟨found.file,⟨?_,named⟩,?_⟩
    · rw [listed]
      exact inside
    · rw [reads.readFile_eq,own]

theorem lookInto_quiet (quiet : (lookInto tree place directory).1 = []) :
    (∀ found, found ∈ (lookInto tree place directory).2 ↔ Taken tree place directory found) ∧
      (∀ found, Taken tree place directory found →
        found.entity.entityType = directory ∧ fileUuid? found.file = some found.entity.uuid) ∧
      ((lookInto tree place directory).2.map fun found => found.entity.uuid).Nodup := by
  unfold lookInto readNames at quiet ⊢
  simp only [List.append_eq_nil_iff] at quiet
  obtain ⟨silent,once⟩ := quiet
  obtain ⟨kept,distinct,_⟩ := dropDuplicates_quiet once
  simp only [kept]
  refine ⟨fun found => (byName_all _).mem_iff.trans mem_read,?_,distinct⟩
  rintro found ⟨⟨names,listed,inside⟩,named,uuid,d,reads,own⟩
  rw [listed,Except.toOption,Option.getD_some] at silent
  have nothing := List.flatMap_eq_nil_iff.mp silent _
    (List.mem_map_of_mem (List.mem_filter.mpr ⟨inside,named⟩))
  rw [reads.readFile_eq] at nothing
  obtain ⟨uuids,types⟩ := mismatches_none nothing
  rw [← own]
  exact ⟨types,uuids ▸ reads.named⟩

end Quiet

-- A file that an import takes for content: it stands in a plain directory with a safe name, and is read.
structure Accepted (tree : Tree) (place : Location) (file : Filed) : Prop where
  listed : ∃ directories, tree.list place.path = .ok directories ∧ file.1 ∈ directories
  enters : Enters tree place file.1
  taken : Taken tree place file.1 file.2

section Agreement

variable {tree : Tree} {place : Location} {findings : Findings} (read : readTree tree place = .ok findings)
  (quiet : findings.warnings = [])

include read quiet

theorem directory_quiet {directories : List String} (listed : tree.list place.path = .ok directories) {directory : String}
    (member : directory ∈ directories) (enters : Enters tree place directory) : (lookInto tree place directory).1 = [] := by
  obtain ⟨directories',listed',warnings,_⟩ := readTree_entries read
  obtain rfl := Except.ok.inj (listed.symm.trans listed')
  have silent := List.flatMap_eq_nil_iff.mp (warnings.symm.trans quiet) directory member
  rw [readEntry_entered enters] at silent
  exact silent

theorem mem_files (file : Filed) : file ∈ findings.files ↔ Accepted tree place file := by
  obtain ⟨directory,found⟩ := file
  simp only [Findings.files,List.mem_flatMap,List.mem_map,Prod.mk.injEq]
  constructor
  · rintro ⟨⟨name,group⟩,member,f,held,rfl,rfl⟩
    obtain ⟨directories,listed,inside,enters,_,own⟩ := (mem_groups read).mp member
    have silent := directory_quiet read quiet listed inside enters
    exact ⟨⟨directories,listed,inside⟩,enters,((lookInto_quiet silent).1 f).mp (own ▸ held)⟩
  · rintro ⟨⟨directories,listed,inside⟩,enters,taken⟩
    have held := ((lookInto_quiet (directory_quiet read quiet listed inside enters)).1 found).mpr taken
    exact ⟨(directory,_),(mem_groups read).mpr ⟨directories,listed,inside,enters,List.ne_nil_of_mem held,rfl⟩,
      found,held,rfl,rfl⟩

theorem accepted_names {file : Filed} (accepted : Accepted tree place file) :
    file.entity.entityType = file.1 ∧ fileUuid? file.2.file = some file.entity.uuid := by
  obtain ⟨⟨directories,listed,inside⟩,enters,taken⟩ := accepted
  exact (lookInto_quiet (directory_quiet read quiet listed inside enters)).2.1 _ taken

-- Within a directory the UUIDs differ, and across directories the types do.
theorem refs_distinct : (findings.files.map fun file => file.entity.ref).Nodup := by
  have typed : ∀ file ∈ findings.files, file.entity.entityType = file.1 :=
    fun file member => (accepted_names read quiet ((mem_files read quiet file).mp member)).1
  rw [List.nodup_iff_pairwise_ne,List.pairwise_map]
  have apart : findings.files.Pairwise fun a b => a.1 ≠ b.1 ∨ a.entity.uuid ≠ b.entity.uuid := by
    unfold Findings.files
    rw [List.pairwise_flatMap]
    constructor
    · rintro ⟨directory,found⟩ member
      obtain ⟨directories,listed,inside,enters,_,own⟩ := (mem_groups read).mp member
      have distinct := (lookInto_quiet (directory_quiet read quiet listed inside enters)).2.2
      rw [← own,List.nodup_iff_pairwise_ne,List.pairwise_map] at distinct
      rw [List.pairwise_map]
      exact distinct.imp .inr
    · apply (groups_ordered read).imp
      intro a b less x one y two
      obtain ⟨_,_,rfl⟩ := List.mem_map.mp one
      obtain ⟨_,_,rfl⟩ := List.mem_map.mp two
      exact .inl (KeyOrder.ne_of_before less)
  apply List.Pairwise.imp_of_mem _ apart
  intro a b one two differ same
  rcases differ with types | uuids
  · apply types
    rw [← typed a one,← typed b two]
    exact congrArg EntityRef.entityType same
  · exact uuids (congrArg EntityRef.uuid same)

end Agreement

-- What a report without warnings says of the files: each stands under its own names, no two are about
-- the same entity, and the report counts the entities.
structure Faultless (tree : Tree) (place : Location) (report : Report) : Prop where
  named : ∀ file, Accepted tree place file →
    file.entity.entityType = file.1 ∧ fileUuid? file.2.file = some file.entity.uuid
  apart : ∀ a b, Accepted tree place a → Accepted tree place b → a.entity.ref = b.entity.ref → a = b
  counted : ∃ refs : List EntityRef, refs.Nodup ∧ refs.length = report.total ∧
    ∀ ref, ref ∈ refs ↔ ∃ file, Accepted tree place file ∧ file.entity.ref = ref

-- What an import leaves where there was no content: each file's entity, and no other.
structure Filled (tree : Tree) (place : Location) (report : Report) (content : Store) : Prop where
  size : content.length = report.total
  loads : ∀ ref e, content.load ref = some e ↔ ∃ file, Accepted tree place file ∧ file.entity = e ∧ e.ref = ref

section Foretelling

variable {tree : Tree} {place : Location} {findings : Findings} (read : readTree tree place = .ok findings)
  (quiet : findings.warnings = [])

include read quiet

theorem faultless_preview : Faultless tree place findings.preview := by
  have distinct := refs_distinct read quiet
  refine ⟨fun file accepted => accepted_names read quiet accepted,?_,_,distinct,?_,fun ref => ?_⟩
  · intro a b one two same
    exact List.inj_on_of_nodup_map distinct ((mem_files read quiet a).mpr one) ((mem_files read quiet b).mpr two) same
  · rw [List.length_map,preview_total]
  · rw [List.mem_map]
    exact exists_congr fun file => and_congr_left fun _ => mem_files read quiet file

theorem filled_files : Filled tree place findings.preview ((findings.files.map Filed.entity).foldl Store.save []) := by
  have distinct : ((findings.files.map Filed.entity).map Entity.ref).Nodup := by
    rw [List.map_map]
    exact refs_distinct read quiet
  constructor
  · have rows := Store.saves_perm _ [] distinct fun _ _ => List.not_mem_nil
    rw [rows.length_eq,List.append_nil,List.length_map,List.length_map,preview_total]
  · intro ref e
    have agree : ∀ a ∈ findings.files.map Filed.entity, ∀ b ∈ findings.files.map Filed.entity, a.ref = b.ref → a = b :=
      fun a one b two same => List.inj_on_of_nodup_map distinct one two same
    have nothing : ¬((∀ a ∈ findings.files.map Filed.entity, a.ref ≠ ref) ∧ Store.load [] ref = some e) := by
      rintro ⟨_,odd⟩
      cases odd
    rw [Store.saves_load agree,or_iff_left nothing,List.mem_map]
    constructor
    · rintro ⟨⟨file,member,own⟩,same⟩
      exact ⟨file,(mem_files read quiet file).mp member,own,same⟩
    · rintro ⟨file,accepted,own,same⟩
      exact ⟨⟨file,(mem_files read quiet file).mpr accepted,own⟩,same⟩

end Foretelling

-- A run that only looks changes nothing and comes to what the import comes to when no save fails.
-- Where it has no warning, it counts the entities of the files, and an import where there was no
-- content leaves just these.
theorem validation_predicts_import (desk : Desk) (tree : Tree) (place : Location) :
    match importContent desk tree place true with
    | .error failure => importContent desk tree place false = .error failure
    | .ok (report,left) => left = desk ∧
        (.save ∉ desk.failing → ∃ store, importContent desk tree place false = .ok (report,{ desk with store })) ∧
        (report.warnings = [] → Faultless tree place report ∧
          (.save ∉ desk.failing → ∃ content, Filled tree place report content ∧
            importContent { desk with store := [] } tree place false = .ok (report,{ desk with store := content }))) := by
  have looked := importContent_dry desk tree place
  cases read : readTree tree place with
  | error failure =>
      rw [looked,read]
      unfold importContent
      rw [read]
      rfl
  | ok findings =>
      have ran (desk : Desk) (through : .save ∉ desk.failing) : importContent desk tree place false =
          .ok (findings.preview,{ desk with store := (findings.files.map Filed.entity).foldl Store.save desk.store }) := by
        rw [importContent_through desk through,read,← told_preview read]
      rw [looked,read]
      refine ⟨rfl,fun through => ⟨_,ran desk through⟩,fun quiet => ⟨faultless_preview read quiet,fun through => ?_⟩⟩
      exact ⟨_,filled_files read quiet,ran { desk with store := [] } through⟩

theorem validation_predicts_import_twins :
    let note := Entity.blank "note" "note" "Note" default
    let page := Entity.blank "node" "page" "Page" default
    let tree := siteOf "2024-01-01T00:00:00Z" [("note",note),("node",page)]
    let desk : Desk := { store := [(note.ref,note)] }
    ∃ report, importContent desk tree sitePlace true = .ok (report,desk) ∧ report.warnings = [] ∧ report.total = 2 ∧
      (∃ store, importContent desk tree sitePlace false = .ok (report,{ store })) ∧
      ∃ content : Store, content.length = 2 ∧
        importContent {} tree sitePlace false = .ok (report,{ store := content }) := by
  intro note page tree desk
  have plain : Json.Value.Sorted (.object []) := .object _ .nil (List.forall_mem_nil _)
  have readable : ∀ row ∈ [("note",note),("node",page)], row.2.Sound ∧ Readable "2024-01-01T00:00:00Z" row.2 :=
    List.forall_mem_cons.mpr ⟨⟨⟨by decide,plain,rfl⟩,readable_of_length (by decide) (by decide +kernel) (by decide)⟩,
      List.forall_mem_singleton.mpr
        ⟨⟨by decide,plain,rfl⟩,readable_of_length (by decide) (by decide +kernel) (by decide)⟩⟩
  have read := readTree_site "2024-01-01T00:00:00Z" (by decide) (by unfold IsName; decide) readable
  have sorted : Table.insertAll ([("note",note),("node",page)].map fun row => (row.1,[foundOf row.2])) [] =
      [("node",[foundOf page]),("note",[foundOf note])] := by
    have less : KeyOrder.before "node" "note" = true := by decide
    simp [Table.insertAll,Table.insert,less]
  rw [sorted] at read
  have looked := importContent_dry desk tree sitePlace
  rw [read] at looked
  have foretold := validation_predicts_import desk tree sitePlace
  rw [looked] at foretold
  obtain ⟨_,same,quiet⟩ := foretold
  have silent : [("note",note),("node",page)].flatMap (shelfWarnings "2024-01-01T00:00:00Z") = [] := by
    simp [shelfWarnings,mismatches,Document.ofEntity,note,page,Entity.blank]
  obtain ⟨_,filled⟩ := quiet silent
  obtain ⟨content,⟨size,_⟩,whole⟩ := filled List.not_mem_nil
  exact ⟨_,looked,silent,rfl,same List.not_mem_nil,content,size,whole⟩

end Redline.Exchange
