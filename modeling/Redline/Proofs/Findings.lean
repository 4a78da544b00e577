import Redline.Exchange.Import
import Redline.Proofs.Ordering

namespace Redline.Exchange

open Files Files.Tree

section Following

theorem walk_followed {tree : Tree} {links : Nat} {current rest place : Path}
    (leads : walk tree false links current rest = .ok place) (plain : ∀ target, node? tree place ≠ some (.link target)) :
    walk tree true links current rest = .ok place := by
  fun_induction walk tree false links current rest with
  | case1 => rw [walk]; exact leads
  | case2 links current name rest dot ih => rw [walk,if_pos dot,ih leads]
  | case3 links current rest dot ih => rw [walk,if_neg dot,if_pos rfl,ih leads]
  | case4 | case6 | case9 | case11 | case12 => cases leads
  | case5 links current name rest dot dots long here stands last
  | case8 links current name rest dot dots long here content stands last =>
      change node? tree (current ++ [name]) = _ at stands
      rw [walk,if_neg dot,if_neg dots,if_neg long]
      simp only [stands,last]
      exact leads
  | case7 links current name rest dot dots long here stands ih =>
      change node? tree (current ++ [name]) = _ at stands
      rw [walk,if_neg dot,if_neg dots,if_neg long]
      simp only [stands]
      exact ih leads
  | case10 links current name rest dot dots long here target stands last =>
      have same := Except.ok.inj leads
      rw [← same] at plain
      exact absurd stands (plain target)
  | case13 current name rest dot dots long here target stands last links relative ih =>
      change node? tree (current ++ [name]) = _ at stands
      have onward : ¬(rest.isEmpty && !true) = true := by simp
      rw [walk,if_neg dot,if_neg dots,if_neg long]
      simp only [stands]
      rw [if_neg onward,if_neg relative]
      exact ih leads

theorem look_followed {tree : Tree} {path : Path} {node : Node} (looked : look tree false path = .ok node)
    (plain : ∀ target, node ≠ .link target) : look tree true path = .ok node := by
  unfold look resolve at looked ⊢
  cases leads : walk tree false 40 [] path with
  | error problem =>
      rw [leads] at looked
      cases looked
  | ok place =>
      simp only [leads,bind,Except.bind] at looked
      cases stands : node? tree place with
      | none =>
          rw [stands] at looked
          cases looked
      | some held =>
          rw [stands] at looked
          obtain rfl := Except.ok.inj looked
          have goes := walk_followed leads fun target link => plain target (Option.some.inj (stands.symm.trans link))
          simp only [goes,bind,Except.bind,stands]
          rfl

end Following

section OneFile

-- A file that is read: no link, not too large, named for a UUID, and its text a document.
structure Reads (tree : Tree) (here : Location) (name : String) (uuid : Uuid) (d : Document) : Prop where
  text : ∃ text, look tree false (here.child name).path = .ok (.file (.text text)) ∧
    text.utf8ByteSize ≤ sizeLimit ∧ Document.ofText? text = some d
  named : fileUuid? name = some uuid

variable {tree : Tree} {here : Location} {directory name : String} {uuid : Uuid} {d : Document}

theorem Reads.readFile_eq (reads : Reads tree here name uuid d) (directory : String) :
    readFile tree here directory name = (mismatches directory name uuid d,some ⟨name,d.entity⟩) := by
  obtain ⟨⟨text,looked,small,document⟩,named⟩ := reads
  have followed := look_followed looked fun target odd => by cases odd
  have read : readText tree (here.child name).path = .ok text := by
    unfold readText
    rw [followed]
    rfl
  simp only [Exchange.readFile,looked,Content.size,if_neg (Nat.not_lt.mpr small),named,read,document]

theorem look_of_text {path : Path} {text : String} (read : readText tree path = .ok text) :
    look tree true path = .ok (.file (.text text)) := by
  unfold readText at read
  cases looked : look tree true path with
  | error problem =>
      rw [looked] at read
      cases read
  | ok node =>
      rw [looked] at read
      cases node with
      | directory | link => cases read
      | file content =>
          cases content with
          | bytes => cases read
          | text held =>
              obtain rfl := Except.ok.inj read
              rfl

theorem readFile_unread {problem : Problem} (unread : readText tree (here.child name).path = .error problem)
    (directory : String) : (readFile tree here directory name).2 = none := by
  cases looked : look tree false (here.child name).path with
  | error => simp only [readFile,looked]
  | ok node =>
      cases node with
      | link => simp only [readFile,looked]
      | directory | file =>
          simp only [readFile,looked,unread]
          split
          · rfl
          · cases fileUuid? name <;> rfl

theorem reads_of_found {found : Found} (came : (readFile tree here directory name).2 = some found) :
    ∃ uuid d, Reads tree here name uuid d ∧ found = ⟨name,d.entity⟩ := by
  cases read : readText tree (here.child name).path with
  | error problem =>
      rw [readFile_unread read] at came
      cases came
  | ok text =>
      have followed := look_of_text read
      cases looked : look tree false (here.child name).path with
      | error =>
          simp only [readFile,looked] at came
          cases came
      | ok node =>
          by_cases link : ∃ target, node = .link target
          · obtain ⟨target,rfl⟩ := link
            simp only [readFile,looked] at came
            cases came
          · rw [look_followed looked fun target odd => link ⟨target,odd⟩] at followed
            obtain rfl := Except.ok.inj followed
            simp only [readFile,looked,read] at came
            split at came
            · cases came
            · rename_i small
              cases named : fileUuid? name with
              | none =>
                  simp only [named] at came
                  cases came
              | some uuid =>
                  cases document : Document.ofText? text with
                  | none =>
                      simp only [named,document] at came
                      cases came
                  | some d =>
                      simp only [named,document] at came
                      exact ⟨uuid,d,⟨⟨text,looked,Nat.not_lt.mp small,document⟩,named⟩,(Option.some.inj came).symm⟩

theorem found_file {found : Found} (came : (readFile tree here directory name).2 = some found) : found.file = name := by
  obtain ⟨_,_,_,rfl⟩ := reads_of_found came
  rfl

end OneFile

section Entries

variable {tree : Tree} {place : Location}

-- A plain directory with a safe name is looked into, unless the name starts with a dot.
structure Enters (tree : Tree) (place : Location) (directory : String) : Prop where
  visible : directory.toList.head? ≠ some '.'
  plain : look tree false (place.child directory).path = .ok .directory
  safe : segmentProblem? directory = none

def lookInto (tree : Tree) (place : Location) (directory : String) : List Warning × List Found :=
  readNames tree (place.child directory) directory ((tree.list (place.child directory).path).toOption.getD [])

theorem readEntry_entered {directory : String} (enters : Enters tree place directory) (findings : Findings) :
    readEntry tree place findings directory =
      { warnings := findings.warnings ++ (lookInto tree place directory).1
        groups := if (lookInto tree place directory).2.isEmpty then findings.groups
          else findings.groups.insert directory (lookInto tree place directory).2 } := by
  obtain ⟨visible,plain,safe⟩ := enters
  simp only [readEntry,if_neg visible,plain,safe]
  rfl

theorem readEntry_passed {directory : String} (passed : ¬Enters tree place directory) :
    ∃ warnings, ∀ findings, readEntry tree place findings directory =
      { findings with warnings := findings.warnings ++ warnings } := by
  by_cases hidden : directory.toList.head? = some '.'
  · refine ⟨[],fun findings => ?_⟩
    simp only [readEntry,if_pos hidden,List.append_nil]
  · cases looked : look tree false (place.child directory).path with
    | error problem => exact ⟨[],fun findings => by simp only [readEntry,if_neg hidden,looked,List.append_nil]⟩
    | ok node =>
        cases node with
        | file | link => exact ⟨[],fun findings => by simp only [readEntry,if_neg hidden,looked,List.append_nil]⟩
        | directory =>
            cases safe : segmentProblem? directory with
            | none => exact absurd ⟨hidden,looked,safe⟩ passed
            | some problem =>
                exact ⟨[.unsafeDirectory problem],fun findings => by simp only [readEntry,if_neg hidden,looked,safe]⟩

theorem readEntry_adds (findings : Findings) (directory : String) : readEntry tree place findings directory =
    { warnings := findings.warnings ++ (readEntry tree place {} directory).warnings
      groups := Table.insertAll (readEntry tree place {} directory).groups findings.groups } := by
  by_cases enters : Enters tree place directory
  · simp only [readEntry_entered enters]
    split <;> rfl
  · obtain ⟨warnings,adds⟩ := readEntry_passed enters
    simp only [adds]
    rfl

-- The group of an entry: the files of its directory, if there are any.
theorem mem_entryGroups {directory : String} {group : String × List Found} :
    group ∈ (readEntry tree place {} directory).groups ↔
      Enters tree place directory ∧ group.2 ≠ [] ∧ group = (directory,(lookInto tree place directory).2) := by
  by_cases enters : Enters tree place directory
  · rw [readEntry_entered enters,and_iff_right enters]
    cases found : (lookInto tree place directory).2 with
    | nil =>
        simp only [List.isEmpty_nil,if_true]
        refine ⟨fun odd => (by cases odd),?_⟩
        rintro ⟨filled,rfl⟩
        exact absurd rfl filled
    | cons first rest =>
        simp only [List.isEmpty_cons,Bool.false_eq_true,if_false]
        refine List.mem_singleton.trans ⟨?_,And.right⟩
        rintro rfl
        exact ⟨List.cons_ne_nil _ _,rfl⟩
  · obtain ⟨warnings,adds⟩ := readEntry_passed enters
    rw [adds]
    exact ⟨fun odd => (by cases odd),fun odd => absurd odd.1 enters⟩

theorem readEntries_add (directories : List String) (findings : Findings) :
    directories.foldl (readEntry tree place) findings =
      { warnings := findings.warnings ++ directories.flatMap fun directory => (readEntry tree place {} directory).warnings
        groups := Table.insertAll (directories.flatMap fun directory => (readEntry tree place {} directory).groups)
          findings.groups } := by
  induction directories generalizing findings with
  | nil => simp [Table.insertAll]
  | cons directory rest ih =>
      rw [List.foldl_cons,ih,readEntry_adds findings directory]
      simp only [List.flatMap_cons,List.append_assoc,Table.insertAll,List.foldl_append]

theorem entryGroups_agree (directories : List String) : let rows := directories.flatMap fun directory =>
      (readEntry tree place {} directory).groups
    ∀ a ∈ rows, ∀ b ∈ rows, a.1 = b.1 → a = b := by
  intro rows a one b two same
  obtain ⟨directory,_,own⟩ := List.mem_flatMap.mp one
  obtain ⟨other,_,own'⟩ := List.mem_flatMap.mp two
  obtain ⟨_,_,here⟩ := mem_entryGroups.mp own
  obtain ⟨_,_,there⟩ := mem_entryGroups.mp own'
  rw [here,there] at same ⊢
  cases same
  rfl

theorem lookInto_lone {tree : Tree} {place : Location} {directory name : String} {uuid : Uuid} {d : Document}
    (listed : tree.list (place.child directory).path = .ok [name]) (content : isContentName name = true)
    (reads : Reads tree (place.child directory) name uuid d) :
    lookInto tree place directory = (mismatches directory name uuid d,[⟨name,d.entity⟩]) := by
  have kept : [name].filter isContentName = [name] := List.filter_cons_of_pos content
  unfold lookInto
  simp only [listed,Except.toOption,Option.getD_some,readNames,kept,List.map_cons,List.map_nil,reads.readFile_eq]
  simp [byName,dropDuplicates]

end Entries

section Groups

variable {tree : Tree} {place : Location} {findings : Findings} (read : readTree tree place = .ok findings)

include read

theorem readTree_entries : ∃ directories, tree.list place.path = .ok directories ∧
    findings.warnings = directories.flatMap (fun directory => (readEntry tree place {} directory).warnings) ∧
    findings.groups =
      Table.insertAll (directories.flatMap fun directory => (readEntry tree place {} directory).groups) [] := by
  unfold readTree at read
  cases listed : tree.list place.path with
  | error problem =>
      rw [listed] at read
      cases read
  | ok directories =>
      rw [listed] at read
      obtain rfl := Except.ok.inj read
      refine ⟨directories,rfl,?_,?_⟩ <;> simp only [readEntries_add]
      rfl

theorem groups_ordered : Table.Ordered findings.groups := by
  obtain ⟨directories,_,_,groups⟩ := readTree_entries read
  rw [groups]
  exact Table.ordered_insertAll _ .nil

theorem mem_groups {group : String × List Found} : group ∈ findings.groups ↔ ∃ directories,
    tree.list place.path = .ok directories ∧ group.1 ∈ directories ∧ Enters tree place group.1 ∧ group.2 ≠ [] ∧
      group.2 = (lookInto tree place group.1).2 := by
  obtain ⟨directory,found⟩ := group
  obtain ⟨directories,listed,_,groups⟩ := readTree_entries read
  have ordered := groups_ordered read
  rw [← Table.find?_iff ordered,groups,Table.find?_insertAll (entryGroups_agree directories)]
  constructor
  · rintro (held | ⟨_,odd⟩)
    · obtain ⟨entry,member,own⟩ := List.mem_flatMap.mp held
      obtain ⟨enters,filled,same⟩ := mem_entryGroups.mp own
      obtain ⟨rfl,rfl⟩ := Prod.mk.inj same
      exact ⟨directories,listed,member,enters,filled,rfl⟩
    · cases odd
  · rintro ⟨directories',listed',member,enters,filled,own⟩
    obtain rfl := Except.ok.inj (listed.symm.trans listed')
    exact .inl (List.mem_flatMap.mpr ⟨directory,member,mem_entryGroups.mpr ⟨enters,filled,Prod.ext rfl own⟩⟩)

end Groups

end Redline.Exchange
