import Mathlib.Data.List.Perm.Basic
import Redline.Proofs.Documents
import Redline.Proofs.Exporting
import Redline.Proofs.Findings

namespace Redline.Exchange

open Files Files.Tree Json

section Archive

theorem lookup_of_mem {rows : Tree} (distinct : (rows.map Prod.fst).Nodup) {path : Path} {node : Node}
    (member : (path,node) ∈ rows) : List.lookup path rows = some node := by
  induction rows with
  | nil => cases member
  | cons row rest ih =>
      obtain ⟨fresh,others⟩ := List.nodup_cons.mp distinct
      rcases List.mem_cons.mp member with rfl | later
      · simp
      · have apart : (path == row.1) = false := by
          apply beq_eq_false_iff_ne.mpr
          intro same
          exact fresh (List.mem_map.mpr ⟨_,later,same⟩)
        rw [List.lookup_cons,apart]
        exact ih others later

variable (stamp : String) {store : Store}

theorem children_root (types : List String) :
    children (types.flatMap fun entityType => typeRows stamp entityType (store.list entityType)) [] = types := by
  induction types with
  | nil => rfl
  | cons first rest ih =>
      have files : children ((store.list first).map (fileRow stamp)) [] = [] := by
        rw [children,List.filterMap_eq_nil_iff]
        intro row member
        obtain ⟨e,_,rfl⟩ := List.mem_map.mp member
        simp [fileRow]
      rw [List.flatMap_cons,children_append,ih,typeRows,← List.singleton_append,children_append,files]
      rfl

variable (keyed : store.Keyed)

include keyed

theorem typeRows_nodup (ordered : Table.Ordered store) (entityType : String) :
    ((typeRows stamp entityType (store.list entityType)).map Prod.fst).Nodup := by
  have uuids := Store.list_uuids_nodup keyed ordered entityType
  rw [typeRows,List.map_cons,List.nodup_cons]
  constructor
  · intro member
    obtain ⟨row,held,same⟩ := List.mem_map.mp member
    obtain ⟨e,_,rfl⟩ := List.mem_map.mp held
    cases same
  · rw [List.nodup_iff_pairwise_ne,List.pairwise_map] at uuids
    rw [List.map_map,List.nodup_iff_pairwise_ne,List.pairwise_map]
    apply uuids.imp
    intro a b apart same
    exact apart (fileName_injective (same_name same))

variable {types : List String} (ascending : types.Pairwise (· < ·))

theorem typesRows_head {row : Path × Node}
    (member : row ∈ types.flatMap fun entityType => typeRows stamp entityType (store.list entityType)) :
    ∃ entityType ∈ types, row.1.head? = some entityType := by
  obtain ⟨entityType,listed,held⟩ := List.mem_flatMap.mp member
  exact ⟨entityType,listed,typeRows_head stamp entityType (Store.list_typed keyed entityType) row held⟩

include ascending

theorem typesRows_nodup (ordered : Table.Ordered store) :
    ((types.flatMap fun entityType => typeRows stamp entityType (store.list entityType)).map Prod.fst).Nodup := by
  induction types with
  | nil => exact .nil
  | cons entityType rest ih =>
      obtain ⟨first,behind⟩ := List.pairwise_cons.mp ascending
      rw [List.flatMap_cons,List.map_append,List.nodup_append]
      refine ⟨typeRows_nodup stamp keyed ordered entityType,ih behind,?_⟩
      intro path own other member same
      obtain ⟨row,held,rfl⟩ := List.mem_map.mp own
      obtain ⟨row',held',rfl⟩ := List.mem_map.mp member
      obtain ⟨entityType',listed,head⟩ := typesRows_head stamp keyed held'
      rw [← same,typeRows_head stamp entityType (Store.list_typed keyed entityType) row held] at head
      exact String.lt_irrefl _ (Option.some.inj head ▸ first entityType' listed)

theorem children_types (entityType : String) (listed : entityType ∈ types) :
    children (types.flatMap fun entityType => typeRows stamp entityType (store.list entityType)) [entityType] =
      (store.list entityType).map fun e => fileName e.uuid := by
  induction types with
  | nil => cases listed
  | cons first rest ih =>
      obtain ⟨low,behind⟩ := List.pairwise_cons.mp ascending
      rw [List.flatMap_cons,children_append]
      rcases List.mem_cons.mp listed with rfl | later
      · have others : Apart (rest.flatMap fun entityType => typeRows stamp entityType (store.list entityType))
            entityType := by
          intro row member head
          obtain ⟨other,held,here⟩ := typesRows_head stamp keyed member
          rw [here] at head
          exact String.lt_irrefl _ (Option.some.inj head ▸ low other held)
        rw [children_typeRows stamp entityType (Store.list_typed keyed entityType),others.children_eq_nil,List.append_nil]
      · have own : Apart (typeRows stamp first (store.list first)) entityType := by
          intro row member head
          rw [typeRows_head stamp first (Store.list_typed keyed first) row member] at head
          exact String.lt_irrefl _ (Option.some.inj head ▸ low entityType later)
        rw [own.children_eq_nil,List.nil_append,ih behind later]

end Archive

section Reading

theorem isContentName_fileName (uuid : Uuid) : isContentName (fileName uuid) = true := by
  rw [isContentName,Bool.and_eq_true,decide_eq_true_eq]
  exact ⟨fileName_head uuid,fileName_ends uuid⟩

-- What the reader of an export sets as limits for one file, and a directory for its name.
structure Readable (stamp : String) (e : Entity) : Prop where
  name : e.entityType.utf8ByteSize ≤ greatestName
  size : (Document.ofEntity stamp e).page.utf8ByteSize ≤ sizeLimit
  nesting : (Document.ofEntity stamp e).toValue.nesting ≤ greatestDepth

theorem readable_of_length {stamp : String} {e : Entity} (name : e.entityType.utf8ByteSize ≤ greatestName)
    (length : 4 * ((Document.ofEntity stamp e).toValue.indented 0).length + 1 ≤ sizeLimit)
    (nesting : (Document.ofEntity stamp e).toValue.nesting ≤ greatestDepth) : Readable stamp e :=
  ⟨name,Nat.le_trans (page_size _) length,nesting⟩

def foundOf (e : Entity) : Found := ⟨fileName e.uuid,e⟩

theorem byName_all (found : List Found) : (byName found).Perm found := List.mergeSort_perm found _

theorem byName_perm (entities : List Entity) : ((byName (entities.map foundOf)).map Found.entity).Perm entities := by
  have sorted := (byName_all (entities.map foundOf)).map Found.entity
  have own : Found.entity ∘ foundOf = id := rfl
  rwa [List.map_map,own,List.map_id] at sorted

variable {tree : Tree} {place : Location} {here : Path} {left : Nat} (reaches : Reaches tree 40 [] place.path left here)
  (vacant : Vacant tree here) (stamp : String) {rows : Tree} {entityType : String}

include reaches vacant

theorem readFile_found (safe : segmentProblem? entityType = none) {e : Entity} (typed : e.entityType = entityType)
    (sound : e.Sound) (readable : Readable stamp e) (stands : List.lookup [entityType] rows = some .directory)
    (written : List.lookup (fileRow stamp e).1 rows = some (fileRow stamp e).2) :
    readFile (tree ++ below here rows) (place.child entityType) entityType (fileName e.uuid) = ([],some (foundOf e)) := by
  subst typed
  have outer := segment_name safe readable.name
  have plain := fileName_name e.uuid
  have looked : look (tree ++ below here rows) false ((place.child e.entityType).child (fileName e.uuid)).path =
      .ok (.file (.text (Document.ofEntity stamp e).page)) :=
    look_grandchild reaches vacant rows outer plain false stands written
  have reads : Reads (tree ++ below here rows) (place.child e.entityType) (fileName e.uuid) e.uuid
      (Document.ofEntity stamp e) :=
    ⟨⟨_,looked,readable.size,Document.ofText?_page stamp sound readable.nesting⟩,fileUuid?_fileName e.uuid⟩
  have agree : mismatches e.entityType (fileName e.uuid) e.uuid (Document.ofEntity stamp e) = [] := by
    simp [mismatches,Document.ofEntity]
  rw [reads.readFile_eq,agree]
  rfl

omit reaches vacant in
theorem dropDuplicates_distinct (directory : String) {found : List Found} (seen : List Uuid)
    (distinct : (found.map fun f => f.entity.uuid).Nodup) (fresh : ∀ f ∈ found, f.entity.uuid ∉ seen) :
    dropDuplicates directory seen found = ([],found) := by
  induction found generalizing seen with
  | nil => rfl
  | cons first rest ih =>
      obtain ⟨new,others⟩ := List.nodup_cons.mp distinct
      have unseen : ¬seen.contains first.entity.uuid = true := by
        rw [List.contains_iff_mem]
        exact fresh first (.head _)
      rw [dropDuplicates,if_neg unseen,ih (first.entity.uuid :: seen) others]
      intro f member
      rw [List.mem_cons,not_or]
      exact ⟨fun same => new (List.mem_map.mpr ⟨f,member,same⟩),fresh f (.tail _ member)⟩

theorem readNames_found (safe : segmentProblem? entityType = none) {entities : List Entity}
    (distinct : (entities.map Entity.uuid).Nodup) (stands : List.lookup [entityType] rows = some .directory)
    (each : ∀ e ∈ entities, e.entityType = entityType ∧ e.Sound ∧ Readable stamp e ∧
      List.lookup (fileRow stamp e).1 rows = some (fileRow stamp e).2) :
    readNames (tree ++ below here rows) (place.child entityType) entityType (entities.map fun e => fileName e.uuid) =
      ([],byName (entities.map foundOf)) := by
  have named : (entities.map fun e => fileName e.uuid).filter isContentName = entities.map fun e => fileName e.uuid := by
    rw [List.filter_eq_self]
    intro name member
    obtain ⟨e,_,rfl⟩ := List.mem_map.mp member
    exact isContentName_fileName e.uuid
  have read : (entities.map fun e => fileName e.uuid).map
      (readFile (tree ++ below here rows) (place.child entityType) entityType) =
      entities.map fun e => ([],some (foundOf e)) := by
    rw [List.map_map]
    apply List.map_congr_left
    intro e member
    obtain ⟨typed,sound,readable,written⟩ := each e member
    rw [Function.comp_apply,readFile_found reaches vacant stamp safe typed sound readable stands written]
  have found : (entities.map fun e => (([] : List Warning),some (foundOf e))).filterMap Prod.snd =
      entities.map foundOf := by
    rw [List.filterMap_map,← List.filterMap_eq_map]
    rfl
  have silent : (entities.map fun e => (([] : List Warning),some (foundOf e))).flatMap Prod.fst = [] := by
    rw [List.flatMap_eq_nil_iff]
    intro pair member
    obtain ⟨e,_,rfl⟩ := List.mem_map.mp member
    rfl
  have once : ((byName (entities.map foundOf)).map fun f => f.entity.uuid).Nodup := by
    have uuids := ((byName_perm entities).map Entity.uuid).nodup_iff.mpr distinct
    rwa [List.map_map] at uuids
  rw [readNames]
  simp only [named,read,found,silent]
  rw [dropDuplicates_distinct entityType [] once (fun _ _ => List.not_mem_nil)]
  rfl

end Reading

section Entries

variable {tree : Tree} {place : Location} {here : Path} {left : Nat} (reaches : Reaches tree 40 [] place.path left here)
  (vacant : Vacant tree here) (stamp : String) {store : Store} (formed : store.WellFormed)

def groupOf (store : Store) (entityType : String) : String × List Found :=
  (entityType,byName ((store.list entityType).map foundOf))

def groupsOf (store : Store) : List (String × List Found) := (safeTypes store).map (groupOf store)

include formed in
theorem lookup_archive {path : Path} {node : Node} (member : (path,node) ∈ archive stamp store) :
    List.lookup path (archive stamp store) = some node :=
  lookup_of_mem (typesRows_nodup stamp formed.keyed (safeTypes_ascending formed.ordered) formed.ordered) member

include formed in
theorem archive_directory {entityType : String} (listed : entityType ∈ safeTypes store) :
    List.lookup [entityType] (archive stamp store) = some .directory :=
  lookup_archive stamp formed (List.mem_flatMap.mpr ⟨entityType,listed,.head _⟩)

include formed in
theorem archive_file {entityType : String} (listed : entityType ∈ safeTypes store) {e : Entity}
    (own : e ∈ store.list entityType) :
    List.lookup (fileRow stamp e).1 (archive stamp store) = some (fileRow stamp e).2 := by
  have member : fileRow stamp e ∈ typeRows stamp entityType (store.list entityType) :=
    List.mem_cons_of_mem _ (List.mem_map.mpr ⟨e,own,rfl⟩)
  exact lookup_archive stamp formed (List.mem_flatMap.mpr ⟨entityType,listed,member⟩)

include formed in
theorem archive_filled : ∀ row ∈ archive stamp store, row.1 ≠ [] := by
  intro row member
  obtain ⟨_,_,head⟩ := typesRows_head stamp formed.keyed member
  exact filled_of_head head

variable (sound : ∀ row ∈ store, row.2.Sound)
  (readable : ∀ row ∈ store, isSafe row.1.entityType = true → Readable stamp row.2)

include reaches vacant formed sound readable

theorem readEntry_found {entityType : String} (listed : entityType ∈ safeTypes store) (findings : Findings) :
    readEntry (tree ++ below here (archive stamp store)) place findings entityType =
      { findings with groups := Table.insert entityType (groupOf store entityType).2 findings.groups } := by
  obtain ⟨member,accepted⟩ := List.mem_filter.mp listed
  have safe : segmentProblem? entityType = none := Option.isNone_iff_eq_none.mp accepted
  have each : ∀ e ∈ store.list entityType, e.entityType = entityType ∧ e.Sound ∧ Readable stamp e ∧
      List.lookup (fileRow stamp e).1 (archive stamp store) = some (fileRow stamp e).2 := by
    intro e own
    obtain ⟨stored,rfl⟩ := (Store.mem_list formed.keyed).mp own
    exact ⟨rfl,sound _ stored,readable _ stored accepted,archive_file stamp formed listed own⟩
  have filled := Store.list_nonempty formed.keyed member
  obtain ⟨e,own⟩ := List.exists_mem_of_ne_nil _ filled
  have outer : IsName entityType := segment_name safe (by
    obtain ⟨typed,_,readable,_⟩ := each e own
    exact typed ▸ readable.name)
  have stands := archive_directory stamp formed listed
  have enters : Enters (tree ++ below here (archive stamp store)) place entityType :=
    ⟨(segment_solid safe).2,look_child reaches vacant _ outer false stands,safe⟩
  have names : Tree.list (tree ++ below here (archive stamp store)) (place.child entityType).path =
      .ok ((store.list entityType).map fun e => fileName e.uuid) := by
    rw [← children_types stamp formed.keyed (safeTypes_ascending formed.ordered) entityType listed]
    exact list_child reaches vacant _ outer stands (archive_filled stamp formed)
  have read := readNames_found reaches vacant stamp safe (Store.list_uuids_nodup formed.keyed formed.ordered entityType) stands each
  have present : (byName ((store.list entityType).map foundOf)).isEmpty = false := by
    rw [List.isEmpty_eq_false_iff]
    intro nothing
    have perm := byName_perm (store.list entityType)
    rw [nothing] at perm
    exact filled perm.symm.eq_nil
  have inside : lookInto (tree ++ below here (archive stamp store)) place entityType = ([],(groupOf store entityType).2) := by
    unfold lookInto
    rw [names]
    exact read
  rw [readEntry_entered enters,inside]
  simp only [groupOf,present,List.append_nil,Bool.false_eq_true,if_false]

theorem readEntries_found (types : List String) (findings : Findings)
    (listed : ∀ entityType ∈ types, entityType ∈ safeTypes store) (ascending : types.Pairwise (· < ·))
    (last : ∀ row ∈ findings.groups, ∀ entityType ∈ types, KeyOrder.before row.1 entityType = true) :
    types.foldl (readEntry (tree ++ below here (archive stamp store)) place) findings =
      { findings with groups := findings.groups ++ types.map (groupOf store) } := by
  induction types generalizing findings with
  | nil => rw [List.map_nil,List.append_nil]; rfl
  | cons first rest ih =>
      obtain ⟨low,behind⟩ := List.pairwise_cons.mp ascending
      have entry := readEntry_found reaches vacant stamp formed sound readable (listed first (.head _)) findings
      rw [Table.insert_last fun row member => last row member first (.head _)] at entry
      rw [List.foldl_cons,entry,ih _ (fun other member => listed other (.tail _ member)) behind]
      · rw [List.append_assoc]
        rfl
      · intro row member other later
        rcases List.mem_append.mp member with before | new
        · exact last row before other (.tail _ later)
        · rw [List.mem_singleton.mp new]
          exact decide_eq_true (low other later)

theorem readTree_archive : readTree (tree ++ below here (archive stamp store)) place =
    .ok { groups := groupsOf store } := by
  have names : Tree.list (tree ++ below here (archive stamp store)) place.path = .ok (safeTypes store) := by
    rw [list_here reaches vacant _ (archive_filled stamp formed),archive,children_root stamp (safeTypes store)]
  have read := readEntries_found reaches vacant stamp formed sound readable (safeTypes store) {}
    (fun _ member => member) (safeTypes_ascending formed.ordered) (List.forall_mem_nil _)
  simp only [readTree,names,read]
  rfl

end Entries

section Saving

def entitiesOf (groups : List (String × List Found)) : List Entity :=
  groups.flatMap fun group => group.2.map Found.entity

def countGroup (counts : Table String Nat) (group : String × List Found) : Table String Nat :=
  countTimes group.1 group.2.length counts

variable {target : Desk} (working : target.failing = [])

include working

theorem saveFound_working (directory : String) (found : List Found) (report : Report) :
    found.foldl (saveFound directory) (report,target) =
      ({ report with counts := countTimes directory found.length report.counts },
        { target with store := (found.map Found.entity).foldl Store.save target.store }) := by
  induction found generalizing report target with
  | nil => rfl
  | cons first rest ih =>
      have saved : saveFound directory (report,target) first =
          (report.count directory,{ target with store := target.store.save first.entity }) := by
        simp only [saveFound,save_working working]
      rw [List.foldl_cons,saved,@ih { target with store := target.store.save first.entity } working]
      rfl

theorem saveGroups_working (groups : List (String × List Found)) (report : Report) :
    groups.foldl saveGroup (report,target) = ({ report with counts := groups.foldl countGroup report.counts },
      { target with store := (entitiesOf groups).foldl Store.save target.store }) := by
  induction groups generalizing report target with
  | nil => rfl
  | cons first rest ih =>
      have saved : saveGroup (report,target) first =
          ({ report with counts := countTimes first.1 first.2.length report.counts },
            { target with store := (first.2.map Found.entity).foldl Store.save target.store }) :=
        saveFound_working working first.1 first.2 report
      have behind := @ih { target with store := (first.2.map Found.entity).foldl Store.save target.store } working
      rw [List.foldl_cons,saved,behind,entitiesOf,entitiesOf,List.flatMap_cons,List.foldl_append]
      rfl

end Saving

section Restoring

variable {store : Store} (formed : store.WellFormed)

include formed

theorem groups_rows : ((entitiesOf (groupsOf store)).map fun e => (e.ref,e)).Perm
    (store.filter fun row => isSafe row.1.entityType) := by
  rw [entitiesOf,groupsOf,List.flatMap_map,List.map_flatMap]
  have each : ∀ entityType ∈ safeTypes store, (((groupOf store entityType).2.map Found.entity).map fun e =>
      (e.ref,e)).Perm (store.filter fun row => row.1.entityType = entityType) := by
    intro entityType _
    rw [← Store.rows_list formed.keyed entityType]
    exact (byName_perm (store.list entityType)).map _
  have distinct : (safeTypes store).Nodup := (Store.types_nodup formed.ordered).filter _
  rw [← safeTypes_rows]
  exact (List.Perm.flatMap_left _ each).trans (Store.groups_perm store distinct)

theorem groups_saved : (entitiesOf (groupsOf store)).foldl Store.save [] =
    store.filter fun row => isSafe row.1.entityType :=
  Store.saves_rows (formed.ordered.filter _) (groups_rows formed)

theorem groups_counted : (groupsOf store).foldl countGroup [] = safeCounts store := by
  have count (counts : Table String Nat) (entityType : String) :
      countGroup counts (groupOf store entityType) = countTimes entityType (store.list entityType).length counts := by
    rw [countGroup,← (byName_perm (store.list entityType)).length_eq,List.length_map,groupOf]
  rw [groupsOf,List.foldl_map]
  simp only [count]
  exact safeTypes_counted formed

def Refuses (entityType : String) (warning : Warning) : Prop :=
  ∃ problem, segmentProblem? entityType = some problem ∧ warning = .unsafeType problem

omit formed in
theorem unsafeWarnings_refuse (store : Store) :
    List.Forall₂ Refuses (store.types.filter fun entityType => !isSafe entityType) (unsafeWarnings store) := by
  rw [unsafeWarnings]
  induction store.types with
  | nil => exact .nil
  | cons entityType rest ih =>
      cases problem : segmentProblem? entityType with
      | none =>
          rw [List.filter_cons_of_neg (by simp [isSafe_none problem]),List.filterMap_cons,problem]
          exact ih
      | some found =>
          rw [List.filter_cons_of_pos (by simp [isSafe_some problem]),List.filterMap_cons,problem]
          exact .cons ⟨found,problem,rfl⟩ ih

end Restoring

-- An export into an empty directory, imported where there is no content, gives back the entities
-- whose type has a safe name as they were. Each other type has one warning, and the import has none.
theorem export_restores {tree : Tree} {order : ExportOrder} (empty : EmptyAt tree order.place.path)
    {source target : Desk} (working : source.failing = []) (receiving : target.failing = [])
    (blank : target.store = []) (formed : source.store.WellFormed)
    (sound : ∀ row ∈ source.store, row.2.Sound)
    (readable : ∀ row ∈ source.store, isSafe row.1.entityType = true → Readable order.stamp row.2) :
    ∃ exported files imported, exportContent source order tree = (.ok exported,files) ∧
      importContent target files order.place false =
        .ok (imported,{ target with store := source.store.filter fun row => isSafe row.1.entityType }) ∧
      (∃ types : List String, types.Nodup ∧
        (∀ entityType, entityType ∈ types ↔
          isSafe entityType = false ∧ ∃ row ∈ source.store, row.1.entityType = entityType) ∧
        List.Forall₂ Refuses types exported.warnings) ∧
      imported.warnings = [] ∧ exported.counts = safeCounts source.store ∧
      imported.counts = safeCounts source.store := by
  obtain ⟨here,leads,stands,vacant⟩ := empty
  obtain ⟨left,reaches⟩ := reaches_of_walk leads stands
  have short : ∀ entityType ∈ source.store.types, isSafe entityType = true →
      entityType.utf8ByteSize ≤ greatestName := by
    intro entityType listed safe
    obtain ⟨row,member,typed⟩ := (Store.mem_types source.store entityType).mp listed
    have own : row.2.entityType = row.1.entityType := congrArg EntityRef.entityType (formed.keyed row member)
    have fits := (readable row member (typed ▸ safe)).name
    rwa [own,typed] at fits
  have written := exportContent_archive reaches vacant working formed short
  have read := readTree_archive reaches vacant order.stamp formed sound readable
  have saved := saveGroups_working receiving (groupsOf source.store) {}
  rw [blank,groups_saved formed,groups_counted formed] at saved
  refine ⟨_,_,{ counts := safeCounts source.store },written,?_,?_,rfl,rfl,rfl⟩
  · rw [importContent,read]
    exact congrArg Except.ok saved
  · refine ⟨_,(Store.types_nodup formed.ordered).filter _,?_,unsafeWarnings_refuse source.store⟩
    intro entityType
    rw [List.mem_filter,Store.mem_types,Bool.not_eq_true',and_comm]

theorem export_restores_page :
    let page : Entity := { Entity.blank "node" "page" "Caf\u00e9 \"au lait\"" ⟨List.replicate 32 1,by decide⟩ with
      changed := -7
      fields := [("sizes",.object [("list",.array [.whole 18446744073709551615,.null])])] }
    let note : Entity := Entity.blank "a/b" "note" "Note" ⟨List.replicate 32 2,by decide⟩
    let source : Desk := { store := [(note.ref,note),(page.ref,page)] }
    let order : ExportOrder := ⟨⟨"site",["site"]⟩,true,"2024-01-01T00:00:00Z"⟩
    ∃ exported files imported, exportContent source order [(["site"],.directory)] = (.ok exported,files) ∧
      importContent {} files order.place false = .ok (imported,{ store := [(page.ref,page)] }) ∧
      exported.warnings = [.unsafeType (.separator "a/b")] ∧ imported.warnings = [] ∧
      exported.counts = [("node",1)] ∧ imported.counts = [("node",1)] := by
  intro page note source order
  have empty : EmptyAt [(["site"],.directory)] order.place.path := by
    have plain : IsName "site" := ⟨by decide,by decide,by decide,by decide⟩
    refine ⟨["site"],?_,rfl,?_⟩
    · exact (walk_enter plain rfl).trans (by rw [walk]; rfl)
    · intro row member _
      rw [List.mem_singleton.mp member]
  have fields : (Value.object page.fields).Sorted := by
    refine .object _ (List.pairwise_singleton _ _) (List.forall_mem_singleton.mpr ?_)
    refine .object _ (List.pairwise_singleton _ _) (List.forall_mem_singleton.mpr ?_)
    exact .array _ (List.forall_mem_cons.mpr ⟨.number _,List.forall_mem_singleton.mpr .null⟩)
  have rows {P : EntityRef × Entity → Prop} (first : P (note.ref,note)) (last : P (page.ref,page)) :
      ∀ row ∈ source.store, P row := List.forall_mem_cons.mpr ⟨first,List.forall_mem_singleton.mpr last⟩
  have sound : ∀ row ∈ source.store, row.2.Sound :=
    rows ⟨by decide,.object _ .nil (List.forall_mem_nil _),rfl⟩ ⟨by decide,fields,by decide⟩
  have readable : ∀ row ∈ source.store, isSafe row.1.entityType = true → Readable order.stamp row.2 :=
    rows (fun safe => absurd safe (by decide)) fun _ =>
      readable_of_length (by decide) (by decide +kernel) (by decide)
  have ordered : Table.Ordered source.store :=
    List.pairwise_cons.mpr ⟨List.forall_mem_singleton.mpr (by decide),List.pairwise_singleton _ _⟩
  obtain ⟨exported,files,imported,written,read,⟨types,distinct,names,refused⟩,silent,counted,taken⟩ :=
    @export_restores _ order empty source {} rfl rfl rfl ⟨rows rfl rfl,ordered⟩ sound readable
  have one : types = ["a/b"] := by
    apply List.perm_singleton.mp
    apply (List.perm_ext_iff_of_nodup distinct (List.pairwise_singleton _ _)).mpr
    intro entityType
    rw [names,List.mem_singleton]
    constructor
    · rintro ⟨refused,row,member,rfl⟩
      revert refused
      revert row
      exact rows (fun _ => rfl) fun safe => absurd safe (by decide)
    · rintro rfl
      exact ⟨by decide,_,.head _,rfl⟩
  subst one
  have safe : source.store.filter (fun row => isSafe row.1.entityType) = [(page.ref,page)] := by
    change List.filter _ [(note.ref,note),(page.ref,page)] = _
    rw [List.filter_cons_of_neg (by decide +kernel),List.filter_cons_of_pos (by decide),List.filter_nil]
  have counts : safeCounts source.store = [("node",1)] := by decide
  rw [safe] at read
  rw [counts] at counted taken
  refine ⟨exported,files,imported,written,read,?_,silent,counted,taken⟩
  obtain ⟨warning,others,⟨problem,found,rfl⟩,ended,warnings⟩ := List.forall₂_cons_left_iff.mp refused
  cases List.forall₂_nil_left_iff.mp ended
  have broken : segmentProblem? "a/b" = some (.separator "a/b") := by decide
  rw [broken] at found
  cases found
  exact warnings

end Redline.Exchange
