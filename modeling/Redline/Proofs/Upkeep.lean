import Redline.Proofs.Exporting

namespace Redline.Exchange

open Files Files.Tree

section Shelves

-- What stands below the place of the exports.
inductive Shelved : Path × Node → Prop where
  | directory {entityType : String} (safe : segmentProblem? entityType = none)
      (short : entityType.utf8ByteSize ≤ greatestName) : Shelved ([entityType],.directory)
  | file (stamp : String) (e : Entity) :
      Shelved ([e.entityType,fileName e.uuid],.file (.text (Document.ofEntity stamp e).page))

structure Archived (rows : Tree) : Prop where
  distinct : (rows.map Prod.fst).Nodup
  shelved : ∀ row ∈ rows, Shelved row
  housed : ∀ entityType name node, List.lookup [entityType,name] rows = some node →
    List.lookup [entityType] rows = some .directory

namespace Archived

theorem of_nil : Archived [] := by
  refine ⟨.nil,List.forall_mem_nil _,?_⟩
  intro entityType name node held
  cases held

variable {rows : Tree} (archived : Archived rows)

include archived

theorem paths_filled : ∀ row ∈ rows, row.1 ≠ [] := by
  intro row member
  cases archived.shelved row member with
  | directory => exact List.cons_ne_nil _ _
  | file => exact List.cons_ne_nil _ _

theorem lookup_directory {entityType : String} {node : Node} (held : List.lookup [entityType] rows = some node) :
    node = .directory ∧ segmentProblem? entityType = none ∧ entityType.utf8ByteSize ≤ greatestName := by
  cases archived.shelved _ (mem_of_lookup held) with
  | directory safe short => exact ⟨rfl,safe,short⟩

theorem lookup_file {entityType name : String} {node : Node} (held : List.lookup [entityType,name] rows = some node) :
    ∃ stamp e, e.entityType = entityType ∧ fileName e.uuid = name ∧
      node = .file (.text (Document.ofEntity stamp e).page) := by
  cases archived.shelved _ (mem_of_lookup held) with
  | file stamp e => exact ⟨stamp,e,rfl,rfl,rfl⟩

theorem put_shelved {row : Path × Node} (shelved : Shelved row) : ∀ other ∈ put rows row.1 row.2, Shelved other := by
  intro other member
  rcases mem_put rows row.2 member with rfl | before
  · exact shelved
  · exact archived.shelved other before

theorem put_directory {entityType : String} (safe : segmentProblem? entityType = none)
    (short : entityType.utf8ByteSize ≤ greatestName) : Archived (put rows [entityType] .directory) := by
  refine ⟨put_distinct _ archived.distinct,archived.put_shelved (.directory safe short),?_⟩
  intro other name node held
  rw [lookup_put_other rows _ (by simp)] at held
  by_cases own : other = entityType
  · rw [own]
    exact lookup_put_self rows _
  · rw [lookup_put_other rows _ (by simpa using own)]
    exact archived.housed other name node held

theorem put_file (stamp : String) {e : Entity} (stands : List.lookup [e.entityType] rows = some .directory) :
    Archived (put rows (fileRow stamp e).1 (fileRow stamp e).2) := by
  refine ⟨put_distinct _ archived.distinct,archived.put_shelved (.file stamp e),?_⟩
  intro other name node held
  rw [lookup_put_other rows _ (by simp [fileRow])]
  by_cases own : [other,name] = (fileRow stamp e).1
  · rw [(List.cons.inj own).1]
    exact stands
  · rw [lookup_put_other rows _ own] at held
    exact archived.housed other name node held

theorem drop_file (entityType name : String) : Archived (drop rows [entityType,name]) := by
  refine ⟨drop_distinct archived.distinct,fun row member => archived.shelved row (List.mem_filter.mp member).1,?_⟩
  intro other name' node held
  rw [lookup_drop_other rows (by simp)]
  by_cases own : [other,name'] = [entityType,name]
  · rw [own,lookup_drop_self] at held
    cases held
  · rw [lookup_drop_other rows own] at held
    exact archived.housed other name' node held

end Archived

-- The file of an entity holds it: it is freshly written, or it stood there and was found to say the same.
def Kept (stamp : String) (before after : Tree) (e : Entity) : Prop :=
  ∃ text, List.lookup [e.entityType,fileName e.uuid] after = some (.file (.text text)) ∧
    (text = (Document.ofEntity stamp e).page ∨
      List.lookup [e.entityType,fileName e.uuid] before = some (.file (.text text)) ∧
        (Document.ofEntity stamp e).isHeldBy text = true)

theorem Kept.of_lookup {stamp : String} {before after before' after' : Tree} {e : Entity} (kept : Kept stamp before after e)
    (first : List.lookup [e.entityType,fileName e.uuid] before' = List.lookup [e.entityType,fileName e.uuid] before)
    (last : List.lookup [e.entityType,fileName e.uuid] after' = List.lookup [e.entityType,fileName e.uuid] after) :
    Kept stamp before' after' e := by
  obtain ⟨text,held,content⟩ := kept
  exact ⟨text,last.trans held,content.imp_right (And.imp_left first.trans)⟩

end Shelves

section Writing

variable {tree : Tree} {place : Location} {here : Path} {left : Nat} (reaches : Reaches tree 40 [] place.path left here)
  (vacant : Vacant tree here) (stamp : String) {rows : Tree} (archived : Archived rows) (report : Report)

include reaches vacant archived

theorem writeEntity_kept {e : Entity} (outer : IsName e.entityType)
    (stands : List.lookup [e.entityType] rows = some .directory) :
    ∃ rows' report', Progress.writeEntity (place.child e.entityType) stamp ⟨tree ++ below here rows,report⟩ e =
        ⟨tree ++ below here rows',report'⟩ ∧ report'.warnings = report.warnings ∧ Archived rows' ∧
      Kept stamp rows rows' e ∧
      ∀ path, path ≠ [e.entityType,fileName e.uuid] → List.lookup path rows' = List.lookup path rows := by
  have plain := fileName_name e.uuid
  have written : write (tree ++ below here rows) ((place.child e.entityType).child (fileName e.uuid)).path
      (.text (Document.ofEntity stamp e).page) =
      .ok (tree ++ below here (put rows [e.entityType,fileName e.uuid] (fileRow stamp e).2)) := by
    apply write_grandchild reaches vacant rows outer plain stands
    intro node held
    obtain ⟨_,_,_,_,file⟩ := archived.lookup_file held
    exact ⟨_,file⟩
  cases current : Progress.isCurrent (tree ++ below here rows) ((place.child e.entityType).child (fileName e.uuid)).path
      (Document.ofEntity stamp e) with
  | false =>
      refine ⟨put rows [e.entityType,fileName e.uuid] (fileRow stamp e).2,report.count e.entityType,?_,rfl,
        archived.put_file stamp stands,⟨_,lookup_put_self rows _,.inl rfl⟩,fun path => lookup_put_other rows _⟩
      simp only [Progress.writeEntity,current,Bool.false_eq_true,if_false,written]
  | true =>
      refine ⟨rows,{ report with unchanged := report.unchanged + 1 },?_,rfl,archived,?_,fun _ _ => rfl⟩
      · simp only [Progress.writeEntity,current,if_true]
      · cases held : List.lookup [e.entityType,fileName e.uuid] rows with
        | none =>
            have unread : readText (tree ++ below here rows) ((place.child e.entityType).child (fileName e.uuid)).path =
                .error .notFound := readText_absent reaches vacant rows outer plain stands held
            rw [Progress.isCurrent,unread] at current
            cases current
        | some node =>
            obtain ⟨_,_,_,_,rfl⟩ := archived.lookup_file held
            have read : readText (tree ++ below here rows) ((place.child e.entityType).child (fileName e.uuid)).path =
                .ok _ := readText_grandchild reaches vacant rows outer plain stands held
            rw [Progress.isCurrent,read] at current
            exact ⟨_,held,.inr ⟨held,current⟩⟩

theorem writeEntities_kept {entityType : String} (outer : IsName entityType) (entities : List Entity)
    (typed : ∀ e ∈ entities, e.entityType = entityType) (distinct : (entities.map Entity.uuid).Nodup)
    (stands : List.lookup [entityType] rows = some .directory) :
    ∃ rows' report', entities.foldl (Progress.writeEntity (place.child entityType) stamp)
        ⟨tree ++ below here rows,report⟩ = ⟨tree ++ below here rows',report'⟩ ∧ report'.warnings = report.warnings ∧
      Archived rows' ∧ (∀ e ∈ entities, Kept stamp rows rows' e) ∧
      ∀ path, (∀ e ∈ entities, path ≠ [entityType,fileName e.uuid]) → List.lookup path rows' = List.lookup path rows := by
  induction entities generalizing rows report with
  | nil => exact ⟨rows,report,rfl,rfl,archived,List.forall_mem_nil _,fun _ _ => rfl⟩
  | cons e rest ih =>
      obtain rfl := typed e (.head _)
      obtain ⟨fresh,others⟩ := List.nodup_cons.mp distinct
      obtain ⟨middle,report',first,silent,shelved,kept,apart⟩ :=
        writeEntity_kept reaches vacant stamp archived report outer stands
      have standing : List.lookup [e.entityType] middle = some .directory :=
        (apart _ (by simp)).trans stands
      obtain ⟨rows',report'',run,quiet,archived',each,elsewhere⟩ :=
        ih shelved report' (fun other member => typed other (.tail _ member)) others standing
      have unlike : ∀ other ∈ rest, [e.entityType,fileName other.uuid] ≠ [e.entityType,fileName e.uuid] := by
        intro other member same
        exact fresh (fileName_injective (same_name same) ▸ List.mem_map_of_mem member)
      refine ⟨rows',report'',?_,quiet.trans silent,archived',List.forall_mem_cons.mpr ⟨?_,?_⟩,?_⟩
      · rw [List.foldl_cons,first]
        exact run
      · exact kept.of_lookup rfl (elsewhere _ fun other member same => unlike other member same.symm)
      · intro other member
        apply (each other member).of_lookup _ rfl
        rw [typed other (.tail _ member)]
        exact (apart _ (unlike other member)).symm
      · intro path other
        rw [elsewhere path fun later member => other later (.tail _ member),apart path (other e (.head _))]

end Writing

section Cleaning

variable {tree : Tree} {place : Location} {here : Path} {left : Nat} (reaches : Reaches tree 40 [] place.path left here)
  (vacant : Vacant tree here) {rows : Tree} (archived : Archived rows) (report : Report) {entityType : String}
  (outer : IsName entityType) (keep : List String)

include reaches vacant archived outer

theorem removeStale_drops {name : String} (stands : List.lookup [entityType] rows = some .directory)
    (held : ∃ node, List.lookup [entityType,name] rows = some node) :
    ∃ rows' report', Progress.removeStale (place.child entityType) keep ⟨tree ++ below here rows,report⟩ name =
        ⟨tree ++ below here rows',report'⟩ ∧ report'.warnings = report.warnings ∧ Archived rows' ∧
      (name ∉ keep → List.lookup [entityType,name] rows' = none) ∧
      ∀ path, (path = [entityType,name] → name ∈ keep) → List.lookup path rows' = List.lookup path rows := by
  obtain ⟨node,found⟩ := held
  obtain ⟨stamp,e,_,rfl,rfl⟩ := archived.lookup_file found
  have named : ¬(fileUuid? (fileName e.uuid)).isNone = true := by
    rw [fileUuid?_fileName]
    exact Bool.false_ne_true
  by_cases kept : fileName e.uuid ∈ keep
  · exact ⟨rows,report,if_pos (.inr (List.contains_iff_mem.mpr kept)),rfl,archived,fun stale => absurd kept stale,
      fun _ _ => rfl⟩
  · have removed : remove (tree ++ below here rows) ((place.child entityType).child (fileName e.uuid)).path =
        .ok (tree ++ below here (drop rows [entityType,fileName e.uuid])) :=
      remove_grandchild reaches vacant rows outer (fileName_name e.uuid) stands found
    refine ⟨drop rows [entityType,fileName e.uuid],{ report with removed := report.removed + 1 },?_,rfl,
      archived.drop_file _ _,fun _ => lookup_drop_self rows,fun path keeps => lookup_drop_other rows fun same => kept (keeps same)⟩
    rw [Progress.removeStale,if_neg (not_or.mpr ⟨named,fun odd => kept (List.contains_iff_mem.mp odd)⟩)]
    simp only [removed]

theorem removeAll_drops (names : List String) (distinct : names.Nodup)
    (stands : List.lookup [entityType] rows = some .directory)
    (held : ∀ name ∈ names, ∃ node, List.lookup [entityType,name] rows = some node) :
    ∃ rows' report', names.foldl (Progress.removeStale (place.child entityType) keep) ⟨tree ++ below here rows,report⟩ =
        ⟨tree ++ below here rows',report'⟩ ∧ report'.warnings = report.warnings ∧ Archived rows' ∧
      (∀ name ∈ names, name ∉ keep → List.lookup [entityType,name] rows' = none) ∧
      ∀ path, (∀ name ∈ names, path = [entityType,name] → name ∈ keep) →
        List.lookup path rows' = List.lookup path rows := by
  induction names generalizing rows report with
  | nil => exact ⟨rows,report,rfl,rfl,archived,List.forall_mem_nil _,fun _ _ => rfl⟩
  | cons name rest ih =>
      obtain ⟨fresh,others⟩ := List.nodup_cons.mp distinct
      have apart : ∀ other ∈ rest, [entityType,other] ≠ [entityType,name] := by
        intro other member same
        exact fresh (same_name same ▸ member)
      obtain ⟨middle,report',first,silent,shelved,gone,elsewhere⟩ :=
        removeStale_drops reaches vacant archived report outer keep stands (held name (.head _))
      have standing : List.lookup [entityType] middle = some .directory :=
        (elsewhere [entityType] (by simp)).trans stands
      have behind : ∀ other ∈ rest, ∃ node, List.lookup [entityType,other] middle = some node := by
        intro other member
        rw [elsewhere _ fun same => absurd same (apart other member)]
        exact held other (.tail _ member)
      obtain ⟨rows',report'',run,quiet,archived',dropped,further⟩ := ih shelved report' others standing behind
      refine ⟨rows',report'',?_,quiet.trans silent,archived',List.forall_mem_cons.mpr ⟨fun stale => ?_,dropped⟩,?_⟩
      · rw [List.foldl_cons,first]
        exact run
      · rw [further _ fun other member same => absurd same.symm (apart other member)]
        exact gone stale
      · intro path keeps
        rw [further path fun other member => keeps other (.tail _ member),elsewhere path (keeps name (.head _))]

theorem clean_keeps (stands : List.lookup [entityType] rows = some .directory) :
    ∃ rows' report', Progress.clean (place.child entityType) keep ⟨tree ++ below here rows,report⟩ =
        ⟨tree ++ below here rows',report'⟩ ∧ report'.warnings = report.warnings ∧ Archived rows' ∧
      (∀ name, name ∉ keep → List.lookup [entityType,name] rows' = none) ∧
      ∀ path, (∀ name, path = [entityType,name] → name ∈ keep) → List.lookup path rows' = List.lookup path rows := by
  have listed : Tree.list (tree ++ below here rows) (place.child entityType).path = .ok (children rows [entityType]) :=
    list_child reaches vacant rows outer stands archived.paths_filled
  obtain ⟨rows',report',run,silent,archived',gone,elsewhere⟩ :=
    removeAll_drops reaches vacant archived report outer keep _ (children_distinct archived.distinct [entityType])
      stands fun name member => mem_children.mp member
  refine ⟨rows',report',?_,silent,archived',?_,fun path keeps => elsewhere path fun name _ => keeps name⟩
  · simp only [Progress.clean,listed]
    exact run
  · intro name stale
    by_cases member : name ∈ children rows [entityType]
    · exact gone name member stale
    · have absent : List.lookup [entityType,name] rows = none := by
        rw [Option.eq_none_iff_forall_ne_some]
        exact fun node held => member (mem_children.mpr ⟨node,held⟩)
      rw [elsewhere [entityType,name] fun other held same => ?_,absent]
      obtain rfl : name = other := same_name same
      exact absurd held member

end Cleaning

section Types

-- Each entity of a type has its file, and after cleaning there is no other.
structure Mirrored (order : ExportOrder) (store : Store) (before after : Tree) (entityType : String) : Prop where
  stands : List.lookup [entityType] after = some .directory
  kept : ∀ e ∈ store.list entityType, Kept order.stamp before after e
  only : order.clean = true → ∀ name node, List.lookup [entityType,name] after = some node →
    ∃ e ∈ store.list entityType, fileName e.uuid = name

theorem Mirrored.of_lookup {order : ExportOrder} {store : Store} {before after before' after' : Tree} {entityType : String}
    (mirrored : Mirrored order store before after entityType) (keyed : store.Keyed)
    (first : ∀ name, List.lookup [entityType,name] before' = List.lookup [entityType,name] before)
    (last : ∀ rest, List.lookup (entityType :: rest) after' = List.lookup (entityType :: rest) after) :
    Mirrored order store before' after' entityType := by
  refine ⟨(last []).trans mirrored.stands,?_,?_⟩
  · intro e member
    have own := Store.list_typed keyed entityType e member
    exact (mirrored.kept e member).of_lookup (own.symm ▸ first _) (own.symm ▸ last _)
  · intro cleaning name node held
    exact mirrored.only cleaning name node ((last [name]).symm.trans held)

-- What stays of the rows when some types are exported.
structure Tended (types : List String) (rows rows' : Tree) : Prop where
  archived : Archived rows'
  elsewhere : ∀ path : Path, (∀ entityType ∈ types, path.head? ≠ some entityType) →
    List.lookup path rows' = List.lookup path rows

-- Nothing is in the way of an export: every call of the source works, and its types can be directories.
structure Unhindered (source : Desk) (types : List String) : Prop where
  working : source.failing = []
  short : ∀ entityType ∈ types, isSafe entityType = true → entityType.utf8ByteSize ≤ greatestName

variable {tree : Tree} {order : ExportOrder} {here : Path} {left : Nat}
  (reaches : Reaches tree 40 [] order.place.path left here) (vacant : Vacant tree here) {source : Desk}
  (formed : source.store.WellFormed) {rows : Tree} (archived : Archived rows)
  (report : Report)

include reaches vacant formed archived

theorem writeAll_mirrors {entityType : String} (outer : IsName entityType)
    (stands : List.lookup [entityType] rows = some .directory) :
    ∃ rows' report', Progress.writeAll (order.place.child entityType) order.stamp order.clean
        (source.store.list entityType) ⟨tree ++ below here rows,report⟩ = ⟨tree ++ below here rows',report'⟩ ∧
      report'.warnings = report.warnings ∧ Tended [entityType] rows rows' ∧
      Mirrored order source.store rows rows' entityType := by
  have typed := Store.list_typed formed.keyed entityType
  obtain ⟨middle,report',written,silent,shelved,kept,apart⟩ :=
    writeEntities_kept reaches vacant order.stamp archived report outer (source.store.list entityType) typed
      (Store.list_uuids_nodup formed.keyed formed.ordered entityType) stands
  have standing : List.lookup [entityType] middle = some .directory := (apart [entityType] (by simp)).trans stands
  have outside : ∀ path : Path, path.head? ≠ some entityType → List.lookup path middle = List.lookup path rows := by
    intro path other
    apply apart
    rintro e _ rfl
    exact other rfl
  cases cleaning : order.clean with
  | false =>
      refine ⟨middle,report',?_,silent,⟨shelved,fun path other => outside path (other _ (.head _))⟩,standing,kept,?_⟩
      · simp only [Progress.writeAll,written,Bool.false_eq_true,if_false]
      · intro odd
        rw [cleaning] at odd
        cases odd
  | true =>
      obtain ⟨rows',report'',cleaned,quiet,archived',gone,elsewhere⟩ := clean_keeps reaches vacant shelved report' outer
        ((source.store.list entityType).map fun e => fileName e.uuid) standing
      refine ⟨rows',report'',?_,quiet.trans silent,⟨archived',?_⟩,?_,?_,?_⟩
      · simp only [Progress.writeAll,written,cleaned,if_true]
      · intro path other
        have elsewhere' := other entityType (.head _)
        rw [elsewhere path fun name own => absurd (own ▸ rfl) elsewhere',outside path elsewhere']
      · exact (elsewhere [entityType] (by simp)).trans standing
      · intro e member
        apply (kept e member).of_lookup rfl
        apply elsewhere
        intro name own
        rw [← same_name own]
        exact List.mem_map_of_mem member
      · intro _ name node held
        by_cases named : name ∈ (source.store.list entityType).map fun e => fileName e.uuid
        · exact List.mem_map.mp named
        · rw [gone name named] at held
          cases held

omit formed in
theorem directory_made {entityType : String} (safe : segmentProblem? entityType = none)
    (short : entityType.utf8ByteSize ≤ greatestName) :
    ∃ rows', ensureDirectory (tree ++ below here rows) (order.place.child entityType).path =
        .ok (tree ++ below here rows') ∧ List.lookup [entityType] rows' = some .directory ∧ Archived rows' ∧
      ∀ path, path ≠ [entityType] → List.lookup path rows' = List.lookup path rows := by
  have outer := segment_name safe short
  cases held : List.lookup [entityType] rows with
  | some node =>
      obtain ⟨rfl,_⟩ := archived.lookup_directory held
      exact ⟨rows,ensureDirectory_held reaches vacant rows outer held,held,archived,fun _ _ => rfl⟩
  | none =>
      have made := ensureDirectory_child reaches vacant rows outer held
      rw [← put_new _ held] at made
      exact ⟨_,made,lookup_put_self rows _,archived.put_directory safe short,fun path => lookup_put_other rows _⟩

theorem exportType_tends (entityType : String) :
    ∃ rows' report' stop, exportType source order ⟨tree ++ below here rows,report⟩ entityType =
        (⟨tree ++ below here rows',report'⟩,stop) ∧ Tended [entityType] rows rows' ∧
      (Unhindered source [entityType] → stop = none ∧
        report'.warnings = report.warnings ++ [entityType].filterMap (fun name => (segmentProblem? name).map .unsafeType) ∧
        (isSafe entityType = true → Mirrored order source.store rows rows' entityType)) := by
  cases problem : segmentProblem? entityType with
  | some found =>
      refine ⟨rows,report.warn (.unsafeType found),none,exportType_refused problem _,⟨archived,fun _ _ => rfl⟩,?_⟩
      intro _
      refine ⟨rfl,?_,fun safe => ?_⟩
      · rw [List.filterMap_cons,problem]
        rfl
      · rw [isSafe_some problem] at safe
        cases safe
  | none =>
      by_cases short : entityType.utf8ByteSize ≤ greatestName
      · obtain ⟨middle,made,standing,shelved,apart⟩ := directory_made reaches vacant archived problem short
        have outside : ∀ path : Path, (∀ name ∈ [entityType], path.head? ≠ some name) →
            List.lookup path middle = List.lookup path rows := by
          intro path other
          apply apart
          rintro rfl
          exact other entityType (.head _) rfl
        cases asked : source.list entityType with
        | error failure =>
            refine ⟨middle,report,some (failure.within (.listEntities entityType)),?_,⟨shelved,outside⟩,
              fun unhindered => ?_⟩
            · simp only [exportType,problem,made,asked]
            · rw [list_working unhindered.working] at asked
              cases asked
        | ok entities =>
            obtain rfl := list_ok asked
            obtain ⟨rows',report',written,silent,tended,mirrored⟩ := writeAll_mirrors reaches vacant formed
              shelved report (segment_name problem short) standing
            refine ⟨rows',report',none,?_,⟨tended.archived,?_⟩,fun _ => ⟨rfl,?_,fun _ => ?_⟩⟩
            · simp only [exportType,problem,made,asked,written]
            · exact fun path other => (tended.elsewhere path other).trans (outside path other)
            · rw [silent,List.filterMap_cons,problem]
              exact (List.append_nil _).symm
            · exact mirrored.of_lookup formed.keyed (fun name => (apart [entityType,name] (by simp)).symm) fun _ => rfl
      · have unmade : ensureDirectory (tree ++ below here rows) (order.place.child entityType).path =
            .error .nameTooLong :=
          ensureDirectory_long (reaches_below reaches rows) (segment_plain problem) (Nat.lt_of_not_le short)
        have nothing : leftovers (tree ++ below here rows) (order.place.child entityType).path = tree ++ below here rows :=
          leftovers_entry (reaches_below reaches rows) entityType
        refine ⟨rows,report,some ⟨[.createDirectory (order.place.child entityType).shown],.file .nameTooLong⟩,?_,
          ⟨archived,fun _ _ => rfl⟩,fun unhindered => ?_⟩
        · simp only [exportType,problem,unmade,nothing]
        · exact absurd (unhindered.short _ (.head _) (isSafe_none problem)) short

-- Types are exported in turn, up to the first failure.
theorem exportTypes_tends (types : List String) (distinct : types.Nodup) :
    ∃ rows' report' stop, exportTypes source order ⟨tree ++ below here rows,report⟩ types =
        (⟨tree ++ below here rows',report'⟩,stop) ∧ Tended types rows rows' ∧
      (Unhindered source types → stop = none ∧
        report'.warnings = report.warnings ++ types.filterMap (fun name => (segmentProblem? name).map .unsafeType) ∧
        ∀ entityType ∈ types, isSafe entityType = true → Mirrored order source.store rows rows' entityType) := by
  induction types generalizing rows report with
  | nil =>
      exact ⟨rows,report,none,rfl,⟨archived,fun _ _ => rfl⟩,fun _ =>
        ⟨rfl,(List.append_nil _).symm,List.forall_mem_nil _⟩⟩
  | cons entityType rest ih =>
      obtain ⟨fresh,others⟩ := List.nodup_cons.mp distinct
      obtain ⟨middle,report',stop,first,tended,done⟩ :=
        exportType_tends reaches vacant formed archived report entityType
      have own (unhindered : Unhindered source (entityType :: rest)) := done ⟨unhindered.working,
        List.forall_mem_singleton.mpr (unhindered.short entityType (.head _))⟩
      cases stop with
      | some failure =>
          refine ⟨middle,report',some failure,?_,⟨tended.archived,fun path other => ?_⟩,fun unhindered => ?_⟩
          · simp only [exportTypes,first]
          · exact tended.elsewhere path (List.forall_mem_singleton.mpr (other entityType (.head _)))
          · cases (own unhindered).1
      | none =>
          obtain ⟨rows',report'',stop,run,further,behind⟩ := ih tended.archived report' others
          refine ⟨rows',report'',stop,?_,⟨further.archived,fun path other => ?_⟩,fun unhindered => ?_⟩
          · simp only [exportTypes,first,run]
          · rw [further.elsewhere path fun later member => other later (.tail _ member),
              tended.elsewhere path (List.forall_mem_singleton.mpr (other entityType (.head _)))]
          · obtain ⟨_,warned,mirrored⟩ := own unhindered
            obtain ⟨unstopped,warnings,each⟩ := behind ⟨unhindered.working,fun later member =>
              unhindered.short later (.tail _ member)⟩
            refine ⟨unstopped,?_,List.forall_mem_cons.mpr ⟨fun safe => ?_,fun later member safe => ?_⟩⟩
            · rw [warnings,warned,List.append_assoc,← List.filterMap_append,List.singleton_append]
            · apply (mirrored safe).of_lookup formed.keyed (fun _ => rfl)
              intro path
              apply further.elsewhere
              rintro later member same
              exact fresh (Option.some.inj same ▸ member)
            · apply (each later member safe).of_lookup formed.keyed _ fun _ => rfl
              intro name
              apply (tended.elsewhere _ _).symm
              intro other listed same
              rw [← Option.some.inj same] at listed
              exact fresh (List.mem_singleton.mp listed ▸ member)

theorem exportContent_tends :
    ∃ rows', (exportContent source order (tree ++ below here rows)).2 = tree ++ below here rows' ∧
      Tended source.store.types rows rows' ∧
      (Unhindered source source.store.types → ∃ report,
        (exportContent source order (tree ++ below here rows)).1 = .ok report ∧
        report.warnings = unsafeWarnings source.store ∧
        ∀ entityType ∈ safeTypes source.store, Mirrored order source.store rows rows' entityType) := by
  have standing := ensureDirectory_stands (reaches.grows (grows_append tree (below here rows)))
  cases asked : source.types with
  | error failure =>
      refine ⟨rows,?_,⟨archived,fun _ _ => rfl⟩,fun unhindered => ?_⟩
      · simp only [exportContent,standing,asked]
      · rw [types_working unhindered.working] at asked
        cases asked
  | ok types =>
      obtain rfl := types_ok asked
      obtain ⟨rows',report,stop,run,tended,done⟩ := exportTypes_tends reaches vacant formed archived {} _
        (Store.types_nodup formed.ordered)
      refine ⟨rows',?_,tended,fun unhindered => ?_⟩
      · simp only [exportContent,standing,asked,run]
        cases stop with
        | none => rfl
        | some failure => rfl
      · obtain ⟨rfl,warnings,mirrored⟩ := done unhindered
        refine ⟨report,?_,?_,?_⟩
        · simp only [exportContent,standing,asked,run]
          rfl
        · rw [warnings,unsafeWarnings]
          rfl
        · intro entityType listed
          obtain ⟨member,safe⟩ := List.mem_filter.mp listed
          exact mirrored entityType member safe

end Types

structure Pass where
  source : Desk
  formed : source.store.WellFormed
  clean : Bool
  stamp : String

namespace Pass

def order (pass : Pass) (place : Location) : ExportOrder := ⟨place,pass.clean,pass.stamp⟩

-- Whether it fails or not, what it wrote stays.
def run (place : Location) (tree : Tree) (pass : Pass) : Tree :=
  (exportContent pass.source (pass.order place) tree).2

end Pass

def exportAll (place : Location) (tree : Tree) (passes : List Pass) : Tree := passes.foldl (Pass.run place) tree

section History

variable {place : Location}

theorem exportAll_archived {tree : Tree} {here : Path} {left : Nat} (reaches : Reaches tree 40 [] place.path left here)
    (vacant : Vacant tree here) (passes : List Pass) {rows : Tree} (archived : Archived rows) :
    ∃ rows', exportAll place (tree ++ below here rows) passes = tree ++ below here rows' ∧ Archived rows' := by
  induction passes generalizing rows with
  | nil => exact ⟨rows,rfl,archived⟩
  | cons pass rest ih =>
      obtain ⟨middle,first,tended,_⟩ := @exportContent_tends tree (pass.order place) here left reaches vacant pass.source
        pass.formed rows archived
      obtain ⟨rows',run,archived'⟩ := ih tended.archived
      refine ⟨rows',?_,archived'⟩
      rw [exportAll,List.foldl_cons,Pass.run,first]
      exact run

theorem exportContent_ensured {source : Desk} {order : ExportOrder} {tree made : Tree}
    (started : tree.ensureDirectory order.place.path = .ok made)
    (standing : made.ensureDirectory order.place.path = .ok made) :
    exportContent source order tree = exportContent source order made := by
  simp only [exportContent,started,standing]

theorem exportAll_ensured {tree made : Tree} {here : Path} {left : Nat}
    (started : tree.ensureDirectory place.path = .ok made) (reaches : Reaches made 40 [] place.path left here)
    (vacant : Vacant made here) (passes : List Pass) :
    (exportAll place tree passes).ensureDirectory place.path = .ok (exportAll place made passes) := by
  cases passes with
  | nil => exact started
  | cons pass rest =>
      have first : Pass.run place tree pass = Pass.run place made pass :=
        congrArg Prod.snd (@exportContent_ensured _ (pass.order place) _ _ started (ensureDirectory_stands reaches))
      obtain ⟨rows,run,_⟩ := exportAll_archived reaches vacant (pass :: rest) .of_nil
      have start : made ++ below here [] = made := List.append_nil made
      rw [start] at run
      have same : exportAll place tree (pass :: rest) = exportAll place made (pass :: rest) := by
        rw [exportAll,exportAll,List.foldl_cons,List.foldl_cons,first]
      rw [same,run]
      exact ensureDirectory_stands (reaches.grows (grows_append made (below here rows)))

end History

end Redline.Exchange
