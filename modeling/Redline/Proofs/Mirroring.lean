import Mathlib.Data.List.Nodup
import Redline.Proofs.Importing
import Redline.Proofs.Upkeep

namespace Redline.Exchange

open Files Files.Tree Json

section Reading

-- What the reader takes a file for: nothing when it is too large or no document.
def admitted? (text : String) : Option Document :=
  if text.utf8ByteSize > sizeLimit then none else Document.ofText? text

-- An entity is read from the file that has its name.
def Held (rows : Tree) (e : Entity) : Prop :=
  ∃ text d, List.lookup [e.entityType,fileName e.uuid] rows = some (.file (.text text)) ∧
    admitted? text = some d ∧ d.entity = e

theorem ref_parts {e : Entity} {ref : EntityRef} (same : e.ref = ref) : e.entityType = ref.entityType ∧ e.uuid = ref.uuid :=
  ⟨congrArg EntityRef.entityType same,congrArg EntityRef.uuid same⟩

theorem Held.eq_of_ref {rows : Tree} {a b : Entity} (first : Held rows a) (second : Held rows b) (same : a.ref = b.ref) :
    a = b := by
  obtain ⟨text,d,held,read,rfl⟩ := first
  obtain ⟨text',d',held',read',rfl⟩ := second
  obtain ⟨types,uuids⟩ := ref_parts same
  rw [types,uuids] at held
  cases held'.symm.trans held
  rw [read'] at read
  cases read
  rfl

-- Whatever is read of a file is about the entity that the file is named for.
theorem admitted_ref {rows : Tree} (archived : Archived rows) {ref : EntityRef} {text : String} {d : Document}
    (written : List.lookup [ref.entityType,fileName ref.uuid] rows = some (.file (.text text)))
    (read : admitted? text = some d) : d.entity.ref = ref := by
  obtain ⟨stamp,e,types,names,file⟩ := archived.lookup_file written
  have own : e.ref = ref := by
    rw [Entity.ref,types,fileName_injective names]
  obtain rfl := Content.text.inj (Node.file.inj file)
  rw [admitted?] at read
  split at read
  · cases read
  · exact (Document.ofText?_ref read).trans own

theorem Held.lookup_directory {rows : Tree} {e : Entity} (held : Held rows e) (archived : Archived rows) :
    List.lookup [e.entityType] rows = some .directory := by
  obtain ⟨_,_,written,_⟩ := held
  exact archived.housed _ _ _ written

variable {tree : Tree} {place : Location} {here : Path} {left : Nat} (reaches : Reaches tree 40 [] place.path left here)
  (vacant : Vacant tree here) {rows : Tree} (archived : Archived rows) {entityType : String}

section OneType

variable (outer : IsName entityType) (stands : List.lookup [entityType] rows = some .directory)

include reaches vacant outer stands

theorem readFile_admitted {uuid : Uuid} {text : String}
    (written : List.lookup [entityType,fileName uuid] rows = some (.file (.text text))) :
    (readFile (tree ++ below here rows) (place.child entityType) entityType (fileName uuid)).2 =
      (admitted? text).map fun d => ⟨fileName uuid,d.entity⟩ := by
  have plain := fileName_name uuid
  have looked : look (tree ++ below here rows) false ((place.child entityType).child (fileName uuid)).path =
      .ok (.file (.text text)) := look_grandchild reaches vacant rows outer plain false stands written
  have read : readText (tree ++ below here rows) ((place.child entityType).child (fileName uuid)).path = .ok text :=
    readText_grandchild reaches vacant rows outer plain stands written
  by_cases large : text.utf8ByteSize > sizeLimit
  · simp only [readFile,looked,Content.size,admitted?,large,if_true]
    rfl
  · simp only [readFile,looked,Content.size,admitted?,large,if_false,fileUuid?_fileName,read]
    cases Document.ofText? text with
    | none => rfl
    | some d => rfl

include archived

theorem readFile_held {name : String} (written : name ∈ children rows [entityType]) (found : Found) :
    (readFile (tree ++ below here rows) (place.child entityType) entityType name).2 = some found ↔
      found.file = name ∧ found.entity.entityType = entityType ∧ fileName found.entity.uuid = name ∧
        Held rows found.entity := by
  obtain ⟨node,row⟩ := mem_children.mp written
  obtain ⟨stamp,e,rfl,rfl,rfl⟩ := archived.lookup_file row
  have known (d : Document) : admitted? (Document.ofEntity stamp e).page = some d → d.entity.ref = e.ref :=
    @admitted_ref rows archived e.ref _ d row
  rw [readFile_admitted reaches vacant outer stands row,Option.map_eq_some_iff]
  constructor
  · rintro ⟨d,read,rfl⟩
    obtain ⟨types,uuids⟩ := ref_parts (known d read)
    refine ⟨rfl,types,congrArg fileName uuids,_,d,?_,read,rfl⟩
    rw [types,uuids]
    exact row
  · rintro ⟨file,types,names,text,d,held,read,own⟩
    rw [types,names] at held
    obtain rfl := Content.text.inj (Node.file.inj (Option.some.inj (held.symm.trans row)))
    refine ⟨d,read,?_⟩
    cases found
    cases file
    cases own
    rfl

theorem mem_readNames (found : Found) :
    found ∈ (readNames (tree ++ below here rows) (place.child entityType) entityType (children rows [entityType])).2 ↔
      found.file = fileName found.entity.uuid ∧ found.entity.entityType = entityType ∧ Held rows found.entity := by
  have each (name : String) := @readFile_held tree place here left reaches vacant rows archived entityType outer stands name
  have distinct := children_distinct archived.distinct [entityType]
  generalize childs : children rows [entityType] = names at each distinct
  have known : ∀ name ∈ names, isContentName name = true := by
    intro name member
    obtain ⟨node,row⟩ := mem_children.mp (childs ▸ member)
    obtain ⟨_,e,_,rfl,_⟩ := archived.lookup_file row
    exact isContentName_fileName e.uuid
  -- No two files hold the same UUID, each holding the one it is named for.
  have once : ((names.filterMap fun name =>
      (readFile (tree ++ below here rows) (place.child entityType) entityType name).2).map fun f => f.entity.uuid).Nodup := by
    rw [List.nodup_iff_pairwise_ne,List.pairwise_map]
    apply (List.Pairwise.and_mem.mp distinct).filterMap
    rintro name other ⟨here,there,apart⟩ f read g read' same
    obtain ⟨_,_,first,_⟩ := (each name here f).mp read
    obtain ⟨_,_,second,_⟩ := (each other there g).mp read'
    exact apart (first.symm.trans ((congrArg fileName same).trans second))
  have sorted := byName_all (names.filterMap fun name =>
    (readFile (tree ++ below here rows) (place.child entityType) entityType name).2)
  rw [readNames]
  simp only [List.filter_eq_self.mpr known,List.filterMap_map,Function.comp_def]
  rw [dropDuplicates_distinct entityType [] ((sorted.map _).nodup_iff.mpr once) (fun _ _ => List.not_mem_nil),
    sorted.mem_iff,List.mem_filterMap]
  constructor
  · rintro ⟨name,member,read⟩
    obtain ⟨file,types,names,held⟩ := (each name member found).mp read
    exact ⟨file.trans names.symm,types,held⟩
  · rintro ⟨file,types,held⟩
    have member : fileName found.entity.uuid ∈ names := by
      obtain ⟨text,_,row,_⟩ := held
      rw [← childs]
      exact mem_children.mpr ⟨_,types ▸ row⟩
    exact ⟨_,member,(each _ member found).mpr ⟨file,types,rfl,held⟩⟩

end OneType

include reaches vacant archived

theorem lookInto_rows (held : List.lookup [entityType] rows = some .directory) (outer : IsName entityType) :
    lookInto (tree ++ below here rows) place entityType =
      readNames (tree ++ below here rows) (place.child entityType) entityType (children rows [entityType]) := by
  have names : Tree.list (tree ++ below here rows) (place.child entityType).path = .ok (children rows [entityType]) :=
    list_child reaches vacant rows outer held archived.paths_filled
  unfold lookInto
  rw [names]
  rfl

-- The entities to be saved are those that are held.
theorem readTree_held : ∃ findings, readTree (tree ++ below here rows) place = .ok findings ∧
    ∀ e, e ∈ entitiesOf findings.groups ↔ Held rows e := by
  have names : Tree.list (tree ++ below here rows) place.path = .ok (children rows []) :=
    list_here reaches vacant rows archived.paths_filled
  obtain ⟨findings,read⟩ : ∃ findings, readTree (tree ++ below here rows) place = .ok findings := by
    rw [readTree,names]
    exact ⟨_,rfl⟩
  refine ⟨findings,read,fun e => ?_⟩
  rw [entitiesOf,List.mem_flatMap]
  constructor
  · rintro ⟨group,member,saved⟩
    obtain ⟨found,inside,rfl⟩ := List.mem_map.mp saved
    obtain ⟨types,listed,there,_,_,own⟩ := (mem_groups read).mp member
    obtain rfl := Except.ok.inj (names.symm.trans listed)
    obtain ⟨node,held⟩ := mem_children.mp there
    obtain ⟨rfl,safe,short⟩ := archived.lookup_directory held
    have outer := segment_name safe short
    rw [own,lookInto_rows reaches vacant archived held outer] at inside
    exact ((mem_readNames reaches vacant archived outer held found).mp inside).2.2
  · intro held
    have stands := held.lookup_directory archived
    obtain ⟨_,safe,short⟩ := archived.lookup_directory stands
    have outer := segment_name safe short
    have inside := (@mem_readNames tree place here left reaches vacant rows archived _ outer stands
      ⟨fileName e.uuid,e⟩).mpr ⟨rfl,rfl,held⟩
    rw [← lookInto_rows reaches vacant archived stands outer] at inside
    have enters : Enters (tree ++ below here rows) place e.entityType :=
      ⟨(segment_solid safe).2,look_child reaches vacant rows outer false stands,safe⟩
    exact ⟨(e.entityType,_),(mem_groups read).mpr
        ⟨_,names,mem_children.mpr ⟨_,stands⟩,enters,List.ne_nil_of_mem inside,rfl⟩,
      List.mem_map.mpr ⟨_,inside,rfl⟩⟩

theorem importContent_held {target : Desk} (receiving : target.failing = []) (blank : target.store = []) :
    ∃ report content, importContent target (tree ++ below here rows) place false =
        .ok (report,{ target with store := content }) ∧
      ∀ ref e, content.load ref = some e ↔ e.ref = ref ∧ Held rows e := by
  obtain ⟨findings,read,entities⟩ := @readTree_held tree place here left reaches vacant rows archived
  obtain ⟨report,saved⟩ : ∃ report, findings.groups.foldl saveGroup ({ warnings := findings.warnings },target) =
      (report,{ target with store := (entitiesOf findings.groups).foldl Store.save [] }) :=
    ⟨_,blank ▸ saveGroups_working receiving findings.groups _⟩
  have agree : ∀ a ∈ entitiesOf findings.groups, ∀ b ∈ entitiesOf findings.groups, a.ref = b.ref → a = b :=
    fun a one b two => ((entities a).mp one).eq_of_ref ((entities b).mp two)
  refine ⟨report,(entitiesOf findings.groups).foldl Store.save [],?_,fun ref e => ?_⟩
  · rw [importContent,read]
    exact congrArg Except.ok saved
  · have nothing : ¬((∀ a ∈ entitiesOf findings.groups, a.ref ≠ ref) ∧ Store.load [] ref = some e) := by
      rintro ⟨_,odd⟩
      cases odd
    rw [Store.saves_load agree,entities,or_iff_left nothing,and_comm]

theorem readText_file {entityType : String} (safe : segmentProblem? entityType = none) (uuid : Uuid) :
    readText (tree ++ below here rows) ((place.child entityType).child (fileName uuid)).path =
      if entityType.utf8ByteSize > greatestName then .error .nameTooLong
      else match List.lookup [entityType] rows,List.lookup [entityType,fileName uuid] rows with
        | some .directory,some (.file (.text text)) => .ok text
        | _,_ => .error .notFound := by
  have plain := fileName_name uuid
  split
  · rename_i long
    have lost : resolve (tree ++ below here rows) true ((place.child entityType).child (fileName uuid)).path =
        .error .nameTooLong := by
      have goes := resolve_long (reaches_below reaches rows) (segment_plain safe) long true [fileName uuid]
      rwa [← List.singleton_append,← List.append_assoc] at goes
    simp only [Tree.readText,look,lost,bind,Except.bind]
  · rename_i fits
    have outer := segment_name safe (Nat.not_lt.mp fits)
    cases standing : List.lookup [entityType] rows with
    | none => exact readText_nowhere reaches vacant rows outer standing
    | some node =>
        obtain ⟨rfl,_⟩ := archived.lookup_directory standing
        cases held : List.lookup [entityType,fileName uuid] rows with
        | none => exact readText_absent reaches vacant rows outer plain standing held
        | some node =>
            obtain ⟨_,_,_,_,rfl⟩ := archived.lookup_file held
            exact readText_grandchild reaches vacant rows outer plain standing held

end Reading

-- The files of a type and what is imported of it, against the entities exported last.
structure Mirrors (before files : Tree) (place : Location) (last : Pass) (content : Store) (entityType : String) :
    Prop where
  names : ∃ names, files.list (place.child entityType).path = .ok names ∧
    names.Perm ((last.source.store.list entityType).map fun e => fileName e.uuid)
  texts : ∀ e ∈ last.source.store.list entityType, ∃ text,
    files.readText ((place.child entityType).child (fileName e.uuid)).path = .ok text ∧
      (text = (Document.ofEntity last.stamp e).page ∨
        before.readText ((place.child entityType).child (fileName e.uuid)).path = .ok text ∧
          (Document.ofEntity last.stamp e).isHeldBy text = true) ∧
      content.load e.ref = (admitted? text).map Document.entity ∧
      (e.Sound → (Document.ofEntity last.stamp e).toValue.nesting ≤ greatestDepth → text.utf8ByteSize ≤ sizeLimit →
        content.load e.ref = some e)
  only : ∀ uuid d, content.load ⟨entityType,uuid⟩ = some d → ∃ e ∈ last.source.store.list entityType, e.uuid = uuid

section Mirror

variable {tree : Tree} {place : Location} {here : Path} {left : Nat} (reaches : Reaches tree 40 [] place.path left here)
  (vacant : Vacant tree here) {before rows : Tree} (standing : Archived before) (archived : Archived rows)
  {entityType : String} {content : Store} (loads : ∀ ref e, content.load ref = some e ↔ e.ref = ref ∧ Held rows e)

include archived

theorem held_reads {stamp text : String} {e : Entity} (sound : e.Sound)
    (nested : (Document.ofEntity stamp e).toValue.nesting ≤ greatestDepth) (small : text.utf8ByteSize ≤ sizeLimit)
    (held : List.lookup [e.entityType,fileName e.uuid] rows = some (.file (.text text)))
    (content : text = (Document.ofEntity stamp e).page ∨ (Document.ofEntity stamp e).isHeldBy text = true) :
    (admitted? text).map Document.entity = some e := by
  have read : (Document.ofText? text).map Document.entity = some e := by
    rcases content with rfl | same
    · rw [Document.ofText?_page stamp sound nested]
      rfl
    · obtain ⟨stamp',written,_,_,file⟩ := archived.lookup_file held
      obtain rfl := Content.text.inj (Node.file.inj file)
      rw [Document.isHeldBy_reads sound same]
      rfl
  rw [admitted?,if_neg (Nat.not_lt.mpr small),read]

include reaches vacant loads

theorem load_file (safe : isSafe entityType = true) (uuid : Uuid) : content.load ⟨entityType,uuid⟩ =
    (((tree ++ below here rows).readText ((place.child entityType).child (fileName uuid)).path).toOption.bind
      admitted?).map Document.entity := by
  have plain := Option.isNone_iff_eq_none.mp safe
  apply Option.ext
  intro e
  rw [loads,readText_file reaches vacant archived plain uuid]
  constructor
  · rintro ⟨ref,text,d,held,read,own⟩
    obtain ⟨types,uuids⟩ := ref_parts ref
    rw [types,uuids] at held
    have stands := archived.housed _ _ _ held
    obtain ⟨_,_,short⟩ := archived.lookup_directory stands
    rw [if_neg (Nat.not_lt.mpr short),stands,held]
    exact Option.map_eq_some_iff.mpr ⟨d,read,own⟩
  · intro found
    obtain ⟨d,read,rfl⟩ := Option.map_eq_some_iff.mp found
    split at read
    · cases read
    · split at read
      · rename_i text stands held
        have ref := @admitted_ref rows archived ⟨entityType,uuid⟩ text d held read
        obtain ⟨types,uuids⟩ := ref_parts ref
        exact ⟨ref,text,d,by rw [types,uuids]; exact held,read,rfl⟩
      · cases read

include standing

theorem mirrors_type {last : Pass} (cleaning : last.clean = true)
    (mirrored : Mirrored (last.order place) last.source.store before rows entityType) :
    Mirrors (tree ++ below here before) (tree ++ below here rows) place last content entityType := by
  have typed := Store.list_typed last.formed.keyed entityType
  obtain ⟨_,safe,short⟩ := archived.lookup_directory mirrored.stands
  have outer := segment_name safe short
  refine ⟨⟨children rows [entityType],list_child reaches vacant rows outer mirrored.stands archived.paths_filled,?_⟩,?_,?_⟩
  · have injective : Function.Injective fileName := fun _ _ => fileName_injective
    have once := List.Nodup.map injective (Store.list_uuids_nodup last.formed.keyed last.formed.ordered entityType)
    rw [List.map_map] at once
    apply (List.perm_ext_iff_of_nodup (children_distinct archived.distinct _) once).mpr
    intro name
    rw [mem_children,List.mem_map]
    constructor
    · rintro ⟨node,held⟩
      exact mirrored.only cleaning name node held
    · rintro ⟨e,member,rfl⟩
      obtain ⟨text,held,_⟩ := mirrored.kept e member
      rw [typed e member] at held
      exact ⟨_,held⟩
  · intro e member
    obtain ⟨text,held,same⟩ := mirrored.kept e member
    have plain := fileName_name e.uuid
    obtain rfl := typed e member
    have read : (tree ++ below here rows).readText ((place.child e.entityType).child (fileName e.uuid)).path = .ok text :=
      readText_grandchild reaches vacant rows outer plain mirrored.stands held
    have loaded : content.load e.ref = (admitted? text).map Document.entity := by
      rw [Entity.ref,load_file reaches vacant archived loads (isSafe_none safe),read]
      rfl
    refine ⟨text,read,same.imp_right ?_,loaded,?_⟩
    · rintro ⟨stood,equal⟩
      exact ⟨readText_grandchild reaches vacant before outer plain (standing.housed _ _ _ stood) stood,equal⟩
    · intro sound nested small
      exact loaded.trans (held_reads archived sound nested small held (same.imp_right And.right))
  · intro uuid d loaded
    obtain ⟨ref,text,_,held,_⟩ := (loads _ _).mp loaded
    obtain ⟨types,uuids⟩ := ref_parts ref
    rw [types,uuids] at held
    obtain ⟨e,member,named⟩ := mirrored.only cleaning _ _ held
    exact ⟨e,member,fileName_injective named⟩

end Mirror

section Alone

theorem archive_archived (stamp : String) {store : Store} (formed : store.WellFormed)
    (short : ∀ entityType ∈ safeTypes store, entityType.utf8ByteSize ≤ greatestName) :
    Archived (archive stamp store) := by
  refine ⟨typesRows_nodup stamp formed.keyed (safeTypes_ascending formed.ordered) formed.ordered,?_,?_⟩
  · intro row member
    obtain ⟨entityType,listed,held⟩ := List.mem_flatMap.mp member
    rcases List.mem_cons.mp held with rfl | file
    · exact .directory (Option.isNone_iff_eq_none.mp (List.mem_filter.mp listed).2) (short entityType listed)
    · obtain ⟨e,_,rfl⟩ := List.mem_map.mp file
      exact .file stamp e
  · intro entityType name node held
    obtain ⟨other,listed,head⟩ := typesRows_head stamp formed.keyed (mem_of_lookup held)
    cases head
    exact archive_directory stamp formed listed

variable {tree : Tree} {order : ExportOrder} {e : Entity}

theorem export_alone (empty : EmptyAt tree order.place.path) (safe : isSafe e.entityType = true)
    (short : e.entityType.utf8ByteSize ≤ greatestName) : ∃ report files taken content,
      exportContent { store := [(e.ref,e)] } order tree = (.ok report,files) ∧
      exportContent {} order files = (.ok {},files) ∧
      importContent {} files order.place false = .ok (taken,{ store := content }) ∧
      files.readText ((order.place.child e.entityType).child (fileName e.uuid)).path =
        .ok (Document.ofEntity order.stamp e).page ∧
      content.load e.ref = (admitted? (Document.ofEntity order.stamp e).page).map Document.entity := by
  obtain ⟨here,leads,stands,vacant⟩ := empty
  obtain ⟨left,reaches⟩ := reaches_of_walk leads stands
  have formed := Store.wellFormed_lone e
  have own : e ∈ Store.list [(e.ref,e)] e.entityType := (Store.mem_list formed.keyed).mpr ⟨.head _,rfl⟩
  have listed : e.entityType ∈ safeTypes [(e.ref,e)] := List.mem_filter.mpr ⟨.head _,safe⟩
  have fits : ∀ entityType ∈ Store.types [(e.ref,e)], entityType.utf8ByteSize ≤ greatestName :=
    List.forall_mem_singleton.mpr short
  have archived := archive_archived order.stamp formed fun entityType member =>
    fits entityType (List.mem_filter.mp member).1
  have standing := ensureDirectory_stands (reaches.grows (grows_append tree (below here (archive order.stamp [(e.ref,e)]))))
  obtain ⟨taken,content,imported,loads⟩ := @importContent_held tree order.place here left reaches vacant _ archived {} rfl rfl
  have held := archive_file order.stamp formed listed own
  have plain := Option.isNone_iff_eq_none.mp safe
  have read : (tree ++ below here (archive order.stamp [(e.ref,e)])).readText
      ((order.place.child e.entityType).child (fileName e.uuid)).path = .ok (Document.ofEntity order.stamp e).page :=
    readText_grandchild reaches vacant _ (segment_name plain short) (fileName_name e.uuid)
      (archive_directory order.stamp formed listed) held
  have loaded := load_file reaches vacant archived loads safe e.uuid
  rw [read,Except.toOption,Option.bind_some] at loaded
  refine ⟨_,_,taken,content,@exportContent_archive _ order _ _ reaches vacant { store := [(e.ref,e)] } rfl formed
    (fun entityType member _ => fits entityType member),?_,imported,read,loaded⟩
  simp only [exportContent,standing]
  rfl

end Alone

-- After a clean export, whatever was exported before, the directories of the types of its source hold the
-- files of its entities alone, and an import takes over no other entity of these types. Directories of
-- types of which the source has no entity any more are not looked into.
theorem clean_export_mirrors {tree made : Tree} {place : Location}
    (started : tree.ensureDirectory place.path = .ok made) (empty : EmptyAt made place.path) (earlier : List Pass)
    {last : Pass} (cleaning : last.clean = true) (working : last.source.failing = [])
    (short : ∀ entityType ∈ safeTypes last.source.store, entityType.utf8ByteSize ≤ greatestName)
    {target : Desk} (receiving : target.failing = []) (blank : target.store = []) :
    ∃ before report files taken content,
      (exportAll place tree earlier).ensureDirectory place.path = .ok before ∧
      exportContent last.source (last.order place) (exportAll place tree earlier) = (.ok report,files) ∧
      report.warnings = unsafeWarnings last.source.store ∧
      importContent target files place false = .ok (taken,{ target with store := content }) ∧
      (∀ entityType ∈ safeTypes last.source.store, Mirrors before files place last content entityType) ∧
      (∀ entityType, isSafe entityType = false → ∀ uuid, content.load ⟨entityType,uuid⟩ = none) ∧
      ∀ entityType, isSafe entityType = true → entityType ∉ last.source.store.types → ∀ uuid,
        files.readText ((place.child entityType).child (fileName uuid)).path =
          before.readText ((place.child entityType).child (fileName uuid)).path ∧
        content.load ⟨entityType,uuid⟩ =
          ((before.readText ((place.child entityType).child (fileName uuid)).path).toOption.bind
            admitted?).map Document.entity := by
  obtain ⟨here,leads,stands,vacant⟩ := empty
  obtain ⟨left,reaches⟩ := reaches_of_walk leads stands
  obtain ⟨rows,history,archived⟩ := exportAll_archived reaches vacant earlier .of_nil
  have start : made ++ below here [] = made := List.append_nil made
  have ensured := exportAll_ensured started reaches vacant earlier
  rw [start] at history
  rw [history] at ensured
  have standing := ensureDirectory_stands (reaches.grows (grows_append made (below here rows)))
  obtain ⟨rows',after,tended,done⟩ := @exportContent_tends made (last.order place) here left reaches vacant last.source
    last.formed rows archived
  obtain ⟨report,exported,warnings,mirrored⟩ := done ⟨working,fun entityType listed safe =>
    short entityType (List.mem_filter.mpr ⟨listed,safe⟩)⟩
  obtain ⟨taken,content,imported,loads⟩ := importContent_held reaches vacant tended.archived receiving blank
  refine ⟨_,report,made ++ below here rows',taken,content,ensured,?_,warnings,imported,?_,?_,?_⟩
  · rw [@exportContent_ensured _ (last.order place) _ _ ensured standing]
    exact Prod.ext exported after
  · exact fun entityType listed =>
      mirrors_type reaches vacant archived tended.archived loads cleaning (mirrored entityType listed)
  · intro entityType refused uuid
    rw [Option.eq_none_iff_forall_ne_some]
    intro e loaded
    obtain ⟨ref,held⟩ := (loads _ _).mp loaded
    obtain ⟨_,safe,_⟩ := tended.archived.lookup_directory (held.lookup_directory tended.archived)
    obtain rfl : e.entityType = entityType := (ref_parts ref).1
    rw [isSafe_none safe] at refused
    cases refused
  · intro entityType safe absent uuid
    have plain := Option.isNone_iff_eq_none.mp safe
    have same (rest : Path) : List.lookup (entityType :: rest) rows' = List.lookup (entityType :: rest) rows := by
      apply tended.elsewhere
      rintro other listed head
      exact absent (Option.some.inj head ▸ listed)
    have alone : (made ++ below here rows').readText ((place.child entityType).child (fileName uuid)).path =
        (made ++ below here rows).readText ((place.child entityType).child (fileName uuid)).path := by
      rw [readText_file reaches vacant tended.archived plain,readText_file reaches vacant archived plain,same,same]
    exact ⟨alone,alone ▸ load_file reaches vacant tended.archived loads safe uuid⟩

theorem clean_export_mirrors_page :
    let page : Entity := { Entity.blank "node" "page" "Home" ⟨List.replicate 32 1,by decide⟩ with
      fields := [("sizes",.array [.whole 2,.null])] }
    let note : Entity := Entity.blank "node" "note" "Note" ⟨List.replicate 32 2,by decide⟩
    let site : Location := ⟨"site",["site"]⟩
    let order : ExportOrder := ⟨site,true,"2024-01-02T00:00:00Z"⟩
    ∃ noted report files taken content,
      (exportContent { store := [(note.ref,note)] } ⟨site,false,"2024-01-01T00:00:00Z"⟩ [(["site"],.directory)]).2 = noted ∧
      exportContent { store := [(page.ref,page)] } order noted = (.ok report,files) ∧ report.warnings = [] ∧
      importContent {} files site false = .ok (taken,{ store := content }) ∧
      files.list (site.child "node").path = .ok [fileName page.uuid] ∧
      content.load page.ref = some page ∧ content.load note.ref = none := by
  intro page note site order
  let tree : Tree := [(["site"],.directory)]
  let first : Pass := ⟨{ store := [(note.ref,note)] },Store.wellFormed_lone note,false,"2024-01-01T00:00:00Z"⟩
  let last : Pass := ⟨{ store := [(page.ref,page)] },Store.wellFormed_lone page,true,"2024-01-02T00:00:00Z"⟩
  have empty : EmptyAt tree site.path := emptyAt_lone ⟨by decide,by decide,by decide,by decide⟩
  obtain ⟨here,leads,stands,vacant⟩ := empty
  obtain ⟨left,reaches⟩ := reaches_of_walk leads stands
  have started := ensureDirectory_stands reaches
  have types : safeTypes last.source.store = ["node"] := by decide
  have own : last.source.store.list "node" = [page] := rfl
  have plain : segmentProblem? "node" = none := by decide
  obtain ⟨before,report,files,taken,content,ensured,run,warned,imported,mirrors,_,_⟩ :=
    @clean_export_mirrors tree tree site started ⟨here,leads,stands,vacant⟩ [first] last rfl rfl
      (types ▸ List.forall_mem_singleton.mpr (by decide)) {} rfl rfl
  obtain ⟨⟨names,listed,same⟩,texts,only⟩ := mirrors "node" (types ▸ .head _)
  rw [own] at same texts only
  -- There was no file of the page before, so the one that is there is new.
  have short : ∀ entityType ∈ safeTypes first.source.store, entityType.utf8ByteSize ≤ greatestName := by decide
  have noted : exportAll site tree [first] = tree ++ below here (archive first.stamp first.source.store) :=
    congrArg Prod.snd (@exportContent_archive tree (first.order site) here left reaches vacant first.source rfl
      first.formed fun entityType member safe => short entityType (List.mem_filter.mpr ⟨member,safe⟩))
  have absent : List.lookup ["node",fileName page.uuid] (archive first.stamp first.source.store) = none := by
    decide
  have unread : (tree ++ below here (archive first.stamp first.source.store)).readText
      ((site.child "node").child (fileName page.uuid)).path = .error .notFound :=
    readText_absent reaches vacant _ (segment_name plain (by decide +kernel)) (fileName_name page.uuid)
      (archive_directory first.stamp first.formed (by decide)) absent
  rw [noted,ensureDirectory_stands (reaches.grows (grows_append _ _))] at ensured
  cases ensured
  obtain ⟨text,_,fresh,_,whole⟩ := texts page (.head _)
  rw [unread] at fresh
  have loaded : content.load page.ref = some page := by
    have fields : (Value.object page.fields).Sorted := by
      refine .object _ (List.pairwise_singleton _ _) (List.forall_mem_singleton.mpr (.array _ ?_))
      exact List.forall_mem_cons.mpr ⟨.number _,List.forall_mem_singleton.mpr .null⟩
    have small : (Document.ofEntity last.stamp page).page.utf8ByteSize ≤ sizeLimit :=
      Nat.le_trans (page_size _) (by decide +kernel)
    rcases fresh with rfl | ⟨stood,_⟩
    · exact whole ⟨by decide,fields,by decide⟩ (by decide) small
    · cases stood
  have gone : content.load note.ref = none := by
    rw [Option.eq_none_iff_forall_ne_some]
    intro d back
    obtain ⟨e,member,uuids⟩ := only note.uuid d back
    rw [List.mem_singleton.mp member] at uuids
    revert uuids
    decide
  rw [List.perm_singleton.mp same] at listed
  refine ⟨_,report,files,taken,content,rfl,?_,warned.trans (by decide),imported,listed,loaded,gone⟩
  exact run

-- No mirror: a page that has gone with its type comes back, and a number that is not whole or fields that
-- are nested too deep do not come back as they were.
theorem clean_export_is_no_mirror :
    let uuid : Uuid := ⟨List.replicate 32 1,by decide⟩
    let page : Entity := Entity.blank "node" "page" "Home" uuid
    let weight : Entity := { page with fields := [("weight",.number (.binary ⟨false,8168984829080241,-53⟩))] }
    let tower : Entity := { page with fields := [("tower",Nat.repeat (fun value => .array [value]) 126 .null)] }
    let site : Location := ⟨"site",["site"]⟩
    let order : ExportOrder := ⟨site,true,"2024-01-01T00:00:00Z"⟩
    let tree : Tree := [(["site"],.directory)]
    (∃ exported cleaned files taken content, exportContent { store := [(page.ref,page)] } order tree = (.ok exported,files) ∧
      exportContent {} order files = (.ok cleaned,files) ∧
      importContent {} files site false = .ok (taken,{ store := content }) ∧
      files.readText ((site.child "node").child (fileName uuid)).path = .ok (Document.ofEntity order.stamp page).page ∧
      content.load page.ref = some page) ∧
    (∃ exported files taken content, exportContent { store := [(weight.ref,weight)] } order tree = (.ok exported,files) ∧
      importContent {} files site false = .ok (taken,{ store := content }) ∧ content.load weight.ref ≠ some weight) ∧
    ∃ exported files taken content, exportContent { store := [(tower.ref,tower)] } order tree = (.ok exported,files) ∧
      importContent {} files site false = .ok (taken,{ store := content }) ∧ content.load tower.ref = none := by
  intro uuid page weight tower site order tree
  have empty : EmptyAt tree order.place.path := emptyAt_lone ⟨by decide,by decide,by decide,by decide⟩
  have safe : isSafe "node" = true := by decide
  have short : "node".utf8ByteSize ≤ greatestName := by decide
  refine ⟨?_,?_,?_⟩
  · obtain ⟨exported,files,taken,content,run,again,imported,read,loaded⟩ := @export_alone tree order page empty safe short
    have sound : page.Sound := ⟨by decide,.object _ .nil (List.forall_mem_nil _),rfl⟩
    have small : ¬(Document.ofEntity order.stamp page).page.utf8ByteSize > sizeLimit :=
      Nat.not_lt.mpr (Nat.le_trans (page_size _) (by decide +kernel))
    rw [admitted?,if_neg small,Document.ofText?_page order.stamp sound (by decide)] at loaded
    exact ⟨exported,_,files,taken,content,run,again,imported,read,loaded⟩
  · obtain ⟨exported,files,taken,content,run,_,imported,_,loaded⟩ := @export_alone tree order weight empty safe short
    refine ⟨exported,files,taken,content,run,imported,?_⟩
    rw [loaded,admitted?]
    split
    · nofun
    rw [Document.ofText?_written]
    intro same
    have numbers := congrArg (Option.map fun e : Entity =>
      (Value.object weight.fields).same (Value.object e.fields)) same
    revert numbers
    decide +kernel
  · obtain ⟨exported,files,taken,content,run,_,imported,_,loaded⟩ := @export_alone tree order tower empty safe short
    refine ⟨exported,files,taken,content,run,imported,?_⟩
    have refused : (((Value.object tower.sortedMembers).outline.value greatestDepth).toOption).isNone = true := by
      decide +kernel
    have unread : Document.ofText? (Document.ofEntity order.stamp tower).page = none := by
      rw [Document.ofText?_written,Option.isNone_iff_eq_none.mp refused]
      rfl
    rw [loaded,admitted?,unread,ite_self]
    rfl

end Redline.Exchange
