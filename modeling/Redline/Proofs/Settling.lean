import Redline.Proofs.Rewriting

namespace Redline.Exchange

open Files Files.Tree Json

-- What an export can deal with: no link stands for the directory of a type or in one, and where an
-- entity has its file there is no directory.
structure Receptive (tree : Tree) (here : Path) (store : Store) : Prop where
  unlinked : ∀ entityType ∈ safeTypes store, NoLink (node? tree (here ++ [entityType]))
  plain : ∀ entityType ∈ safeTypes store, ∀ name, NoLink (node? tree (here ++ [entityType] ++ [name]))
  free : ∀ entityType ∈ safeTypes store, ∀ e ∈ store.list entityType,
    node? tree (here ++ [entityType] ++ [fileName e.uuid]) ≠ some .directory

-- A type whose directory has a file for each entity that is up to date.
structure Shown (tree : Tree) (here : Path) (store : Store) (entityType : String) : Prop where
  named : IsName entityType
  stands : node? tree (here ++ [entityType]) = some .directory
  tells : ∀ e ∈ store.list entityType, Tells tree (here ++ [entityType]) e

section Types

variable {here : Path} {store : Store} {tree after : Tree} {entityType : String} {touched : String → Prop}

theorem Receptive.of_rewrites (receptive : Receptive tree here store)
    (rewrites : Rewrites (here ++ [entityType]) touched tree after) : Receptive after here store :=
  ⟨fun other listed => rewrites.keeps_noLink (receptive.unlinked other listed),
    fun other listed name => rewrites.keeps_noLink (receptive.plain other listed name),
    fun other listed e member => rewrites.ne_directory (receptive.free other listed e member)⟩

theorem inside_ne (here : Path) (entityType other name : String) :
    here ++ [other] ++ [name] ≠ here ++ [entityType] := by
  intro same
  simpa using congrArg List.length same

theorem Receptive.put_directory (receptive : Receptive tree here store) :
    Receptive (put tree (here ++ [entityType]) .directory) here store := by
  refine ⟨fun other listed => ?_,fun other listed name => ?_,fun other listed e member => ?_⟩
  · by_cases own : here ++ [other] = here ++ [entityType]
    · rw [own,node?_put_self tree _ (by simp)]
      exact .of_directory
    · rw [node?_put_other tree _ own]
      exact receptive.unlinked other listed
  · rw [node?_put_other tree _ (inside_ne here entityType other name)]
    exact receptive.plain other listed name
  · rw [node?_put_other tree _ (inside_ne here entityType other _)]
    exact receptive.free other listed e member

theorem Rewrites.node_directory (rewrites : Rewrites (here ++ [entityType]) touched tree after) (other : String) :
    node? after (here ++ [other]) = node? tree (here ++ [other]) :=
  rewrites.node_other fun name _ same => inside_ne here other entityType name same.symm

theorem Rewrites.node_elsewhere (rewrites : Rewrites (here ++ [entityType]) touched tree after) {other : String}
    (apart : other ≠ entityType) (name : String) :
    node? after (here ++ [other] ++ [name]) = node? tree (here ++ [other] ++ [name]) := by
  apply rewrites.node_other
  intro name' _ same
  exact apart (by simpa using (List.append_inj' same rfl).1)

theorem Shown.of_rewrites {other : String} (shown : Shown tree here store other) (apart : other ≠ entityType)
    (rewrites : Rewrites (here ++ [entityType]) touched tree after) : Shown after here store other :=
  ⟨shown.named,(rewrites.node_directory other).trans shown.stands,fun e member =>
    (shown.tells e member).congr (rewrites.node_elsewhere apart _)⟩

theorem Shown.put_directory {other : String} (shown : Shown tree here store other)
    (absent : node? tree (here ++ [entityType]) = none) :
    Shown (put tree (here ++ [entityType]) .directory) here store other := by
  refine ⟨shown.named,grows_put _ absent _ _ shown.stands,fun e member => (shown.tells e member).congr ?_⟩
  exact node?_put_other tree _ (inside_ne here entityType other _)

-- No file comes to stand for the directory of a type.
def NoFiles (before after : Tree) (here : Path) : Prop := ∀ entityType content,
  node? after (here ++ [entityType]) = some (.file content) → node? before (here ++ [entityType]) = some (.file content)

theorem noFiles_opened (tree : Tree) (here : Path) (entityType : String) :
    NoFiles tree (put tree (here ++ [entityType]) .directory) here := by
  intro other content file
  by_cases own : here ++ [other] = here ++ [entityType]
  · rw [own,node?_put_self tree _ (by simp)] at file
    cases file
  · exact (node?_put_other tree _ own).symm.trans file

end Types

section Exports

variable {here : Path} {source : Desk} {order : ExportOrder} {tree : Tree} {left : Nat}
  (formed : source.store.WellFormed)
  (lasting : ∀ row ∈ source.store, isSafe row.1.entityType = true → Lasting order.stamp row.2)
  (reaches : Reaches tree 40 [] order.place.path left here) (receptive : Receptive tree here source.store)

theorem safe_listed {store : Store} {entityType : String} (listed : entityType ∈ store.types)
    (safe : segmentProblem? entityType = none) : entityType ∈ safeTypes store :=
  List.mem_filter.mpr ⟨listed,isSafe_none safe⟩

include reaches receptive

theorem ensured_receives {entityType : String} (safe : segmentProblem? entityType = none)
    (listed : entityType ∈ source.store.types) {made : Tree}
    (ensured : tree.ensureDirectory (order.place.child entityType).path = .ok made) :
    Reaches made 40 [] order.place.path left here ∧ IsName entityType ∧
      node? made (here ++ [entityType]) = some .directory ∧ Receptive made here source.store ∧ NoFiles tree made here ∧
      ∀ other, Shown tree here source.store other → Shown made here source.store other := by
  obtain ⟨named,⟨stands,rfl⟩ | ⟨absent,rfl⟩⟩ :=
    ensureDirectory_entry reaches (segment_plain safe) (receptive.unlinked _ (safe_listed listed safe)) ensured
  · exact ⟨reaches,named,stands,receptive,fun _ _ file => file,fun _ shown => shown⟩
  · exact ⟨reaches.grows (grows_put .directory absent),named,node?_put_self tree _ (by simp),receptive.put_directory,
      noFiles_opened tree here entityType,fun _ shown => shown.put_directory absent⟩

include formed lasting

theorem exportType_shows {entityType : String} (listed : entityType ∈ source.store.types) {report report' : Report}
    {after : Tree} (exported : exportType source order ⟨tree,report⟩ entityType = (⟨after,report'⟩,none)) :
    Reaches after 40 [] order.place.path left here ∧ Receptive after here source.store ∧ NoFiles tree after here ∧
      (isSafe entityType = true → Shown after here source.store entityType) ∧
      ∀ other, other ≠ entityType → Shown tree here source.store other → Shown after here source.store other := by
  unfold exportType at exported
  cases problem : segmentProblem? entityType with
  | some found =>
      simp only [problem] at exported
      cases exported
      refine ⟨reaches,receptive,fun _ _ file => file,fun safe => ?_,fun _ _ shown => shown⟩
      rw [isSafe_some problem] at safe
      cases safe
  | none =>
      have safe := safe_listed listed problem
      simp only [problem] at exported
      cases ensured : tree.ensureDirectory (order.place.child entityType).path with
      | error failure =>
          rw [ensured] at exported
          cases exported
      | ok made =>
          simp only [ensured] at exported
          cases asked : source.list entityType with
          | error failure =>
              rw [asked] at exported
              cases exported
          | ok entities =>
              simp only [asked] at exported
              obtain rfl := list_ok asked
              obtain ⟨outer,named,stands,ready,filed,before⟩ := ensured_receives reaches receptive problem listed ensured
              have inner : Reaches made 40 [] (order.place.child entityType).path left (here ++ [entityType]) :=
                outer.child named stands
              have typed := Store.list_typed formed.keyed entityType
              have each : ∀ e ∈ source.store.list entityType, Lasting order.stamp e := by
                intro e member
                apply lasting (e.ref,e) ((Store.mem_list formed.keyed).mp member).1
                rw [Entity.ref,typed e member]
                exact isSafe_none problem
              obtain ⟨tree',report'',written,tell,rewrites⟩ := writeAll_tells inner (ready.plain _ safe) order.stamp
                order.clean _ report (Store.list_uuids_nodup formed.keyed formed.ordered entityType) (ready.free _ safe) each
              rw [written] at exported
              cases exported
              refine ⟨outer.keeps rewrites.keeps,ready.of_rewrites rewrites,fun other content file => ?_,fun _ => ⟨named,?_,tell⟩,
                fun other apart shown => (before other shown).of_rewrites apart rewrites⟩
              · exact filed other content ((rewrites.node_directory other).symm.trans file)
              · exact (rewrites.node_directory entityType).trans stands

theorem exportTypes_show (types : List String) (listed : ∀ entityType ∈ types, entityType ∈ source.store.types)
    {report report' : Report} {after : Tree} (exported : exportTypes source order ⟨tree,report⟩ types = (⟨after,report'⟩,none)) :
    Reaches after 40 [] order.place.path left here ∧ Receptive after here source.store ∧
      ∀ entityType, isSafe entityType = true →
        entityType ∈ types ∨ Shown tree here source.store entityType → Shown after here source.store entityType := by
  induction types generalizing tree report with
  | nil =>
      cases exported
      refine ⟨reaches,receptive,?_⟩
      rintro entityType _ (odd | shown)
      · cases odd
      · exact shown
  | cons first rest ih =>
      obtain ⟨mine,others⟩ := List.forall_mem_cons.mp listed
      cases run : exportType source order ⟨tree,report⟩ first with
      | mk middle stop =>
          obtain ⟨tree',report''⟩ := middle
          rw [exportTypes,run] at exported
          cases stop with
          | some failure => cases exported
          | none =>
              obtain ⟨outer,ready,_,own,before⟩ := exportType_shows formed lasting reaches receptive mine run
              obtain ⟨last,ready',each⟩ := ih outer ready others exported
              refine ⟨last,ready',fun entityType safe found => each entityType safe ?_⟩
              by_cases again : entityType ∈ rest
              · exact .inl again
              right
              by_cases same : entityType = first
              · exact same ▸ own (same ▸ safe)
              rcases found with member | shown
              · rcases List.mem_cons.mp member with odd | odd
                · exact absurd odd same
                · exact absurd odd again
              · exact before entityType same shown

-- What can still go wrong is the making of a directory, where a name is too long or a file stands.
theorem exportTypes_done (working : source.failing = []) (types : List String)
    (listed : ∀ entityType ∈ types, entityType ∈ source.store.types)
    (fits : ∀ entityType ∈ types, isSafe entityType = true → entityType.utf8ByteSize ≤ greatestName ∧
      ∀ content, node? tree (here ++ [entityType]) ≠ some (.file content)) (report : Report) :
    ∃ after report', exportTypes source order ⟨tree,report⟩ types = (⟨after,report'⟩,none) := by
  induction types generalizing tree report with
  | nil => exact ⟨tree,report,rfl⟩
  | cons first rest ih =>
      obtain ⟨mine,others⟩ := List.forall_mem_cons.mp listed
      obtain ⟨own,behind⟩ := List.forall_mem_cons.mp fits
      have ran : ∃ middle report', exportType source order ⟨tree,report⟩ first = (⟨middle,report'⟩,none) := by
        cases problem : segmentProblem? first with
        | some found => exact ⟨_,_,exportType_refused problem _⟩
        | none =>
            obtain ⟨short,noFile⟩ := own (isSafe_none problem)
            have named := segment_name problem short
            have ensured : ∃ made, tree.ensureDirectory (order.place.child first).path = .ok made := by
              cases stands : node? tree (here ++ [first]) with
              | none => exact ⟨_,ensureDirectory_new reaches named stands⟩
              | some node =>
                  cases node with
                  | directory => exact ⟨_,ensureDirectory_stands (reaches.child named stands)⟩
                  | file content => exact absurd stands (noFile content)
                  | link target => exact absurd stands (receptive.unlinked first (safe_listed mine problem) target)
            obtain ⟨made,ensured⟩ := ensured
            exact ⟨_,_,by simp only [exportType,problem,ensured,list_working working]; rfl⟩
      obtain ⟨middle,report',run⟩ := ran
      obtain ⟨outer,ready,filed,_⟩ := exportType_shows formed lasting reaches receptive mine run
      obtain ⟨after,report'',done⟩ := ih outer ready others (fun other member safe =>
        ⟨(behind other member safe).1,fun content file => (behind other member safe).2 content (filed other content file)⟩)
        report'
      refine ⟨after,report'',?_⟩
      simp only [exportTypes,run,done]

end Exports

-- The directories of the types and the files of the entities stay as they are.
def Stays (here : Path) (store : Store) (before after : Tree) : Prop :=
  ∀ entityType ∈ safeTypes store, node? after (here ++ [entityType]) = node? before (here ++ [entityType]) ∧
    ∀ e ∈ store.list entityType, node? after (here ++ [entityType] ++ [fileName e.uuid]) =
      node? before (here ++ [entityType] ++ [fileName e.uuid])

theorem Shown.of_stays {here : Path} {store : Store} {before after : Tree} {entityType : String}
    (shown : Shown before here store entityType) (listed : entityType ∈ safeTypes store)
    (stays : Stays here store before after) : Shown after here store entityType :=
  ⟨shown.named,(stays entityType listed).1.trans shown.stands,fun e member =>
    (shown.tells e member).congr ((stays entityType listed).2 e member)⟩

section Again

variable {here : Path} {source : Desk} {order : ExportOrder} {tree : Tree} {left : Nat} (working : source.failing = [])
  (reaches : Reaches tree 40 [] order.place.path left here) (receptive : Receptive tree here source.store)
  (shown : ∀ entityType ∈ safeTypes source.store, Shown tree here source.store entityType) (report : Report)

include working reaches receptive shown

theorem exportType_again {entityType : String} (listed : entityType ∈ source.store.types) :
    ∃ after report', exportType source order ⟨tree,report⟩ entityType = (⟨after,report'⟩,none) ∧
      report'.counts = report.counts ∧ report'.unchanged = report.unchanged +
        (if isSafe entityType then (source.store.list entityType).length else 0) ∧
      Reaches after 40 [] order.place.path left here ∧ Receptive after here source.store ∧
      Stays here source.store tree after ∧ (order.clean = false → after = tree) := by
  cases problem : segmentProblem? entityType with
  | some found =>
      refine ⟨tree,report.warn (.unsafeType found),exportType_refused problem _,rfl,?_,reaches,receptive,
        fun _ _ => ⟨rfl,fun _ _ => rfl⟩,fun _ => rfl⟩
      rw [isSafe_some problem]
      rfl
  | none =>
      have safe := safe_listed listed problem
      have inner : Reaches tree 40 [] (order.place.child entityType).path left (here ++ [entityType]) :=
        reaches.child (shown entityType safe).named (shown entityType safe).stands
      have ensured : tree.ensureDirectory (order.place.child entityType).path = .ok tree := ensureDirectory_stands inner
      obtain ⟨after,report',run,counts,unchanged,rewrites,untouched⟩ := writeAll_current inner (receptive.plain _ safe)
        order.stamp order.clean (source.store.list entityType) report (shown entityType safe).tells
      refine ⟨after,report',?_,counts,?_,reaches.keeps rewrites.keeps,receptive.of_rewrites rewrites,?_,untouched⟩
      · simp only [exportType,problem,ensured,list_working working,run]
      · rw [unchanged,isSafe_none problem]
        rfl
      · refine fun other _ => ⟨rewrites.node_directory other,fun e member => rewrites.node_other ?_⟩
        intro name stale same
        obtain ⟨directory,file⟩ := List.append_inj' same rfl
        rw [List.singleton_inj.mp (List.append_cancel_left directory)] at member
        rw [← List.singleton_inj.mp file] at stale
        exact stale (List.mem_map_of_mem member)

theorem exportTypes_again (types : List String) (listed : ∀ entityType ∈ types, entityType ∈ source.store.types) :
    ∃ after report', exportTypes source order ⟨tree,report⟩ types = (⟨after,report'⟩,none) ∧
      report'.counts = report.counts ∧ report'.unchanged = report.unchanged +
        ((types.filter isSafe).flatMap source.store.list).length ∧
      Reaches after 40 [] order.place.path left here ∧ Stays here source.store tree after ∧
      (order.clean = false → after = tree) := by
  induction types generalizing tree report with
  | nil => exact ⟨tree,report,rfl,rfl,rfl,reaches,fun _ _ => ⟨rfl,fun _ _ => rfl⟩,fun _ => rfl⟩
  | cons first rest ih =>
      obtain ⟨mine,others⟩ := List.forall_mem_cons.mp listed
      obtain ⟨middle,report',one,counts,unchanged,outer,ready,stays,untouched⟩ :=
        exportType_again working reaches receptive shown report mine
      obtain ⟨after,report'',run,counts',unchanged',last,stays',untouched'⟩ :=
        ih outer ready (fun entityType member => (shown entityType member).of_stays member stays) report' others
      refine ⟨after,report'',?_,counts'.trans counts,?_,last,fun entityType member => ⟨?_,fun e held => ?_⟩,fun idle => ?_⟩
      · simp only [exportTypes,one,run]
      · rw [unchanged',unchanged]
        cases safe : isSafe first with
        | false => rw [List.filter_cons_of_neg (by rw [safe]; exact Bool.false_ne_true),if_neg Bool.false_ne_true]; rfl
        | true => rw [List.filter_cons_of_pos safe,List.flatMap_cons,List.length_append,if_pos rfl,Nat.add_assoc]
      · exact (stays' entityType member).1.trans (stays entityType member).1
      · exact ((stays' entityType member).2 e held).trans ((stays entityType member).2 e held)
      · exact (untouched' idle).trans (untouched idle)

end Again

theorem listed_row {store : Store} (formed : store.WellFormed) {row : EntityRef × Entity} (member : row ∈ store)
    (safe : isSafe row.1.entityType = true) : row.1.entityType ∈ safeTypes store ∧
      row.2 ∈ store.list row.1.entityType ∧ row.2.ref = row.1 := by
  have own : row.2.ref = row.1 := formed.keyed row member
  have listed := (Store.mem_types store row.1.entityType).mpr ⟨row,member,rfl⟩
  refine ⟨List.mem_filter.mpr ⟨listed,safe⟩,(Store.mem_list formed.keyed).mpr ⟨?_,?_⟩,own⟩
  · rw [own]
    exact member
  · exact congrArg EntityRef.entityType own

theorem safe_counted {store : Store} (formed : store.WellFormed) :
    ((safeTypes store).flatMap store.list).length = (store.filter fun row => isSafe row.1.entityType).length := by
  have distinct : (safeTypes store).Nodup := (Store.types_nodup formed.ordered).filter _
  have sizes : ∀ entityType ∈ safeTypes store,
      (store.list entityType).length = (store.filter fun row => row.1.entityType = entityType).length := by
    intro entityType _
    rw [← Store.rows_list formed.keyed entityType,List.length_map]
  rw [← safeTypes_rows,← (Store.groups_perm store distinct).length_eq,List.length_flatMap,List.length_flatMap,
    List.map_congr_left sizes]

theorem exportContent_ok {source : Desk} {order : ExportOrder} {tree made files : Tree} {report : Report}
    (started : tree.ensureDirectory order.place.path = .ok made) :
    exportContent source order tree = (.ok report,files) ↔ source.types = .ok source.store.types ∧
      exportTypes source order ⟨made,{}⟩ source.store.types = (⟨files,report⟩,none) := by
  simp only [exportContent,started]
  constructor
  · intro exported
    cases asked : source.types with
    | error failure =>
        rw [asked] at exported
        cases exported
    | ok types =>
        obtain rfl := types_ok asked
        simp only [asked] at exported
        split at exported
        · rename_i run
          cases exported
          exact ⟨rfl,run⟩
        · cases exported
  · rintro ⟨asked,run⟩
    simp only [asked,run]

def entityFile (place : Location) (ref : EntityRef) : Path := ((place.child ref.entityType).child (fileName ref.uuid)).path

theorem Shown.reads_document {store : Store} {files : Tree} {place : Location} {here : Path} {left : Nat} {ref : EntityRef}
    (shown : Shown files here store ref.entityType) (reaches : Reaches files 40 [] place.path left here) {e : Entity}
    (member : e ∈ store.list ref.entityType) (own : e.ref = ref) : ∃ text,
      node? files (here ++ [ref.entityType] ++ [fileName e.uuid]) = some (.file (.text text)) ∧
        files.readText (entityFile place ref) = .ok text ∧ ∀ stamp, (Document.ofEntity stamp e).isHeldBy text = true := by
  obtain ⟨text,file,held⟩ := shown.tells e member
  have inner : Reaches files 40 [] (place.child ref.entityType).path left (here ++ [ref.entityType]) :=
    reaches.child shown.named shown.stands
  refine ⟨text,file,?_,held⟩
  rw [← own] at inner file ⊢
  exact readText_entry inner (fileName_name e.uuid) file

section Crossing

variable {source : Desk} {order : ExportOrder} {tree : Tree} {shelf : Path} {left : Nat} {entityType : String} {e : Entity}

theorem entered_stale {stamp : String} {other : Entity} (sound : other.Sound) (apart : other.ref ≠ e.ref)
    (same : other.uuid = e.uuid) : ¬Tells (entered stamp tree shelf e) shelf other := by
  rintro ⟨text,held,tells⟩
  rw [same,entered_file] at held
  obtain rfl := Content.text.inj (Node.file.inj (Option.some.inj held))
  exact apart (Document.isHeldBy_ref sound (tells stamp))

theorem exportType_stale (working : source.failing = []) (idle : order.clean = false)
    (safe : segmentProblem? entityType = none) (alone : source.store.list entityType = [e])
    (reaches : Reaches tree 40 [] (order.place.child entityType).path left shelf)
    (only : FileOnly (node? tree (shelf ++ [fileName e.uuid]))) (stale : ¬Tells tree shelf e) (report : Report) :
    exportType source order ⟨tree,report⟩ entityType =
      (⟨entered order.stamp tree shelf e,report.count e.entityType⟩,none) := by
  have written := writeEntity_stale reaches order.stamp report only stale
  have ensured := ensureDirectory_stands reaches
  simp only [exportType,safe,ensured,list_working working,alone,Progress.writeAll,idle,List.foldl_cons,List.foldl_nil,written]
  rfl

theorem exportTypes_crossed (working : source.failing = []) (idle : order.clean = false) {second : String} {f : Entity}
    (safe : segmentProblem? entityType = none) (safe' : segmentProblem? second = none)
    (alone : source.store.list entityType = [e]) (alone' : source.store.list second = [f])
    (same : f.uuid = e.uuid) (apart : f.ref ≠ e.ref) (sound : f.Sound) {left' : Nat}
    (reaches : Reaches tree 40 [] (order.place.child entityType).path left shelf)
    (reaches' : Reaches tree 40 [] (order.place.child second).path left' shelf)
    (only : FileOnly (node? tree (shelf ++ [fileName e.uuid]))) (stale : ¬Tells tree shelf e) (report : Report) :
    exportTypes source order ⟨tree,report⟩ [entityType,second] =
      (⟨entered order.stamp (entered order.stamp tree shelf e) shelf f,
        (report.count e.entityType).count f.entityType⟩,none) := by
  have there : FileOnly (node? (entered order.stamp tree shelf e) (shelf ++ [fileName f.uuid])) :=
    same ▸ fileOnly_file (entered_file order.stamp tree shelf e)
  have begun : Rewrites shelf (· = fileName e.uuid) tree (entered order.stamp tree shelf e) :=
    entered_rewrites order.stamp rfl only
  have overwritten := exportType_stale working idle safe' alone' (reaches'.keeps begun.keeps) there
    (entered_stale sound apart same) (report.count e.entityType)
  simp only [exportTypes,exportType_stale working idle safe alone reaches only stale report,overwritten]

end Crossing

-- Once exported, content is settled: each file reads as the document of its entity but for the time of the
-- export, and any later export of the same content finds nothing to write.
theorem re_export_settles {source : Desk} {order : ExportOrder} {tree made : Tree} {here : Path}
    (formed : source.store.WellFormed)
    (lasting : ∀ row ∈ source.store, isSafe row.1.entityType = true → Lasting order.stamp row.2)
    (started : tree.ensureDirectory order.place.path = .ok made) (leads : made.resolve true order.place.path = .ok here)
    (receptive : Receptive made here source.store) :
    (source.failing = [] → (∀ entityType ∈ safeTypes source.store, entityType.utf8ByteSize ≤ greatestName ∧
        ∀ content, made.node? (here ++ [entityType]) ≠ some (.file content)) →
      ∃ report files, exportContent source order tree = (.ok report,files)) ∧
    ∀ report files, exportContent source order tree = (.ok report,files) →
      (∀ row ∈ source.store, isSafe row.1.entityType = true → ∃ text value,
        files.readText (entityFile order.place row.1) = .ok text ∧ Value.ofText? text = some value ∧
        Document.withoutStamp value = Document.withoutStamp (Document.ofEntity order.stamp row.2).toValue) ∧
      ∀ (again : Desk) (later : ExportOrder), again.store = source.store → again.failing = [] → later.place = order.place →
        ∃ report' files', exportContent again later files = (.ok report',files') ∧ report'.total = 0 ∧
          report'.unchanged = (source.store.filter fun row => isSafe row.1.entityType).length ∧
          (later.clean = false → files' = files) ∧
          ∀ row ∈ source.store, isSafe row.1.entityType = true →
            files'.readText (entityFile order.place row.1) = files.readText (entityFile order.place row.1) := by
  obtain ⟨left,outer,reaches⟩ := ensureDirectory_reaches started
  obtain rfl : outer = here := Except.ok.inj ((resolve_stands reaches).symm.trans leads)
  have ascending := Store.types_nodup formed.ordered
  refine ⟨fun working fits => ?_,fun report files exported => ?_⟩
  · obtain ⟨files,report,run⟩ := exportTypes_done formed lasting reaches receptive working source.store.types
      (fun _ listed => listed) (fun entityType listed safe => fits entityType (List.mem_filter.mpr ⟨listed,safe⟩)) {}
    exact ⟨report,files,(exportContent_ok started).mpr ⟨types_working working,run⟩⟩
  obtain ⟨_,run⟩ := (exportContent_ok started).mp exported
  obtain ⟨reached,ready,each⟩ :=
    exportTypes_show formed lasting reaches receptive source.store.types (fun _ listed => listed) run
  have shown : ∀ entityType ∈ safeTypes source.store, Shown files outer source.store entityType := by
    intro entityType member
    obtain ⟨listed,safe⟩ := List.mem_filter.mp member
    exact each entityType safe (.inl listed)
  refine ⟨fun row member safe => ?_,fun again later same working place => ?_⟩
  · obtain ⟨listed,held,own⟩ := listed_row formed member safe
    obtain ⟨text,_,read,current⟩ := (shown _ listed).reads_document reached held own
    obtain ⟨value,found,equal⟩ := (Document.isHeldBy_iff (lasting row member safe).sound text).mp (current order.stamp)
    exact ⟨text,value,read,found,equal⟩
  · rw [← same] at ready shown
    rw [← place] at reached
    obtain ⟨files',report',run',counts,unchanged,reached',stays,untouched⟩ :=
      exportTypes_again working reached ready shown {} again.store.types fun _ listed => listed
    have standing : files.ensureDirectory later.place.path = .ok files := ensureDirectory_stands reached
    refine ⟨report',files',(exportContent_ok standing).mpr ⟨types_working working,run'⟩,?_,?_,untouched,?_⟩
    · rw [Report.total,counts]
      rfl
    · rw [unchanged,same]
      exact (Nat.zero_add _).trans (safe_counted formed)
    · intro row member safe
      obtain ⟨listed,held,own⟩ := listed_row formed member safe
      rw [← same] at listed held
      obtain ⟨text,file,read,_⟩ := (shown _ listed).reads_document reached held own
      obtain ⟨text',file',read',_⟩ := ((shown _ listed).of_stays listed stays).reads_document reached' held own
      rw [(stays _ listed).2 _ held,file] at file'
      cases file'
      rw [← place,read,read']

theorem re_export_settles_page :
    let page : Entity := { Entity.blank "node" "page" "Home" ⟨List.replicate 32 1,by decide⟩ with
      fields := [("sizes",.array [.whole 2,.null])] }
    let source : Desk := { store := [(page.ref,page)] }
    let site : Location := ⟨"site",["site"]⟩
    let tree : Tree := [(["site"],.directory),(["site","node"],.directory),
      (["site","node",fileName page.uuid],.file (.text "\x7b"))]
    ∃ report files report' files' text value,
      exportContent source ⟨site,false,"2024-01-01T00:00:00Z"⟩ tree = (.ok report,files) ∧
      exportContent source ⟨site,true,"2024-01-02T00:00:00Z"⟩ files = (.ok report',files') ∧
      report'.total = 0 ∧ report'.unchanged = 1 ∧ files.readText (entityFile site page.ref) = .ok text ∧
      files'.readText (entityFile site page.ref) = .ok text ∧ Value.ofText? text = some value ∧
      Document.withoutStamp value =
        Document.withoutStamp (Document.ofEntity "2024-01-01T00:00:00Z" page).toValue := by
  intro page source site tree
  have reaches : Reaches tree 40 [] site.path 40 ["site"] :=
    .enter ⟨by decide,by decide,by decide,by decide⟩ rfl (.done 40 _)
  have types : safeTypes source.store = ["node"] := by decide +kernel
  have own : source.store.list "node" = [page] := rfl
  have lasting : Lasting "2024-01-01T00:00:00Z" page := by
    refine ⟨⟨by decide,?_,by decide⟩,by decide⟩
    refine .object _ (List.pairwise_singleton _ _) (List.forall_mem_singleton.mpr (.array _ ?_))
    exact List.forall_mem_cons.mpr ⟨.number _,List.forall_mem_singleton.mpr .null⟩
  have unlinked : ∀ row ∈ tree, ∀ target, row.2 ≠ .link target := by
    intro row member target
    simp only [tree,List.mem_cons,List.not_mem_nil,or_false] at member
    rcases member with rfl | rfl | rfl <;> exact fun odd => by cases odd
  have receptive : Receptive tree ["site"] source.store := by
    refine ⟨fun _ _ => .of_rows unlinked _,fun _ _ _ => .of_rows unlinked _,?_⟩
    rw [types,List.forall_mem_singleton,own,List.forall_mem_singleton]
    decide
  obtain ⟨starts,settles⟩ := @re_export_settles source ⟨site,false,"2024-01-01T00:00:00Z"⟩ tree tree ["site"]
    (Store.wellFormed_lone page) (List.forall_mem_singleton.mpr fun _ => lasting)
    (ensureDirectory_stands reaches) (resolve_stands reaches) receptive
  have fits : ∀ entityType ∈ safeTypes source.store, entityType.utf8ByteSize ≤ greatestName ∧
      ∀ content, tree.node? (["site"] ++ [entityType]) ≠ some (.file content) := by
    rw [types,List.forall_mem_singleton]
    exact ⟨by decide,fun content odd => by cases odd⟩
  obtain ⟨report,files,exported⟩ := starts rfl fits
  obtain ⟨documents,later⟩ := settles report files exported
  obtain ⟨text,value,read,parsed,same⟩ := documents (page.ref,page) (.head _) (by decide)
  obtain ⟨report',files',again,total,unchanged,_,still⟩ := later source ⟨site,true,"2024-01-02T00:00:00Z"⟩ rfl rfl rfl
  refine ⟨report,files,report',files',text,value,exported,again,total,unchanged.trans (by decide),read,?_,parsed,same⟩
  rw [still (page.ref,page) (.head _) (by decide),read]

-- Where the directory of one type is a link to that of another one, entities with the same UUID write over
-- each other, in a second export as in the first.
theorem linked_types_unsettled :
    let node : Entity := Entity.blank "node" "page" "Home" ⟨List.replicate 32 1,by decide⟩
    let page : Entity := { node with entityType := "page" }
    let source : Desk := { store := [(node.ref,node),(page.ref,page)] }
    let site : Location := ⟨"site",["site"]⟩
    let order : ExportOrder := ⟨site,false,"2024-01-01T00:00:00Z"⟩
    let tree : Tree := [(["site"],.directory),(["site","node"],.directory),(["site","page"],.link "node")]
    ∃ report files report' files', exportContent source order tree = (.ok report,files) ∧
      exportContent source order files = (.ok report',files') ∧ report'.total = 2 ∧ report'.unchanged = 0 ∧
      files.readText (entityFile site node.ref) = .ok (Document.ofEntity order.stamp page).page := by
  intro node page source site order tree
  have place : Reaches tree 40 [] site.path 40 ["site"] :=
    .enter ⟨by decide,by decide,by decide,by decide⟩ rfl (.done 40 _)
  have direct : Reaches tree 40 [] (site.child "node").path 40 ["site","node"] :=
    place.child ⟨by decide,by decide,by decide,by decide⟩ rfl
  have linked : Reaches tree 40 [] (site.child "page").path 39 ["site","node"] := by
    refine .enter ⟨by decide,by decide,by decide,by decide⟩ rfl ?_
    refine .follow ⟨by decide,by decide,by decide,by decide⟩ rfl (by decide +kernel) ?_
    exact .enter ⟨by decide,by decide,by decide,by decide⟩ rfl (.done 39 _)
  have types : source.store.types = ["node","page"] := by decide +kernel
  have ownNode : source.store.list "node" = [node] := rfl
  have ownPage : source.store.list "page" = [page] := rfl
  have nodeSound : node.Sound := ⟨by decide,.object _ .nil (List.forall_mem_nil _),rfl⟩
  have pageSound : page.Sound := ⟨by decide,.object _ .nil (List.forall_mem_nil _),rfl⟩
  have apart : page.ref ≠ node.ref := by decide
  let shelf : Path := ["site","node"]
  let both (start : Tree) : Tree := entered order.stamp (entered order.stamp start shelf node) shelf page
  have once : ∀ start, Rewrites shelf (fun _ => True) tree start → FileOnly (node? start (shelf ++ [fileName node.uuid])) →
      ¬Tells start shelf node →
      exportContent source order start = (.ok ((Report.count {} "node").count "page"),both start) := by
    intro start rewrites only stale
    refine (exportContent_ok (ensureDirectory_stands (place.keeps rewrites.keeps))).mpr ⟨rfl,?_⟩
    rw [types]
    exact exportTypes_crossed rfl rfl (by decide) (by decide +kernel) ownNode ownPage rfl apart pageSound
      (direct.keeps rewrites.keeps) (linked.keeps rewrites.keeps) only stale {}
  have absent : node? tree (shelf ++ [fileName node.uuid]) = none := by decide
  have nothing : FileOnly (node? tree (shelf ++ [fileName node.uuid])) := by
    rw [absent]
    rintro _ odd
    cases odd
  have untold : ¬Tells tree shelf node := by
    rintro ⟨_,stands,_⟩
    rw [absent] at stands
    cases stands
  have begun : Rewrites shelf (fun _ => True) tree (entered order.stamp tree shelf node) :=
    entered_rewrites order.stamp trivial nothing
  have file : node? (both tree) (shelf ++ [fileName node.uuid]) =
    some (.file (.text (Document.ofEntity order.stamp page).page)) := entered_file order.stamp _ shelf page
  have there : FileOnly (node? (entered order.stamp tree shelf node) (shelf ++ [fileName page.uuid])) :=
    fileOnly_file (entered_file order.stamp tree shelf node)
  have between := begun.trans (entered_rewrites order.stamp trivial there)
  refine ⟨_,both tree,_,_,once tree .refl nothing untold,once (both tree) between (fileOnly_file file)
    (entered_stale nodeSound apart.symm rfl),by decide,rfl,?_⟩
  exact readText_entry (direct.keeps between.keeps) (fileName_name node.uuid) file

end Redline.Exchange
