import Redline.Exchange.Export
import Redline.Proofs.Calls
import Redline.Proofs.Contents
import Redline.Proofs.Entries
import Redline.Proofs.Records

namespace Redline.Exchange

open Files Files.Tree

section Names

theorem isSafe_none {name : String} (safe : segmentProblem? name = none) : isSafe name = true := by
  rw [isSafe,safe]
  rfl

theorem isSafe_some {name : String} {problem : SegmentProblem} (broken : segmentProblem? name = some problem) :
    isSafe name = false := by
  rw [isSafe,broken]
  rfl

theorem segment_solid {name : String} (safe : segmentProblem? name = none) :
    name ≠ "" ∧ name.toList.head? ≠ some '.' := by
  constructor
  · rintro rfl
    revert safe
    decide
  · intro dot
    rw [segmentProblem?] at safe
    split at safe
    · cases safe
    split at safe
    · cases safe
    split at safe
    · cases safe
    split at safe
    · cases safe
    · rw [if_pos (.inl dot)] at safe
      cases safe

theorem segment_plain {name : String} (safe : segmentProblem? name = none) : name ≠ "" ∧ name ≠ "." ∧ name ≠ ".." := by
  obtain ⟨filled,noDot⟩ := segment_solid safe
  refine ⟨filled,?_,?_⟩
  · rintro rfl
    exact noDot rfl
  · rintro rfl
    exact noDot rfl

theorem segment_name {name : String} (safe : segmentProblem? name = none) (short : name.utf8ByteSize ≤ greatestName) :
    IsName name := by
  obtain ⟨filled,noDot,noDots⟩ := segment_plain safe
  exact ⟨filled,noDot,noDots,short⟩

theorem fileName_chars (uuid : Uuid) : (fileName uuid).toList = uuid.chars ++ jsonEnding := by
  rw [fileName,String.toList_ofList]

theorem fileName_head (uuid : Uuid) : (fileName uuid).toList.head? ≠ some '.' := by
  have digits : ∀ d : Fin 16, Uuid.digitText d ≠ '.' := by decide
  obtain ⟨list,size⟩ := uuid
  cases list with
  | nil => cases size
  | cons d rest =>
      rw [fileName_chars,Uuid.chars]
      simpa using digits d

theorem size_ofList (text : List Char) : (String.ofList text).utf8ByteSize ≤ 4 * text.length := by
  induction text with
  | nil => exact Nat.le_refl _
  | cons c rest ih =>
      have one := Char.utf8Size_le_four c
      rw [String.ofList_cons,String.utf8ByteSize_append,String.utf8ByteSize_singleton,List.length_cons]
      omega

theorem page_size (d : Document) : d.page.utf8ByteSize ≤ 4 * (d.toValue.indented 0).length + 1 := by
  rw [Document.page,String.utf8ByteSize_append]
  exact Nat.add_le_add_right (size_ofList _) 1

theorem fileName_name (uuid : Uuid) : IsName (fileName uuid) := by
  have head := fileName_head uuid
  have length : (fileName uuid).toList.length = 41 := by
    rw [fileName_chars,List.length_append,uuid.chars_length]
    rfl
  refine ⟨?_,?_,?_,?_⟩
  · intro empty
    rw [empty] at length
    cases length
  · intro dot
    rw [dot] at head
    exact head rfl
  · intro dots
    rw [dots] at head
    exact head rfl
  · have size : (fileName uuid).utf8ByteSize ≤ 4 * (uuid.chars ++ jsonEnding).length := size_ofList _
    rw [← fileName_chars,length] at size
    exact Nat.le_trans size (by decide)

theorem fileName_ends (uuid : Uuid) : Text.endsWith jsonEnding (fileName uuid).toList = true := by
  rw [fileName_chars]
  exact List.isSuffixOf_iff_suffix.mpr (List.suffix_append _ _)

theorem fileUuid?_fileName (uuid : Uuid) : fileUuid? (fileName uuid) = some uuid := by
  have ends := fileName_ends uuid
  rw [fileName_chars] at ends
  have front : (uuid.chars ++ jsonEnding).take ((uuid.chars ++ jsonEnding).length - jsonEnding.length) = uuid.chars := by
    rw [List.length_append,Nat.add_sub_cancel,List.take_left]
  simp only [fileUuid?,fileName_chars,ends,front,if_true,uuid.ofChars?_chars]

theorem fileName_injective {a b : Uuid} (same : fileName a = fileName b) : a = b := by
  have read := fileUuid?_fileName a
  rw [same,fileUuid?_fileName] at read
  exact (Option.some.inj read).symm

end Names

def fileRow (stamp : String) (e : Entity) : Path × Node :=
  ([e.entityType,fileName e.uuid],.file (.text (Document.ofEntity stamp e).page))

def typeRows (stamp entityType : String) (entities : List Entity) : Tree :=
  ([entityType],.directory) :: entities.map (fileRow stamp)

def safeTypes (store : Store) : List String := store.types.filter isSafe

theorem safeTypes_rows (store : Store) : (store.filter fun row => (safeTypes store).contains row.1.entityType) =
    store.filter fun row => isSafe row.1.entityType := by
  apply List.filter_congr
  intro row member
  have held : row.1.entityType ∈ store.types := (Store.mem_types store _).mpr ⟨row,member,rfl⟩
  rw [Bool.eq_iff_iff,List.contains_iff_mem,safeTypes,List.mem_filter]
  exact and_iff_right held

def archive (stamp : String) (store : Store) : Tree :=
  (safeTypes store).flatMap fun entityType => typeRows stamp entityType (store.list entityType)

section Counting

def countTimes (entityType : String) : Nat → Table String Nat → Table String Nat
  | 0,counts => counts
  | n + 1,counts => countTimes entityType n (counts.alter entityType 0 (· + 1))

theorem countTimes_last {entityType : String} {counts : Table String Nat}
    (last : ∀ row ∈ counts, KeyOrder.before row.1 entityType = true) (n : Nat) :
    countTimes entityType (n + 1) counts = counts ++ [(entityType,n + 1)] := by
  have further (m : Nat) : ∀ n, countTimes entityType n (counts ++ [(entityType,m)]) =
      counts ++ [(entityType,m + n)] := by
    intro n
    induction n generalizing m with
    | zero => rfl
    | succ n ih =>
        rw [countTimes,Table.alter,Table.find?_held last,Table.insert_held last,ih,Option.getD_some,Nat.add_assoc,
          Nat.add_comm 1]
  rw [countTimes,Table.alter,Table.find?_last last,Table.insert_last last,further,Option.getD_none,Nat.zero_add,
    Nat.add_comm 1]

theorem countTimes_types (size : String → Nat) {types : List String} (ascending : types.Pairwise (· < ·))
    (filled : ∀ entityType ∈ types, size entityType ≠ 0) (counts : Table String Nat)
    (last : ∀ row ∈ counts, ∀ entityType ∈ types, KeyOrder.before row.1 entityType = true) :
    types.foldl (fun counts entityType => countTimes entityType (size entityType) counts) counts =
      counts ++ types.map fun entityType => (entityType,size entityType) := by
  induction types generalizing counts with
  | nil => rw [List.map_nil,List.append_nil]; rfl
  | cons entityType rest ih =>
      obtain ⟨first,behind⟩ := List.pairwise_cons.mp ascending
      obtain ⟨n,some_⟩ := Nat.exists_eq_succ_of_ne_zero (filled entityType (.head _))
      have counted : countTimes entityType (size entityType) counts = counts ++ [(entityType,size entityType)] := by
        rw [some_]
        exact countTimes_last (fun row member => last row member entityType (.head _)) n
      rw [List.foldl_cons,counted,ih behind fun other member => filled other (.tail _ member)]
      · rw [List.append_assoc]
        rfl
      · intro row member other listed
        rcases List.mem_append.mp member with before | new
        · exact last row before other (.tail _ listed)
        · rw [List.mem_singleton.mp new]
          exact decide_eq_true (first other listed)

def safeCounts (store : Store) : Table String Nat :=
  (safeTypes store).map fun entityType => (entityType,(store.list entityType).length)

theorem safeTypes_ascending {store : Store} (ordered : Table.Ordered store) : (safeTypes store).Pairwise (· < ·) :=
  (Store.types_ascending ordered).filter isSafe

theorem safeTypes_counted {store : Store} (formed : store.WellFormed) :
    (safeTypes store).foldl (fun counts entityType => countTimes entityType (store.list entityType).length counts) [] =
      safeCounts store := by
  have filled : ∀ entityType ∈ safeTypes store, (store.list entityType).length ≠ 0 := by
    intro entityType member none_
    exact Store.list_nonempty formed.keyed (List.mem_filter.mp member).1 (List.length_eq_zero_iff.mp none_)
  exact countTimes_types (fun entityType => (store.list entityType).length) (safeTypes_ascending formed.ordered) filled []
    (List.forall_mem_nil _)

end Counting

section Writing

variable {tree : Tree} {place : Location} {here : Path} {left : Nat} (reaches : Reaches tree 40 [] place.path left here)
  (vacant : Vacant tree here) (stamp : String)

include reaches vacant

theorem writeEntity_new {rows : Tree} (report : Report) {e : Entity} (outer : IsName e.entityType)
    (stands : List.lookup [e.entityType] rows = some .directory)
    (absent : List.lookup [e.entityType,fileName e.uuid] rows = none) :
    Progress.writeEntity (place.child e.entityType) stamp ⟨tree ++ below here rows,report⟩ e =
      ⟨tree ++ below here (rows ++ [fileRow stamp e]),report.count e.entityType⟩ := by
  have plain := fileName_name e.uuid
  have unread : readText (tree ++ below here rows) ((place.child e.entityType).child (fileName e.uuid)).path =
      .error .notFound := readText_absent reaches vacant rows outer plain stands absent
  have written : write (tree ++ below here rows) ((place.child e.entityType).child (fileName e.uuid)).path
      (.text (Document.ofEntity stamp e).page) = .ok (tree ++ below here (rows ++ [fileRow stamp e])) := by
    rw [fileRow,← put_new _ absent]
    apply write_grandchild reaches vacant rows outer plain stands
    intro node held
    cases absent.symm.trans held
  simp only [Progress.writeEntity,Progress.isCurrent,unread,Bool.false_eq_true,if_false,written]

theorem writeEntities_new {entityType : String} (outer : IsName entityType) (entities : List Entity) {rows : Tree}
    (report : Report) (typed : ∀ e ∈ entities, e.entityType = entityType)
    (distinct : (entities.map Entity.uuid).Nodup) (stands : List.lookup [entityType] rows = some .directory)
    (absent : ∀ e ∈ entities, List.lookup [entityType,fileName e.uuid] rows = none) :
    entities.foldl (Progress.writeEntity (place.child entityType) stamp) ⟨tree ++ below here rows,report⟩ =
      ⟨tree ++ below here (rows ++ entities.map (fileRow stamp)),
        { report with counts := countTimes entityType entities.length report.counts }⟩ := by
  induction entities generalizing rows report with
  | nil => rw [List.map_nil,List.append_nil]; rfl
  | cons e rest ih =>
      have own := typed e (.head _)
      obtain ⟨fresh,others⟩ := List.nodup_cons.mp distinct
      have first := writeEntity_new reaches vacant stamp report (own.symm ▸ outer) (own.symm ▸ stands)
        (own.symm ▸ absent e (.head _))
      rw [own] at first
      rw [List.foldl_cons,first,ih]
      · rw [List.append_assoc]
        rfl
      · exact fun other member => typed other (.tail _ member)
      · exact others
      · rw [List.lookup_append,stands]
        rfl
      · intro other member
        have apart : ([entityType,fileName other.uuid] == [e.entityType,fileName e.uuid]) = false := by
          apply beq_eq_false_iff_ne.mpr
          intro same
          exact fresh (fileName_injective (same_name same) ▸ List.mem_map_of_mem member)
        rw [List.lookup_append,absent other (.tail _ member),Option.none_or,fileRow,List.lookup_cons,apart]
        rfl

theorem clean_kept {entityType : String} (outer : IsName entityType) {rows : Tree} (report : Report)
    (stands : List.lookup [entityType] rows = some .directory) (inner : ∀ row ∈ rows, row.1 ≠ [])
    {keep : List String} (kept : ∀ name ∈ children rows [entityType], name ∈ keep) :
    Progress.clean (place.child entityType) keep ⟨tree ++ below here rows,report⟩ =
      ⟨tree ++ below here rows,report⟩ := by
  have listed : Tree.list (tree ++ below here rows) (place.child entityType).path = .ok (children rows [entityType]) :=
    list_child reaches vacant rows outer stands inner
  simp only [Progress.clean,listed]
  generalize children rows [entityType] = names at kept
  induction names with
  | nil => rfl
  | cons name rest ih =>
      have held : keep.contains name = true := List.contains_iff_mem.mpr (kept name (.head _))
      rw [List.foldl_cons,Progress.removeStale,if_pos (.inr held)]
      exact ih fun other member => kept other (.tail _ member)

end Writing

section Archive

theorem children_typeRows (stamp entityType : String) {entities : List Entity}
    (typed : ∀ e ∈ entities, e.entityType = entityType) :
    children (typeRows stamp entityType entities) [entityType] = entities.map fun e => fileName e.uuid := by
  have files : children (entities.map (fileRow stamp)) [entityType] = entities.map fun e => fileName e.uuid := by
    induction entities with
    | nil => rfl
    | cons e rest ih =>
        have others := ih fun other member => typed other (.tail _ member)
        rw [children] at others
        rw [children,List.map_cons,List.filterMap_cons,others,fileRow,typed e (.head _)]
        simp
  rw [typeRows,← List.singleton_append,children_append,files]
  rfl

-- Paths that begin with another name have nothing to do with a type.
def Apart (rows : Tree) (entityType : String) : Prop := ∀ row ∈ rows, row.1.head? ≠ some entityType

theorem Apart.lookup_eq_none {rows : Tree} {entityType : String} (apart : Apart rows entityType) (rest : Path) :
    List.lookup (entityType :: rest) rows = none := by
  rw [List.lookup_eq_none_iff]
  intro row member
  apply bne_iff_ne.mpr
  intro same
  exact apart row member (by rw [← same]; rfl)

theorem Apart.children_eq_nil {rows : Tree} {entityType : String} (apart : Apart rows entityType) :
    children rows [entityType] = [] := by
  rw [Tree.children,List.filterMap_eq_nil_iff]
  intro row member
  apply if_neg
  rintro ⟨filled,parent⟩
  apply apart row member
  rw [← List.dropLast_concat_getLast filled,parent]
  rfl

theorem typeRows_head (stamp entityType : String) {entities : List Entity}
    (typed : ∀ e ∈ entities, e.entityType = entityType) :
    ∀ row ∈ typeRows stamp entityType entities, row.1.head? = some entityType := by
  intro row member
  rcases List.mem_cons.mp member with rfl | file
  · rfl
  · obtain ⟨e,held,rfl⟩ := List.mem_map.mp file
    rw [fileRow,typed e held]
    rfl

theorem filled_of_head {path : Path} {name : String} (head : path.head? = some name) : path ≠ [] := by
  rintro rfl
  cases head

theorem Apart.append_typeRows {rows : Tree} {entityType other : String} (apart : Apart rows other) (unlike : entityType ≠ other)
    (stamp : String) {entities : List Entity} (typed : ∀ e ∈ entities, e.entityType = entityType) :
    Apart (rows ++ typeRows stamp entityType entities) other := by
  intro row member
  rcases List.mem_append.mp member with before | new
  · exact apart row before
  · rw [typeRows_head stamp entityType typed row new]
    exact fun same => unlike (Option.some.inj same)

theorem filled_typeRows {rows : Tree} (inner : ∀ row ∈ rows, row.1 ≠ []) (stamp entityType : String)
    {entities : List Entity} (typed : ∀ e ∈ entities, e.entityType = entityType) :
    ∀ row ∈ rows ++ typeRows stamp entityType entities, row.1 ≠ [] := by
  intro row member
  rcases List.mem_append.mp member with before | new
  · exact inner row before
  · exact filled_of_head (typeRows_head stamp entityType typed row new)

end Archive

section Types

variable {tree : Tree} {order : ExportOrder} {here : Path} {left : Nat}
  (reaches : Reaches tree 40 [] order.place.path left here) (vacant : Vacant tree here) {source : Desk}
  (working : source.failing = []) (formed : source.store.WellFormed)

include reaches vacant working formed

theorem exportType_safe {entityType : String} (safe : segmentProblem? entityType = none)
    (short : entityType.utf8ByteSize ≤ greatestName) {rows : Tree} (apart : Apart rows entityType)
    (inner : ∀ row ∈ rows, row.1 ≠ []) (report : Report) :
    exportType source order ⟨tree ++ below here rows,report⟩ entityType =
      (⟨tree ++ below here (rows ++ typeRows order.stamp entityType (source.store.list entityType)),
        { report with counts := countTimes entityType (source.store.list entityType).length report.counts }⟩,none) := by
  have outer := segment_name safe short
  have typed := Store.list_typed formed.keyed entityType
  have made : ensureDirectory (tree ++ below here rows) (order.place.child entityType).path =
      .ok (tree ++ below here (rows ++ [([entityType],.directory)])) :=
    ensureDirectory_child reaches vacant rows outer (apart.lookup_eq_none [])
  have stands : List.lookup [entityType] (rows ++ [([entityType],Node.directory)]) = some .directory := by
    rw [List.lookup_append,apart.lookup_eq_none []]
    simp
  have absent : ∀ e ∈ source.store.list entityType,
      List.lookup [entityType,fileName e.uuid] (rows ++ [([entityType],Node.directory)]) = none := by
    intro e _
    rw [List.lookup_append,apart.lookup_eq_none,Option.none_or,List.lookup_cons]
    simp
  have written := writeEntities_new reaches vacant order.stamp outer (source.store.list entityType) report typed
    (Store.list_uuids_nodup formed.keyed formed.ordered entityType) stands absent
  rw [List.append_assoc,List.singleton_append,← typeRows] at written
  have cleaned : Progress.writeAll (order.place.child entityType) order.stamp order.clean (source.store.list entityType)
      ⟨tree ++ below here (rows ++ [([entityType],.directory)]),report⟩ =
      ⟨tree ++ below here (rows ++ typeRows order.stamp entityType (source.store.list entityType)),
        { report with counts := countTimes entityType (source.store.list entityType).length report.counts }⟩ := by
    simp only [Progress.writeAll,written]
    split
    · apply clean_kept reaches vacant outer
      · rw [List.lookup_append,apart.lookup_eq_none [],Option.none_or,typeRows,List.lookup_cons]
        simp
      · exact filled_typeRows inner order.stamp entityType typed
      · intro name member
        rw [children_append,apart.children_eq_nil,List.nil_append,children_typeRows order.stamp entityType typed] at member
        exact member
    · rfl
  simp only [exportType,safe,made,list_working working,cleaned]

omit reaches vacant working formed in
theorem exportType_refused {entityType : String} {found : SegmentProblem}
    (problem : segmentProblem? entityType = some found) (p : Progress) :
    exportType source order p entityType = (p.warn (.unsafeType found),none) := by
  simp only [exportType,problem]

theorem exportTypes_archive {types : List String} (distinct : types.Pairwise (· < ·)) (rows : Tree) (report : Report)
    (apart : ∀ entityType ∈ types, Apart rows entityType) (inner : ∀ row ∈ rows, row.1 ≠ [])
    (short : ∀ entityType ∈ types, isSafe entityType = true → entityType.utf8ByteSize ≤ greatestName) :
    exportTypes source order ⟨tree ++ below here rows,report⟩ types =
      (⟨tree ++ below here (rows ++ (types.filter isSafe).flatMap fun entityType =>
          typeRows order.stamp entityType (source.store.list entityType)),
        { report with
          counts := (types.filter isSafe).foldl
            (fun counts entityType => countTimes entityType (source.store.list entityType).length counts) report.counts
          warnings := report.warnings ++ types.filterMap fun entityType =>
            (segmentProblem? entityType).map .unsafeType }⟩,none) := by
  induction types generalizing rows report with
  | nil => simp [exportTypes]
  | cons entityType rest ih =>
      obtain ⟨first,behind⟩ := List.pairwise_cons.mp distinct
      have shortRest := fun other member => short other (.tail entityType member)
      cases problem : segmentProblem? entityType with
      | some found =>
          have later := ih behind rows (report.warn (.unsafeType found))
            (fun other member => apart other (.tail _ member)) inner shortRest
          simp only [exportTypes,exportType_refused problem,Progress.warn,later]
          rw [List.filter_cons_of_neg (by rw [isSafe_some problem]; exact Bool.false_ne_true),List.filterMap_cons,problem]
          simp only [Option.map_some,Report.warn,List.append_assoc,List.singleton_append]
      | none =>
          have safe := isSafe_none problem
          have typed := Store.list_typed formed.keyed entityType
          have written := exportType_safe reaches vacant working formed problem (short _ (.head _) safe)
            (apart _ (.head _)) inner report
          have later := ih behind (rows ++ typeRows order.stamp entityType (source.store.list entityType))
            { report with counts := countTimes entityType (source.store.list entityType).length report.counts }
            (fun other member =>
              (apart other (.tail _ member)).append_typeRows (String.ne_of_lt (first other member)) order.stamp typed)
            (filled_typeRows inner order.stamp entityType typed) shortRest
          simp only [exportTypes,written,later]
          rw [List.filter_cons_of_pos safe,List.filterMap_cons,problem,List.flatMap_cons,List.append_assoc]
          rfl

def unsafeWarnings (store : Store) : List Warning :=
  store.types.filterMap fun entityType => (segmentProblem? entityType).map .unsafeType

theorem exportContent_archive
    (short : ∀ entityType ∈ source.store.types, isSafe entityType = true →
      entityType.utf8ByteSize ≤ greatestName) :
    exportContent source order tree =
      (.ok { counts := safeCounts source.store, warnings := unsafeWarnings source.store },
        tree ++ below here (archive order.stamp source.store)) := by
  have ascending := Store.types_ascending formed.ordered
  have written := exportTypes_archive reaches vacant working formed ascending [] {}
    (fun _ _ => List.forall_mem_nil _) (List.forall_mem_nil _) short
  have counted := safeTypes_counted formed
  have start : tree ++ below here [] = tree := List.append_nil tree
  rw [start] at written
  rw [exportContent,ensureDirectory_stands reaches]
  rw [safeTypes] at counted
  simp only [types_working working,written,counted]
  rfl

end Types

end Redline.Exchange
