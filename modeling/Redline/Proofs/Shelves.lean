import Redline.Proofs.Findings
import Redline.Proofs.Importing

namespace Redline.Exchange

open Files Files.Tree

section Shelves

variable (stamp : String)

def shelf (row : String × Entity) : Tree :=
  [([row.1],.directory),([row.1,fileName row.2.uuid],.file (.text (Document.ofEntity stamp row.2).page))]

def shelves (rows : List (String × Entity)) : Tree := rows.flatMap (shelf stamp)

-- What is said of a shelf: that its name is not the type of the entity on it, if it is not.
def shelfWarnings (row : String × Entity) : List Warning :=
  mismatches row.1 (fileName row.2.uuid) row.2.uuid (Document.ofEntity stamp row.2)

variable {rows : List (String × Entity)}

theorem shelves_head {directory : String} (absent : directory ∉ rows.map Prod.fst) : Apart (shelves stamp rows) directory := by
  rintro row member
  obtain ⟨own,listed,held⟩ := List.mem_flatMap.mp member
  have head : row.1.head? = some own.1 := by
    simp only [shelf,List.mem_cons,List.not_mem_nil,or_false] at held
    rcases held with rfl | rfl <;> rfl
  rw [head]
  rintro ⟨⟩
  exact absent (List.mem_map_of_mem listed)

theorem shelves_filled : ∀ row ∈ shelves stamp rows, row.1 ≠ [] := by
  intro row member
  obtain ⟨own,_,held⟩ := List.mem_flatMap.mp member
  simp only [shelf,List.mem_cons,List.not_mem_nil,or_false] at held
  rcases held with rfl | rfl <;> exact List.cons_ne_nil _ _

theorem children_shelves : children (shelves stamp rows) [] = rows.map Prod.fst := by
  induction rows with
  | nil => rfl
  | cons row rest ih =>
      rw [shelves,List.flatMap_cons,children_append,← shelves,ih]
      rfl

variable (distinct : (rows.map Prod.fst).Nodup)

include distinct

theorem shelf_rows {row : String × Entity} (member : row ∈ rows) :
    List.lookup [row.1] (shelves stamp rows) = some .directory ∧
      List.lookup [row.1,fileName row.2.uuid] (shelves stamp rows) =
        some (.file (.text (Document.ofEntity stamp row.2).page)) ∧
      children (shelves stamp rows) [row.1] = [fileName row.2.uuid] := by
  induction rows with
  | nil => cases member
  | cons first rest ih =>
      obtain ⟨fresh,others⟩ := List.nodup_cons.mp distinct
      rw [shelves,List.flatMap_cons,← shelves,List.lookup_append,List.lookup_append,children_append]
      rcases List.mem_cons.mp member with rfl | later
      · rw [(shelves_head stamp fresh).children_eq_nil]
        refine ⟨?_,?_,?_⟩
        · simp [shelf]
        · simp [shelf,List.lookup_cons]
        · simp [shelf,children]
      · have unlike : row.1 ≠ first.1 := by
          intro same
          exact fresh (same ▸ List.mem_map_of_mem later)
        have own : Apart (shelf stamp first) row.1 := by
          intro other held
          simp only [shelf,List.mem_cons,List.not_mem_nil,or_false] at held
          rcases held with rfl | rfl <;> exact fun same => unlike (Option.some.inj same).symm
        rw [own.lookup_eq_none,own.lookup_eq_none,own.children_eq_nil]
        exact ih others later

variable {tree : Tree} {place : Location} {here : Path} {left : Nat} (reaches : Reaches tree 40 [] place.path left here)
  (vacant : Vacant tree here) (safe : ∀ row ∈ rows, IsName row.1 ∧ segmentProblem? row.1 = none)
  (readable : ∀ row ∈ rows, row.2.Sound ∧ Readable stamp row.2)

include reaches vacant safe readable

theorem readEntry_shelf {row : String × Entity} (member : row ∈ rows) :
    readEntry (tree ++ below here (shelves stamp rows)) place {} row.1 =
      { warnings := shelfWarnings stamp row,groups := [(row.1,[foundOf row.2])] } := by
  obtain ⟨stands,file,names⟩ := shelf_rows stamp distinct member
  obtain ⟨outer,accepted⟩ := safe row member
  obtain ⟨sound,_,small,nested⟩ := readable row member
  have plain := fileName_name row.2.uuid
  have enters : Enters (tree ++ below here (shelves stamp rows)) place row.1 :=
    ⟨(segment_solid accepted).2,look_child reaches vacant _ outer false stands,accepted⟩
  have listed := list_child reaches vacant _ outer stands (shelves_filled stamp)
  rw [names] at listed
  have reads : Reads (tree ++ below here (shelves stamp rows)) (place.child row.1) (fileName row.2.uuid) row.2.uuid
      (Document.ofEntity stamp row.2) :=
    ⟨⟨_,look_grandchild reaches vacant _ outer plain false stands file,small,Document.ofText?_page stamp sound nested⟩,
      fileUuid?_fileName row.2.uuid⟩
  have lone := lookInto_lone listed (isContentName_fileName row.2.uuid) reads
  rw [readEntry_entered enters,lone]
  rfl

theorem readTree_shelves : readTree (tree ++ below here (shelves stamp rows)) place = .ok
    { warnings := rows.flatMap (shelfWarnings stamp)
      groups := Table.insertAll (rows.map fun row => (row.1,[foundOf row.2])) [] } := by
  have listed : Tree.list (tree ++ below here (shelves stamp rows)) place.path = .ok (rows.map Prod.fst) := by
    rw [list_here reaches vacant _ (shelves_filled stamp),children_shelves]
  have entry {row : String × Entity} (member : row ∈ rows) :=
    readEntry_shelf stamp distinct reaches vacant safe readable member
  have warnings : ((rows.map Prod.fst).flatMap fun directory =>
      (readEntry (tree ++ below here (shelves stamp rows)) place {} directory).warnings) =
        rows.flatMap (shelfWarnings stamp) := by
    rw [List.flatMap_map]
    exact List.flatMap_congr fun row member => by rw [entry member]
  have groups : ((rows.map Prod.fst).flatMap fun directory =>
      (readEntry (tree ++ below here (shelves stamp rows)) place {} directory).groups) =
        rows.map fun row => (row.1,[foundOf row.2]) := by
    rw [List.flatMap_map,List.map_eq_flatMap]
    exact List.flatMap_congr fun row member => by rw [entry member]
  simp only [readTree,listed,readEntries_add,warnings,groups]
  rfl

end Shelves

section Sites

def siteOf (stamp : String) (rows : List (String × Entity)) : Tree :=
  (["site"],.directory) :: below ["site"] (shelves stamp rows)

def sitePlace : Location := ⟨"site",["site"]⟩

theorem site_reaches : Reaches [(["site"],.directory)] 40 [] sitePlace.path 40 ["site"] := by
  have plain : IsName "site" := ⟨by decide,by decide,by decide,by decide⟩
  exact .enter plain rfl (.done 40 _)

theorem site_vacant : Vacant [(["site"],.directory)] ["site"] := by
  intro row member _
  rw [List.mem_singleton.mp member]

theorem list_site (stamp : String) (rows : List (String × Entity)) :
    Tree.list (siteOf stamp rows) sitePlace.path = .ok (rows.map Prod.fst) :=
  (list_here site_reaches site_vacant _ (shelves_filled stamp)).trans (congrArg Except.ok (children_shelves stamp))

theorem readTree_site (stamp : String) {rows : List (String × Entity)} (distinct : (rows.map Prod.fst).Nodup)
    (safe : ∀ row ∈ rows, IsName row.1 ∧ segmentProblem? row.1 = none)
    (readable : ∀ row ∈ rows, row.2.Sound ∧ Readable stamp row.2) : readTree (siteOf stamp rows) sitePlace = .ok
      { warnings := rows.flatMap (shelfWarnings stamp)
        groups := Table.insertAll (rows.map fun row => (row.1,[foundOf row.2])) [] } :=
  readTree_shelves stamp distinct site_reaches site_vacant safe readable

def sharedPage (label : String) : Entity := Entity.blank "node" "page" label default

def copies : List (String × Entity) := [("page",sharedPage "Page"),("archive",sharedPage "Draft")]

theorem readTree_copies : readTree (siteOf "2024-01-01T00:00:00Z" copies) sitePlace = .ok
    { warnings := copies.flatMap (shelfWarnings "2024-01-01T00:00:00Z")
      groups := [("archive",[foundOf (sharedPage "Draft")]),("page",[foundOf (sharedPage "Page")])] } := by
  have plain : Json.Value.Sorted (.object []) := .object _ .nil (List.forall_mem_nil _)
  have readable : ∀ row ∈ copies, row.2.Sound ∧ Readable "2024-01-01T00:00:00Z" row.2 :=
    List.forall_mem_cons.mpr ⟨⟨⟨by decide,plain,rfl⟩,readable_of_length (by decide) (by decide +kernel) (by decide)⟩,
      List.forall_mem_singleton.mpr
        ⟨⟨by decide,plain,rfl⟩,readable_of_length (by decide) (by decide +kernel) (by decide)⟩⟩
  have sorted : Table.insertAll (copies.map fun row => (row.1,[foundOf row.2])) [] =
      [("archive",[foundOf (sharedPage "Draft")]),("page",[foundOf (sharedPage "Page")])] := by
    have less : KeyOrder.before "archive" "page" = true := by decide
    simp [copies,Table.insertAll,Table.insert,less]
  have read := readTree_site "2024-01-01T00:00:00Z" (by decide) (by unfold IsName; decide) readable
  rwa [sorted] at read

end Sites

end Redline.Exchange
