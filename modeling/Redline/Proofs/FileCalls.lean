import Redline.Proofs.Rewriting

namespace Redline.Exchange

open Files Files.Tree

section Names

-- One component of a path that stands for itself.
structure Ordinary (name : String) : Prop where
  filled : name ≠ ""
  characters : ∀ c ∈ name.toList, c ≠ '/' ∧ c ≠ '\\' ∧ c.toNat ≠ 0
  noStep : name ≠ "." ∧ name ≠ ".."
  first : name.toList.head? ≠ some '.'
  last : name.toList.getLast? ≠ some '.'

theorem safe_ordinary {name : String} (safe : isSafe name = true) : Ordinary name := by
  have unbroken : segmentProblem? name = none := Option.isNone_iff_eq_none.mp safe
  obtain ⟨filled,noDot,noDots⟩ := segment_plain unbroken
  rw [segmentProblem?] at unbroken
  split at unbroken
  · cases unbroken
  split at unbroken
  · cases unbroken
  rename_i separators
  split at unbroken
  · cases unbroken
  split at unbroken
  · cases unbroken
  split at unbroken
  · cases unbroken
  rename_i dots
  obtain ⟨first,last⟩ := not_or.mp dots
  refine ⟨filled,fun c member => ?_,⟨noDot,noDots⟩,first,last⟩
  have apart := List.any_eq_false.mp (Bool.eq_false_iff.mpr separators) c member
  simpa using apart

theorem fileUuid?_form {name : String} {uuid : Uuid} (read : fileUuid? name = some uuid) :
    ∃ stem, name.toList = stem ++ jsonEnding ∧ Uuid.ofChars? stem = some uuid := by
  simp only [fileUuid?] at read
  split at read
  · rename_i ends
    obtain ⟨stem,whole⟩ := List.isSuffixOf_iff_suffix.mp ends
    refine ⟨stem,whole.symm,?_⟩
    rw [← whole,List.length_append,Nat.add_sub_cancel,List.take_left] at read
    exact read
  · cases read

end Names

section Calls

-- What an export asks of the file system to change something.
inductive FileCall where
  | ensure (path : Path)
  | write (path : Path) (content : Content)
  | remove (path : Path)

def FileCall.perform (tree : Tree) : FileCall → Tree
  | ensure path =>
      match tree.ensureDirectory path with
      | .ok made => made
      | .error _ => tree.leftovers path
  | write path content =>
      match tree.write path content with
      | .ok written => written
      | .error _ => tree
  | remove path =>
      match tree.remove path with
      | .ok removed => removed
      | .error _ => tree

-- A name that the cleaning of a type takes for the file of an entity that is gone.
structure Stale (store : Store) (entityType name : String) : Prop where
  reads : ∃ stem uuid, name.toList = stem ++ jsonEnding ∧ Uuid.ofChars? stem = some uuid
  unkept : ∀ e ∈ store.list entityType, name ≠ fileName e.uuid

inductive ExportCall (desk : Desk) (order : ExportOrder) : FileCall → Prop where
  | shelf {entityType : String} : entityType ∈ safeTypes desk.store →
      ExportCall desk order (.ensure (order.place.path ++ [entityType]))
  | file {entityType : String} {e : Entity} : entityType ∈ safeTypes desk.store → e ∈ desk.store.list entityType →
      ExportCall desk order (.write (order.place.path ++ [entityType] ++ [fileName e.uuid])
        (.text (Document.ofEntity order.stamp e).page))
  | stale {entityType name : String} : order.clean = true → entityType ∈ safeTypes desk.store →
      Stale desk.store entityType name → ExportCall desk order (.remove (order.place.path ++ [entityType] ++ [name]))

def Worked (desk : Desk) (order : ExportOrder) (before after : Tree) : Prop :=
  ∃ calls : List FileCall, (∀ call ∈ calls, ExportCall desk order call) ∧ after = calls.foldl FileCall.perform before

variable {desk : Desk} {order : ExportOrder} {before middle after : Tree}

theorem Worked.refl : Worked desk order before before := ⟨[],List.forall_mem_nil _,rfl⟩

theorem Worked.trans (first : Worked desk order before middle) (last : Worked desk order middle after) :
    Worked desk order before after := by
  obtain ⟨calls,allowed,rfl⟩ := first
  obtain ⟨further,allowed',rfl⟩ := last
  exact ⟨calls ++ further,List.forall_mem_append.mpr ⟨allowed,allowed'⟩,(List.foldl_append).symm⟩

theorem Worked.of_call {call : FileCall} (allowed : ExportCall desk order call) :
    Worked desk order before (call.perform before) := ⟨[call],List.forall_mem_singleton.mpr allowed,rfl⟩

variable {entityType : String} (exported : entityType ∈ safeTypes desk.store)

include exported

theorem writeEntity_works {e : Entity} (member : e ∈ desk.store.list entityType) (p : Progress) :
    Worked desk order p.tree (Progress.writeEntity (order.place.child entityType) order.stamp p e).tree := by
  have call : Worked desk order p.tree (FileCall.perform p.tree
      (.write ((order.place.child entityType).child (fileName e.uuid)).path
        (.text (Document.ofEntity order.stamp e).page))) := .of_call (.file exported member)
  unfold Progress.writeEntity
  dsimp only
  split
  · exact .refl
  · cases wrote : p.tree.write ((order.place.child entityType).child (fileName e.uuid)).path
        (.text (Document.ofEntity order.stamp e).page) with
    | error problem => exact .refl
    | ok tree =>
        rw [FileCall.perform,wrote] at call
        exact call

theorem writeEntities_work {entities : List Entity} (members : ∀ e ∈ entities, e ∈ desk.store.list entityType) (p : Progress) :
    Worked desk order p.tree (entities.foldl (Progress.writeEntity (order.place.child entityType) order.stamp) p).tree := by
  induction entities generalizing p with
  | nil => exact .refl
  | cons e rest ih =>
      obtain ⟨member,others⟩ := List.forall_mem_cons.mp members
      exact (writeEntity_works exported member p).trans (ih others _)

variable (cleaning : order.clean = true)

include cleaning

theorem removeStale_works (name : String) (p : Progress) : Worked desk order p.tree (Progress.removeStale
    (order.place.child entityType) ((desk.store.list entityType).map fun e => fileName e.uuid) p name).tree := by
  unfold Progress.removeStale
  split
  · exact .refl
  · rename_i stale
    obtain ⟨named,unkept⟩ := not_or.mp stale
    obtain ⟨uuid,read⟩ := Option.ne_none_iff_exists'.mp fun absent => named (Option.isNone_iff_eq_none.mpr absent)
    obtain ⟨stem,form⟩ := fileUuid?_form read
    have call : Worked desk order p.tree (FileCall.perform p.tree
        (.remove ((order.place.child entityType).child name).path)) := by
      refine .of_call (.stale cleaning exported ⟨⟨stem,uuid,form⟩,fun e member own => unkept ?_⟩)
      exact List.contains_iff_mem.mpr (List.mem_map.mpr ⟨e,member,own.symm⟩)
    dsimp only
    cases gone : p.tree.remove ((order.place.child entityType).child name).path with
    | error problem => exact .refl
    | ok tree =>
        rw [FileCall.perform,gone] at call
        exact call

theorem removeAll_works (names : List String) (p : Progress) : Worked desk order p.tree (names.foldl (Progress.removeStale
    (order.place.child entityType) ((desk.store.list entityType).map fun e => fileName e.uuid)) p).tree := by
  induction names generalizing p with
  | nil => exact .refl
  | cons name rest ih => exact (removeStale_works exported cleaning name p).trans (ih _)

omit cleaning

theorem writeAll_works (p : Progress) : Worked desk order p.tree (Progress.writeAll (order.place.child entityType)
    order.stamp order.clean (desk.store.list entityType) p).tree := by
  have written : Worked desk order p.tree _ := writeEntities_work exported (fun _ member => member) p
  unfold Progress.writeAll
  cases cleaning : order.clean with
  | false => exact written
  | true =>
      refine written.trans ?_
      rw [if_pos rfl,Progress.clean]
      split
      · exact removeAll_works exported cleaning _ _
      · exact .refl

end Calls

section Runs

variable {desk : Desk} {order : ExportOrder}

theorem exportType_works {entityType : String} (listed : entityType ∈ desk.store.types) (p : Progress) :
    Worked desk order p.tree (exportType desk order p entityType).1.tree := by
  unfold exportType
  cases safe : segmentProblem? entityType with
  | some problem => exact .refl
  | none =>
      have exported : entityType ∈ safeTypes desk.store := List.mem_filter.mpr ⟨listed,isSafe_none safe⟩
      have call : Worked desk order p.tree (FileCall.perform p.tree (.ensure (order.place.child entityType).path)) :=
        .of_call (.shelf exported)
      dsimp only
      cases ensured : p.tree.ensureDirectory (order.place.child entityType).path with
      | error problem =>
          rw [FileCall.perform,ensured] at call
          exact call
      | ok made =>
          rw [FileCall.perform,ensured] at call
          dsimp only
          cases asked : desk.list entityType with
          | error failure => exact call
          | ok entities =>
              obtain rfl := list_ok asked
              exact call.trans (writeAll_works exported { p with tree := made })

theorem exportTypes_work {types : List String} (listed : ∀ entityType ∈ types, entityType ∈ desk.store.types) (p : Progress) :
    Worked desk order p.tree (exportTypes desk order p types).1.tree := by
  induction types generalizing p with
  | nil => exact .refl
  | cons entityType rest ih =>
      obtain ⟨first,others⟩ := List.forall_mem_cons.mp listed
      have worked : Worked desk order p.tree _ := exportType_works first p
      rw [exportTypes]
      split
      · rename_i q done
        rw [done] at worked
        exact worked.trans (ih others q)
      · exact worked

-- The directory is made first; everything else is done by calls of the export.
theorem exportContent_works (tree : Tree) : Worked desk order (FileCall.perform tree (.ensure order.place.path))
    (exportContent desk order tree).2 := by
  unfold exportContent FileCall.perform
  dsimp only
  cases started : tree.ensureDirectory order.place.path with
  | error problem => exact .refl
  | ok made =>
      dsimp only
      cases asked : desk.types with
      | error failure => exact .refl
      | ok types =>
          obtain rfl := types_ok asked
          have worked : Worked desk order made _ := exportTypes_work (fun _ member => member) ⟨made,{}⟩
          dsimp only
          split
          · rename_i run
            rw [run] at worked
            exact worked
          · rename_i run
            rw [run] at worked
            exact worked

end Runs

end Redline.Exchange
