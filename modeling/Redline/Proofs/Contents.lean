import Redline.Desk.Store
import Redline.Proofs.Ordering

namespace Redline.Store

section Runs

theorem mem_runs (words : List String) (word : String) : word ∈ runs words ↔ word ∈ words := by
  induction words using runs.induct with
  | case1 => rfl
  | case2 => rfl
  | case3 first rest ih => simp [runs,ih]
  | case4 first next rest apart ih =>
      rw [runs,if_neg apart,List.mem_cons,ih,List.mem_cons (a := word) (b := first)]

theorem runs_ascending {words : List String} (sorted : words.Pairwise fun a b => a < b ∨ a = b) :
    (runs words).Pairwise (· < ·) := by
  induction words using runs.induct with
  | case1 => exact .nil
  | case2 => exact List.pairwise_singleton _ _
  | case3 first rest ih =>
      rw [runs,if_pos rfl]
      exact ih (List.pairwise_cons.mp sorted).2
  | case4 first next rest apart ih =>
      obtain ⟨low,behind⟩ := List.pairwise_cons.mp sorted
      rw [runs,if_neg apart]
      refine List.pairwise_cons.mpr ⟨?_,ih behind⟩
      intro word member
      have less : first < next := (low next (.head _)).resolve_right apart
      rcases List.mem_cons.mp ((mem_runs _ word).mp member) with rfl | later
      · exact less
      · rcases (List.pairwise_cons.mp behind).1 word later with further | same
        · exact String.lt_trans less further
        · exact same ▸ less

end Runs

section Types

variable {store : Store} (ordered : Table.Ordered store)

theorem mem_types (store : Store) (entityType : String) :
    entityType ∈ store.types ↔ ∃ row ∈ store, row.1.entityType = entityType := by
  simp [types,mem_runs,Table.keys]

include ordered

theorem types_ascending : store.types.Pairwise (· < ·) := by
  apply runs_ascending
  rw [Table.keys,List.map_map,List.pairwise_map]
  apply List.Pairwise.imp _ ordered
  intro a b less
  have pairs : KeyOrder.before (a.1.entityType,a.1.uuid) (b.1.entityType,b.1.uuid) = true := less
  simp only [KeyOrder.before,Bool.or_eq_true,Bool.and_eq_true,decide_eq_true_eq] at pairs
  rcases pairs with smaller | ⟨same,_⟩
  · exact .inl smaller
  · exact .inr same

theorem types_nodup : store.types.Nodup := by
  apply List.Pairwise.imp _ (types_ascending ordered)
  rintro a b less rfl
  exact String.lt_irrefl a less

end Types

-- A store as saves and deletes leave it: rows ascend, and every entity stands under its own reference.
structure WellFormed (store : Store) : Prop where
  keyed : store.Keyed
  ordered : Table.Ordered store

theorem wellFormed_nil : WellFormed [] := ⟨List.forall_mem_nil _,.nil⟩

theorem wellFormed_lone (e : Entity) : WellFormed [(e.ref,e)] :=
  ⟨List.forall_mem_singleton.mpr rfl,List.pairwise_singleton _ _⟩

theorem WellFormed.save {store : Store} (formed : store.WellFormed) (e : Entity) : (store.save e).WellFormed := by
  refine ⟨fun row member => ?_,Table.ordered_insert _ _ formed.ordered⟩
  rcases Table.mem_insert member with rfl | stored
  · rfl
  · exact formed.keyed row stored

theorem WellFormed.delete {store : Store} (formed : store.WellFormed) (ref : EntityRef) : (store.delete ref).WellFormed :=
  ⟨fun row member => formed.keyed row (List.mem_filter.mp member).1,formed.ordered.filter _⟩

section Lists

variable {store : Store} (keyed : store.Keyed)

include keyed

theorem rows_list (entityType : String) : (store.list entityType).map (fun e => (e.ref,e)) =
    store.filter fun row => row.1.entityType = entityType := by
  rw [list,Table.values,List.map_map]
  have same : ∀ row ∈ store.filter (fun row => row.1.entityType = entityType),
      ((fun e => (e.ref,e)) ∘ Prod.snd) row = row := by
    intro row member
    exact Prod.ext (keyed row ((List.mem_filter.mp member).1)) rfl
  rw [List.map_congr_left same,List.map_id']

theorem mem_list {entityType : String} {e : Entity} :
    e ∈ store.list entityType ↔ (e.ref,e) ∈ store ∧ e.entityType = entityType := by
  have rows := rows_list keyed entityType
  constructor
  · intro member
    have row : (e.ref,e) ∈ store.filter fun row => row.1.entityType = entityType := by
      rw [← rows]
      exact List.mem_map_of_mem member
    exact ⟨(List.mem_filter.mp row).1,of_decide_eq_true (List.mem_filter.mp row).2⟩
  · rintro ⟨stored,typed⟩
    have row : (e.ref,e) ∈ store.filter fun row => row.1.entityType = entityType :=
      List.mem_filter.mpr ⟨stored,decide_eq_true typed⟩
    rw [list,Table.values]
    exact List.mem_map.mpr ⟨_,row,rfl⟩

theorem list_typed (entityType : String) : ∀ e ∈ store.list entityType, e.entityType = entityType :=
  fun _ member => ((mem_list keyed).mp member).2

theorem list_nonempty {entityType : String} (listed : entityType ∈ store.types) : store.list entityType ≠ [] := by
  obtain ⟨row,member,typed⟩ := (mem_types store entityType).mp listed
  have own := keyed row member
  have here : row.2 ∈ store.list entityType := by
    apply (mem_list keyed).mpr
    refine ⟨?_,?_⟩
    · rw [own]
      exact member
    · rw [← typed,← own]
      rfl
  exact List.ne_nil_of_mem here

theorem list_uuids_nodup (ordered : Table.Ordered store) (entityType : String) :
    ((store.list entityType).map Entity.uuid).Nodup := by
  have ascending : ((store.list entityType).map fun e => (e.ref,e)).Pairwise
      fun a b => KeyOrder.before a.1 b.1 = true := by
    rw [rows_list keyed]
    exact List.Pairwise.filter _ ordered
  rw [List.pairwise_map] at ascending
  rw [List.nodup_iff_pairwise_ne,List.pairwise_map]
  apply List.Pairwise.imp_of_mem _ ascending
  intro a b first second less same
  have types : a.entityType = b.entityType :=
    (list_typed keyed entityType a first).trans (list_typed keyed entityType b second).symm
  have refs : a.ref = b.ref := by rw [Entity.ref,Entity.ref,types,same]
  exact KeyOrder.ne_of_before less refs

end Lists

section Grouping

theorem filter_or_perm {α : Type} (p q : α → Bool) (rows : List α) (apart : ∀ row, p row = true → q row = false) :
    (rows.filter p ++ rows.filter q).Perm (rows.filter fun row => p row || q row) := by
  have parts := List.filter_append_perm p (rows.filter fun row => p row || q row)
  have first : (rows.filter fun row => p row || q row).filter p = rows.filter p := by
    rw [List.filter_filter]
    congr 1
    funext row
    cases p row <;> simp
  have second : (rows.filter fun row => p row || q row).filter (fun row => !p row) = rows.filter q := by
    rw [List.filter_filter]
    congr 1
    funext row
    cases here : p row
    · simp
    · simp [apart row here]
  rwa [first,second] at parts

theorem groups_perm (store : Store) {groups : List String} (distinct : groups.Nodup) :
    (groups.flatMap fun entityType => store.filter fun row => row.1.entityType = entityType).Perm
      (store.filter fun row => groups.contains row.1.entityType) := by
  induction groups with
  | nil => simp
  | cons first rest ih =>
      obtain ⟨fresh,others⟩ := List.nodup_cons.mp distinct
      rw [List.flatMap_cons]
      have split_ := filter_or_perm (fun row : EntityRef × Entity => row.1.entityType = first)
        (fun row => rest.contains row.1.entityType) store (by
          intro row here
          rw [of_decide_eq_true here]
          simpa using fresh)
      exact ((ih others).append_left _).trans split_

end Grouping

section Saving

theorem saves_perm (entities : List Entity) (store : Store) (distinct : (entities.map Entity.ref).Nodup)
    (fresh : ∀ e ∈ entities, e.ref ∉ Table.keys store) :
    (entities.foldl save store).Perm (entities.map (fun e => (e.ref,e)) ++ store) := by
  induction entities generalizing store with
  | nil => exact .refl _
  | cons e rest ih =>
      obtain ⟨first,others⟩ := List.nodup_cons.mp distinct
      have added : (store.save e).Perm ((e.ref,e) :: store) := Table.insert_perm e (fresh e (.head _))
      have free : ∀ other ∈ rest, other.ref ∉ Table.keys (store.save e) := by
        intro other member held
        rw [Table.keys,(added.map Prod.fst).mem_iff,List.map_cons,List.mem_cons] at held
        rcases held with same | before
        · have ref : other.ref = e.ref := same
          exact first (ref ▸ List.mem_map_of_mem member)
        · exact fresh other (.tail _ member) before
      exact (ih (store.save e) others free).trans ((added.append_left _).trans List.perm_middle)

theorem saves_insert (entities : List Entity) (store : Store) :
    entities.foldl save store = Table.insertAll (entities.map fun e => (e.ref,e)) store := by
  rw [Table.insertAll,List.foldl_map]
  rfl

theorem saves_ordered (entities : List Entity) {store : Store} (ordered : Table.Ordered store) :
    Table.Ordered (entities.foldl save store) := by
  rw [saves_insert]
  exact Table.ordered_insertAll _ ordered

theorem saves_load {entities : List Entity} (agree : ∀ a ∈ entities, ∀ b ∈ entities, a.ref = b.ref → a = b)
    (store : Store) (ref : EntityRef) (e : Entity) : (entities.foldl save store).load ref = some e ↔
      e ∈ entities ∧ e.ref = ref ∨ (∀ a ∈ entities, a.ref ≠ ref) ∧ store.load ref = some e := by
  have rows : ∀ a ∈ entities.map fun e => (e.ref,e), ∀ b ∈ entities.map fun e => (e.ref,e), a.1 = b.1 → a = b := by
    simp only [List.forall_mem_map]
    intro a one b two same
    rw [agree a one b two same]
  rw [saves_insert,load,Table.find?_insertAll rows,List.forall_mem_map]
  apply or_congr_left
  simp only [List.mem_map,Prod.mk.injEq]
  constructor
  · rintro ⟨_,member,own,rfl⟩
    exact ⟨member,own⟩
  · rintro ⟨member,own⟩
    exact ⟨e,member,own,rfl⟩

theorem saves_over {entities : List Entity} {e : Entity} (again : ∃ a ∈ entities, a.ref = e.ref) (store : Store) :
    entities.foldl save (store.save e) = entities.foldl save store := by
  induction entities generalizing store with
  | nil =>
      obtain ⟨_,odd,_⟩ := again
      cases odd
  | cons first rest ih =>
      rw [List.foldl_cons,List.foldl_cons]
      by_cases same : first.ref = e.ref
      · rw [save,save,same,Table.insert_insert,← same]
        rfl
      · have later : ∃ a ∈ rest, a.ref = e.ref := by
          obtain ⟨a,member,own⟩ := again
          rcases List.mem_cons.mp member with rfl | behind
          · exact absurd own same
          · exact ⟨a,behind,own⟩
        have swapped : (store.save e).save first = (store.save first).save e :=
          Table.insert_comm (Ne.symm same) e first store
        rw [swapped,ih later]

theorem saves_again {taken entities : List Entity} (within : ∀ e ∈ taken, ∃ a ∈ entities, a.ref = e.ref) (store : Store) :
    entities.foldl save (taken.foldl save store) = entities.foldl save store := by
  induction taken generalizing store with
  | nil => rfl
  | cons e rest ih =>
      rw [List.foldl_cons,ih (fun other member => within other (.tail _ member)),saves_over (within e (.head _))]

theorem saves_rows {entities : List Entity} {content : Store} (ordered : Table.Ordered content)
    (rows : (entities.map fun e => (e.ref,e)).Perm content) : entities.foldl save [] = content := by
  have distinct : (entities.map Entity.ref).Nodup := by
    have keys := (rows.map Prod.fst).nodup_iff.mpr (Table.keys_nodup ordered)
    rwa [List.map_map] at keys
  have saved := saves_perm entities [] distinct (fun _ _ => List.not_mem_nil)
  rw [List.append_nil] at saved
  exact Table.eq_of_perm (saves_ordered entities .nil) ordered (saved.trans rows)

end Saving

end Redline.Store
