import Redline.Proofs.UsageTracking

namespace Redline.Usage

open KeyOrder

inductive Registration where
  | register (e : Entity)
  | remove (source : EntityRef)

namespace Registration

def source : Registration → EntityRef
  | register e => e.ref
  | remove source => source

def rows : Registration → List Row
  | register e => rowsOf e
  | remove _ => []

def apply (registry : Registry) : Registration → Registry
  | register e => registry.register e
  | remove source => registry.remove source

end Registration

section Counting

theorem tally_counts (found : List Occurrence) : ∀ row ∈ tally found, row.1 ∈ found ∧ 1 ≤ row.2 := by
  have counted (rest : List Occurrence) (counts : Table Occurrence Nat) (within : rest ⊆ found)
      (known : ∀ row ∈ counts, row.1 ∈ found ∧ 1 ≤ row.2) :
      ∀ row ∈ rest.foldl (fun counts occurrence => counts.alter occurrence 0 (· + 1)) counts,
        row.1 ∈ found ∧ 1 ≤ row.2 := by
    induction rest generalizing counts with
    | nil => exact known
    | cons occurrence rest ih =>
        obtain ⟨here,later⟩ := List.cons_subset.mp within
        apply ih _ later
        intro row member
        rcases Table.mem_insert member with rfl | before
        · exact ⟨here,Nat.succ_pos _⟩
        · exact known row before
  exact counted found [] (List.Subset.refl found) (List.forall_mem_nil _)

theorem references_counts (e : Entity) : ∀ row ∈ references e, row.1.1 ≠ e.ref ∧ 1 ≤ row.2 := by
  intro row member
  obtain ⟨found,often⟩ := tally_counts _ row member
  exact ⟨of_decide_eq_true (List.mem_filter.mp found).2,often⟩

end Counting

-- The rows of one source: they are its own and name others, each target and method stands once.
structure Kept (source : EntityRef) (rows : List Row) : Prop where
  filled : rows ≠ []
  own : ∀ row ∈ rows, row.source = source
  others : ∀ row ∈ rows, row.target ≠ source
  counted : ∀ row ∈ rows, 1 ≤ row.count
  ascending : rows.Pairwise fun a b => before (a.target,a.method) (b.target,b.method) = true

theorem rowsOf_kept {e : Entity} (filled : rowsOf e ≠ []) : Kept e.ref (rowsOf e) := by
  refine ⟨filled,?_,?_,?_,List.pairwise_map.mpr (references_ordered e)⟩
  all_goals
    intro row member
    obtain ⟨counted,held,rfl⟩ := List.mem_map.mp member
  · rfl
  · exact (references_counts e counted held).1
  · exact (references_counts e counted held).2

namespace Registry

structure WellFormed (registry : Registry) : Prop where
  ordered : Table.Ordered registry
  kept : ∀ entry ∈ registry, Kept entry.1 entry.2

namespace WellFormed

theorem empty : WellFormed [] := ⟨.nil,List.forall_mem_nil _⟩

variable {registry : Registry} (sound : registry.WellFormed)

include sound

theorem remove (source : EntityRef) : (registry.remove source).WellFormed :=
  ⟨List.Pairwise.filter _ sound.ordered,fun entry member => sound.kept entry (List.mem_filter.mp member).1⟩

theorem register (e : Entity) : (registry.register e).WellFormed := by
  unfold Registry.register
  split
  · exact sound.remove e.ref
  · rename_i filled
    refine ⟨Table.ordered_insert e.ref (rowsOf e) sound.ordered,?_⟩
    intro entry member
    rcases Table.mem_insert member with rfl | before
    · exact rowsOf_kept fun nothing => filled (List.isEmpty_iff.mpr nothing)
    · exact sound.kept entry before

theorem apply (call : Registration) : (call.apply registry).WellFormed := by
  cases call with
  | register e => exact sound.register e
  | remove source => exact sound.remove source

theorem foldl_apply (calls : List Registration) : (calls.foldl Registration.apply registry).WellFormed := by
  induction calls generalizing registry with
  | nil => exact sound
  | cons call rest ih => exact ih (sound.apply call)

end WellFormed

theorem targets_apply (registry : Registry) (call : Registration) (source : EntityRef) :
    (call.apply registry).targets source = if source = call.source then call.rows else registry.targets source := by
  split
  · rename_i own
    cases call with
    | register e => exact own ▸ targets_register_self registry e
    | remove ref => exact own ▸ targets_remove_self registry ref
  · rename_i apart
    cases call with
    | register e => exact targets_register_other registry e apart
    | remove ref => exact targets_remove_other registry apart

section Sides

variable {registry : Registry} (sound : registry.WellFormed)

include sound in
theorem mem_targets (source : EntityRef) (row : Row) :
    row ∈ registry.targets source ↔ ∃ entry ∈ registry, entry.1 = source ∧ row ∈ entry.2 := by
  rw [targets]
  constructor
  · intro member
    cases held : Table.find? source registry with
    | none =>
        rw [held] at member
        cases member
    | some rows =>
        rw [held] at member
        exact ⟨_,(Table.find?_iff sound.ordered).mp held,rfl,member⟩
  · rintro ⟨entry,stands,rfl,member⟩
    rw [(Table.find?_iff sound.ordered).mpr stands]
    exact member

theorem mem_sources (registry : Registry) (target : EntityRef) (row : Row) :
    row ∈ registry.sources target ↔ row.target = target ∧ ∃ entry ∈ registry, row ∈ entry.2 := by
  rw [sources,List.mem_filter,decide_eq_true_eq,and_comm,List.mem_flatten]
  apply and_congr_right
  intro _
  constructor
  · rintro ⟨rows,listed,member⟩
    obtain ⟨entry,stands,rfl⟩ := List.mem_map.mp listed
    exact ⟨entry,stands,member⟩
  · rintro ⟨entry,stands,member⟩
    exact ⟨entry.2,List.mem_map_of_mem stands,member⟩

include sound

theorem targets_iff_sources (row : Row) : row ∈ registry.targets row.source ↔ row ∈ registry.sources row.target := by
  rw [mem_targets sound,mem_sources]
  constructor
  · rintro ⟨entry,stands,_,member⟩
    exact ⟨rfl,entry,stands,member⟩
  · rintro ⟨_,entry,stands,member⟩
    exact ⟨entry,stands,((sound.kept entry stands).own row member).symm,member⟩

theorem sources_ascending (target : EntityRef) : (registry.sources target).Pairwise fun a b =>
    before (a.source,a.method) (b.source,b.method) = true := by
  rw [sources,List.pairwise_filter,List.pairwise_flatten]
  constructor
  · intro rows listed
    obtain ⟨entry,stands,rfl⟩ := List.mem_map.mp listed
    have kept := sound.kept entry stands
    refine kept.ascending.imp_of_mem ?_
    intro a b first second less here there
    have targets : a.target = b.target := (of_decide_eq_true here).trans (of_decide_eq_true there).symm
    rcases before_pair.mp less with smaller | ⟨_,methods⟩
    · exact absurd targets (ne_of_before smaller)
    · exact before_pair.mpr (.inr ⟨(kept.own a first).trans (kept.own b second).symm,methods⟩)
  · rw [Table.values,List.pairwise_map]
    refine sound.ordered.imp_of_mem ?_
    intro one two stands stands' less a first b second _ _
    rw [(sound.kept one stands).own a first,(sound.kept two stands').own b second]
    exact before_pair.mpr (.inl less)

end Sides

end Registry

-- Whatever sources were registered and removed: the registry is well formed, the last call replaced the
-- rows of its source and no others, and a row is found under its source exactly when it is found under
-- its target, where the rows stand once each in the order of their sources and methods.
theorem registry_consistent (calls : List Registration) :
    let registry := calls.foldl Registration.apply []
    registry.WellFormed ∧
      (∀ (call : Registration) (source : EntityRef), (call.apply registry).targets source =
        if source = call.source then call.rows else registry.targets source) ∧
      (∀ row, row ∈ registry.targets row.source ↔ row ∈ registry.sources row.target) ∧
      ∀ target, (registry.sources target).Nodup ∧ (registry.sources target).Pairwise fun a b =>
        before (a.source,a.method) (b.source,b.method) = true := by
  intro registry
  have sound : registry.WellFormed := Registry.WellFormed.empty.foldl_apply calls
  refine ⟨sound,registry.targets_apply,Registry.targets_iff_sources sound,fun target => ?_⟩
  have ascending := Registry.sources_ascending sound target
  refine ⟨ascending.imp fun less same => ?_,ascending⟩
  rw [same,Lawful.irrefl] at less
  cases less

end Redline.Usage
