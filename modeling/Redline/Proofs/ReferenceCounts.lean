import Mathlib.Data.Finset.Card
import Mathlib.Data.List.Count
import Redline.Proofs.UsageRows

namespace Redline.Usage

open Json KeyOrder

-- An object that is a reference: it names a type that is not empty, and a UUID that reads.
structure Refers (members : List (String × Value)) (target : EntityRef) : Prop where
  typed : members.lookup "target_type" = some (.text target.entityType)
  named : target.entityType ≠ ""
  identified : ∃ written, members.lookup "target_uuid" = some (.text written) ∧ Uuid.ofText? written = some target.uuid

theorem text?_some {value : Value} {content : String} : value.text? = some content ↔ value = .text content := by
  cases value <;> simp [Value.text?]

theorem referenceIn?_iff {members : List (String × Value)} {target : EntityRef} :
    referenceIn? members = some target ↔ Refers members target := by
  obtain ⟨entityType,uuid⟩ := target
  simp only [referenceIn?,Option.bind_eq_bind,Option.bind_eq_some_iff,text?_some]
  constructor
  · rintro ⟨_,typed,_,rfl,_,identified,written,rfl,_,reads,kept⟩
    split at kept
    · cases kept
    · rename_i named
      cases kept
      exact ⟨typed,fun empty => named (String.isEmpty_iff.mpr empty),written,identified,reads⟩
  · rintro ⟨typed,named,written,identified,reads⟩
    refine ⟨_,typed,_,rfl,_,identified,written,rfl,_,reads,if_neg ?_⟩
    exact fun empty => named (String.isEmpty_iff.mp empty)

instance (members : List (String × Value)) (target : EntityRef) : Decidable (Refers members target) :=
  decidable_of_iff _ referenceIn?_iff

instance (members : List (String × Value)) : Decidable (∃ target, Refers members target) :=
  decidable_of_iff ((referenceIn? members).isSome = true) (by
    simp only [Option.isSome_iff_exists,referenceIn?_iff])

section Counting

variable (o : Occurrence)

mutual

-- How often a value makes a reference: a text as often as it embeds the target, a reference once, and
-- everything else as often as its parts do. What stands inside a reference does not count.
def times : Value → Nat
  | .text content => if o.2 = .embed then (embeds content).count o.1 else 0
  | .array items => timesInItems items
  | .object members =>
      if ∃ target, Refers members target then
        if o.2 = .reference ∧ Refers members o.1 then 1 else 0
      else timesInMembers members
  | _ => 0

def timesInItems : List Value → Nat
  | [] => 0
  | item :: rest => times item + timesInItems rest

def timesInMembers : List (String × Value) → Nat
  | [] => 0
  | (_,value) :: rest => times value + timesInMembers rest

end

theorem count_embeds (content : String) :
    ((embeds content).map (·,Method.embed)).count o = if o.2 = .embed then (embeds content).count o.1 else 0 := by
  obtain ⟨target,method⟩ := o
  cases method with
  | reference =>
      refine List.count_eq_zero.mpr fun member => ?_
      obtain ⟨_,_,same⟩ := List.mem_map.mp member
      cases same
  | embed => exact List.count_map_of_injective _ (·,Method.embed) (fun _ _ same => congrArg Prod.fst same) target

mutual

theorem count_occurrences : (value : Value) → (occurrences value).count o = times o value
  | .null => rfl
  | .bool _ => rfl
  | .number _ => rfl
  | .text content => count_embeds o content
  | .array items => count_occurrencesOfItems items
  | .object members => by
      rw [occurrences,times]
      split
      · rename_i target reads
        have refers := referenceIn?_iff.mp reads
        rw [if_pos ⟨target,refers⟩,List.count_singleton]
        have own : Refers members o.1 ↔ target = o.1 := by
          rw [← referenceIn?_iff,reads,Option.some.injEq]
        simp only [own,beq_iff_eq,Prod.ext_iff,@and_comm (target = o.1),@eq_comm _ o.2]
      · rename_i none_
        rw [if_neg]
        · exact count_occurrencesOfMembers members
        · rintro ⟨target,refers⟩
          cases none_.symm.trans (referenceIn?_iff.mpr refers)

theorem count_occurrencesOfItems : (items : List Value) → (occurrencesOfItems items).count o = timesInItems o items
  | [] => rfl
  | item :: rest => by
      rw [occurrencesOfItems,timesInItems,List.count_append,count_occurrences item,count_occurrencesOfItems rest]

theorem count_occurrencesOfMembers :
    (members : List (String × Value)) → (occurrencesOfMembers members).count o = timesInMembers o members
  | [] => rfl
  | (_,value) :: rest => by
      rw [occurrencesOfMembers,timesInMembers,List.count_append,count_occurrences value,
        count_occurrencesOfMembers rest]

end

theorem find?_tally (found : List Occurrence) :
    (tally found).find? o = if found.count o = 0 then none else some (found.count o) := by
  have counted (rest : List Occurrence) (counts : Table Occurrence Nat) :
      (rest.foldl (fun counts occurrence => counts.alter occurrence 0 (· + 1)) counts).find? o =
        if rest.count o = 0 then counts.find? o else some ((counts.find? o).getD 0 + rest.count o) := by
    induction rest generalizing counts with
    | nil => rfl
    | cons first rest ih =>
        rw [List.foldl_cons,ih]
        by_cases here : o = first
        · subst here
          rw [Table.alter,Table.find?_insert_self,List.count_cons_self]
          split
          · rename_i last
            rw [last]
            rfl
          · simp only [Option.getD_some,Nat.add_eq_zero_iff,Nat.one_ne_zero,and_false,if_false]
            congr 1
            omega
        · rw [Table.alter,Table.find?_insert_other _ _ _ _ here,List.count_cons_of_ne (Ne.symm here)]
  have whole := counted found []
  simpa only [tally,Table.find?,List.lookup_nil,Option.getD_none,Nat.zero_add] using whole

end Counting

section Arranging

inductive Rearranged : Value → Value → Prop where
  | same (value : Value) : Rearranged value value
  | moved {items items' : List Value} (order : items.Perm items') : Rearranged (.array items) (.array items')
  | item {value value' : Value} (front back : List Value) (inside : Rearranged value value') :
      Rearranged (.array (front ++ value :: back)) (.array (front ++ value' :: back))
  | member {value value' : Value} (name : String) (front back : List (String × Value))
      (inside : Rearranged value value') :
      Rearranged (.object (front ++ (name,value) :: back)) (.object (front ++ (name,value') :: back))
  | trans {first second third : Value} (one : Rearranged first second) (two : Rearranged second third) :
      Rearranged first third

theorem occurrencesOfItems_eq (items : List Value) : occurrencesOfItems items = items.flatMap occurrences := by
  induction items with
  | nil => rfl
  | cons item rest ih => rw [occurrencesOfItems,ih,List.flatMap_cons]

theorem occurrencesOfMembers_eq (members : List (String × Value)) :
    occurrencesOfMembers members = (Table.values members).flatMap occurrences := by
  induction members with
  | nil => rfl
  | cons row rest ih =>
      obtain ⟨name,value⟩ := row
      rw [occurrencesOfMembers,ih]
      rfl

theorem Rearranged.text?_eq {value value' : Value} (arranged : Rearranged value value') : value'.text? = value.text? := by
  induction arranged with
  | trans _ _ first second => exact second.trans first
  | _ => rfl

theorem referenceIn?_member {value value' : Value} (same : value'.text? = value.text?) (name : String)
    (front back : List (String × Value)) :
    referenceIn? (front ++ (name,value') :: back) = referenceIn? (front ++ (name,value) :: back) := by
  have read (key : String) : ((front ++ (name,value') :: back).lookup key).bind Value.text? =
      ((front ++ (name,value) :: back).lookup key).bind Value.text? := by
    simp only [List.lookup_append,List.lookup_cons]
    cases front.lookup key with
    | some _ => rfl
    | none =>
        by_cases here : (key == name) = true
        · simp [here,same]
        · simp [here]
  unfold referenceIn?
  simp only [Option.bind_eq_bind,← Option.bind_assoc,read]

theorem Rearranged.occurrences_perm {value value' : Value} (arranged : Rearranged value value') :
    (occurrences value').Perm (occurrences value) := by
  induction arranged with
  | same value => exact .refl _
  | moved order =>
      simp only [Usage.occurrences,occurrencesOfItems_eq]
      exact order.symm.flatMap_right _
  | item front back _ ih =>
      simp only [Usage.occurrences,occurrencesOfItems_eq,List.flatMap_append,List.flatMap_cons]
      exact .append_left _ (.append_right _ ih)
  | member name front back inside ih =>
      simp only [Usage.occurrences,referenceIn?_member inside.text?_eq]
      split
      · exact .refl _
      · simp only [occurrencesOfMembers_eq,Table.values,List.map_append,List.map_cons,List.flatMap_append,
          List.flatMap_cons]
        exact .append_left _ (.append_right _ ih)
  | trans _ _ first second => exact second.trans first

end Arranging

section Targets

variable {rows : List Row}

-- Where rows of one target stand together, each target is counted at its last row.
theorem distinctTargets_eq (together : rows.Pairwise fun a b => a.target = b.target ∨ before a.target b.target = true) :
    distinctTargets rows = (rows.map Row.target).toFinset.card := by
  induction rows with
  | nil => rfl
  | cons first rest ih =>
      obtain ⟨ahead,together⟩ := List.pairwise_cons.mp together
      cases rest with
      | nil => rfl
      | cons second rest =>
          rw [distinctTargets,ih together,List.map_cons (l := second :: rest),List.toFinset_cons]
          by_cases same : first.target = second.target
          · rw [if_pos same,Nat.zero_add,Finset.insert_eq_of_mem]
            rw [List.mem_toFinset,same]
            exact .head _
          · rw [if_neg same,Finset.card_insert_of_notMem,Nat.add_comm]
            rw [List.mem_toFinset,List.mem_map]
            rintro ⟨row,member,again⟩
            have less := (ahead second (.head _)).resolve_left same
            rcases List.mem_cons.mp member with rfl | later
            · exact same again.symm
            · -- A target between two rows of another one would be before itself.
              rcases (List.pairwise_cons.mp together).1 row later with equal | greater
              · exact same (again.symm.trans equal.symm)
              · exact ne_of_before (Lawful.trans _ _ _ less greater) again.symm

theorem rowsOf_targets (e : Entity) : (rowsOf e).map Row.target = (references e).map fun row => row.1.1 := by
  rw [rowsOf,List.map_map]
  rfl

theorem distinctTargets_rowsOf (e : Entity) :
    distinctTargets (rowsOf e) = ((references e).map fun row => row.1.1).toFinset.card := by
  rw [← rowsOf_targets]
  refine distinctTargets_eq (List.pairwise_map.mpr ((references_ordered e).imp fun {a b} less => ?_))
  rcases before_pair.mp less with smaller | ⟨same,_⟩
  · exact .inr smaller
  · exact .inl same

end Targets

section References

variable (e : Entity)

theorem find?_references (target : EntityRef) (method : Method) :
    (references e).find? (target,method) =
      if target = e.ref ∨ timesInMembers (target,method) e.fields = 0 then none
      else some (timesInMembers (target,method) e.fields) := by
  rw [references,find?_tally]
  by_cases own : target = e.ref
  · rw [if_pos (Or.inl own),if_pos]
    exact List.count_eq_zero.mpr fun member => of_decide_eq_true (List.mem_filter.mp member).2 own
  · rw [List.count_filter (by simpa using own),count_occurrencesOfMembers]
    simp only [own,false_or]

theorem references_rearranged {e' : Entity} (same : e'.ref = e.ref)
    (arranged : Rearranged (.array (Table.values e.fields)) (.array (Table.values e'.fields))) :
    references e' = references e := by
  have found := arranged.occurrences_perm
  simp only [occurrences,occurrencesOfItems_eq,← occurrencesOfMembers_eq] at found
  refine Table.eq_of_find? (references_ordered e') (references_ordered e) fun o => ?_
  rw [references,references,find?_tally,find?_tally,same,(found.filter _).count_eq]

end References

-- An entity's references are a map from targets and methods to numbers. Under a target and a method it
-- holds how often the field values make that reference, unless that is never or the target is the entity
-- itself. It does not change when fields get other names or another order, or items of arrays another
-- order, at any depth. Registering the entity, which an update does, tells the number of its targets.
theorem references_counted (e : Entity) :
    Table.Ordered (references e) ∧
      (∀ (target : EntityRef) (method : Method), (references e).find? (target,method) =
        if target = e.ref ∨ timesInMembers (target,method) e.fields = 0 then none
        else some (timesInMembers (target,method) e.fields)) ∧
      (∀ e' : Entity, e'.ref = e.ref →
        Rearranged (.array (Table.values e.fields)) (.array (Table.values e'.fields)) → references e' = references e) ∧
      distinctTargets (rowsOf e) = ((references e).map fun row => row.1.1).toFinset.card ∧
      ∀ (desk : Desk) (source : EntityRef), desk.load source = .ok (some e) → desk.process ⟨source,.update⟩ =
        (.processed ((references e).map fun row => row.1.1).toFinset.card,
          { desk with registry := desk.registry.register e }) := by
  refine ⟨references_ordered e,find?_references e,fun _ => references_rearranged e,distinctTargets_rowsOf e,?_⟩
  intro desk source loaded
  rw [Desk.process]
  simp only [loaded,distinctTargets_rowsOf]

theorem references_counted_gallery :
    let page : EntityRef := ⟨"node",⟨List.replicate 32 1,by decide⟩⟩
    let image : EntityRef := ⟨"media",⟨List.replicate 32 2,by decide⟩⟩
    let link (target : EntityRef) : Value :=
      .object [("target_type",.text target.entityType),("target_uuid",.text target.uuid.text)]
    let body : Value := .text ("<p>See <img data-entity-type=media data-entity-uuid=" ++ image.uuid.text ++ "></p>")
    let gallery : Entity := { Entity.blank "node" "page" "Gallery" page.uuid with
      fields := [("images",.array [link image,.array [link page,link image]]),("text",body)] }
    let arranged : Entity := { gallery with
      fields := [("body",body),("pictures",.array [.array [link page,link image],link image])] }
    let desk : Desk := { store := [(page,gallery)] }
    arranged.ref = gallery.ref ∧
      Rearranged (.array (Table.values gallery.fields)) (.array (Table.values arranged.fields)) ∧
      desk.load page = .ok (some gallery) ∧ references arranged = references gallery ∧
      (references gallery).find? (image,.reference) = some 2 ∧ (references gallery).find? (image,.embed) = some 1 ∧
      (references gallery).find? (page,.reference) = none ∧
      desk.process ⟨page,.update⟩ = (.processed 1,{ desk with registry := desk.registry.register gallery }) := by
  intro page image link body gallery arranged desk
  have moved : Rearranged (.array (Table.values gallery.fields)) (.array (Table.values arranged.fields)) :=
    .trans (.item [] [body] (.moved (.swap _ _ []))) (.moved (.swap _ _ []))
  have loaded : desk.load page = .ok (some gallery) := rfl
  obtain ⟨_,found,same,_,processed⟩ := references_counted gallery
  have one : ((references gallery).map fun row => row.1.1).toFinset.card = 1 := by decide +kernel
  refine ⟨rfl,moved,loaded,same arranged rfl moved,?_,?_,?_,?_⟩
  · rw [found]
    decide
  · rw [found]
    decide +kernel
  · rw [found]
    decide +kernel
  · rw [processed desk page loaded,one]

end Redline.Usage
