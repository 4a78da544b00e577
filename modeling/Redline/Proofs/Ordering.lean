import Redline.Usage.Reference

namespace Redline

open KeyOrder

class KeyOrder.Lawful (κ : Type) [KeyOrder κ] : Prop where
  irrefl : ∀ a : κ, before a a = false
  trans : ∀ a b c : κ, before a b = true → before b c = true → before a c = true
  total : ∀ a b : κ, before a b = true ∨ a = b ∨ before b a = true

namespace KeyOrder

instance : Lawful String where
  irrefl a := by simp [before]
  trans a b c := by
    simp only [before,decide_eq_true_eq]
    exact String.lt_trans
  total a b := by
    simp only [before,decide_eq_true_eq]
    by_cases first : a < b
    · exact .inl first
    by_cases second : b < a
    · exact .inr (.inr second)
    · exact .inr (.inl (String.le_antisymm (String.not_lt.mp second) (String.not_lt.mp first)))

instance {α β : Type} [DecidableEq α] [KeyOrder α] [KeyOrder β] [Lawful α] [Lawful β] : Lawful (α × β) where
  irrefl a := by simp [before,Lawful.irrefl]
  trans a b c := by
    simp only [before,Bool.or_eq_true,Bool.and_eq_true,decide_eq_true_eq]
    rintro (first | ⟨first,low⟩) (second | ⟨second,high⟩)
    · exact .inl (Lawful.trans _ _ _ first second)
    · exact .inl (second ▸ first)
    · exact .inl (first ▸ second)
    · exact .inr ⟨first.trans second,Lawful.trans _ _ _ low high⟩
  total a b := by
    simp only [before,Bool.or_eq_true,Bool.and_eq_true,decide_eq_true_eq]
    rcases Lawful.total a.1 b.1 with less | same | greater
    · exact .inl (.inl less)
    · rcases Lawful.total a.2 b.2 with less | equal | greater
      · exact .inl (.inr ⟨same,less⟩)
      · exact .inr (.inl (Prod.ext same equal))
      · exact .inr (.inr (.inr ⟨same.symm,greater⟩))
    · exact .inr (.inr (.inl greater))

theorem Lawful.ofKey {α κ : Type} [KeyOrder α] [KeyOrder κ] [Lawful κ] (key : α → κ)
    (same : ∀ a b, before a b = before (key a) (key b)) (apart : ∀ a b, key a = key b → a = b) : Lawful α where
  irrefl a := by rw [same]; exact Lawful.irrefl _
  trans a b c := by
    simp only [same]
    exact Lawful.trans _ _ _
  total a b := by
    simp only [same]
    rcases Lawful.total (key a) (key b) with less | equal | greater
    · exact .inl less
    · exact .inr (.inl (apart a b equal))
    · exact .inr (.inr greater)

theorem before_pair {α β : Type} [DecidableEq α] [KeyOrder α] [KeyOrder β] {a c : α} {b d : β} :
    before (a,b) (c,d) = true ↔ before a c = true ∨ a = c ∧ before b d = true := by
  simp [before]

section Apart

variable {κ : Type} [KeyOrder κ] [Lawful κ] {a b : κ}

theorem ne_of_before (less : before a b = true) : a ≠ b := by
  rintro rfl
  rw [Lawful.irrefl] at less
  cases less

theorem not_before (less : before a b = true) : before b a = false := by
  apply Bool.eq_false_iff.mpr
  intro greater
  exact ne_of_before (Lawful.trans _ _ _ less greater) rfl

end Apart

end KeyOrder

section Digits

theorem digitsBefore_irrefl (digits : List (Fin 16)) : Uuid.digitsBefore digits digits = false := by
  induction digits with
  | nil => rfl
  | cons d rest ih => simp [Uuid.digitsBefore,ih]

theorem digitsBefore_trans (a b c : List (Fin 16)) (first : Uuid.digitsBefore a b = true)
    (second : Uuid.digitsBefore b c = true) : Uuid.digitsBefore a c = true := by
  induction a generalizing b c with
  | nil =>
      cases c with
      | nil => cases b <;> cases second
      | cons => rfl
  | cons x xs ih =>
      cases b with
      | nil => cases first
      | cons y ys =>
          cases c with
          | nil => cases second
          | cons z zs =>
              simp only [Uuid.digitsBefore,Bool.or_eq_true,Bool.and_eq_true,decide_eq_true_eq] at first second ⊢
              rcases first with less | ⟨rfl,less⟩
              · rcases second with further | ⟨rfl,_⟩
                · exact .inl (Fin.lt_trans less further)
                · exact .inl less
              · rcases second with further | ⟨rfl,further⟩
                · exact .inl further
                · exact .inr ⟨rfl,ih ys zs less further⟩

theorem digitsBefore_total (a b : List (Fin 16)) :
    Uuid.digitsBefore a b = true ∨ a = b ∨ Uuid.digitsBefore b a = true := by
  induction a generalizing b with
  | nil => cases b with
      | nil => exact .inr (.inl rfl)
      | cons => exact .inl rfl
  | cons x xs ih =>
      cases b with
      | nil => exact .inr (.inr rfl)
      | cons y ys =>
          simp only [Uuid.digitsBefore,Bool.or_eq_true,Bool.and_eq_true,decide_eq_true_eq]
          rcases Nat.lt_trichotomy x.val y.val with less | same | greater
          · exact .inl (.inl less)
          · cases Fin.ext same
            rcases ih ys with low | rfl | high
            · exact .inl (.inr ⟨rfl,low⟩)
            · exact .inr (.inl rfl)
            · exact .inr (.inr (.inr ⟨rfl,high⟩))
          · exact .inr (.inr (.inl greater))

instance : KeyOrder.Lawful Uuid where
  irrefl u := digitsBefore_irrefl u.digits
  trans a b c := digitsBefore_trans a.digits b.digits c.digits
  total a b := by
    rcases digitsBefore_total a.digits b.digits with less | same | greater
    · exact .inl less
    · cases a
      cases b
      cases same
      exact .inr (.inl rfl)
    · exact .inr (.inr greater)

end Digits

instance : KeyOrder.Lawful EntityRef :=
  .ofKey (fun ref => (ref.entityType,ref.uuid)) (fun _ _ => rfl) (by
    rintro ⟨_,_⟩ ⟨_,_⟩ same
    cases same
    rfl)

instance : KeyOrder.Lawful Usage.Method where
  irrefl a := by cases a <;> rfl
  trans a b c := by cases a <;> cases b <;> cases c <;> decide
  total a b := by cases a <;> cases b <;> decide

namespace Table

section Answers

variable {κ ν : Type} [DecidableEq κ]

theorem find?_erase_self (key : κ) (table : Table κ ν) : (table.erase key).find? key = none := by
  induction table with
  | nil => rfl
  | cons row rest ih =>
      obtain ⟨other,old⟩ := row
      by_cases same : other = key
      · simpa [erase,same] using ih
      · have apart : (key == other) = false := by simpa using Ne.symm same
        simpa [erase,find?,List.lookup_cons,same,apart] using ih

theorem find?_erase_other {key other : κ} (table : Table κ ν) (apart : other ≠ key) :
    (table.erase key).find? other = table.find? other := by
  induction table with
  | nil => rfl
  | cons row rest ih =>
      obtain ⟨held,old⟩ := row
      by_cases same : held = key
      · have unequal : (other == held) = false := by simpa [same] using apart
        simpa [erase,find?,List.lookup_cons,same,unequal,same ▸ unequal] using ih
      · simp only [erase,find?,ne_eq] at ih ⊢
        rw [List.filter_cons_of_pos (by simpa using same),List.lookup_cons,List.lookup_cons,ih]

theorem erase_absent {key : κ} {table : Table κ ν} (absent : table.find? key = none) : table.erase key = table := by
  refine List.filter_eq_self.mpr fun row held => decide_eq_true fun same => ?_
  have other := List.lookup_eq_none_iff.mp absent row held
  rw [same,bne_self_eq_false] at other
  cases other

variable [KeyOrder κ]

theorem insert_insert (key : κ) (value old : ν) (table : Table κ ν) :
    (table.insert key old).insert key value = table.insert key value := by
  induction table with
  | nil => simp [insert]
  | cons row rest ih =>
      obtain ⟨other,held⟩ := row
      by_cases same : key = other
      · simp [insert,same]
      · by_cases first : KeyOrder.before key other = true <;> simp [insert,same,first,ih]

theorem mem_insert {key : κ} {value : ν} {table : Table κ ν} {row : κ × ν} (member : row ∈ table.insert key value) :
    row = (key,value) ∨ row ∈ table := by
  induction table with
  | nil => exact .inl (List.mem_singleton.mp member)
  | cons held rest ih =>
      obtain ⟨other,old⟩ := held
      simp only [insert] at member
      split at member
      · rcases List.mem_cons.mp member with new | behind
        · exact .inl new
        · exact .inr (.tail _ behind)
      · split at member
        · rcases List.mem_cons.mp member with new | kept
          · exact .inl new
          · exact .inr kept
        · rcases List.mem_cons.mp member with first | behind
          · exact .inr (first ▸ .head _)
          · rcases ih behind with new | kept
            · exact .inl new
            · exact .inr (.tail _ kept)

theorem insert_perm {key : κ} (value : ν) {table : Table κ ν} (fresh : key ∉ table.keys) :
    (table.insert key value).Perm ((key,value) :: table) := by
  induction table with
  | nil => exact .refl _
  | cons row rest ih =>
      obtain ⟨held,old⟩ := row
      simp only [keys,List.map_cons,List.mem_cons,not_or] at fresh
      rw [insert,if_neg fresh.1]
      split
      · exact .refl _
      · exact ((ih fresh.2).cons _).trans (.swap _ _ _)

def insertAll (rows : List (κ × ν)) (table : Table κ ν) : Table κ ν :=
  rows.foldl (fun table row => table.insert row.1 row.2) table

theorem find?_insertAll {rows : List (κ × ν)} (agree : ∀ a ∈ rows, ∀ b ∈ rows, a.1 = b.1 → a = b) (table : Table κ ν)
    (key : κ) (value : ν) : (insertAll rows table).find? key = some value ↔
      (key,value) ∈ rows ∨ (∀ row ∈ rows, row.1 ≠ key) ∧ table.find? key = some value := by
  induction rows generalizing table with
  | nil => simp [insertAll]
  | cons first rest ih =>
      obtain ⟨held,last⟩ := first
      have behind := ih (fun a one b two => agree a (.tail _ one) b (.tail _ two)) (table.insert held last)
      rw [insertAll,List.foldl_cons]
      refine behind.trans ?_
      by_cases own : held = key
      · rw [← own,find?_insert_self]
        constructor
        · rintro (later | ⟨_,here⟩)
          · exact .inl (.tail _ later)
          · cases here
            exact .inl (.head _)
        · rintro (member | ⟨apart,_⟩)
          · cases agree _ member _ (.head _) rfl
            by_cases again : (held,value) ∈ rest
            · exact .inl again
            · refine .inr ⟨fun row later twin => again ?_,rfl⟩
              exact agree row (.tail _ later) _ (.head _) twin ▸ later
          · exact absurd rfl (apart _ (.head _))
      · have others : (key,value) ∈ (held,last) :: rest ↔ (key,value) ∈ rest :=
          List.mem_cons.trans (or_iff_right fun here => own (congrArg Prod.fst here).symm)
        rw [find?_insert_other _ _ _ _ (Ne.symm own),others,List.forall_mem_cons,and_iff_right own]

end Answers

section Ascending

variable {κ ν : Type} [KeyOrder κ] [KeyOrder.Lawful κ]

theorem keys_nodup {table : Table κ ν} (ordered : table.Ordered) : table.keys.Nodup := by
  rw [keys,List.nodup_iff_pairwise_ne,List.pairwise_map]
  exact ordered.imp ne_of_before

theorem eq_of_perm {a b : Table κ ν} (first : a.Ordered) (second : b.Ordered) (same : a.Perm b) : a = b := by
  apply List.Perm.eq_of_pairwise _ first second same
  intro x y _ _ less greater
  exact absurd greater (Bool.eq_false_iff.mp (not_before less))

variable [DecidableEq κ]

theorem find?_iff {table : Table κ ν} (ordered : table.Ordered) {key : κ} {value : ν} :
    table.find? key = some value ↔ (key,value) ∈ table := by
  rw [find?,List.lookup_eq_some_iff]
  constructor
  · rintro ⟨first,last,rfl,_⟩
    exact List.mem_append_right first (.head last)
  · intro member
    obtain ⟨first,last,rfl⟩ := List.append_of_mem member
    refine ⟨first,last,rfl,?_⟩
    intro row earlier
    exact bne_iff_ne.mpr (ne_of_before ((List.pairwise_append.mp ordered).2.2 row earlier _ (.head last))).symm

theorem eq_of_find? {a b : Table κ ν} (first : a.Ordered) (second : b.Ordered)
    (same : ∀ key, a.find? key = b.find? key) : a = b := by
  have once {table : Table κ ν} (ordered : table.Ordered) : table.Nodup :=
    ordered.imp fun less same => ne_of_before less (congrArg Prod.fst same)
  refine eq_of_perm first second ((List.perm_ext_iff_of_nodup (once first) (once second)).mpr ?_)
  rintro ⟨key,value⟩
  rw [← find?_iff first,← find?_iff second,same]

theorem ordered_insert (key : κ) (value : ν) {table : Table κ ν} (ordered : table.Ordered) :
    (table.insert key value).Ordered := by
  induction table with
  | nil => exact List.pairwise_singleton _ _
  | cons held rest ih =>
      obtain ⟨other,old⟩ := held
      obtain ⟨first,behind⟩ := List.pairwise_cons.mp ordered
      simp only [insert]
      split
      · rename_i same
        exact List.pairwise_cons.mpr ⟨same ▸ first,behind⟩
      · rename_i apart
        split
        · rename_i less
          refine List.pairwise_cons.mpr ⟨?_,ordered⟩
          intro row member
          rcases List.mem_cons.mp member with rfl | later
          · exact less
          · exact KeyOrder.Lawful.trans _ _ _ less (first row later)
        · rename_i notLess
          refine List.pairwise_cons.mpr ⟨?_,ih behind⟩
          intro row member
          rcases mem_insert member with rfl | later
          · rcases KeyOrder.Lawful.total key other with less | same | greater
            · exact absurd less notLess
            · exact absurd same apart
            · exact greater
          · exact first row later

theorem ordered_alter (key : κ) (default : ν) (change : ν → ν) {table : Table κ ν} (ordered : table.Ordered) :
    (table.alter key default change).Ordered :=
  ordered_insert key _ ordered

theorem insert_before {key other : κ} (less : before key other = true) (value old : ν) (table : Table κ ν) :
    Table.insert other old (table.insert key value) = Table.insert key value (table.insert other old) := by
  have apart := ne_of_before less
  have greater := not_before less
  induction table with
  | nil => simp [insert,apart,apart.symm,less,greater]
  | cons row rest ih =>
      obtain ⟨held,last⟩ := row
      by_cases own : key = held
      · simp [insert,← own,apart.symm,greater]
      by_cases theirs : other = held
      · simp [insert,← theirs,apart,apart.symm,less,greater]
      cases low : before key held with
      | true => cases high : before other held <;> simp [insert,own,theirs,low,high,apart,apart.symm,less,greater]
      | false =>
          have high : before other held = false := by
            apply Bool.eq_false_iff.mpr
            intro further
            rw [Lawful.trans _ _ _ less further] at low
            cases low
          simp [insert,own,theirs,low,high,ih]

theorem insert_comm {key other : κ} (apart : key ≠ other) (value old : ν) (table : Table κ ν) :
    Table.insert other old (table.insert key value) = Table.insert key value (table.insert other old) := by
  rcases Lawful.total key other with less | same | greater
  · exact insert_before less value old table
  · exact absurd same apart
  · exact (insert_before greater old value table).symm

theorem insertAll_perm {a b : List (κ × ν)} (same : a.Perm b) (agree : ∀ x ∈ a, ∀ y ∈ a, x.1 = y.1 → x = y)
    (table : Table κ ν) : insertAll a table = insertAll b table := by
  apply same.foldl_eq'
  intro x one y two table
  by_cases key : x.1 = y.1
  · rw [agree x one y two key]
  · exact insert_comm key x.2 y.2 table

theorem ordered_insertAll (rows : List (κ × ν)) {table : Table κ ν} (ordered : table.Ordered) :
    (insertAll rows table).Ordered := by
  induction rows generalizing table with
  | nil => exact ordered
  | cons row rest ih => exact ih (ordered_insert row.1 row.2 ordered)

section Last

variable {key : κ} {table : Table κ ν} (last : ∀ row ∈ table, before row.1 key = true)

include last

theorem insert_last (value : ν) : table.insert key value = table ++ [(key,value)] := by
  induction table with
  | nil => rfl
  | cons row rest ih =>
      have less := last row (.head _)
      rw [insert,if_neg (ne_of_before less).symm,not_before less,if_neg Bool.false_ne_true,
        ih fun row member => last row (.tail _ member)]
      rfl

theorem insert_held (value old : ν) : Table.insert key value (table ++ [(key,old)]) = table ++ [(key,value)] := by
  induction table with
  | nil => simp [insert]
  | cons row rest ih =>
      have less := last row (.head _)
      rw [List.cons_append,insert,if_neg (ne_of_before less).symm,not_before less,if_neg Bool.false_ne_true,
        ih fun row member => last row (.tail _ member)]
      rfl

theorem find?_last : table.find? key = none := by
  rw [find?,List.lookup_eq_none_iff]
  intro row member
  exact bne_iff_ne.mpr (ne_of_before (last row member)).symm

theorem find?_held (old : ν) : Table.find? key (table ++ [(key,old)]) = some old := by
  have fresh := find?_last last
  rw [find?] at fresh
  rw [find?,List.lookup_append,fresh]
  simp

end Last

end Ascending

end Table

end Redline
