import Redline.Proofs.Paths

namespace Redline.Files.Tree

section Rows

variable (rows : Tree) {path other : Path} (node : Node)

theorem put_new {rows : Tree} (absent : List.lookup path rows = none) : put rows path node = rows ++ [(path,node)] := by
  rw [put,absent,if_neg (by simp)]

theorem put_held {rows : Tree} {old : Node} (held : List.lookup path rows = some old) :
    put rows path node = rows.map fun row => if row.1 = path then (path,node) else row := by
  rw [put,held]
  exact if_pos rfl

theorem lookup_put_self : List.lookup path (put rows path node) = some node := by
  cases held : List.lookup path rows with
  | none =>
      rw [put_new node held,List.lookup_append,held]
      simp
  | some old =>
      rw [put_held node held]
      induction rows with
      | nil => cases held
      | cons row rest ih =>
          rw [List.map_cons]
          by_cases own : row.1 = path
          · rw [if_pos own]
            simp
          · have apart : (path == row.1) = false := beq_eq_false_iff_ne.mpr (Ne.symm own)
            rw [List.lookup_cons,apart] at held
            rw [if_neg own,List.lookup_cons,apart]
            exact ih held

theorem lookup_put_other (apart : other ≠ path) : List.lookup other (put rows path node) = List.lookup other rows := by
  have away : (other == path) = false := beq_eq_false_iff_ne.mpr apart
  cases held : List.lookup path rows with
  | none =>
      rw [put_new node held,List.lookup_append,List.lookup_cons,away]
      simp
  | some old =>
      rw [put_held node held]
      clear held
      induction rows with
      | nil => rfl
      | cons row rest ih =>
          conv => rhs; rw [List.lookup_cons,← ih]
          rw [List.map_cons]
          split
          · rename_i own
            rw [List.lookup_cons,own]
            simp only [away]
          · rw [List.lookup_cons]

theorem mem_put {row : Path × Node} (member : row ∈ put rows path node) : row = (path,node) ∨ row ∈ rows := by
  cases held : List.lookup path rows with
  | none =>
      rw [put_new node held,List.mem_append,List.mem_singleton] at member
      exact member.symm
  | some old =>
      rw [put_held node held] at member
      obtain ⟨before,there,rfl⟩ := List.mem_map.mp member
      split
      · exact .inl rfl
      · exact .inr there

theorem put_distinct {rows : Tree} (distinct : (rows.map Prod.fst).Nodup) : ((put rows path node).map Prod.fst).Nodup := by
  cases held : List.lookup path rows with
  | none =>
      rw [put_new node held,List.map_append,List.nodup_append]
      refine ⟨distinct,List.pairwise_singleton _ _,?_⟩
      intro one member two last same
      rw [List.mem_singleton.mp last] at same
      obtain ⟨row,there,rfl⟩ := List.mem_map.mp member
      exact absurd same (bne_iff_ne.mp (List.lookup_eq_none_iff.mp held row there)).symm
  | some old =>
      have names : ∀ row ∈ rows, (Prod.fst ∘ fun row => if row.1 = path then (path,node) else row) row = row.1 := by
        intro row _
        rw [Function.comp_apply]
        split
        · rename_i own
          exact own.symm
        · rfl
      rw [put_held node held,List.map_map,List.map_congr_left names]
      exact distinct

theorem lookup_drop_self : List.lookup path (drop rows path) = none := by
  rw [List.lookup_eq_none_iff]
  intro row member
  exact bne_iff_ne.mpr (Ne.symm (of_decide_eq_true (List.mem_filter.mp member).2))

theorem lookup_drop_other (apart : other ≠ path) : List.lookup other (drop rows path) = List.lookup other rows := by
  induction rows with
  | nil => rfl
  | cons row rest ih =>
      rw [drop] at ih ⊢
      conv => rhs; rw [List.lookup_cons,← ih]
      rw [List.filter_cons]
      split
      · rw [List.lookup_cons]
      · rename_i gone
        have own : row.1 = path := Decidable.not_not.mp fun kept => gone (decide_eq_true kept)
        have away : (other == row.1) = false := beq_eq_false_iff_ne.mpr (own ▸ apart)
        rw [away]

theorem drop_distinct {rows : Tree} (distinct : (rows.map Prod.fst).Nodup) : ((drop rows path).map Prod.fst).Nodup :=
  distinct.sublist (List.filter_sublist.map Prod.fst)

theorem mem_of_lookup {rows : Tree} {node : Node} (held : List.lookup path rows = some node) : (path,node) ∈ rows := by
  obtain ⟨before,after,rfl,_⟩ := List.lookup_eq_some_iff.mp held
  exact List.mem_append_right before (.head after)

end Rows

section Nodes

variable (tree : Tree) {path other : Path} (node : Node)

theorem node?_put_self (filled : path ≠ []) : node? (put tree path node) path = some node := by
  rw [node?,if_neg (by simp [filled]),lookup_put_self]

theorem node?_put_other (apart : other ≠ path) : node? (put tree path node) other = node? tree other := by
  unfold node?
  rw [lookup_put_other tree node apart]

theorem node?_drop_self (filled : path ≠ []) : node? (drop tree path) path = none := by
  rw [node?,if_neg (by simp [filled]),lookup_drop_self]

theorem node?_drop_other (apart : other ≠ path) : node? (drop tree path) other = node? tree other := by
  unfold node?
  rw [lookup_drop_other tree apart]

variable {tree}

theorem grows_put (absent : node? tree path = none) : Grows tree (put tree path node) := by
  intro other held stands
  rw [node?_put_other tree node,stands]
  rintro rfl
  cases absent.symm.trans stands

end Nodes

section Names

theorem same_name {first second a b : String} (same : [first,a] = [second,b]) : a = b :=
  (List.cons.inj (List.cons.inj same).2).1

variable {rows : Tree} {path : Path}

theorem child_row {inner : Path} {name : String} :
    (if inner ≠ [] ∧ inner.dropLast = path then inner.getLast? else none) = some name ↔ inner = path ++ [name] := by
  constructor
  · intro found
    split at found
    · rename_i inside
      obtain ⟨filled,rfl⟩ := inside
      rw [List.getLast?_eq_some_getLast filled] at found
      cases found
      exact (List.dropLast_concat_getLast filled).symm
    · cases found
  · rintro rfl
    simp

theorem mem_children {name : String} : name ∈ children rows path ↔ ∃ node, List.lookup (path ++ [name]) rows = some node := by
  rw [← Option.isSome_iff_exists,List.lookup_isSome_iff,children,List.mem_filterMap]
  constructor
  · rintro ⟨row,member,child⟩
    exact ⟨row,member,beq_iff_eq.mpr (child_row.mp child).symm⟩
  · rintro ⟨row,member,own⟩
    exact ⟨row,member,child_row.mpr (beq_iff_eq.mp own).symm⟩

theorem children_distinct (distinct : (rows.map Prod.fst).Nodup) (path : Path) : (children rows path).Nodup := by
  rw [List.nodup_iff_pairwise_ne,List.pairwise_map] at distinct
  rw [children,List.nodup_iff_pairwise_ne]
  apply distinct.filterMap
  intro row other apart name here name' there same
  exact apart ((child_row.mp here).trans (same ▸ (child_row.mp there).symm))

end Names

section Below

def below (here : Path) (rows : Tree) : Tree := rows.map fun row => (here ++ row.1,row.2)

-- Nothing stands under a path.
def Vacant (tree : Tree) (here : Path) : Prop := ∀ row ∈ tree, here <+: row.1 → row.1 = here

-- A path leads to a directory with nothing in it.
def EmptyAt (tree : Tree) (path : Path) : Prop :=
  ∃ here, resolve tree true path = .ok here ∧ node? tree here = some .directory ∧ Vacant tree here

theorem emptyAt_lone {name : String} (plain : IsName name) : EmptyAt [([name],.directory)] [name] := by
  have stands : node? [([name],.directory)] [name] = some .directory := by simp [node?]
  refine ⟨[name],?_,stands,?_⟩
  · rw [resolve,walk_enter plain stands,walk]
    rfl
  · intro row member _
    rw [List.mem_singleton.mp member]

theorem grows_append (tree added : Tree) : Grows tree (tree ++ added) := by
  intro path node stands
  unfold node? at stands ⊢
  split
  · rename_i root
    rwa [if_pos root] at stands
  · rename_i inner
    rw [if_neg inner] at stands
    rw [List.lookup_append,stands]
    rfl

variable {tree : Tree} {here : Path}

theorem lookup_below (vacant : Vacant tree here) (rows : Tree) {path : Path} (inner : path ≠ []) :
    List.lookup (here ++ path) (tree ++ below here rows) = List.lookup path rows := by
  have free : List.lookup (here ++ path) tree = none := by
    rw [List.lookup_eq_none_iff]
    intro row member
    apply bne_iff_ne.mpr
    intro same
    have own := vacant row member (same ▸ List.prefix_append here path)
    rw [own] at same
    exact inner (List.append_right_eq_self.mp same)
  rw [List.lookup_append,free,Option.none_or,below]
  induction rows with
  | nil => rfl
  | cons row rest ih =>
      have same : (here ++ path == here ++ row.1) = (path == row.1) := by
        rw [Bool.eq_iff_iff]
        simp
      rw [List.map_cons,List.lookup_cons,List.lookup_cons,same,ih]

theorem node?_below (vacant : Vacant tree here) (rows : Tree) {inner : Path} (filled : inner ≠ []) :
    node? (tree ++ below here rows) (here ++ inner) = List.lookup inner rows := by
  rw [node?,if_neg (by simp [filled]),lookup_below vacant rows filled]

theorem apart_below (vacant : Vacant tree here) {inner : Path} (filled : inner ≠ []) :
    ∀ row ∈ tree, row.1 ≠ here ++ inner := by
  intro row member same
  have own := vacant row member (same ▸ List.prefix_append here inner)
  rw [own] at same
  exact filled (List.append_right_eq_self.mp same.symm)

theorem put_below (vacant : Vacant tree here) (rows : Tree) {inner : Path} (filled : inner ≠ []) (node : Node) :
    put (tree ++ below here rows) (here ++ inner) node = tree ++ below here (put rows inner node) := by
  have known := lookup_below vacant rows filled
  cases held : List.lookup inner rows with
  | none =>
      rw [held] at known
      rw [put_new node known,put_new node held,List.append_assoc]
      simp [below]
  | some old =>
      rw [held] at known
      rw [put_held node known,put_held node held,List.map_append]
      congr 1
      · conv => rhs; rw [← List.map_id tree]
        apply List.map_congr_left
        intro row member
        exact if_neg (apart_below vacant filled row member)
      · rw [below,below,List.map_map,List.map_map]
        apply List.map_congr_left
        intro row _
        rw [Function.comp_apply,Function.comp_apply]
        by_cases own : row.1 = inner
        · rw [if_pos (congrArg (here ++ ·) own),if_pos own]
        · rw [if_neg fun same => own (List.append_cancel_left same),if_neg own]

theorem drop_below (vacant : Vacant tree here) (rows : Tree) {inner : Path} (filled : inner ≠ []) :
    drop (tree ++ below here rows) (here ++ inner) = tree ++ below here (drop rows inner) := by
  rw [drop,drop,List.filter_append]
  congr 1
  · rw [List.filter_eq_self]
    exact fun row member => decide_eq_true (apart_below vacant filled row member)
  · rw [below,below,List.filter_map]
    congr 1
    apply List.filter_congr
    intro row _
    simp

theorem children_vacant (vacant : Vacant tree here) (path : Path) : children tree (here ++ path) = [] := by
  rw [children,List.filterMap_eq_nil_iff]
  intro row member
  apply if_neg
  rintro ⟨filled,parent⟩
  obtain ⟨name,eq⟩ : ∃ name, row.1 = here ++ path ++ [name] :=
    ⟨row.1.getLast filled,by rw [← parent,List.dropLast_concat_getLast]⟩
  have own := vacant row member (by rw [eq,List.append_assoc]; exact List.prefix_append here _)
  rw [own,List.append_assoc] at eq
  have nothing := List.append_right_eq_self.mp eq.symm
  exact absurd nothing (by simp)

theorem children_rows (here : Path) {rows : Tree} (inner : ∀ row ∈ rows, row.1 ≠ []) (path : Path) :
    children (below here rows) (here ++ path) = children rows path := by
  induction rows with
  | nil => rfl
  | cons row rest ih =>
      have filled := inner row (.head _)
      have joined : here ++ row.1 ≠ [] := by simp [filled]
      have last : (here ++ row.1).getLast? = row.1.getLast? := by
        rw [List.getLast?_append,List.getLast?_eq_some_getLast filled]
        rfl
      have others := ih fun other member => inner other (.tail _ member)
      simp only [children,below,List.map_cons,List.filterMap_cons,List.dropLast_append_of_ne_nil filled,
        List.append_cancel_left_eq,filled,joined,ne_eq,not_false_eq_true,true_and,last]
      simp only [children,below,ne_eq] at others
      rw [others]

theorem children_append (first second : Tree) (path : Path) :
    children (first ++ second) path = children first path ++ children second path := by
  rw [children,List.filterMap_append]
  rfl

theorem children_below (vacant : Vacant tree here) {rows : Tree} (inner : ∀ row ∈ rows, row.1 ≠ []) (path : Path) :
    children (tree ++ below here rows) (here ++ path) = children rows path := by
  rw [children_append,children_vacant vacant,children_rows here inner,List.nil_append]

end Below

def NoLink (found : Option Node) : Prop := ∀ target, found ≠ some (.link target)

theorem NoLink.of_none : NoLink none := by
  intro target odd
  cases odd

theorem NoLink.of_directory : NoLink (some .directory) := by
  intro target odd
  cases odd

theorem NoLink.of_file (content : Content) : NoLink (some (.file content)) := by
  intro target odd
  cases odd

theorem NoLink.of_rows {tree : Tree} (unlinked : ∀ row ∈ tree, ∀ target, row.2 ≠ .link target) (path : Path) :
    NoLink (node? tree path) := by
  intro target link
  unfold node? at link
  split at link
  · cases link
  · exact unlinked _ (mem_of_lookup link) target rfl

end Redline.Files.Tree
