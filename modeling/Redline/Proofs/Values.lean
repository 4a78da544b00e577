import Redline.Proofs.Writing

namespace Redline.Json

mutual

-- How many brackets stand in one another.
def Value.nesting : Value → Nat
  | .array items => Value.nestingItems items + 1
  | .object members => Value.nestingRows members + 1
  | _ => 0

def Value.nestingItems : List Value → Nat
  | [] => 0
  | item :: rest => max item.nesting (Value.nestingItems rest)

def Value.nestingRows : List (String × Value) → Nat
  | [] => 0
  | (_,value) :: rest => max value.nesting (Value.nestingRows rest)

end

section Values

def ReadsAt (depth : Nat) (member read : String × Value) : Prop :=
  read.1 = member.1 ∧ member.2.outline.value depth = .ok read.2

theorem names_read {depth : Nat} {members read : List (String × Value)} (each : List.Forall₂ (ReadsAt depth) members read) :
    read.map Prod.fst = members.map Prod.fst := by
  induction each with
  | nil => rfl
  | cons first _ ih => rw [List.map_cons,List.map_cons,first.1,ih]

theorem outlineRows_reads (members : List (String × Value)) (depth : Nat) (known rows : List (String × Value))
    (names : ((known ++ members).map Prod.fst).Pairwise (· < ·)) :
    Outline.valueMembers depth known (Value.outlineRows members) = .ok rows ↔
      ∃ read, rows = known ++ read ∧ List.Forall₂ (ReadsAt depth) members read := by
  induction members generalizing known with
  | nil =>
      constructor
      · intro same
        exact ⟨[],(Except.ok.inj same).symm.trans (List.append_nil known).symm,.nil⟩
      · rintro ⟨read,rfl,each⟩
        cases each
        rw [List.append_nil]
        rfl
  | cons row rest ih =>
      obtain ⟨name,value⟩ := row
      have last : ∀ row ∈ known, KeyOrder.before row.1 name = true := by
        intro row member
        rw [List.map_append,List.pairwise_append] at names
        exact decide_eq_true (names.2.2 row.1 (List.mem_map_of_mem member) name (.head _))
      have behind (content : Value) : ((known ++ [(name,content)] ++ rest).map Prod.fst).Pairwise (· < ·) := by
        simpa using names
      have step : Outline.valueMembers depth known (Value.outlineRows ((name,value) :: rest)) =
          value.outline.value depth >>= fun content =>
            Outline.valueMembers depth (known ++ [(name,content)]) (Value.outlineRows rest) := by
        rw [Value.outlineRows,Outline.valueMembers]
        congr 1
        funext content
        rw [Table.insert_last last]
      rw [step]
      cases first : value.outline.value depth with
      | error fault =>
          constructor
          · intro odd
            cases odd
          · rintro ⟨read,_,each⟩
            cases each with
            | cons here _ => cases first.symm.trans here.2
      | ok content =>
          refine (ih _ (behind content)).trans ?_
          constructor
          · rintro ⟨read,rfl,each⟩
            exact ⟨(name,content) :: read,by rw [List.append_assoc]; rfl,.cons ⟨rfl,first⟩ each⟩
          · rintro ⟨read,rfl,each⟩
            cases each with
            | @cons _ found _ others here each =>
                obtain ⟨own,read⟩ := found
                obtain ⟨named,same⟩ := here
                cases first.symm.trans same
                cases named
                exact ⟨others,by rw [List.append_assoc]; rfl,each⟩

mutual

theorem outline_value : ∀ (value : Value) (depth : Nat), value.Sorted → value.whole64 = true →
    value.nesting ≤ depth → value.outline.value depth = .ok value
  | .null,_,_,_,_ => rfl
  | .bool _,_,_,_,_ => rfl
  | .number (.binary _),_,_,whole,_ => by cases whole
  | .number (.whole n),depth,_,whole,_ => by
      simp only [Value.outline,Number.literal,Outline.value,ofInt_number? whole]
  | .text _,_,_,_,_ => rfl
  | .array items,depth,sorted,whole,nested => by
      cases sorted with
      | array _ each =>
          simp only [Value.nesting] at nested
          have deep : depth ≠ 0 := by omega
          have read := outlines_value items (depth - 1) each whole (by omega)
          simp only [Value.outline,Outline.value,if_neg deep,read]
          rfl
  | .object members,depth,sorted,whole,nested => by
      cases sorted with
      | object _ names each =>
          simp only [Value.nesting] at nested
          have deep : depth ≠ 0 := by omega
          have each := rows_value members (depth - 1) each whole (by omega)
          have read := (outlineRows_reads members (depth - 1) [] members names).mpr ⟨members,rfl,each⟩
          simp only [Value.outline,Outline.value,if_neg deep,read]
          rfl

theorem outlines_value : ∀ (items : List Value) (depth : Nat), (∀ item ∈ items, item.Sorted) →
    Value.whole64Items items = true → Value.nestingItems items ≤ depth →
    Outline.valueItems depth (Value.outlines items) = .ok items
  | [],_,_,_,_ => rfl
  | item :: rest,depth,each,whole,nested => by
      simp only [Value.whole64Items,Bool.and_eq_true] at whole
      simp only [Value.nestingItems] at nested
      have first := outline_value item depth (each item (.head _)) whole.1 (by omega)
      have others := outlines_value rest depth (fun other member => each other (.tail _ member)) whole.2 (by omega)
      simp only [Value.outlines,Outline.valueItems,first,others]
      rfl

theorem rows_value : ∀ (members : List (String × Value)) (depth : Nat), (∀ row ∈ members, row.2.Sorted) →
    Value.whole64Rows members = true → Value.nestingRows members ≤ depth →
    List.Forall₂ (ReadsAt depth) members members
  | [],_,_,_,_ => .nil
  | (name,value) :: rest,depth,each,whole,nested => by
      simp only [Value.whole64Rows,Bool.and_eq_true] at whole
      simp only [Value.nestingRows] at nested
      have first := outline_value value depth (each _ (.head _)) whole.1 (by omega)
      have others := rows_value rest depth (fun row member => each row (.tail _ member)) whole.2 (by omega)
      exact .cons ⟨rfl,first⟩ others

end

theorem value_object {members : List (String × Value)} {depth : Nat} {read : Value}
    (held : (Value.object members).outline.value depth = .ok read) : ∃ rows, read = .object rows ∧ depth ≠ 0 ∧
      Outline.valueMembers (depth - 1) [] (Value.outlineRows members) = .ok rows := by
  rw [Value.outline,Outline.value] at held
  split at held
  · cases held
  · rename_i deep
    cases rows : Outline.valueMembers (depth - 1) [] (Value.outlineRows members) with
    | error fault =>
        rw [rows] at held
        cases held
    | ok found =>
        rw [rows] at held
        cases held
        exact ⟨found,rfl,deep,rfl⟩

mutual

-- Values without binary numbers are equal when their content is.
theorem same_whole : ∀ (a b : Value), a.same b = true → b.whole64 = true → a = b
  | .null,b,same,_ => by
      cases b with
      | null => rfl
      | _ => cases same
  | .bool flag,b,same,_ => by
      cases b with
      | bool other => rw [eq_of_beq same]
      | _ => cases same
  | .number n,b,same,whole => by
      cases b with
      | number m =>
          cases m with
          | binary _ => cases whole
          | whole m =>
              cases n with
              | binary _ => cases same
              | whole n => rw [eq_of_beq same]
      | _ => cases same
  | .text content,b,same,_ => by
      cases b with
      | text other => rw [eq_of_beq same]
      | _ => cases same
  | .array items,b,same,whole => by
      cases b with
      | array others => rw [sameItems_whole items others same whole]
      | _ => cases same
  | .object members,b,same,whole => by
      cases b with
      | object others => rw [sameMembers_whole members others same whole]
      | _ => cases same

theorem sameItems_whole : ∀ (a b : List Value), Value.sameItems a b = true → Value.whole64Items b = true → a = b
  | [],b,same,_ => by
      cases b with
      | nil => rfl
      | cons => cases same
  | item :: rest,b,same,whole => by
      cases b with
      | nil => cases same
      | cons other others =>
          simp only [Value.sameItems,Value.whole64Items,Bool.and_eq_true] at same whole
          rw [same_whole item other same.1 whole.1,sameItems_whole rest others same.2 whole.2]

theorem sameMembers_whole : ∀ (a b : List (String × Value)), Value.sameMembers a b = true →
    Value.whole64Rows b = true → a = b
  | [],b,same,_ => by
      cases b with
      | nil => rfl
      | cons => cases same
  | (name,value) :: rest,b,same,whole => by
      cases b with
      | nil => cases same
      | cons row others =>
          obtain ⟨other,content⟩ := row
          simp only [Value.sameMembers,Value.whole64Rows,Bool.and_eq_true] at same whole
          rw [eq_of_beq same.1.1,same_whole value content same.1.2 whole.1,
            sameMembers_whole rest others same.2 whole.2]

end

mutual

theorem same_self : ∀ value : Value, value.same value = true
  | .null => rfl
  | .bool _ => beq_self_eq_true _
  | .number (.whole _) => beq_self_eq_true _
  | .number (.binary value) => by
      change (value == value || _) = true
      rw [beq_self_eq_true,Bool.true_or]
  | .text _ => beq_self_eq_true _
  | .array items => sameItems_self items
  | .object members => sameMembers_self members

theorem sameItems_self : ∀ items : List Value, Value.sameItems items items = true
  | [] => rfl
  | item :: rest => by rw [Value.sameItems,same_self item,sameItems_self rest,Bool.and_self]

theorem sameMembers_self : ∀ members : List (String × Value), Value.sameMembers members members = true
  | [] => rfl
  | (name,value) :: rest => by
      rw [Value.sameMembers,beq_self_eq_true,same_self value,sameMembers_self rest,Bool.and_self,Bool.and_self]

end

end Values

end Redline.Json
