import Redline.Usage.WorkItem
import Redline.Proofs.Values

namespace Redline

theorem bind_ok {ε α β : Type} {x : Except ε α} {f : α → Except ε β} {b : β} :
    (x >>= f) = .ok b ↔ ∃ a, x = .ok a ∧ f a = .ok b := by
  cases x <;> simp [bind,Except.bind]

theorem toOption_some {ε α : Type} {x : Except ε α} {a : α} : x.toOption = some a ↔ x = .ok a := by
  cases x <;> simp [Except.toOption]

namespace Uuid

theorem digitOf?_digitText : ∀ d : Fin 16, digitOf? (digitText d) = some d := by decide

theorem mapM_digits (digits : List (Fin 16)) : (digits.map digitText).mapM digitOf? = some digits := by
  induction digits with
  | nil => rfl
  | cons d rest ih => simp [digitOf?_digitText,ih]

theorem ofDigits?_digits (u : Uuid) : ofDigits? (u.digits.map digitText) = some u := by
  simp only [ofDigits?,mapM_digits,Option.bind_eq_bind,Option.bind_some,dif_pos u.length_eq]

theorem ofHyphenated?_joined {a b c d e : List Char}
    (sizes : a.length = 8 ∧ b.length = 4 ∧ c.length = 4 ∧ d.length = 4) :
    ofHyphenated? (a ++ '-' :: b ++ '-' :: c ++ '-' :: d ++ '-' :: e) = ofDigits? (a ++ b ++ c ++ d ++ e) := by
  obtain ⟨first,second,third,fourth⟩ := sizes
  have beyond {text : List Char} {n : Nat} (most : text.length ≤ n) : text.drop n = [] := List.drop_eq_nil_of_le most
  simp (disch := omega) [ofHyphenated?,List.drop_append,first,second,third,fourth,beyond]

theorem chars_length (u : Uuid) : u.chars.length = 36 := by
  simp [chars,u.length_eq]

theorem fives_joined (hex : List Char) : hex.take 8 ++ (hex.drop 8).take 4 ++ (hex.drop 12).take 4 ++
    (hex.drop 16).take 4 ++ hex.drop 20 = hex := by
  have next (n : Nat) : (hex.drop n).take 4 ++ hex.drop (n + 4) = hex.drop n := by
    rw [← List.drop_drop,List.take_append_drop]
  rw [List.append_assoc,next 16,List.append_assoc,next 12,List.append_assoc,next 8,List.take_append_drop]

theorem ofChars?_chars (u : Uuid) : ofChars? u.chars = some u := by
  rw [ofChars?,if_neg (by rw [chars_length]; decide),if_pos u.chars_length,chars]
  rw [ofHyphenated?_joined (by simp [u.length_eq]),fives_joined,ofDigits?_digits]

theorem ofText?_text (u : Uuid) : ofText? u.text = some u := by
  rw [ofText?,text,String.toList_ofList,ofChars?_chars]

end Uuid

namespace Json

theorem readMembers_known {depth : Nat} {fields : List Field} {slots : Slots} {name : String} {absence : Absence}
    {shape : Shape} {outline : Outline} {value : Value} (field : fields.lookup name = some (false,absence,shape))
    (fresh : slots.lookup name = none) (read : shape.read depth outline = .ok value)
    (rest : List (Option String × Outline)) : Shape.readMembers depth fields slots ((some name,outline) :: rest) =
      Shape.readMembers depth fields ((name,value) :: slots) rest := by
  have apart : ¬(slots.lookup name).isSome = true := by rw [fresh]; exact Bool.false_ne_true
  rw [Shape.readMembers,field]
  change (if (slots.lookup name).isSome = true then _ else _) = _
  rw [if_neg apart]
  change (Shape.read depth shape outline >>= fun value => Shape.readMembers depth fields ((name,value) :: slots) rest) = _
  rw [read]
  rfl

theorem readMembers_fault {depth : Nat} {fields : List Field} {slots : Slots} {name : String} {absence : Absence}
    {shape : Shape} {outline : Outline} {fault : Fault} (field : fields.lookup name = some (false,absence,shape))
    (fresh : slots.lookup name = none) (read : shape.read depth outline = .error fault)
    (rest : List (Option String × Outline)) :
    Shape.readMembers depth fields slots ((some name,outline) :: rest) = .error fault := by
  have apart : ¬(slots.lookup name).isSome = true := by rw [fresh]; exact Bool.false_ne_true
  rw [Shape.readMembers,field]
  change (if (slots.lookup name).isSome = true then _ else _) = _
  rw [if_neg apart]
  change (Shape.read depth shape outline >>= fun value => Shape.readMembers depth fields ((name,value) :: slots) rest) = _
  rw [read]
  rfl

theorem read_record_fault {depth : Nat} {fields : List Field} {fault : Fault} {members : List (Option String × Outline)}
    (broken : Shape.readMembers depth fields [] members = .error fault) :
    Shape.read (depth + 1) (.record fields) (.object members true) = .error fault := by
  rw [Shape.read,if_neg (Nat.succ_ne_zero depth),Nat.add_sub_cancel,broken]
  rfl

theorem read_record {depth : Nat} {fields : List Field} {slots : Slots} {members : List (Option String × Outline)}
    (filled : Shape.readMembers depth fields [] members = .ok slots) (complete : missing fields slots false = false) :
    Shape.read (depth + 1) (.record fields) (.object members true) = .ok (slots.arrange fields) := by
  rw [Shape.read,if_neg (Nat.succ_ne_zero depth),Nat.add_sub_cancel,filled]
  change (if missing fields slots false = true then _ else _) = _
  rw [complete,if_neg Bool.false_ne_true]

end Json

namespace Usage.WorkItem

open Json

def fields : List Field :=
  [Field.required "entity_type" .text,Field.required "uuid" Entity.uuidShape,Field.required "op" (.word ["update","delete"])]

theorem read_toValue (item : WorkItem) : shape.read greatestDepth item.toValue.outline = .ok item.toValue := by
  obtain ⟨⟨entityType,uuid⟩,operation⟩ := item
  have held : Entity.uuidShape.read 126 (.text (some uuid.text)) = .ok (.text uuid.text) := by
    simp only [Entity.uuidShape,Shape.read,uuid.ofText?_text]
    rfl
  have listed : Shape.read 126 (.word ["update","delete"]) (.text (some operation.word)) = .ok (.text operation.word) := by
    cases operation <;> rfl
  have filled : Shape.readMembers 126 fields [] (Value.outlineRows (toValue ⟨⟨entityType,uuid⟩,operation⟩).members) =
      .ok [("op",.text operation.word),("uuid",.text uuid.text),("entity_type",.text entityType)] := by
    simp only [toValue,Value.members,Value.outlineRows,Value.outline]
    rw [readMembers_known rfl rfl (show Shape.read 126 .text _ = .ok (.text entityType) from rfl),
      readMembers_known rfl rfl held,readMembers_known rfl rfl listed]
    rfl
  exact read_record filled rfl

theorem ofValue?_toValue (item : WorkItem) : ofValue? item.toValue = some item := by
  obtain ⟨⟨entityType,uuid⟩,operation⟩ := item
  have known : Operation.ofWord? operation.word = some operation := by cases operation <;> rfl
  have first : (toValue ⟨⟨entityType,uuid⟩,operation⟩).member? "entity_type" = some (.text entityType) := rfl
  have second : (toValue ⟨⟨entityType,uuid⟩,operation⟩).member? "uuid" = some (.text uuid.text) := rfl
  have third : (toValue ⟨⟨entityType,uuid⟩,operation⟩).member? "op" = some (.text operation.word) := rfl
  simp only [ofValue?,first,second,third,Option.bind_eq_bind,Option.bind_some,Value.text?,uuid.ofText?_text,known]
  rfl

theorem ofPayload?_payload (item : WorkItem) : ofPayload? item.payload = some item := by
  have outlined : Outline.ofText item.payload.toList = (item.toValue.outline,true) := ofText_line item.toValue
  have accepted : shape.readText item.payload.toList = .ok item.toValue := by
    rw [Shape.readText,outlined]
    change (shape.read greatestDepth item.toValue.outline >>= fun value => _) = _
    rw [item.read_toValue]
    rfl
  simp only [ofPayload?,accepted,ofValue?_toValue]

end Usage.WorkItem

end Redline
