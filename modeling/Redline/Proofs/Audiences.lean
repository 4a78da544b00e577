import Redline.Access.Token
import Redline.Proofs.Encodings
import Redline.Proofs.Records

namespace Redline

namespace Json

open Text

theorem scannable_text (escaped : Bool) (text : List Char) : scannable escaped (text.map some) = text := by
  induction text generalizing escaped with
  | nil => rfl
  | cons c rest ih => simp only [List.map_cons,scannable,ih]

theorem ofBytes_utf8 (text : List Char) : Outline.ofBytes (utf8 text) = Outline.ofText text := by
  rw [Outline.ofBytes,scanUtf8_bytes,scannable_text]

section Members

variable {depth : Nat} {fields : List Field} {slots filled : Slots} {members : List (Option String × Outline)}

theorem readMembers_other {name other : String} {outline : Outline} (apart : other ≠ name)
    (read : Shape.readMembers depth fields slots ((some other,outline) :: members) = .ok filled) :
    ∃ slots' : Slots, slots'.lookup name = slots.lookup name ∧
      Shape.readMembers depth fields slots' members = .ok filled := by
  have beyond (value : Value) : List.lookup name ((other,value) :: slots) = slots.lookup name := by
    rw [List.lookup_cons,beq_false_of_ne (Ne.symm apart)]
  rw [Shape.readMembers] at read
  split at read
  · split at read
    · exact ⟨slots,rfl,read⟩
    · cases read
  · split at read
    · cases read
    · split at read
      · exact ⟨_,beyond .null,read⟩
      · obtain ⟨value,_,read⟩ := bind_ok.mp read
        exact ⟨_,beyond value,read⟩

variable {name : String} {absence : Absence} {shape : Shape}
  (field : fields.lookup name = some (false,absence,shape))

include field

theorem readMembers_filled {value : Value} (held : slots.lookup name = some value)
    (read : Shape.readMembers depth fields slots members = .ok filled) :
    members.filter (·.1 = some name) = [] ∧ filled.lookup name = some value := by
  induction members generalizing slots with
  | nil =>
      cases read
      exact ⟨rfl,held⟩
  | cons member rest ih =>
      obtain ⟨_ | other,outline⟩ := member
      · cases read
      by_cases own : other = name
      · subst own
        rw [Shape.readMembers,field] at read
        simp only [held,Option.isSome_some,if_true] at read
        cases read
      · obtain ⟨slots',same,read⟩ := readMembers_other own read
        rw [List.filter_cons_of_neg (by simpa using own)]
        exact ih (same.trans held) read

theorem readMembers_field (fresh : slots.lookup name = none)
    (read : Shape.readMembers depth fields slots members = .ok filled) :
    filled.lookup name = none ∨ ∃ outline value, members.filter (·.1 = some name) = [(some name,outline)] ∧
      shape.read depth outline = .ok value ∧ filled.lookup name = some value := by
  induction members generalizing slots with
  | nil =>
      cases read
      exact .inl fresh
  | cons member rest ih =>
      obtain ⟨_ | other,outline⟩ := member
      · cases read
      by_cases own : other = name
      · subst own
        rw [Shape.readMembers,field] at read
        simp only [fresh,Option.isSome_none,Bool.false_eq_true,if_false] at read
        obtain ⟨value,came,read⟩ := bind_ok.mp read
        obtain ⟨alone,kept⟩ := readMembers_filled field List.lookup_cons_self read
        refine .inr ⟨outline,value,?_,came,kept⟩
        rw [List.filter_cons_of_pos (by simp),alone]
      · obtain ⟨slots',same,read⟩ := readMembers_other own read
        rw [List.filter_cons_of_neg (by simpa using own)]
        exact ih (same.trans fresh) read

end Members

theorem text?_bracket {α : Type} {held : Except Fault (List α)} {closed : Bool} {make : List α → Value} {value : Value}
    (apart : ∀ all, (make all).text? = none) (read : (do
      let all ← held
      if closed then .ok (make all) else .error .malformed) = Except.ok value) : value.text? = none := by
  obtain ⟨all,_,read⟩ := bind_ok.mp read
  split at read
  · cases read
    exact apart all
  · cases read

theorem value_text {depth : Nat} {outline : Outline} {value : Value} (read : outline.value depth = .ok value)
    (content : String) : value.text? = some content ↔ outline = .text (some content) := by
  cases outline with
  | broken => cases read
  | null | bool => cases read; simp [Value.text?]
  | number literal =>
      rw [Outline.value] at read
      split at read
      · cases read
        simp [Value.text?]
      · cases read
  | text written =>
      cases written with
      | none => cases read
      | some written => cases read; simp [Value.text?]
  | array items closed =>
      rw [Outline.value] at read
      split at read
      · cases read
      · simp [text?_bracket (fun _ => rfl) read]
  | object members closed =>
      rw [Outline.value] at read
      split at read
      · cases read
      · simp [text?_bracket (fun _ => rfl) read]

theorem valueItems_texts {depth : Nat} {items : List Outline} {values : List Value}
    (read : Outline.valueItems depth items = .ok values) (texts : List String) :
    values.mapM Value.text? = some texts ↔ items = texts.map fun content => .text (some content) := by
  induction items generalizing values texts with
  | nil =>
      cases read
      cases texts <;> simp
  | cons item rest ih =>
      rw [Outline.valueItems] at read
      obtain ⟨value,first,read⟩ := bind_ok.mp read
      obtain ⟨others,behind,read⟩ := bind_ok.mp read
      cases read
      cases texts with
      | nil => simp [Option.bind_eq_some_iff]
      | cons content texts =>
          simp only [List.mapM_cons,Option.bind_eq_bind,Option.bind_eq_some_iff,Option.pure_def,Option.some.injEq,
            List.cons.injEq,List.map_cons,← value_text first,← ih behind]
          constructor
          · rintro ⟨_,own,_,later,rfl,rfl⟩
            exact ⟨own,later⟩
          · rintro ⟨own,later⟩
            exact ⟨content,own,texts,later,rfl,rfl⟩

theorem readFields_next {depth : Nat} {field : Field} {fields : List Field} {slots filled : Slots} {item : Outline}
    {items : List Outline} (read : Shape.readFields depth (field :: fields) slots (item :: items) = .ok filled) :
    ∃ value, Shape.readFields depth fields ((field.1,value) :: slots) items = .ok filled := by
  unfold Shape.readFields at read
  dsimp only at read
  split at read
  · exact ⟨.null,read⟩
  · obtain ⟨value,_,read⟩ := bind_ok.mp read
    exact ⟨value,read⟩

theorem readFields_required {depth : Nat} {name : String} {absence : Absence} {shape : Shape} {fields : List Field}
    {slots filled : Slots} {item : Outline} {items : List Outline}
    (read : Shape.readFields depth ((name,false,absence,shape) :: fields) slots (item :: items) = .ok filled) :
    ∃ value, shape.read depth item = .ok value ∧ Shape.readFields depth fields ((name,value) :: slots) items = .ok filled := by
  unfold Shape.readFields at read
  obtain ⟨value,own,read⟩ := bind_ok.mp read
  exact ⟨value,own,read⟩

theorem readFields_names {depth : Nat} {fields : List Field} {slots filled : Slots} {items : List Outline}
    (read : Shape.readFields depth fields slots items = .ok filled) :
    filled.map Prod.fst = ((fields.map Prod.fst).take items.length).reverse ++ slots.map Prod.fst := by
  induction items generalizing fields slots with
  | nil =>
      cases read
      rfl
  | cons item rest ih =>
      cases fields with
      | nil =>
          cases read
          rfl
      | cons field fields =>
          obtain ⟨value,read⟩ := readFields_next read
          rw [ih read]
          simp

theorem record_of_object {depth : Nat} {fields : List Field} {members : List (Option String × Outline)} {closed : Bool}
    {value : Value} (read : Shape.read depth (.record fields) (.object members closed) = .ok value) :
    ∃ slots, closed = true ∧ Shape.readMembers (depth - 1) fields [] members = .ok slots ∧
      missing fields slots false = false ∧ value = slots.arrange fields := by
  rw [Shape.read] at read
  split at read
  · cases read
  obtain ⟨slots,filled,read⟩ := bind_ok.mp read
  cases closed with
  | false => cases read
  | true =>
      split at read
      · cases read
      · split at read
        · cases read
        · rename_i complete
          cases read
          exact ⟨slots,rfl,filled,Bool.eq_false_iff.mpr complete,rfl⟩

theorem record_of_array {depth : Nat} {fields : List Field} {items : List Outline} {closed : Bool} {value : Value}
    (read : Shape.read depth (.record fields) (.array items closed) = .ok value) :
    ∃ slots, closed = true ∧ Shape.readFields (depth - 1) fields [] items = .ok slots ∧
      missing fields slots true = false ∧ items.length ≤ fields.length ∧ value = slots.arrange fields := by
  rw [Shape.read] at read
  split at read
  · cases read
  obtain ⟨slots,filled,read⟩ := bind_ok.mp read
  split at read
  · cases read
  split at read
  · cases read
  rename_i complete
  split at read
  · rename_i fits
    rw [Bool.and_eq_true,decide_eq_true_eq] at fits
    cases read
    exact ⟨slots,fits.1,filled,Bool.eq_false_iff.mpr complete,fits.2,rfl⟩
  · cases read

theorem read_of_bytes {shape : Shape} {bytes : List UInt8} {value : Value} (read : shape.readBytes bytes = .ok value) :
    shape.read greatestDepth (Outline.ofBytes bytes).1 = .ok value := by
  unfold Shape.readBytes at read
  generalize Outline.ofBytes bytes = written at read ⊢
  obtain ⟨outline,ends⟩ := written
  obtain ⟨_,own,read⟩ := bind_ok.mp read
  cases ends with
  | false => cases read
  | true =>
      cases read
      exact own

theorem lookup_of_required {fields : List Field} {slots : Slots} {ofArray : Bool} {name : String} {shape : Shape}
    (complete : missing fields slots ofArray = false) (field : Field.required name shape ∈ fields) :
    ∃ value, slots.lookup name = some value := by
  have filled := List.any_eq_false.mp complete _ field
  simpa [Field.required,Option.isSome_iff_exists,← Option.ne_none_iff_exists'] using filled

end Json

namespace Access

open Json Text

section Readings

variable {content : List UInt8} {claims : Claims} {registered : Registered}

theorem read_text {depth : Nat} {outline : Outline} {value : Value} (read : Shape.read depth .text outline = .ok value) :
    ∃ content, outline = .text (some content) ∧ value = .text content := by
  cases outline with
  | text content =>
      cases content with
      | none => cases read
      | some content =>
          cases read
          exact ⟨content,rfl,rfl⟩
  | _ => cases read

theorem read_bracket {depth : Nat} {fields : List Field} {outline : Outline} {value : Value}
    (read : Shape.read depth (.record fields) outline = .ok value) :
    (∃ items, outline = .array items true) ∨ ∃ members, outline = .object members true := by
  cases outline with
  | array items closed =>
      obtain ⟨_,rfl,_⟩ := record_of_array read
      exact .inl ⟨items,rfl⟩
  | object members closed =>
      obtain ⟨_,rfl,_⟩ := record_of_object read
      exact .inr ⟨members,rfl⟩
  | _ => cases read

theorem ofValue?_audience {value : Value} (read : Claims.ofValue? value = some claims) :
    (value.member? "aud").bind Value.text? = some claims.audience := by
  simp only [Claims.ofValue?,Option.bind_eq_bind,Option.bind_eq_some_iff,Option.pure_def,Option.some.injEq] at read
  obtain ⟨held,member,audience,text,others⟩ := read
  have kept : claims.audience = audience := by
    grind
  rw [member,Option.bind_some,text,kept]

theorem arrange_audience {slots : Slots} {audience : String} (held : slots.lookup "aud" = some (.text audience)) :
    (slots.arrange Claims.fields).member? "aud" = some (.text audience) := by
  simp [Slots.arrange,Claims.fields,Field.required,held,Value.member?,Value.members]

theorem five_items {depth : Nat} {slots : Slots} {items : List Outline}
    (filled : Shape.readFields depth Claims.fields [] items = .ok slots) (complete : missing Claims.fields slots true = false)
    (size : items.length ≤ Claims.fields.length) : items.length = 5 := by
  obtain ⟨_,last⟩ := lookup_of_required complete
    (show Field.required "user" Claims.userShape ∈ Claims.fields by simp [Claims.fields])
  have named : "user" ∈ slots.map Prod.fst := by
    obtain ⟨before,after,rfl,_⟩ := List.lookup_eq_some_iff.mp last
    simp
  rw [readFields_names filled,List.map_nil,List.append_nil,List.mem_reverse] at named
  refine Nat.le_antisymm size (Nat.le_of_not_lt fun few => ?_)
  have four := (List.take_prefix_take_left (l := Claims.fields.map Prod.fst) (Nat.le_of_lt_succ few)).subset named
  revert four
  decide

-- How claims are written that can be read: as an object that names the audience once, or as an array with
-- the audience in front and the user, who has brackets of his own, at the end.
theorem ofBytes?_written (read : Claims.ofBytes? content = some claims) :
    (∃ members closed, (Outline.ofBytes content).1 = .object members closed ∧
      members.filter (·.1 = some "aud") = [(some "aud",.text (some claims.audience))]) ∨
    ∃ issued subject access user, (Outline.ofBytes content).1 =
        .array [.text (some claims.audience),issued,subject,access,user] true ∧
      ((∃ items, user = .array items true) ∨ ∃ members, user = .object members true) := by
  obtain ⟨value,came,read⟩ := Option.bind_eq_some_iff.mp read
  have whole := read_of_bytes (toOption_some.mp came)
  have named := ofValue?_audience read
  generalize (Outline.ofBytes content).1 = outline at whole ⊢
  cases outline with
  | object members closed =>
      refine .inl ⟨members,closed,rfl,?_⟩
      obtain ⟨slots,_,filled,complete,rfl⟩ := record_of_object whole
      obtain ⟨held,kept⟩ := lookup_of_required complete List.mem_cons_self
      have field : Claims.fields.lookup "aud" = some (false,.refused,.text) := rfl
      rcases readMembers_field field rfl filled with odd | ⟨outline,_,alone,own,kept⟩
      · cases kept.symm.trans odd
      · obtain ⟨audience,rfl,rfl⟩ := read_text own
        rw [arrange_audience kept] at named
        cases named
        exact alone
  | array items closed =>
      refine .inr ?_
      obtain ⟨slots,rfl,filled,complete,size,rfl⟩ := record_of_array whole
      have five : items.length = 5 := five_items filled complete size
      match items,five with
      | [first,issued,subject,access,user],_ =>
        obtain ⟨audience,own,filled⟩ := readFields_required filled
        obtain ⟨_,_,filled⟩ := readFields_required filled
        obtain ⟨_,_,filled⟩ := readFields_required filled
        obtain ⟨_,_,filled⟩ := readFields_required filled
        obtain ⟨_,last,filled⟩ := readFields_required filled
        cases filled
        obtain ⟨audience,rfl,rfl⟩ := read_text own
        rw [arrange_audience rfl] at named
        cases named
        exact ⟨issued,subject,access,user,rfl,read_bracket last⟩
  | _ => cases whole

theorem texts_items {items : List Outline} {found : Found (List String)}
    (read : Registered.texts (.array items true) = .ok found) (given : List String) :
    found = .read given ↔ items = given.map fun name => .text (some name) := by
  obtain ⟨value,held,read⟩ := bind_ok.mp read
  rw [Outline.value,if_neg (by decide)] at held
  obtain ⟨values,each,held⟩ := bind_ok.mp held
  cases held
  rw [← valueItems_texts each,← Except.ok.inj read]
  cases values.mapM Value.text? <;> simp

theorem texts_members {members : List (Option String × Outline)} {found : Found (List String)}
    (read : Registered.texts (.object members true) = .ok found) : found = .unread := by
  obtain ⟨value,held,read⟩ := bind_ok.mp read
  rw [Outline.value,if_neg (by decide)] at held
  obtain ⟨rows,_,held⟩ := bind_ok.mp held
  cases held
  exact (Except.ok.inj read).symm

-- The reading for the checks takes the audience by its name from an object and from the place of the user
-- in an array, where it is a list if every item is a text.
theorem audiences_read (read : Claims.ofBytes? content = some claims)
    (registered_ : Registered.ofBytes? content = some registered) :
    (∀ members closed, (Outline.ofBytes content).1 = .object members closed →
      registered.audiences = .read [claims.audience]) ∧
    ∀ items closed, (Outline.ofBytes content).1 = .array items closed →
      ∀ given, registered.audiences = .read given ↔
        items[4]? = some (.array (given.map fun name => .text (some name)) true) := by
  have found : Registered.claim Registered.texts "aud" 4 (Outline.ofBytes content).1 = .ok registered.audiences := by
    have whole := toOption_some.mp registered_
    obtain ⟨_,_,whole⟩ := bind_ok.mp whole
    obtain ⟨_,_,whole⟩ := bind_ok.mp whole
    obtain ⟨_,_,whole⟩ := bind_ok.mp whole
    obtain ⟨_,_,whole⟩ := bind_ok.mp whole
    obtain ⟨_,last,whole⟩ := bind_ok.mp whole
    cases whole
    exact last
  rcases ofBytes?_written read with ⟨members,closed,written,alone⟩ | ⟨issued,subject,access,user,written,bracket⟩
  · rw [written] at found ⊢
    refine ⟨fun _ _ _ => ?_,nofun⟩
    simp only [Registered.claim,alone] at found
    exact (Except.ok.inj found).symm
  · rw [written] at found ⊢
    refine ⟨nofun,?_⟩
    rintro _ _ ⟨⟩ given
    change Registered.texts user = .ok registered.audiences at found
    change _ ↔ some user = _
    rw [Option.some.injEq]
    rcases bracket with ⟨items,rfl⟩ | ⟨members,rfl⟩
    · rw [texts_items found,Outline.array.injEq,and_iff_left rfl]
    · rw [texts_members found]
      simp

end Readings

end Access

end Redline
