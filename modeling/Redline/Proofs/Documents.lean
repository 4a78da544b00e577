import Redline.Exchange.Document
import Redline.Proofs.Records

namespace Redline

open Json

-- An entity as a program can hold it: its time stamp has sixty-four bits, its fields stand in order,
-- and there are only whole numbers in them.
structure Entity.Sound (e : Entity) : Prop where
  stamp : stampLow ≤ e.changed ∧ e.changed ≤ stampHigh
  sorted : (Value.object e.fields).Sorted
  whole : (Value.object e.fields).whole64 = true

namespace Entity

theorem Sound.changed_whole64 {e : Entity} (sound : e.Sound) : isWhole64 e.changed = true := by
  obtain ⟨low,high⟩ := sound.stamp
  have bottom : stampLow = -9223372036854775808 := rfl
  have top : stampHigh = 9223372036854775807 := rfl
  have least : Int.pow 2 63 = 9223372036854775808 := rfl
  have most : Int.pow 2 64 = 18446744073709551616 := rfl
  simp only [isWhole64,Bool.and_eq_true,decide_eq_true_eq]
  omega

theorem read_whole {low high n : Int} (depth : Nat) (small : isWhole64 n = true) (between : low ≤ n ∧ n ≤ high) :
    Shape.read depth (.whole low high) (Value.whole n).outline = .ok (.whole n) := by
  rw [Value.whole,Value.outline,Number.literal,Shape.read,ofInt_number? small]
  simp only [between,and_self,if_true]
  rfl

theorem read_whole_only {low high n : Int} {depth : Nat} {value : Value}
    (read : Shape.read depth (.whole low high) (Value.whole n).outline = .ok value) : value = .whole n := by
  rw [Value.whole,Value.outline,Shape.read] at read
  split at read
  · rename_i m found
    split at read
    · cases read
      cases Number.literal_whole found
      rfl
    · cases read
  · cases read
  · cases read

def sortedMembers (e : Entity) : List (String × Value) :=
  [("bundle",.text e.bundle),("changed",.whole e.changed),("entity_type",.text e.entityType),
    ("fields",.object e.fields),("label",.text e.label),("langcode",.text e.langcode),("uuid",.text e.uuid.text)]

theorem sortedMembers_sorted {e : Entity} (sound : e.Sound) : (Value.object e.sortedMembers).Sorted := by
  apply Value.Sorted.object
  · change (["bundle","changed","entity_type","fields","label","langcode","uuid"] : List String).Pairwise (· < ·)
    decide
  · intro row member
    simp only [sortedMembers,List.mem_cons,List.not_mem_nil,or_false] at member
    rcases member with rfl | rfl | rfl | rfl | rfl | rfl | rfl
    case inr.inr.inr.inl => exact sound.sorted
    all_goals constructor

theorem sortedMembers_whole {e : Entity} (sound : e.Sound) : (Value.object e.sortedMembers).whole64 = true := by
  have stamp := sound.changed_whole64
  have fields := sound.whole
  simp only [Value.whole64] at fields
  simp [sortedMembers,Value.whole64,Value.whole64Rows,Value.whole,stamp,fields]

theorem ofValue?_toValue (e : Entity) : ofValue? e.toValue = some e := by
  have first : e.toValue.member? "uuid" = some (.text e.uuid.text) := rfl
  have second : e.toValue.member? "entity_type" = some (.text e.entityType) := rfl
  have third : e.toValue.member? "bundle" = some (.text e.bundle) := rfl
  have fourth : e.toValue.member? "label" = some (.text e.label) := rfl
  have fifth : e.toValue.member? "langcode" = some (.text e.langcode) := rfl
  have sixth : e.toValue.member? "changed" = some (.whole e.changed) := rfl
  have last : e.toValue.member? "fields" = some (.object e.fields) := rfl
  simp only [ofValue?,first,second,third,fourth,fifth,sixth,last,Option.bind_eq_bind,Option.bind_some,Option.map_some,
    Option.getD_some,Value.text?,Value.whole,Value.whole?,Value.members,e.uuid.ofText?_text]
  rfl

theorem read_members (e : Entity) : Entity.read (Value.object e.sortedMembers).outline = do
    let stamp ← Shape.read 126 (.whole stampLow stampHigh) (Value.whole e.changed).outline
    let held ← (Value.object e.fields).outline.value 126
    return { e with changed := stamp.whole?.getD 0, fields := held.members } := by
  have uuid : uuidShape.read 126 (.text (some e.uuid.text)) = .ok (.text e.uuid.text) := by
    simp only [uuidShape,Shape.read,e.uuid.ofText?_text]
    rfl
  have text (content : String) : Shape.read 126 .text (.text (some content)) = .ok (.text content) := rfl
  have outlines : Value.outlineRows e.sortedMembers =
      [(some "bundle",.text (some e.bundle)),(some "changed",(Value.whole e.changed).outline),
        (some "entity_type",.text (some e.entityType)),(some "fields",(Value.object e.fields).outline),
        (some "label",.text (some e.label)),(some "langcode",.text (some e.langcode)),
        (some "uuid",.text (some e.uuid.text))] := rfl
  cases stamp : Shape.read 126 (.whole stampLow stampHigh) (Value.whole e.changed).outline with
  | error fault =>
      have broken : Shape.readMembers 126 recordFields [] (Value.outlineRows e.sortedMembers) = .error fault := by
        rw [outlines,readMembers_known rfl rfl (text e.bundle)]
        exact readMembers_fault rfl rfl stamp _
      have shaped : shape.read greatestDepth (Value.object e.sortedMembers).outline = .error fault :=
        read_record_fault broken
      rw [Entity.read,shaped]
      rfl
  | ok moment =>
      cases read_whole_only stamp
      cases fields : (Value.object e.fields).outline.value 126 with
      | error fault =>
          have table : Shape.read 126 .table (Value.object e.fields).outline = .error fault := fields
          have broken : Shape.readMembers 126 recordFields [] (Value.outlineRows e.sortedMembers) = .error fault := by
            rw [outlines,readMembers_known rfl rfl (text e.bundle),readMembers_known rfl rfl stamp,
              readMembers_known rfl rfl (text e.entityType)]
            exact readMembers_fault rfl rfl table _
          have shaped : shape.read greatestDepth (Value.object e.sortedMembers).outline = .error fault :=
            read_record_fault broken
          rw [Entity.read,shaped]
          rfl
      | ok content =>
          obtain ⟨held,rfl,_⟩ := value_object fields
          have table : Shape.read 126 .table (Value.object e.fields).outline = .ok (.object held) := fields
          have filled : Shape.readMembers 126 recordFields [] (Value.outlineRows e.sortedMembers) =
              .ok [("uuid",.text e.uuid.text),("langcode",.text e.langcode),("label",.text e.label),
                ("fields",.object held),("entity_type",.text e.entityType),("changed",.whole e.changed),
                ("bundle",.text e.bundle)] := by
            rw [outlines,readMembers_known rfl rfl (text e.bundle),readMembers_known rfl rfl stamp,
              readMembers_known rfl rfl (text e.entityType),readMembers_known rfl rfl table,
              readMembers_known rfl rfl (text e.label),readMembers_known rfl rfl (text e.langcode),
              readMembers_known rfl rfl uuid]
            rfl
          have shaped : shape.read greatestDepth (Value.object e.sortedMembers).outline =
              .ok { e with fields := held }.toValue := read_record filled rfl
          simp only [Entity.read,shaped,bind,Except.bind,ofValue?_toValue]
          rfl

theorem read_ref {e held : Entity} (read : Entity.read (Value.object e.sortedMembers).outline = .ok held) :
    held.ref = e.ref := by
  rw [read_members] at read
  cases stamp : Shape.read 126 (.whole stampLow stampHigh) (Value.whole e.changed).outline with
  | error fault =>
      rw [stamp] at read
      cases read
  | ok moment =>
      rw [stamp] at read
      cases fields : (Value.object e.fields).outline.value 126 with
      | error fault =>
          rw [fields] at read
          cases read
      | ok content =>
          rw [fields] at read
          cases read
          rfl

theorem read_fields {e : Entity} {held : List (String × Value)} (small : isWhole64 e.changed = true)
    (between : stampLow ≤ e.changed ∧ e.changed ≤ stampHigh)
    (fields : (Value.object e.fields).outline.value 126 = .ok (.object held)) :
    Entity.read (Value.object e.sortedMembers).outline = .ok { e with fields := held } := by
  rw [read_members,read_whole 126 small between,fields]
  rfl

theorem read_sortedMembers {e : Entity} (sound : e.Sound)
    (nested : (Value.object e.sortedMembers).nesting ≤ greatestDepth) :
    Entity.read (Value.object e.sortedMembers).outline = .ok e := by
  have depth : (Value.object e.fields).nesting ≤ 126 := by
    simp only [sortedMembers,Value.nesting,Value.nestingRows,Value.whole,greatestDepth] at nested ⊢
    omega
  exact read_fields sound.changed_whole64 sound.stamp (outline_value (.object e.fields) 126 sound.sorted sound.whole depth)

end Entity

namespace Exchange.Document

def block (stamp : String) : List (String × Value) := [(stampName,.text stamp),("version",.count formatVersion)]

theorem toValue_ofEntity (stamp : String) (e : Entity) :
    (ofEntity stamp e).toValue = .object ((blockName,.object (block stamp)) :: e.sortedMembers) := rfl

theorem read_block (stamp : String) : blockShape.read (greatestDepth - 1) (Value.object (block stamp)).outline =
    .ok (.object [("version",.count formatVersion),(stampName,.text stamp)]) := by
  have version : Shape.read 125 (.whole 0 (Int.pow 2 32 - 1)) (Value.whole 1).outline = .ok (.whole 1) :=
    Entity.read_whole 125 rfl (by decide)
  have filled : Shape.readMembers 125
      [Field.required "version" (.whole 0 (Int.pow 2 32 - 1)),Field.required stampName .text] []
      (Value.outlineRows (block stamp)) = .ok [("version",.whole 1),(stampName,.text stamp)] := by
    rw [block,Value.outlineRows,readMembers_known rfl rfl (show Shape.read 125 .text _ = .ok (.text stamp) from rfl)]
    exact readMembers_known rfl rfl version []
  exact read_record filled rfl

theorem partition_block (block : Outline) (e : Entity) :
    ((some blockName,block) :: Value.outlineRows e.sortedMembers).partition (fun row => row.1 = some blockName) =
      ([(some blockName,block)],Value.outlineRows e.sortedMembers) := by
  simp [Entity.sortedMembers,Value.outlineRows,blockName,List.partition_eq_filter_filter]

-- A document is read when all its values are and the entity is.
theorem ofText?_written (stamp : String) (e : Entity) : ofText? (ofEntity stamp e).page = do
    let _ ← ((Value.object e.sortedMembers).outline.value greatestDepth).toOption
    let entity ← (Entity.read (Value.object e.sortedMembers).outline).toOption
    return ⟨formatVersion,stamp,entity⟩ := by
  rw [ofText?,page,ofText_page,toValue_ofEntity]
  have read := read_block stamp
  rw [Value.outline] at read
  simp only [Value.outline,Value.outlineRows,partition_block,read,Except.toOption,Option.bind_eq_bind,Option.bind_some]
  rfl

theorem ofText?_page (stamp : String) {e : Entity} (sound : e.Sound)
    (nested : (ofEntity stamp e).toValue.nesting ≤ greatestDepth) :
    ofText? (ofEntity stamp e).page = some (ofEntity stamp e) := by
  have inner : (Value.object e.sortedMembers).nesting ≤ greatestDepth := by
    rw [toValue_ofEntity] at nested
    simp only [Value.nesting,Value.nestingRows] at nested ⊢
    omega
  have others := outline_value _ greatestDepth (Entity.sortedMembers_sorted sound) (Entity.sortedMembers_whole sound) inner
  rw [ofText?_written,others,Entity.read_sortedMembers sound inner]
  rfl

theorem withoutStamp_members (block : Value) {members : List (String × Value)}
    (others : blockName ∉ members.map Prod.fst) :
    ∃ first, withoutStamp (.object ((blockName,block) :: members)) = .object (first :: members) := by
  refine ⟨_,congrArg Value.object (congrArg (List.cons _) ?_)⟩
  conv => rhs; rw [← List.map_id members]
  apply List.map_congr_left
  rintro ⟨name,value⟩ member
  have apart : name ≠ blockName := fun same => others (same ▸ List.mem_map_of_mem member)
  cases value <;> simp [apart]

theorem sortedMembers_names (e : Entity) : e.sortedMembers.map Prod.fst =
    ["bundle","changed","entity_type","fields","label","langcode","uuid"] := rfl

theorem withoutStamp_ofEntity (stamp : String) (e : Entity) : withoutStamp (ofEntity stamp e).toValue =
    .object ((blockName,.object [("version",.count formatVersion)]) :: e.sortedMembers) := rfl

theorem toValue_sorted (stamp : String) {e : Entity} (sound : e.Sound) : (ofEntity stamp e).toValue.Sorted := by
  rw [toValue_ofEntity]
  cases Entity.sortedMembers_sorted sound with
  | object _ _ each =>
      refine .object _ ?_ (List.forall_mem_cons.mpr ⟨.object _ ?_ ?_,each⟩)
      · change (["_meta","bundle","changed","entity_type","fields","label","langcode","uuid"] : List String).Pairwise (· < ·)
        decide
      · change (["exported_at","version"] : List String).Pairwise (· < ·)
        decide
      · exact List.forall_mem_cons.mpr ⟨.text _,List.forall_mem_singleton.mpr (.number _)⟩

theorem toValue_whole (stamp : String) {e : Entity} (sound : e.Sound) : (ofEntity stamp e).toValue.whole64 = true := by
  have members := Entity.sortedMembers_whole sound
  rw [Value.whole64] at members
  rw [toValue_ofEntity,Value.whole64,Value.whole64Rows,members]
  rfl

theorem ofText?_value (stamp : String) {e : Entity} (sound : e.Sound)
    (nested : (ofEntity stamp e).toValue.nesting ≤ greatestDepth) :
    Value.ofText? (ofEntity stamp e).page = some (ofEntity stamp e).toValue := by
  have read := outline_value _ greatestDepth (toValue_sorted stamp sound) (toValue_whole stamp sound) nested
  rw [Value.ofText?,page,ofText_page]
  simp only [read,Except.toOption]

-- A file holds a document exactly when it reads as the document, the time of the export aside.
theorem isHeldBy_iff {stamp : String} {e : Entity} (sound : e.Sound) (text : String) :
    (ofEntity stamp e).isHeldBy text = true ↔ ∃ value, Value.ofText? text = some value ∧
      withoutStamp value = withoutStamp (ofEntity stamp e).toValue := by
  have whole : (withoutStamp (ofEntity stamp e).toValue).whole64 = true := by
    have members := Entity.sortedMembers_whole sound
    rw [Value.whole64] at members
    rw [withoutStamp_ofEntity,Value.whole64,Value.whole64Rows,members]
    rfl
  unfold isHeldBy
  cases Value.ofText? text with
  | none => simp
  | some value =>
      constructor
      · intro held
        exact ⟨value,rfl,same_whole _ _ held whole⟩
      · rintro ⟨_,found,same⟩
        cases found
        dsimp only
        rw [same]
        exact same_self _

theorem isHeldBy_stamp (stamp stamp' : String) (e : Entity) :
    (ofEntity stamp e).isHeldBy = (ofEntity stamp' e).isHeldBy := rfl

theorem isHeldBy_page {stamp : String} {e : Entity} (sound : e.Sound)
    (nested : (ofEntity stamp e).toValue.nesting ≤ greatestDepth) :
    (ofEntity stamp e).isHeldBy (ofEntity stamp e).page = true :=
  (isHeldBy_iff sound _).mpr ⟨_,ofText?_value stamp sound nested,rfl⟩

theorem isHeldBy_members {stamp stamp' : String} {e written : Entity} (sound : e.Sound)
    (held : (ofEntity stamp e).isHeldBy (ofEntity stamp' written).page = true) :
    List.Forall₂ (ReadsAt 126) written.sortedMembers e.sortedMembers := by
  rw [isHeldBy,Value.ofText?,page,ofText_page,toValue_ofEntity,toValue_ofEntity] at held
  dsimp only at held
  cases read : (Value.object ((blockName,.object (block stamp')) :: written.sortedMembers)).outline.value greatestDepth with
  | error fault =>
      rw [read] at held
      cases held
  | ok value =>
      rw [read] at held
      obtain ⟨rows,rfl,_,members⟩ := value_object read
      have names : (([] ++ (blockName,Value.object (block stamp')) :: written.sortedMembers).map Prod.fst).Pairwise
          (· < ·) := by
        change (["_meta","bundle","changed","entity_type","fields","label","langcode","uuid"] : List String).Pairwise (· < ·)
        decide
      obtain ⟨found,rfl,each⟩ := (outlineRows_reads _ _ [] rows names).mp members
      cases each with
      | @cons _ first _ values here others =>
          obtain ⟨name,content⟩ := first
          obtain rfl : name = blockName := here.1
          have apart (e : Entity) : blockName ∉ e.sortedMembers.map Prod.fst := by
            rw [sortedMembers_names]
            decide
          obtain ⟨one,left⟩ := withoutStamp_members content ((names_read others).symm ▸ apart written)
          obtain ⟨two,right⟩ := withoutStamp_members (.object (block stamp)) (apart e)
          simp only [Except.toOption,left,right,Value.same,Value.sameMembers,Bool.and_eq_true] at held
          have whole := Entity.sortedMembers_whole sound
          rw [Value.whole64] at whole
          rw [← sameMembers_whole values e.sortedMembers held.2 whole]
          exact others

theorem isHeldBy_reads {stamp stamp' : String} {e written : Entity} (sound : e.Sound)
    (held : (ofEntity stamp e).isHeldBy (ofEntity stamp' written).page = true) :
    ofText? (ofEntity stamp' written).page = some (ofEntity stamp' e) := by
  have reads := isHeldBy_members sound held
  have names : (([] ++ written.sortedMembers).map Prod.fst).Pairwise (· < ·) := by
    rw [List.nil_append,sortedMembers_names]
    decide
  have others : (Value.object written.sortedMembers).outline.value greatestDepth = .ok (.object e.sortedMembers) := by
    have members := (outlineRows_reads _ 126 [] _ names).mpr ⟨e.sortedMembers,rfl,reads⟩
    rw [Value.outline,Outline.value,if_neg (by decide)]
    change (Outline.valueMembers 126 [] _ >>= fun _ => _) = _
    rw [members]
    rfl
  have text {a b : String} (same : (Value.text a).outline.value 126 = .ok (.text b)) : a = b := by
    cases same
    rfl
  simp only [Entity.sortedMembers,List.forall₂_cons,ReadsAt,true_and] at reads
  obtain ⟨bundle,changed,entityType,fields,label,langcode,uuid,_⟩ := reads
  have moment : written.changed = e.changed := by
    rw [Value.whole,Value.outline,Outline.value] at changed
    split at changed
    · rename_i n found
      cases changed
      exact Number.whole.inj (Number.literal_whole found)
    · cases changed
  have known : written.uuid = e.uuid := by
    have same := written.uuid.ofText?_text
    rw [text uuid,e.uuid.ofText?_text] at same
    exact (Option.some.inj same).symm
  have entity : { written with fields := e.fields } = e := by
    rw [known,moment,text bundle,text entityType,text label,text langcode]
  have read := Entity.read_fields (moment ▸ sound.changed_whole64) (moment ▸ sound.stamp) fields
  rw [entity] at read
  rw [ofText?_written,others,read]
  rfl

theorem ofText?_ref {stamp : String} {e : Entity} {d : Document} (read : ofText? (ofEntity stamp e).page = some d) :
    d.entity.ref = e.ref := by
  rw [ofText?_written] at read
  obtain ⟨_,_,read⟩ := Option.bind_eq_some_iff.mp read
  obtain ⟨entity,held,same⟩ := Option.bind_eq_some_iff.mp read
  cases same
  cases found : Entity.read (Value.object e.sortedMembers).outline with
  | error fault =>
      rw [found] at held
      cases held
  | ok other =>
      rw [found] at held
      cases held
      exact Entity.read_ref found

-- So a file written for one entity never holds another one.
theorem isHeldBy_ref {stamp stamp' : String} {e written : Entity} (sound : e.Sound)
    (held : (ofEntity stamp e).isHeldBy (ofEntity stamp' written).page = true) : e.ref = written.ref :=
  ofText?_ref (isHeldBy_reads sound held)

end Exchange.Document

end Redline
