import Mathlib.Data.List.Induction
import Redline.Proofs.EmbedTags
import Redline.Proofs.Markers

namespace Redline.Usage

open Redline.Text
open Redline.Markup (isQuote isAttributeNameChar)

section Rows

def readRows (rows : List (EmbedField × List Char)) : Option EntityRef := (rows.foldl EmbedParts.add {}).ref?

-- The last attribute of each kind counts.
theorem add_last (rows : List (EmbedField × List Char)) : rows.foldl EmbedParts.add {} =
    ⟨(rows.reverse.lookup .type).map fun value => String.ofList (trim value),
      (rows.reverse.lookup .uuid).bind fun value => Uuid.ofChars? (trim value)⟩ := by
  induction rows using List.reverseRecOn with
  | nil => rfl
  | append_singleton rows row ih =>
      obtain ⟨field,value⟩ := row
      rw [List.foldl_append,ih,List.reverse_append]
      cases field <;> rfl

theorem ref?_iff {entityType : List Char} {uuid? : Option Uuid} {ref : EntityRef} :
    (EmbedParts.mk (some (String.ofList entityType)) uuid?).ref? = some ref ↔
      entityType ≠ [] ∧ entityType = ref.entityType.toList ∧ uuid? = some ref.uuid := by
  obtain ⟨named,uuid⟩ := ref
  have empty : (String.ofList entityType).isEmpty = true ↔ entityType = [] := by
    rw [String.isEmpty_iff,← String.toList_inj,String.toList_ofList]
    rfl
  have same : String.ofList entityType = named ↔ entityType = named.toList := by
    rw [← String.toList_inj,String.toList_ofList]
  cases uuid? with
  | none => simp [EmbedParts.ref?]
  | some found => simp [EmbedParts.ref?,empty,same,EntityRef.mk.injEq]

-- The trimmed value is the type of the entity, or reads as its UUID.
def EmbedField.Gives (field : EmbedField) (value : List Char) (ref : EntityRef) : Prop :=
  match field with
  | .type => trim value = ref.entityType.toList
  | .uuid => Uuid.ofChars? (trim value) = some ref.uuid

theorem readRows_iff {rows : List (EmbedField × List Char)} {ref : EntityRef} : readRows rows = some ref ↔
    ref.entityType ≠ "" ∧
      ∀ field : EmbedField, ∃ value, rows.reverse.lookup field = some value ∧ field.Gives value ref := by
  have each : (∀ field : EmbedField, ∃ value, rows.reverse.lookup field = some value ∧ field.Gives value ref) ↔
      (∃ value, rows.reverse.lookup .type = some value ∧ trim value = ref.entityType.toList) ∧
        ∃ value, rows.reverse.lookup .uuid = some value ∧ Uuid.ofChars? (trim value) = some ref.uuid :=
    ⟨fun all => ⟨all .type,all .uuid⟩,fun both field => match field with | .type => both.1 | .uuid => both.2⟩
  rw [each,readRows,add_last]
  cases rows.reverse.lookup .type with
  | none => simp [EmbedParts.ref?]
  | some type =>
      rw [Option.map_some,ref?_iff]
      have filled : trim type = ref.entityType.toList → (trim type ≠ [] ↔ ref.entityType ≠ "") := fun same => by
        rw [same,Ne,Ne,← String.toList_inj]
        rfl
      cases rows.reverse.lookup .uuid with
      | none => simp
      | some uuid =>
          simp only [Option.bind_some,Option.some.injEq,exists_eq_left']
          constructor
          · rintro ⟨some_,same,read⟩
            exact ⟨(filled same).mp some_,same,read⟩
          · rintro ⟨some_,same,read⟩
            exact ⟨(filled same).mpr some_,same,read⟩

end Rows

section Reading

namespace QuotedTag

def said? (tag : QuotedTag) : Option EntityRef := readRows tag.rows

-- One attribute of the tag is named for the type and gives it, and one for the UUID.
def Carries (tag : QuotedTag) (ref : EntityRef) : Prop :=
  ∀ field : EmbedField, ∃ a ∈ tag.attributes, lower a.name = field.word ∧ field.Gives a.value ref

theorem mem_rows {tag : QuotedTag} {field : EmbedField} {value : List Char}
    (found : tag.rows.reverse.lookup field = some value) :
    ∃ a ∈ tag.attributes, lower a.name = field.word ∧ a.value = value := by
  have member : (field,value) ∈ tag.rows := by
    obtain ⟨front,back,eq,_⟩ := List.lookup_eq_some_iff.mp found
    rw [← List.mem_reverse,eq]
    simp
  obtain ⟨a,inside,row⟩ := List.mem_filterMap.mp member
  obtain ⟨field',kind,eq⟩ := Option.map_eq_some_iff.mp row
  cases eq
  exact ⟨a,inside,(a.field?_iff field).mp kind,rfl⟩

theorem carries_of_said {tag : QuotedTag} {ref : EntityRef} (said : tag.said? = some ref) : tag.Carries ref := by
  intro field
  obtain ⟨value,last,gives⟩ := (readRows_iff.mp said).2 field
  obtain ⟨a,member,name,rfl⟩ := mem_rows last
  exact ⟨a,member,name,gives⟩

theorem embedIn?_inside {tag : QuotedTag} (tidy : tag.Tidy) : embedIn? tag.inside = tag.said? := by
  rw [embedIn?_eq,fieldsIn_inside tidy]
  rfl

end QuotedTag

namespace Piece

def said? : Piece → Option EntityRef
  | .opening tag => tag.said?
  | _ => none

def Tidy : Piece → Prop
  | .text _ _ => True
  | .opening tag => tag.Tidy
  | .closing tag => Unopened tag.inside

end Piece

-- A tidy page is read exactly: each start tag says what its attributes say, and nothing else is read.
theorem embeds_tidy {page : List Piece} (tidy : ∀ piece ∈ page, piece.Tidy) :
    embeds (String.ofList (pageText page)) = page.filterMap Piece.said? := by
  rw [embeds_eq]
  induction page with
  | nil => rfl
  | cons piece page ih =>
      obtain ⟨here,others⟩ := List.forall_mem_cons.mp tidy
      rw [pageText,List.flatMap_cons,← pageText]
      cases piece with
      | text content plain =>
          rw [Piece.raw,embedsIn_plain plain,ih others]
          rfl
      | opening tag =>
          rw [embedsIn_opening,QuotedTag.embedIn?_inside here,ih others]
          cases said : tag.said? <;> simp [Piece.said?,said]
      | closing tag =>
          rw [embedsIn_closing here,ih others]
          rfl

theorem embeds_single (tag : QuotedTag) :
    embeds (String.ofList (pageText [.opening tag])) = (embedIn? tag.inside).toList := by
  have read := embedsIn_opening tag []
  have none_ : embedsIn [] = [] := rfl
  rw [embeds_eq]
  simpa [pageText,none_] using read

theorem quiet_of_absent {value : List Char} (absent : containsFold dataWord value = false) : Quiet value := by
  rintro field behind tail ⟨front,rfl⟩ ⟨c,word,gap,rfl,_,same,_⟩
  have plain : lower dataWord = dataWord := by decide
  have mentions : containsFold dataWord (front ++ c :: (word ++ (gap ++ '=' :: tail))) = true := by
    rw [Markup.containsFold_iff,plain]
    refine ⟨lower (front ++ [c]),field.ending ++ lower (gap ++ '=' :: tail),?_⟩
    have whole : front ++ c :: (word ++ (gap ++ '=' :: tail)) = front ++ [c] ++ (word ++ (gap ++ '=' :: tail)) := by simp
    rw [whole]
    simp only [lower,List.map_append,List.append_assoc] at same ⊢
    rw [same]
    simp [EmbedField.word]
  cases absent.symm.trans mentions

section Misread

def emptied (quote : Char) (quoted : isQuote quote = true) : QuotedAttribute :=
  ⟨[' '],['x'],[],[],quote,[],by decide,by decide,by decide,quoted,List.not_mem_nil⟩

def given (field : EmbedField) (value : List Char) (free : '"' ∉ value) : QuotedAttribute :=
  ⟨[' '],field.word,[],[],'"',value,by decide,by cases field <;> decide,by decide,rfl,free⟩

def sample (type digits : List Char) (plain : '"' ∉ type ∧ '"' ∉ digits) (a : QuotedAttribute) : QuotedTag where
  letter := 'p'
  name := []
  attributes := [given .type type plain.1,given .uuid digits plain.2] ++ a :: [emptied '"' rfl,emptied '\'' rfl]
  tail := []
  named := by decide
  ended := by decide

variable {a : QuotedAttribute} {type digits : List Char} {plain : '"' ∉ type ∧ '"' ∉ digits}

theorem sample_said (other : a.field? = none) :
    (sample type digits plain a).said? = readRows [(.type,type),(.uuid,digits)] := by
  have row : a.row? = none := by rw [QuotedAttribute.row?,other]; rfl
  have rows : (sample type digits plain a).rows = [(.type,type),(.uuid,digits)] := by
    simp only [QuotedTag.rows,sample,List.cons_append,List.nil_append,List.filterMap_cons,row,List.filterMap_nil]
    rfl
  rw [QuotedTag.said?,rows]

theorem sample_fields : fieldsIn (sample type digits plain a).inside = [(.type,type),(.uuid,digits)] ++
    fieldsIn (a.raw ++ [emptied '"' rfl,emptied '\'' rfl].flatMap QuotedAttribute.raw) := by
  have data : ∀ b ∈ [given .type type plain.1,given .uuid digits plain.2], b.field? = none → Quiet b.value := by
    simp only [List.mem_cons,List.not_mem_nil,or_false]
    rintro b (rfl | rfl) none_ <;> cases none_
  rw [fieldsIn_split rfl data]
  simp only [sample,List.flatMap_cons,List.append_nil]
  rfl

theorem lookup_behind {found : List (EmbedField × List Char)} (filled : found ≠ []) :
    ∃ field value, ∀ rows, (rows ++ found).reverse.lookup field = some value := by
  obtain ⟨⟨field,value⟩,member⟩ := List.exists_mem_of_ne_nil found filled
  cases last : found.reverse.lookup field with
  | none => simpa using List.lookup_eq_none_iff.mp last (field,value) (List.mem_reverse.mpr member)
  | some value =>
      refine ⟨field,value,fun rows => ?_⟩
      rw [List.reverse_append,List.lookup_append,last]
      rfl

-- In a value that is not quiet a data attribute is found whatever stands before it: so of two tags that
-- differ there alone, in their type and in their UUID, one is not read as its attributes say.
theorem loud_misread (other : a.field? = none) (loud : ¬Quiet a.value) :
    ∃ (tag : QuotedTag) (before after : List QuotedAttribute), tag.attributes = before ++ a :: after ∧
      (∀ b ∈ before ++ after, b.field? = none → Quiet b.value) ∧ embedIn? tag.inside ≠ tag.said? := by
  by_contra none_
  have right : ∀ type digits plain,
      embedIn? (sample type digits plain a).inside = (sample type digits plain a).said? := by
    intro type digits plain
    by_contra misread
    refine none_ ⟨sample type digits plain a,[given .type type plain.1,given .uuid digits plain.2],
      [emptied '"' rfl,emptied '\'' rfl],rfl,?_,misread⟩
    simp only [List.cons_append,List.nil_append,List.mem_cons,List.not_mem_nil,or_false]
    rintro b (rfl | rfl | rfl | rfl) data
    · cases data
    · cases data
    · exact quiet_of_absent rfl
    · exact quiet_of_absent rfl
  have both : '"' ∈ [emptied '"' rfl,emptied '\'' rfl].flatMap QuotedAttribute.raw ∧
      '\'' ∈ [emptied '"' rfl,emptied '\'' rfl].flatMap QuotedAttribute.raw := by decide
  obtain ⟨field,last,found⟩ := lookup_behind (fieldsIn_loud a loud both)
  have gives : ∀ type digits ref, '"' ∉ type ∧ '"' ∉ digits →
      readRows [(.type,type),(.uuid,digits)] = some ref → field.Gives last ref := by
    intro type digits ref plain said
    have read := right type digits plain
    rw [sample_said other,said,embedIn?_eq,sample_fields] at read
    obtain ⟨value,here,gives⟩ := (readRows_iff.mp read).2 field
    rw [found] at here
    cases here
    exact gives
  have first := gives ['a'] (List.replicate 32 '0') ⟨"a",⟨List.replicate 32 0,by decide⟩⟩ (by decide)
    (by decide)
  have second := gives ['b'] (List.replicate 32 '1') ⟨"b",⟨List.replicate 32 1,by decide⟩⟩ (by decide)
    (by decide)
  cases field with
  | type => cases first.symm.trans second
  | uuid => cases first.symm.trans second

end Misread

-- Whatever tag it stands in, among attributes that are quiet, the tag is read as its own attributes say.
def QuotedAttribute.Harmless (a : QuotedAttribute) : Prop :=
  ∀ (tag : QuotedTag) (before after : List QuotedAttribute), tag.attributes = before ++ a :: after →
    (∀ b ∈ before ++ after, b.field? = none → Quiet b.value) →
      embeds (String.ofList (pageText [.opening tag])) = tag.said?.toList

theorem quiet_iff_harmless {a : QuotedAttribute} (other : a.field? = none) : Quiet a.value ↔ a.Harmless := by
  constructor
  · intro quiet tag before after split others
    have tidy : tag.Tidy := by
      intro b member
      rw [split,List.mem_append,List.mem_cons] at member
      rcases member with front | rfl | behind
      · exact others b (List.mem_append_left after front)
      · exact fun _ => quiet
      · exact others b (List.mem_append_right before behind)
    rw [embeds_single,QuotedTag.embedIn?_inside tidy]
  · intro harmless
    by_contra loud
    obtain ⟨tag,before,after,split,others,misread⟩ := loud_misread other loud
    have read := harmless tag before after split others
    rw [embeds_single] at read
    exact misread (by simpa using congrArg List.head? read)

end Reading

-- On tidy pages each embed is told by a start tag's own attributes. Tidiness asks of the values of other
-- attributes what it must: one of them does no harm in any tag exactly if it is quiet.
theorem embeds_carried (page : List Piece) :
    ((∀ piece ∈ page, piece.Tidy) →
      embeds (String.ofList (pageText page)) = page.filterMap Piece.said? ∧
        ∀ ref ∈ embeds (String.ofList (pageText page)), ∃ tag, .opening tag ∈ page ∧ tag.Carries ref) ∧
    ∀ tag, .opening tag ∈ page → ∀ a ∈ tag.attributes, a.field? = none → (Quiet a.value ↔ a.Harmless) := by
  refine ⟨fun tidy => ⟨embeds_tidy tidy,fun ref member => ?_⟩,fun _ _ a _ other => quiet_iff_harmless other⟩
  rw [embeds_tidy tidy] at member
  obtain ⟨piece,inside,said⟩ := List.mem_filterMap.mp member
  cases piece with
  | opening tag => exact ⟨tag,inside,QuotedTag.carries_of_said said⟩
  | text content plain => cases said
  | closing tag => cases said

theorem embeds_carried_image :
    let alt : QuotedAttribute := ⟨[' '],"alt".toList,[],[],'"',"a > b".toList,
      by decide,by decide,by decide,rfl,by decide⟩
    let image : QuotedTag := ⟨'i',"mg".toList,[alt,given .type "media".toList (by decide),
      given .uuid (List.replicate 32 '0') (by decide)],[' ','/'],by decide,by decide⟩
    let page : List Piece := [.text "see: ".toList (by decide),.opening image,.text "!".toList (by decide)]
    (∀ piece ∈ page, piece.Tidy) ∧
      embeds (String.ofList (pageText page)) = [⟨"media",⟨List.replicate 32 0,by decide⟩⟩] := by
  intro alt image page
  have tidy : ∀ piece ∈ page, piece.Tidy := by
    have inner : image.Tidy := by
      simp only [QuotedTag.Tidy,image,List.mem_cons,List.not_mem_nil,or_false]
      rintro a (rfl | rfl | rfl) data
      · exact quiet_of_absent (by decide)
      · cases data
      · cases data
    simp only [page,List.mem_cons,List.not_mem_nil,or_false]
    rintro piece (rfl | rfl | rfl)
    · trivial
    · exact inner
    · trivial
  refine ⟨tidy,?_⟩
  rw [((embeds_carried page).1 tidy).1]
  decide

-- A title in which two data attributes are written is read as if the tag had them.
theorem embed_read_in_title :
    let title : QuotedAttribute := ⟨[' '],"title".toList,[],[],'"',
      " data-entity-type='media' data-entity-uuid='02020202-0202-0202-0202-020202020202'".toList,
      by decide,by decide,by decide,rfl,by decide⟩
    let page : List Piece := [.opening ⟨'p',[],[title],[],by decide,by decide⟩]
    pageText page =
      "<p title=\" data-entity-type='media' data-entity-uuid='02020202-0202-0202-0202-020202020202'\">".toList ∧
    ¬∀ ref ∈ embeds (String.ofList (pageText page)), ∃ tag, .opening tag ∈ page ∧ tag.Carries ref := by
  intro title page
  refine ⟨by decide +kernel,fun carried => ?_⟩
  have read : embeds (String.ofList (pageText page)) =
      [⟨"media",⟨(List.replicate 16 [0,2]).flatten,by decide⟩⟩] := by
    decide +kernel
  obtain ⟨tag,member,carries⟩ := carried _ (by rw [read]; exact List.mem_cons_self)
  obtain ⟨a,inside,name,_⟩ := carries .type
  cases List.mem_singleton.mp member
  cases List.mem_singleton.mp inside
  exact absurd name (by decide)

end Redline.Usage
