import Redline.Proofs.Embeds

namespace Redline

open Text

section Trimming

theorem trim_padded {front back : List Char} (text : List Char) (before : front.all isBlank = true)
    (behind : back.all isBlank = true) : trim (front ++ (text ++ back)) = trim text := by
  have start : trimStart (front ++ (text ++ back)) = trimStart (text ++ back) :=
    List.dropWhile_append_of_pos (List.all_eq_true.mp before)
  have blank : trimStart back = [] := by
    rw [trimStart,← List.append_nil back,List.dropWhile_append_of_pos (List.all_eq_true.mp behind)]
    rfl
  rw [trim,trim,start,trimStart,List.dropWhile_append,← trimStart,← trimStart]
  split
  · rename_i none_
    rw [blank,List.isEmpty_iff.mp none_]
  · exact trimEnd_padded _ behind

theorem trim_solid {text : List Char} {c d : Char} (first : text.head? = some c) (last : text.getLast? = some d)
    (solid : isBlank c = false ∧ isBlank d = false) : trim text = text := by
  have start : trimStart text = text := by
    obtain ⟨rest,rfl⟩ := List.head?_eq_some_iff.mp first
    exact List.dropWhile_cons_of_neg (by simp [solid.1])
  rw [trim,start,trimEnd_solid last solid.2]

end Trimming

namespace Uuid

theorem digit_solid {c : Char} (digit : (digitOf? c).isSome = true) : isBlank c = false := by
  have low : c.toNat < 128 := by
    unfold digitOf? at digit
    split at digit
    · rename_i decimal
      exact Usage.ascii_below decimal.2 (by decide)
    · split at digit
      · rename_i small
        exact Usage.ascii_below small.2 (by decide)
      · split at digit
        · rename_i large
          exact Usage.ascii_below large.2 (by decide)
        · cases digit
  exact Usage.ascii_each (P := fun c => (digitOf? c).isSome = true → isBlank c = false) (by decide) low digit

theorem mapM_solid {text : List Char} {digits : List (Fin 16)} (read : text.mapM digitOf? = some digits) :
    ∀ c ∈ text, isBlank c = false := by
  induction text generalizing digits with
  | nil => exact fun c member => nomatch member
  | cons c text ih =>
      rw [List.mapM_cons] at read
      obtain ⟨digit,here,further⟩ := Option.bind_eq_some_iff.mp read
      obtain ⟨others,behind,_⟩ := Option.bind_eq_some_iff.mp further
      exact List.forall_mem_cons.mpr ⟨digit_solid (by rw [here]; rfl),ih behind⟩

-- The text has a first and a last character, and neither is a blank.
def SolidEnds (text : List Char) : Prop :=
  ∃ c d, text.head? = some c ∧ text.getLast? = some d ∧ isBlank c = false ∧ isBlank d = false

theorem ofHyphenated?_ends {text : List Char} {u : Uuid} (size : text.length = 36) (read : ofHyphenated? text = some u) :
    SolidEnds text := by
  unfold ofHyphenated? at read
  split at read
  · obtain ⟨digits,each,_⟩ := Option.bind_eq_some_iff.mp read
    have solid := mapM_solid each
    have front : text.take 8 ≠ [] := List.ne_nil_of_length_pos (by simp [size])
    have back : text.drop 24 ≠ [] := List.ne_nil_of_length_pos (by simp [size])
    refine ⟨(text.take 8).head front,(text.drop 24).getLast back,?_,?_,solid _ ?_,solid _ ?_⟩
    · rw [← List.head?_eq_some_head front,List.head?_take,if_neg (by decide)]
    · rw [← List.getLast?_eq_some_getLast back,List.getLast?_drop,if_neg (by omega)]
    · simp
    · exact List.mem_append_right _ (List.getLast_mem back)
  · cases read

theorem ofChars?_ends {text : List Char} {u : Uuid} (read : ofChars? text = some u) : SolidEnds text := by
  unfold ofChars? at read
  split at read
  · rename_i size
    obtain ⟨digits,each,_⟩ := Option.bind_eq_some_iff.mp read
    have solid := mapM_solid each
    have filled : text ≠ [] := List.ne_nil_of_length_pos (by omega)
    exact ⟨_,_,List.head?_eq_some_head filled,List.getLast?_eq_some_getLast filled,solid _ (List.head_mem filled),
      solid _ (List.getLast_mem filled)⟩
  · split at read
    · rename_i size
      exact ofHyphenated?_ends size read
    · split at read
      · obtain ⟨inner,braces,_⟩ := Option.bind_eq_some_iff.mp read
        unfold braced? at braces
        split at braces
        · split at braces
          · rename_i rest ends
            exact ⟨'\x7b','\x7d',rfl,by rw [List.getLast?_cons,ends]; rfl,rfl,rfl⟩
          · cases braces
        · cases braces
      · split at read
        · rename_i urn
          obtain ⟨_,d,_,last,_,solid⟩ := ofHyphenated?_ends (by simp [urn.1]) read
          rw [List.getLast?_drop,if_neg (by omega)] at last
          cases text with
          | nil => cases last
          | cons c rest =>
              have first : Char.toLower 'u' = c.toLower := by
                have starts := urn.2
                simp only [urnPrefix,startsWithFold,Bool.and_eq_true,decide_eq_true_eq] at starts
                exact starts.1
              refine ⟨c,d,rfl,last,Usage.name_solid ?_,solid⟩
              rw [← Usage.toLower_nameChar,← first]
              decide
        · cases read

theorem trim_spelling {text : List Char} {u : Uuid} (read : ofChars? text = some u) : trim text = text := by
  obtain ⟨c,d,first,last,solid⟩ := ofChars?_ends read
  exact trim_solid first last solid

end Uuid

namespace Usage

-- White space may stand on both sides of what is meant.
def Padded (value inner : List Char) : Prop :=
  ∃ front back, value = front ++ (inner ++ back) ∧ front.all isBlank = true ∧ back.all isBlank = true

-- How the value of a data attribute is written: a type that is not blank and not padded itself, or any
-- spelling of the UUID.
def EmbedField.Spells (field : EmbedField) (inner : List Char) (ref : EntityRef) : Prop :=
  match field with
  | .type => inner = ref.entityType.toList ∧ inner ≠ [] ∧ trim inner = inner
  | .uuid => Uuid.ofChars? inner = some ref.uuid

def QuotedAttribute.Writes (a : QuotedAttribute) (field : EmbedField) (ref : EntityRef) : Prop :=
  lower a.name = field.word ∧ ∃ inner, Padded a.value inner ∧ field.Spells inner ref

-- Other attributes, with values that are quiet: all that do not mention data attributes are, whatever
-- brackets and quotes they hold.
def Unrelated (attributes : List QuotedAttribute) : Prop := ∀ a ∈ attributes, a.field? = none ∧ Quiet a.value

-- Two data attributes, one of each kind, with other attributes before, between and behind them.
def QuotedTag.Writes (tag : QuotedTag) (ref : EntityRef) : Prop :=
  ∃ (before between behind : List QuotedAttribute) (a b : QuotedAttribute) (first second : EmbedField),
    tag.attributes = before ++ a :: (between ++ b :: behind) ∧ first ≠ second ∧
      a.Writes first ref ∧ b.Writes second ref ∧ Unrelated before ∧ Unrelated between ∧ Unrelated behind

-- A page that holds these embeds, in this order, with text and end tags between them.
inductive Writes : List Piece → List EntityRef → Prop
  | done : Writes [] []
  | text {content plain page refs} : Writes page refs → Writes (.text content plain :: page) refs
  | closing {tag page refs} : Unopened tag.inside → Writes page refs → Writes (.closing tag :: page) refs
  | embed {tag ref page refs} : tag.Writes ref → Writes page refs → Writes (.opening tag :: page) (ref :: refs)

theorem writes_row {a : QuotedAttribute} {field : EmbedField} {ref : EntityRef} (writes : a.Writes field ref) :
    a.row? = some (field,a.value) := by
  rw [QuotedAttribute.row?,(a.field?_iff field).mpr writes.1]
  rfl

theorem writes_gives {a : QuotedAttribute} {field : EmbedField} {ref : EntityRef} (writes : a.Writes field ref) :
    field.Gives a.value ref := by
  obtain ⟨_,inner,⟨front,back,eq,before,behind⟩,spells⟩ := writes
  cases field with
  | type =>
      obtain ⟨rfl,_,plain⟩ := spells
      rw [EmbedField.Gives,eq,trim_padded _ before behind,plain]
  | uuid =>
      have read : Uuid.ofChars? inner = some ref.uuid := spells
      rw [EmbedField.Gives,eq,trim_padded _ before behind,Uuid.trim_spelling read,read]

theorem writes_named {a : QuotedAttribute} {ref : EntityRef} (writes : a.Writes .type ref) : ref.entityType ≠ "" := by
  obtain ⟨_,inner,_,rfl,filled,_⟩ := writes
  intro empty
  rw [empty] at filled
  exact filled rfl

theorem unrelated_rows {attributes : List QuotedAttribute} (unrelated : Unrelated attributes) :
    attributes.filterMap QuotedAttribute.row? = [] := by
  rw [List.filterMap_eq_nil_iff]
  intro a member
  rw [QuotedAttribute.row?,(unrelated a member).1]
  rfl

theorem writes_tidy {tag : QuotedTag} {ref : EntityRef} (writes : tag.Writes ref) : tag.Tidy := by
  obtain ⟨before,between,behind,a,b,first,second,split,_,here,there,unrelated,unrelated',unrelated''⟩ := writes
  have data {c : QuotedAttribute} {field : EmbedField} (written : c.Writes field ref) :
      c.field? = none → Quiet c.value := by
    rw [(c.field?_iff field).mpr written.1]
    exact fun none_ => nomatch none_
  intro c member
  rw [split,List.mem_append,List.mem_cons,List.mem_append,List.mem_cons] at member
  rcases member with member | rfl | member | rfl | member
  · exact fun _ => (unrelated c member).2
  · exact data here
  · exact fun _ => (unrelated' c member).2
  · exact data there
  · exact fun _ => (unrelated'' c member).2

theorem writes_said {tag : QuotedTag} {ref : EntityRef} (writes : tag.Writes ref) : tag.said? = some ref := by
  obtain ⟨before,between,behind,a,b,first,second,split,apart,here,there,unrelated,unrelated',unrelated''⟩ := writes
  have rows : tag.rows = [(first,a.value),(second,b.value)] := by
    rw [QuotedTag.rows,split,List.filterMap_append,unrelated_rows unrelated,
      List.filterMap_cons_some (writes_row here),List.filterMap_append,unrelated_rows unrelated',
      List.filterMap_cons_some (writes_row there),unrelated_rows unrelated'']
    rfl
  rw [QuotedTag.said?,rows,readRows_iff]
  cases first with
  | type =>
      cases second with
      | type => exact absurd rfl apart
      | uuid =>
          refine ⟨writes_named here,fun field => ?_⟩
          cases field with
          | type => exact ⟨a.value,rfl,writes_gives here⟩
          | uuid => exact ⟨b.value,rfl,writes_gives there⟩
  | uuid =>
      cases second with
      | uuid => exact absurd rfl apart
      | type =>
          refine ⟨writes_named there,fun field => ?_⟩
          cases field with
          | type => exact ⟨b.value,rfl,writes_gives there⟩
          | uuid => exact ⟨a.value,rfl,writes_gives here⟩

theorem writes_page {page : List Piece} {refs : List EntityRef} (writes : Writes page refs) :
    (∀ piece ∈ page, piece.Tidy) ∧ page.filterMap Piece.said? = refs := by
  induction writes with
  | done => exact ⟨by simp,rfl⟩
  | text _ ih => exact ⟨List.forall_mem_cons.mpr ⟨trivial,ih.1⟩,ih.2⟩
  | closing unopened _ ih => exact ⟨List.forall_mem_cons.mpr ⟨unopened,ih.1⟩,ih.2⟩
  | @embed tag ref page refs written _ ih =>
      have said : (Piece.opening tag).said? = some ref := writes_said written
      refine ⟨List.forall_mem_cons.mpr ⟨writes_tidy written,ih.1⟩,?_⟩
      rw [List.filterMap_cons_some said,ih.2]

theorem embeds_written {page : List Piece} {refs : List EntityRef} (writes : Writes page refs) :
    embeds (String.ofList (pageText page)) = refs := by
  obtain ⟨tidy,said⟩ := writes_page writes
  rw [embeds_tidy tidy,said]

theorem embeds_written_gallery :
    let alt : QuotedAttribute := ⟨[' '],"alt".toList,[],[],'"',"a > b".toList,
      by decide,by decide,by decide,rfl,by decide⟩
    let type : QuotedAttribute := ⟨[' '],"DATA-ENTITY-TYPE".toList,[' '],[' '],'\''," media ".toList,
      by decide,by decide,by decide,rfl,by decide⟩
    let uuid : QuotedAttribute := ⟨[' '],"data-entity-uuid".toList,[],[],'"',
      "\x7b00000000-0000-0000-0000-000000000000\x7d".toList,by decide,by decide,by decide,rfl,by decide⟩
    let type' : QuotedAttribute := ⟨[' '],"Data-Entity-Type".toList,[],[],'"',"file".toList,
      by decide,by decide,by decide,rfl,by decide⟩
    let uuid' : QuotedAttribute := ⟨[' ',' '],"data-entity-uuid".toList,[],[' '],'\'',
      "urn:uuid:11111111-1111-1111-1111-111111111111".toList,by decide,by decide,by decide,rfl,by decide⟩
    let page : List Piece := [.opening ⟨'I',"MG".toList,[alt,type,uuid],[' ','/'],by decide,by decide⟩,
      .text "it's next to ".toList (by decide),.closing ⟨'b',[],[],[],by decide,by decide⟩,
      .opening ⟨'a',[],[uuid',type'],[],by decide,by decide⟩]
    let refs : List EntityRef :=
      [⟨"media",⟨List.replicate 32 0,by decide⟩⟩,⟨"file",⟨List.replicate 32 1,by decide⟩⟩]
    Writes page refs ∧ embeds (String.ofList (pageText page)) = refs := by
  intro alt type uuid type' uuid' page refs
  have none_ : Unrelated [] := fun a member => nomatch member
  have others : Unrelated [alt] := by
    intro a member
    cases List.mem_singleton.mp member
    exact ⟨by decide,quiet_of_absent (by decide)⟩
  have spelled : Uuid.ofChars? uuid.value = some ⟨List.replicate 32 0,by decide⟩ := by decide
  have spelled' : Uuid.ofChars? uuid'.value = some ⟨List.replicate 32 1,by decide⟩ := by decide
  have first : QuotedTag.Writes ⟨'I',"MG".toList,[alt,type,uuid],[' ','/'],by decide,by decide⟩
      ⟨"media",⟨List.replicate 32 0,by decide⟩⟩ :=
    ⟨[alt],[],[],type,uuid,.type,.uuid,rfl,by decide,
      ⟨by decide,"media".toList,⟨[' '],[' '],rfl,rfl,rfl⟩,rfl,by decide,rfl⟩,
      ⟨by decide,uuid.value,⟨[],[],by simp,rfl,rfl⟩,spelled⟩,others,none_,none_⟩
  have second : QuotedTag.Writes ⟨'a',[],[uuid',type'],[],by decide,by decide⟩
      ⟨"file",⟨List.replicate 32 1,by decide⟩⟩ :=
    ⟨[],[],[],uuid',type',.uuid,.type,rfl,by decide,
      ⟨by decide,uuid'.value,⟨[],[],by simp,rfl,rfl⟩,spelled'⟩,
      ⟨by decide,"file".toList,⟨[],[],rfl,rfl,rfl⟩,rfl,by decide,rfl⟩,none_,none_,none_⟩
  have written : Writes page refs := .embed first (.text (.closing (unopened_of_plain (by decide)) (.embed second .done)))
  exact ⟨written,embeds_written written⟩

end Usage

end Redline
