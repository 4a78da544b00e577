import Redline.Format.Link
import Redline.Text.Search

namespace Redline.Format

open Redline.Text

section Addresses

theorem ne_of_holds {p : Char → Bool} {c stop : Char} (holds : p c = true) (stops : p stop = false) : c ≠ stop := by
  rintro rfl
  cases holds.symm.trans stops

theorem all_absent {p : Char → Bool} {stop : Char} (stops : p stop = false) {text : List Char}
    (holds : text.all p = true) : stop ∉ text :=
  fun member => ne_of_holds (List.all_eq_true.mp holds stop member) stops rfl

theorem takeWhile_stop {p : Char → Bool} {stop : Char} (stops : p stop = false) (text rest : List Char) :
    (text ++ stop :: rest).takeWhile p = text.takeWhile p := by
  induction text with
  | nil => simp [stops]
  | cons c text ih => simp only [List.cons_append,List.takeWhile_cons,ih]

-- A scheme with at least one more character of an address behind it.
def opensAddress (text scheme : List Char) : Bool :=
  scheme.isPrefixOf text && ((text.drop scheme.length).head?.any isAddressChar)

theorem schemes_char {scheme : List Char} (member : scheme ∈ schemes) :
    scheme.all isAddressChar = true ∧ scheme.head? = some 'h' ∧ scheme.count '/' = 2 := by
  simp only [schemes,List.mem_cons,List.not_mem_nil,or_false] at member
  rcases member with rfl | rfl <;> decide

theorem opensAddress_stop {stop : Char} (stops : isAddressChar stop = false) {scheme : List Char}
    (member : scheme ∈ schemes) (text rest : List Char) :
    opensAddress (text ++ stop :: rest) scheme = opensAddress text scheme := by
  have absent : stop ∉ scheme := all_absent stops (schemes_char member).1
  rw [Bool.eq_iff_iff]
  simp only [opensAddress,Bool.and_eq_true,List.isPrefixOf_iff_prefix,prefix_stop absent]
  refine and_congr_right fun reads => ?_
  obtain ⟨behind,rfl⟩ := reads
  rw [List.append_assoc,List.drop_left,List.drop_left]
  cases behind <;> simp [stops]

theorem addressAt?_some {text address : List Char} (found : addressAt? text = some address) :
    ∃ rest, text = address ++ rest ∧ address.all isAddressChar = true ∧
      address.head? = some 'h' ∧ 2 ≤ address.count '/' := by
  unfold addressAt? at found
  split at found
  · rename_i scheme first
    cases found
    obtain ⟨chars,head,slashes⟩ := schemes_char (List.mem_of_find?_eq_some first)
    have opens := List.find?_some first
    rw [Bool.and_eq_true,List.isPrefixOf_iff_prefix] at opens
    obtain ⟨behind,rfl⟩ := opens.1
    rw [List.drop_left]
    refine ⟨behind.dropWhile isAddressChar,?_,?_,?_,?_⟩
    · rw [List.append_assoc,List.takeWhile_append_dropWhile]
    · rw [List.all_append,chars,Bool.true_and]
      exact List.all_takeWhile
    · rw [List.head?_append,head]; rfl
    · rw [List.count_append,slashes]; exact Nat.le_add_right _ _
  · cases found

theorem addressAt?_eq (text : List Char) : addressAt? text = (schemes.find? (opensAddress text)).map
    fun scheme => scheme ++ (text.drop scheme.length).takeWhile isAddressChar := by
  unfold addressAt? opensAddress
  split <;> rename_i first <;> rw [first] <;> rfl

theorem addressAt?_stop {stop : Char} (stops : isAddressChar stop = false) (text rest : List Char) :
    addressAt? (text ++ stop :: rest) = addressAt? text := by
  have same : schemes.find? (opensAddress (text ++ stop :: rest)) = schemes.find? (opensAddress text) := by
    rw [← List.head?_filter,← List.head?_filter]
    exact congrArg _ (List.filter_congr fun scheme member => opensAddress_stop stops member text rest)
  rw [addressAt?_eq,addressAt?_eq,same]
  cases first : schemes.find? (opensAddress text) with
  | none => rfl
  | some scheme =>
      have opens := List.find?_some first
      rw [opensAddress,Bool.and_eq_true,List.isPrefixOf_iff_prefix] at opens
      obtain ⟨behind,rfl⟩ := opens.1
      simp only [Option.map_some,List.append_assoc,List.drop_left,takeWhile_stop stops]

end Addresses

section Scanning

theorem linkFrom_within (past text rest : List Char) :
    linkFrom past text.length (text ++ rest) = linkFrom (text.reverse ++ past) 0 rest := by
  induction text generalizing past with
  | nil => rfl
  | cons c text ih =>
      rw [List.length_cons,List.cons_append,linkFrom,ih]
      simp

theorem linkFrom_none {c : Char} {rest : List Char} (past : List Char) (none_ : addressAt? (c :: rest) = none) :
    linkFrom past 0 (c :: rest) = c :: linkFrom (c :: past) 0 rest := by
  rw [linkFrom,none_]

theorem linkFrom_address {address rest : List Char} (past : List Char)
    (found : addressAt? (address ++ rest) = some address) :
    linkFrom past 0 (address ++ rest) =
      (if standsInMarkup past then address else link address) ++
        linkFrom (address.reverse ++ past) 0 rest := by
  obtain ⟨_,_,_,head,_⟩ := addressAt?_some found
  cases address with
  | nil => cases head
  | cons c address =>
      rw [List.cons_append] at found ⊢
      rw [linkFrom,found]
      dsimp only
      rw [List.length_cons,Nat.add_sub_cancel,linkFrom_within]
      simp

theorem scan_induction {motive : List Char → Prop} (nil : motive [])
    (skip : ∀ c rest, addressAt? (c :: rest) = none → motive rest → motive (c :: rest))
    (address : ∀ address rest, addressAt? (address ++ rest) = some address → motive rest →
      motive (address ++ rest)) (text : List Char) : motive text := by
  induction size : text.length using Nat.strongRecOn generalizing text with
  | ind n ih =>
      cases text with
      | nil => exact nil
      | cons c rest =>
          cases found : addressAt? (c :: rest) with
          | none => exact skip c rest found (ih rest.length (by rw [← size]; simp) rest rfl)
          | some word =>
              obtain ⟨behind,eq,_,head,_⟩ := addressAt?_some found
              have long : 0 < word.length := by
                cases word with
                | nil => cases head
                | cons => simp
              rw [eq] at found ⊢
              refine address word behind found (ih behind.length ?_ behind rfl)
              rw [← size,eq,List.length_append]
              omega

theorem linkFrom_stop {stop : Char} (stops : isAddressChar stop = false) (past text rest : List Char) :
    linkFrom past 0 (text ++ stop :: rest) =
      linkFrom past 0 text ++ stop :: linkFrom (stop :: (text.reverse ++ past)) 0 rest := by
  induction text using scan_induction generalizing past with
  | nil =>
      have none_ : addressAt? (stop :: rest) = none := by
        rw [← List.nil_append (stop :: rest),addressAt?_stop stops]
        rfl
      exact linkFrom_none past none_
  | skip c text none_ ih =>
      have later : addressAt? (c :: (text ++ stop :: rest)) = none :=
        (addressAt?_stop stops (c :: text) rest).trans none_
      rw [List.cons_append,linkFrom_none past later,linkFrom_none past none_,ih]
      simp
  | address word text found ih =>
      have later : addressAt? (word ++ (text ++ stop :: rest)) = some word := by
        rw [← List.append_assoc,addressAt?_stop stops]
        exact found
      rw [List.append_assoc,linkFrom_address past later,linkFrom_address past found,ih]
      simp

theorem linkFrom_bare {text : List Char} (past : List Char) (bare : text.count '/' < 2) :
    linkFrom past 0 text = text := by
  induction text using scan_induction generalizing past with
  | nil => rfl
  | skip c text none_ ih =>
      rw [linkFrom_none past none_,ih]
      exact Nat.lt_of_le_of_lt (List.count_le_count_cons) bare
  | address word text found ih =>
      obtain ⟨_,_,_,_,slashes⟩ := addressAt?_some found
      rw [List.count_append] at bare
      omega

theorem linkFrom_bare_stop {stop : Char} (stops : isAddressChar stop = false) {text : List Char}
    (bare : text.count '/' < 2) (past rest : List Char) :
    linkFrom past 0 (text ++ stop :: rest) = text ++ stop :: linkFrom (stop :: (text.reverse ++ past)) 0 rest := by
  rw [linkFrom_stop stops,linkFrom_bare past bare]

theorem linkFrom_before_stop {stop : Char} (stops : isAddressChar stop = false) (past text rest : List Char) :
    linkFrom past 0 (text ++ stop :: rest) =
      linkFrom past 0 text ++ linkFrom (text.reverse ++ past) 0 (stop :: rest) := by
  have none_ : addressAt? (stop :: rest) = none := @addressAt?_stop stop stops [] rest
  rw [linkFrom_stop stops,linkFrom_none _ none_]

theorem linkFrom_before_tag (past text : List Char) {rest : List Char} (opens : ∀ c, rest.head? = some c → c = '<') :
    linkFrom past 0 (text ++ rest) = linkFrom past 0 text ++ linkFrom (text.reverse ++ past) 0 rest := by
  cases rest with
  | nil => simp [linkFrom]
  | cons c rest =>
      cases opens c rfl
      exact linkFrom_before_stop rfl past text rest

theorem linkFrom_afresh {stop : Char} (stops : isAddressChar stop = false) (past text rest : List Char) :
    linkFrom past 0 (text ++ [stop] ++ rest) =
      linkFrom past 0 (text ++ [stop]) ++ linkFrom ((text ++ [stop]).reverse ++ past) 0 rest := by
  rw [List.append_assoc,List.singleton_append,linkFrom_stop stops,linkFrom_stop stops]
  simp [linkFrom]

end Scanning

section Rewriting

-- The second text is the first one with some of its addresses made into links.
inductive Rewritten : List Char → List Char → Prop where
  | nil : Rewritten [] []
  | kept {c : Char} {rest rest' : List Char} : Rewritten rest rest' → Rewritten (c :: rest) (c :: rest')
  | linked {text address rest rest' : List Char} : addressAt? text = some address →
      text = address ++ rest → Rewritten rest rest' → Rewritten text (link address ++ rest')

theorem Rewritten.refl (text : List Char) : Rewritten text text := by
  induction text with
  | nil => exact .nil
  | cons c rest ih => exact .kept ih

theorem Rewritten.append_left {before after : List Char} (text : List Char) (rest : Rewritten before after) :
    Rewritten (text ++ before) (text ++ after) := by
  induction text with
  | nil => exact rest
  | cons c text ih => exact .kept ih

theorem linkFrom_rewritten (past text : List Char) : Rewritten text (linkFrom past 0 text) := by
  induction text using scan_induction generalizing past with
  | nil => exact .nil
  | skip c rest none_ ih =>
      rw [linkFrom_none past none_]
      exact .kept (ih _)
  | address address rest found ih =>
      rw [linkFrom_address past found]
      split
      · exact .append_left address (ih _)
      · exact .linked found rfl (ih _)

-- A link does not start with the character that its address starts with.
theorem link_apart {c : Char} {rest address more later : List Char}
    (found : addressAt? (c :: rest) = some address) : link address ++ more ≠ c :: later := by
  obtain ⟨behind,eq,_,head,_⟩ := addressAt?_some found
  have first : c = 'h' := by
    have heads := congrArg List.head? eq
    rw [List.head?_append,head] at heads
    exact Option.some.inj heads
  rintro clash
  rw [first] at clash
  cases clash

theorem Rewritten.unique_of_append {text one two restOne restTwo : List Char} (left : Rewritten text one)
    (right : Rewritten text two) (same : one ++ restOne = two ++ restTwo) :
    one = two ∧ restOne = restTwo := by
  induction left generalizing two with
  | nil =>
      cases right with
      | nil => exact ⟨rfl,same⟩
      | linked found => cases found
  | @kept rest one' c _ ih =>
      cases right with
      | kept right =>
          obtain ⟨parts,rests⟩ := ih right (List.cons.inj same).2
          exact ⟨by rw [parts],rests⟩
      | linked found =>
          rw [List.append_assoc] at same
          exact absurd same.symm (link_apart found)
  | @linked text address rest one' found eq _ ih =>
      cases right with
      | nil => cases found
      | kept right =>
          rw [List.append_assoc] at same
          exact absurd same (link_apart found)
      | @linked _ address' rest' two' found' eq' right =>
          cases Option.some.inj (found.symm.trans found')
          cases List.append_cancel_left (eq.symm.trans eq')
          rw [List.append_assoc,List.append_assoc] at same
          obtain ⟨parts,rests⟩ := ih right (List.append_cancel_left same)
          exact ⟨by rw [parts],rests⟩

end Rewriting

section Values

-- The scan finds an address in a text, and `before` is what it has read up to there.
inductive Found : List Char → List Char → List Char → Prop where
  | here {text address : List Char} : addressAt? text = some address → Found text [] address
  | skip {c : Char} {text rest before address : List Char} : addressAt? text = none → text = c :: rest →
      Found rest before address → Found text (c :: before) address
  | behind {text earlier rest before address : List Char} : addressAt? text = some earlier →
      text = earlier ++ rest → Found rest before address → Found text (earlier ++ before) address

-- A text is left as it is exactly where every address in it stands in markup.
theorem linkFrom_unchanged (past text : List Char) : linkFrom past 0 text = text ↔
    ∀ before address, Found text before address → standsInMarkup (before.reverse ++ past) = true := by
  induction text using scan_induction generalizing past with
  | nil =>
      refine ⟨fun _ before address found => ?_,fun _ => rfl⟩
      cases found with
      | here reads => cases reads
      | skip _ eq => cases eq
      | behind reads => cases reads
  | skip c rest none_ ih =>
      rw [linkFrom_none past none_,List.cons.injEq,and_iff_right rfl,ih]
      constructor
      · intro guarded before address found
        cases found with
        | here reads => rw [none_] at reads; cases reads
        | skip _ eq found => cases eq; simpa using guarded _ _ found
        | behind reads => rw [none_] at reads; cases reads
      · intro guarded before address found
        simpa using guarded _ _ (.skip none_ rfl found)
  | address word rest reads ih =>
      rw [linkFrom_address past reads]
      by_cases stands : standsInMarkup past = true
      · rw [if_pos stands,List.append_cancel_left_eq,ih]
        constructor
        · intro guarded before address found
          cases found with
          | here => simpa using stands
          | skip none_ => rw [reads] at none_; cases none_
          | behind reads' eq found =>
              cases Option.some.inj (reads.symm.trans reads')
              cases List.append_cancel_left eq
              simpa using guarded _ _ found
        · intro guarded before address found
          simpa using guarded _ _ (.behind reads rfl found)
      · rw [if_neg stands]
        refine ⟨fun same => ?_,fun guarded => absurd (guarded _ _ (.here reads)) stands⟩
        obtain ⟨_,_,_,head,_⟩ := addressAt?_some reads
        cases word with
        | nil => cases head
        | cons c word => exact absurd same (link_apart reads)

end Values

section Pages

def isNameChar (c : Char) : Bool := isAddressChar c && c ≠ '/' && c ≠ '='

def isValueChar (c : Char) : Bool := c ≠ '"' && c ≠ '<' && c ≠ '>'

def isTextChar (c : Char) : Bool := c ≠ '<' && c ≠ '>'

structure QuotedAttribute where
  name : List Char
  value : List Char
  named : name.all isNameChar = true
  quoted : value.all isValueChar = true

inductive WrittenTag where
  | opening (name : List Char) (named : name.all isNameChar = true) (attributes : List QuotedAttribute)
  | closing (name : List Char) (named : name.all isNameChar = true)

structure TextRun where
  content : List Char
  plain : content.all isTextChar = true

-- A page as a sanitizer writes it: runs of text, possibly empty, around and between well-formed tags.
structure Page where
  lead : TextRun
  rest : List (WrittenTag × TextRun)

def QuotedAttribute.raw (a : QuotedAttribute) : List Char := ' ' :: a.name ++ '=' :: '"' :: a.value ++ ['"']

namespace WrittenTag

def raw : WrittenTag → List Char
  | opening name _ attributes => '<' :: name ++ attributes.flatMap QuotedAttribute.raw ++ ['>']
  | closing name _ => '<' :: '/' :: name ++ ['>']

def attributes : WrittenTag → List QuotedAttribute
  | opening _ _ attributes => attributes
  | closing _ _ => []

end WrittenTag

def restRaw (rest : List (WrittenTag × TextRun)) : List Char := rest.flatMap fun (tag,run) => tag.raw ++ run.content

def Page.raw (page : Page) : List Char := page.lead.content ++ restRaw page.rest

-- The result holds every tag of the page as it is, in order, and between them the runs of text
-- with some of their addresses made into links.
def CopiesRest : List (WrittenTag × TextRun) → List Char → Prop
  | [],result => result = []
  | (tag,run) :: rest,result => ∃ run' result', Rewritten run.content run' ∧ CopiesRest rest result' ∧
      result = tag.raw ++ (run' ++ result')

def Copies (page : Page) (result : List Char) : Prop :=
  ∃ lead' result', Rewritten page.lead.content lead' ∧ CopiesRest page.rest result' ∧ result = lead' ++ result'

-- The only places in a value where an address is left alone: its very start, where the name of the
-- attribute ends in href or src, and behind such a name with an equals sign and a single quote.
def GuardedAt (name before : List Char) : Prop :=
  before = [] ∧ ("href".toList <:+ name ∨ "src".toList <:+ name) ∨
    "href='".toList <:+ before ∨ "src='".toList <:+ before

def WrittenTag.Guarded (tag : WrittenTag) : Prop :=
  ∀ a ∈ tag.attributes, ∀ before address, Found a.value before address → GuardedAt a.name before

theorem name_bare {name : List Char} (named : name.all isNameChar = true) : name.count '/' = 0 :=
  List.count_eq_zero.mpr (all_absent (by decide) named)

-- A word in double quotes, read backwards, can only end at the start of the value.
theorem double_word {before name past word : List Char} (noQuote : '"' ∉ before) (noSpace : ' ' ∉ word) :
    ('"' :: '=' :: word) <+: before.reverse ++ '"' :: '=' :: (name.reverse ++ ' ' :: past) ↔
      before = [] ∧ word.reverse <:+ name := by
  cases reversed : before.reverse with
  | nil =>
      have empty : before = [] := List.reverse_eq_nil_iff.mp reversed
      simp only [List.nil_append,List.cons_prefix_cons,true_and,prefix_stop noSpace,empty]
      rw [← List.reverse_prefix,List.reverse_reverse]
  | cons c more =>
      have other : '"' ≠ c := by
        rintro rfl
        exact noQuote (List.mem_reverse.mp (by simp [reversed]))
      have filled : before ≠ [] := by
        rintro rfl
        cases reversed
      simp [List.cons_prefix_cons,other,filled]

theorem single_word {before rest word : List Char} (noQuote : '"' ∉ word) :
    word <+: before.reverse ++ '"' :: rest ↔ word.reverse <:+ before := by
  rw [prefix_stop noQuote,← List.reverse_prefix,List.reverse_reverse]

theorem standsInMarkup_value {a : QuotedAttribute} {before past : List Char}
    (inside : ∀ c ∈ before, c ∈ a.value) :
    standsInMarkup (before.reverse ++ '"' :: '=' :: (a.name.reverse ++ ' ' :: past)) = true ↔
      GuardedAt a.name before := by
  have valueChar : ∀ c ∈ before, isValueChar c = true := fun c member =>
    List.all_eq_true.mp a.quoted c (inside c member)
  have noQuote : '"' ∉ before := fun member => by cases valueChar _ member
  have notClosing : (before.reverse ++ '"' :: '=' :: (a.name.reverse ++ ' ' :: past)).head? ≠ some '>' := by
    cases reversed : before.reverse with
    | nil => simp
    | cons c more =>
        rintro same
        cases Option.some.inj same
        have held := valueChar '>' (List.mem_reverse.mp (by simp [reversed]))
        cases held
  rw [standsInMarkup,decide_eq_false notClosing,Bool.false_and,Bool.or_false]
  simp only [opensValue,List.any_cons,List.any_nil,Bool.or_false,Bool.or_eq_true,List.isPrefixOf_iff_prefix]
  rw [double_word noQuote (by decide),double_word noQuote (by decide),
    single_word (by decide),single_word (by decide)]
  have words : ['f','e','r','h'].reverse = "href".toList ∧ ['c','r','s'].reverse = "src".toList ∧
      ['\'','=','f','e','r','h'].reverse = "href='".toList ∧ ['\'','=','c','r','s'].reverse = "src='".toList := by
    decide
  rw [words.1,words.2.1,words.2.2.1,words.2.2.2,GuardedAt]
  constructor
  · rintro (⟨start,href⟩ | href | ⟨start,src⟩ | src)
    · exact .inl ⟨start,.inl href⟩
    · exact .inr (.inl href)
    · exact .inl ⟨start,.inr src⟩
    · exact .inr (.inr src)
  · rintro (⟨start,href | src⟩ | href | src)
    · exact .inl ⟨start,href⟩
    · exact .inr (.inr (.inl ⟨start,src⟩))
    · exact .inr (.inl href)
    · exact .inr (.inr (.inr src))

theorem found_begins {text before address : List Char} (found : Found text before address) : before <+: text := by
  induction found with
  | here => exact List.nil_prefix
  | skip _ eq _ ih =>
      rw [eq]
      exact List.cons_prefix_cons.mpr ⟨rfl,ih⟩
  | behind _ eq _ ih =>
      rw [eq]
      exact (List.prefix_append_right_inj _).mpr ih

theorem linkFrom_value (a : QuotedAttribute) (past : List Char) :
    linkFrom ('"' :: '=' :: (a.name.reverse ++ ' ' :: past)) 0 a.value = a.value ↔
      ∀ before address, Found a.value before address → GuardedAt a.name before := by
  rw [linkFrom_unchanged]
  refine forall_congr' fun before => forall_congr' fun address => forall_congr' fun found => ?_
  exact standsInMarkup_value fun c member => (found_begins found).subset member

theorem linkFrom_attribute (a : QuotedAttribute) (past : List Char) : linkFrom past 0 a.raw =
    ' ' :: a.name ++ '=' :: '"' ::
      (linkFrom ('"' :: '=' :: (a.name.reverse ++ ' ' :: past)) 0 a.value ++ ['"']) := by
  have bare : (a.name ++ ['=']).count '/' < 2 := by
    rw [List.count_append,name_bare a.named]
    decide
  have raw : a.raw = [] ++ ' ' :: ((a.name ++ ['=']) ++ '"' :: (a.value ++ '"' :: [])) := by
    simp [QuotedAttribute.raw]
  rw [raw,@linkFrom_bare_stop ' ' rfl [] (by decide),@linkFrom_bare_stop '"' rfl _ bare,
    @linkFrom_stop '"' rfl]
  simp [linkFrom]

theorem attribute_guarded (a : QuotedAttribute) (past : List Char) : linkFrom past 0 a.raw = a.raw ↔
    ∀ before address, Found a.value before address → GuardedAt a.name before := by
  rw [linkFrom_attribute,← linkFrom_value a past]
  simp [QuotedAttribute.raw]

theorem attributes_guarded (attributes : List QuotedAttribute) (past : List Char) :
    linkFrom past 0 (attributes.flatMap QuotedAttribute.raw) = attributes.flatMap QuotedAttribute.raw ↔
      ∀ a ∈ attributes, ∀ before address, Found a.value before address → GuardedAt a.name before := by
  induction attributes generalizing past with
  | nil => simp [linkFrom]
  | cons a rest ih =>
      have afresh : linkFrom past 0 (a.raw ++ rest.flatMap QuotedAttribute.raw) =
          linkFrom past 0 a.raw ++ linkFrom (a.raw.reverse ++ past) 0 (rest.flatMap QuotedAttribute.raw) :=
        @linkFrom_afresh '"' rfl past (' ' :: a.name ++ '=' :: '"' :: a.value) _
      rw [List.flatMap_cons,afresh,List.forall_mem_cons,← attribute_guarded a past,← ih (a.raw.reverse ++ past)]
      constructor
      · intro same
        exact (linkFrom_rewritten past a.raw).unique_of_append (.refl a.raw) same
      · rintro ⟨first,others⟩
        rw [first,others]

theorem tag_guarded (tag : WrittenTag) (past : List Char) :
    linkFrom past 0 tag.raw = tag.raw ↔ tag.Guarded := by
  cases tag with
  | closing name named =>
      have bare : (WrittenTag.closing name named).raw.count '/' < 2 := by
        simp [WrittenTag.raw,name_bare named]
      exact ⟨fun _ a member => (List.not_mem_nil member).elim,fun _ => linkFrom_bare past bare⟩
  | opening name named attributes =>
      have bare : name.count '/' < 2 := by rw [name_bare named]; decide
      have inner : ∀ past, linkFrom past 0 (name ++ attributes.flatMap QuotedAttribute.raw) =
          name ++ linkFrom (name.reverse ++ past) 0 (attributes.flatMap QuotedAttribute.raw) := by
        intro past
        cases attributes with
        | nil => simp [linkFrom,linkFrom_bare past bare]
        | cons a rest =>
            obtain ⟨more,opens⟩ : ∃ more, (a :: rest).flatMap QuotedAttribute.raw = ' ' :: more := ⟨_,rfl⟩
            rw [opens,@linkFrom_before_stop ' ' rfl,linkFrom_bare past bare]
      have raw : (WrittenTag.opening name named attributes).raw =
          [] ++ '<' :: ((name ++ attributes.flatMap QuotedAttribute.raw) ++ '>' :: []) := by
        simp [WrittenTag.raw]
      rw [raw,@linkFrom_bare_stop '<' rfl [] (by decide),@linkFrom_stop '>' rfl,inner,WrittenTag.Guarded,
        WrittenTag.attributes,← attributes_guarded attributes (name.reverse ++ ('<' :: past))]
      simp [linkFrom]

theorem linkFrom_run (past : List Char) (run : List Char) (rest : List (WrittenTag × TextRun)) :
    linkFrom past 0 (run ++ restRaw rest) =
      linkFrom past 0 run ++ linkFrom (run.reverse ++ past) 0 (restRaw rest) := by
  refine linkFrom_before_tag past run fun c head => ?_
  rcases rest with _ | ⟨⟨_ | _,next⟩,rest⟩
  · cases head
  · exact (Option.some.inj head).symm
  · exact (Option.some.inj head).symm

theorem linkFrom_tag (past : List Char) (tag : WrittenTag) (rest : List Char) :
    linkFrom past 0 (tag.raw ++ rest) = linkFrom past 0 tag.raw ++ linkFrom (tag.raw.reverse ++ past) 0 rest := by
  cases tag with
  | opening name named attributes => exact @linkFrom_afresh '>' rfl past _ rest
  | closing name named => exact @linkFrom_afresh '>' rfl past ('<' :: '/' :: name) rest

theorem copiesRest_iff (past : List Char) (rest : List (WrittenTag × TextRun)) :
    CopiesRest rest (linkFrom past 0 (restRaw rest)) ↔ ∀ piece ∈ rest, piece.1.Guarded := by
  induction rest generalizing past with
  | nil => simp [CopiesRest,restRaw,linkFrom]
  | cons first rest ih =>
      obtain ⟨tag,run⟩ := first
      have split : linkFrom past 0 (restRaw ((tag,run) :: rest)) = linkFrom past 0 tag.raw ++
          (linkFrom (tag.raw.reverse ++ past) 0 run.content ++
            linkFrom (run.content.reverse ++ (tag.raw.reverse ++ past)) 0 (restRaw rest)) := by
        rw [← linkFrom_run,← linkFrom_tag]
        simp [restRaw]
      rw [split,List.forall_mem_cons,← tag_guarded tag past,
        ← ih (run.content.reverse ++ (tag.raw.reverse ++ past))]
      constructor
      · rintro ⟨run',result',rewritten,copies,same⟩
        obtain ⟨tags,behind⟩ := (linkFrom_rewritten past tag.raw).unique_of_append (.refl tag.raw) same
        obtain ⟨_,others⟩ := (linkFrom_rewritten _ run.content).unique_of_append rewritten behind
        exact ⟨tags,by rw [others]; exact copies⟩
      · rintro ⟨tags,copies⟩
        exact ⟨_,_,linkFrom_rewritten _ run.content,copies,by rw [tags]⟩

end Pages

-- The tags of a page come out as they went in, and only addresses in its text become links,
-- exactly when every address in an attribute value stands where the filter looks for one: at the
-- start of the value of an attribute whose name ends in href or src, or behind href=' or src='.
theorem links_leave_tags_iff (page : Page) :
    Copies page (linkAddresses page.raw) ↔ ∀ piece ∈ page.rest, piece.1.Guarded := by
  rw [← copiesRest_iff (page.lead.content.reverse ++ []) page.rest,linkAddresses,Page.raw,linkFrom_run]
  constructor
  · rintro ⟨lead',result',rewritten,copies,same⟩
    obtain ⟨_,others⟩ := (linkFrom_rewritten _ page.lead.content).unique_of_append rewritten same
    rw [others]
    exact copies
  · intro copies
    exact ⟨_,_,linkFrom_rewritten _ _,copies,rfl⟩

theorem links_break_alternative_text :
    let page : Page := ⟨⟨[],rfl⟩,[(.opening "img".toList rfl [⟨"alt".toList,"https://x.org".toList,rfl,rfl⟩],⟨[],rfl⟩)]⟩
    page.raw = "<img alt=\"https://x.org\">".toList ∧ ¬Copies page (linkAddresses page.raw) := by
  intro page
  refine ⟨rfl,?_⟩
  rintro ⟨lead',result',rewritten,⟨run',more,_,_,rfl⟩,same⟩
  cases rewritten with
  | nil =>
      have bracket := congrArg (·[10]?) same
      cases bracket
  | linked found => cases found

end Redline.Format
