import Mathlib.Data.List.Forall2
import Redline.Proofs.Ordering
import Redline.Proofs.Scalars

namespace Redline.Json

open Redline.Text

-- The space before the parts of a level, and after a colon.
structure Layout where
  line : Nat → List Char
  afterColon : List Char
  line_space : ∀ level, (line level).all isSpace = true
  afterColon_space : afterColon.all isSpace = true

def Layout.oneLine : Layout := ⟨fun _ => [],[],fun _ => rfl,rfl⟩

theorem newLine_space (level : Nat) : (newLine level).all isSpace = true := by
  simp [newLine,isSpace]

def Layout.pages : Layout := ⟨newLine,[' '],newLine_space,rfl⟩

mutual

def Value.laid (l : Layout) (level : Nat) : Value → List Char
  | .null => ['n','u','l','l']
  | .bool true => ['t','r','u','e']
  | .bool false => ['f','a','l','s','e']
  | .number n => n.text
  | .text content => quote content.toList
  | .array [] => ['[',']']
  | .array (item :: rest) =>
      '[' :: l.line (level + 1) ++ item.laid l (level + 1) ++ Value.laidItems l (level + 1) rest ++
        l.line level ++ [']']
  | .object [] => ['\x7b','\x7d']
  | .object ((name,value) :: rest) =>
      '\x7b' :: l.line (level + 1) ++ quote name.toList ++ ':' :: l.afterColon ++ value.laid l (level + 1) ++
        Value.laidMembers l (level + 1) rest ++ l.line level ++ ['\x7d']

def Value.laidItems (l : Layout) (level : Nat) : List Value → List Char
  | [] => []
  | item :: rest => ',' :: l.line level ++ item.laid l level ++ Value.laidItems l level rest

def Value.laidMembers (l : Layout) (level : Nat) : List (String × Value) → List Char
  | [] => []
  | (name,value) :: rest =>
      ',' :: l.line level ++ quote name.toList ++ ':' :: l.afterColon ++ value.laid l level ++
        Value.laidMembers l level rest

end

section Layouts

mutual

theorem laid_oneLine : ∀ (value : Value) (level : Nat), value.laid .oneLine level = value.compact
  | .null,_ => rfl
  | .bool true,_ => rfl
  | .bool false,_ => rfl
  | .number _,_ => rfl
  | .text _,_ => rfl
  | .array [],_ => rfl
  | .array (item :: rest),level => by
      simp [Value.laid,Value.compact,Layout.oneLine,← laidItems_oneLine rest (level + 1),← laid_oneLine item (level + 1)]
  | .object [],_ => rfl
  | .object ((name,value) :: rest),level => by
      simp [Value.laid,Value.compact,Layout.oneLine,← laidMembers_oneLine rest (level + 1),
        ← laid_oneLine value (level + 1)]

theorem laidItems_oneLine : ∀ (rest : List Value) (level : Nat) (item : Value),
    item.compact ++ Value.laidItems .oneLine level rest = Value.compactItems (item :: rest)
  | [],_,item => by simp [Value.laidItems,Value.compactItems]
  | next :: rest,level,item => by
      simp [Value.laidItems,Value.compactItems,Layout.oneLine,← laidItems_oneLine rest level next,
        ← laid_oneLine next level]

theorem laidMembers_oneLine : ∀ (rest : List (String × Value)) (level : Nat) (name : String) (value : Value),
    quote name.toList ++ ':' :: value.compact ++ Value.laidMembers .oneLine level rest =
      Value.compactMembers ((name,value) :: rest)
  | [],_,_,_ => by simp [Value.laidMembers,Value.compactMembers]
  | (next,content) :: rest,level,name,value => by
      simp [Value.laidMembers,Value.compactMembers,Layout.oneLine,← laidMembers_oneLine rest level next content,
        ← laid_oneLine content level]

end

mutual

theorem laid_pages : ∀ (value : Value) (level : Nat), value.laid .pages level = value.indented level
  | .null,_ => rfl
  | .bool true,_ => rfl
  | .bool false,_ => rfl
  | .number _,_ => rfl
  | .text _,_ => rfl
  | .array [],_ => rfl
  | .array (item :: rest),level => by
      rw [Value.indented,← laidItems_pages rest (level + 1) item,← laid_pages item (level + 1)]
      simp [Value.laid,Layout.pages]
  | .object [],_ => rfl
  | .object ((name,value) :: rest),level => by
      rw [Value.indented,← laidMembers_pages rest (level + 1) name value,← laid_pages value (level + 1)]
      simp [Value.laid,Layout.pages]

theorem laidItems_pages : ∀ (rest : List Value) (level : Nat) (item : Value),
    newLine level ++ item.indented level ++ Value.laidItems .pages level rest = Value.indentedItems level (item :: rest)
  | [],level,item => by simp [Value.laidItems,Value.indentedItems]
  | next :: rest,level,item => by
      rw [Value.indentedItems,← laidItems_pages rest level next,← laid_pages next level]
      · simp [Value.laidItems,Layout.pages]
      · exact List.cons_ne_nil next rest

theorem laidMembers_pages : ∀ (rest : List (String × Value)) (level : Nat) (name : String) (value : Value),
    newLine level ++ quote name.toList ++ ':' :: ' ' :: value.indented level ++ Value.laidMembers .pages level rest =
      Value.indentedMembers level ((name,value) :: rest)
  | [],level,name,value => by simp [Value.laidMembers,Value.indentedMembers]
  | (next,content) :: rest,level,name,value => by
      rw [Value.indentedMembers,← laidMembers_pages rest level next content,← laid_pages content level]
      · simp [Value.laidMembers,Layout.pages]
      · exact List.cons_ne_nil _ rest

end

end Layouts

mutual

def Value.outline : Value → Outline
  | .null => .null
  | .bool flag => .bool flag
  | .number n => .number n.literal
  | .text content => .text (some content)
  | .array items => .array (Value.outlines items) true
  | .object members => .object (Value.outlineRows members) true

def Value.outlines : List Value → List Outline
  | [] => []
  | item :: rest => item.outline :: Value.outlines rest

def Value.outlineRows : List (String × Value) → List (Option String × Outline)
  | [] => []
  | (name,value) :: rest => (some name,value.outline) :: Value.outlineRows rest

end

mutual

-- Every number is a whole one of sixty-four bits.
def Value.whole64 : Value → Bool
  | .number (.whole n) => isWhole64 n
  | .number (.binary _) => false
  | .array items => Value.whole64Items items
  | .object members => Value.whole64Rows members
  | _ => true

def Value.whole64Items : List Value → Bool
  | [] => true
  | item :: rest => item.whole64 && Value.whole64Items rest

def Value.whole64Rows : List (String × Value) → Bool
  | [] => true
  | (_,value) :: rest => value.whole64 && Value.whole64Rows rest

end

section Reading

theorem skipSpace_gap {gap : List Char} (space : gap.all isSpace = true) {c : Char} (solid : isSpace c = false)
    (rest : List Char) : skipSpace (gap ++ c :: rest) = c :: rest := by
  rw [skipSpace,List.dropWhile_append_of_pos (List.all_eq_true.mp space)]
  simp [solid]

theorem skipSpace_solid {c : Char} (solid : isSpace c = false) (rest : List Char) : skipSpace (c :: rest) = c :: rest := by
  simp [skipSpace,solid]

theorem numberStart_solid {c : Char} (starts : c = '-' ∨ isDigit c = true) : isSpace c = false ∧ c ≠ ']' := by
  have other (d : Char) (apart : isDigit d = false ∧ d ≠ '-') : c ≠ d := by
    rintro rfl
    rcases starts with minus | digit
    · exact apart.2 minus
    · rw [apart.1] at digit
      cases digit
  refine ⟨?_,other ']' (by decide)⟩
  simp [isSpace,other ' ' (by decide),other '\n' (by decide),other '\t' (by decide),other '\r' (by decide)]

def StartsItem (text : List Char) : Prop := ∃ c rest, text = c :: rest ∧ isSpace c = false ∧ c ≠ ']'

theorem laid_starts (l : Layout) (level : Nat) (value : Value) : StartsItem (value.laid l level) := by
  cases value with
  | null => exact ⟨_,_,rfl,by decide,by decide⟩
  | bool flag => cases flag <;> exact ⟨_,_,rfl,by decide,by decide⟩
  | number n =>
      obtain ⟨c,rest,eq,starts⟩ := n.literal_written.text_start
      rw [n.literal_text] at eq
      exact ⟨c,rest,eq,numberStart_solid starts⟩
  | text content => exact ⟨_,_,rfl,by decide,by decide⟩
  | array items => cases items <;> exact ⟨_,_,rfl,by decide,by decide⟩
  | object members => cases members <;> exact ⟨_,_,rfl,by decide,by decide⟩

theorem StartsItem.append {text : List Char} (starts : StartsItem text) (after : List Char) :
    StartsItem (text ++ after) := by
  obtain ⟨c,rest,rfl,solid⟩ := starts
  exact ⟨c,rest ++ after,rfl,solid⟩

theorem StartsItem.length_pos {text : List Char} (starts : StartsItem text) : 0 < text.length := by
  obtain ⟨c,rest,rfl,_⟩ := starts
  exact Nat.succ_pos rest.length

theorem space_apart {c : Char} (blank : isSpace c = true) : isDigit c = false ∧ c ≠ '.' ∧ c ≠ 'e' ∧ c ≠ 'E' := by
  simp only [isSpace,Bool.or_eq_true,decide_eq_true_eq] at blank
  rcases blank with ((rfl | rfl) | rfl) | rfl <;> decide

theorem endsNumber_gap {gap : List Char} (space : gap.all isSpace = true) {c : Char}
    (apart : isDigit c = false ∧ c ≠ '.' ∧ c ≠ 'e' ∧ c ≠ 'E') (rest : List Char) :
    EndsNumber (gap ++ c :: rest) := by
  cases gap with
  | nil => exact .cons apart rest
  | cons d gap =>
      exact .cons (space_apart (Bool.and_eq_true_iff.mp space).1) (gap ++ c :: rest)

theorem readValue_number {gap : List Char} (space : gap.all isSpace = true) (fuel : Nat) {literal : Literal}
    (written : literal.Written) {after : List Char} (ends : EndsNumber after) :
    Outline.readValue (fuel + 1) (gap ++ (literal.text ++ after)) = (.number literal,some after) := by
  obtain ⟨c,rest,eq,starts⟩ := written.text_start
  have read := Literal.readLiteral_text written ends
  rw [eq] at read ⊢
  rw [Outline.readValue,List.cons_append,skipSpace_gap space (numberStart_solid starts).1]
  -- The words and brackets that a value may begin with are no start of a number.
  have dispatch : (c = '-' || isDigit c) = true := by simpa using starts
  rw [List.cons_append] at read
  generalize rest ++ after = text at read ⊢
  split
  case h_7 =>
    rename_i here
    cases here
    rw [if_pos dispatch,read]
  case h_8 =>
    rename_i here
    cases here
  all_goals
    rename_i here
    rw [(List.cons.inj here).1] at dispatch
    exact absurd dispatch (by decide)

theorem readItems_close {gap : List Char} (space : gap.all isSpace = true) (fuel : Nat) (first : Bool)
    (after : List Char) : Outline.readItems (fuel + 1) first (gap ++ ']' :: after) = ([],true,some after) := by
  have here := skipSpace_gap space (show isSpace ']' = false by decide) after
  cases first <;> rw [Outline.readItems.eq_def] <;> simp only [here]

theorem readItems_first {gap : List Char} (space : gap.all isSpace = true) (fuel : Nat) {text : List Char}
    (starts : StartsItem text) : Outline.readItems (fuel + 1) true (gap ++ text) = Outline.readItem fuel text := by
  obtain ⟨c,rest,rfl,solid⟩ := starts
  rw [Outline.readItems.eq_def]
  simp only [skipSpace_gap space solid.1]
  split
  case h_1 =>
    rename_i here
    exact absurd (List.cons.inj here).1 solid.2
  case h_3 => rfl
  all_goals contradiction

theorem readItems_next {gap : List Char} (space : gap.all isSpace = true) (fuel : Nat) {text : List Char}
    (starts : StartsItem text) :
    Outline.readItems (fuel + 1) false (',' :: (gap ++ text)) = Outline.readItem fuel text := by
  obtain ⟨c,rest,rfl,solid⟩ := starts
  have comma : skipSpace (',' :: (gap ++ c :: rest)) = ',' :: (gap ++ c :: rest) :=
    skipSpace_solid (by decide) _
  rw [Outline.readItems.eq_def]
  simp only [comma,skipSpace_gap space solid.1]
  split
  · rename_i here
    exact absurd (List.cons.inj here).1 solid.2
  · rfl

theorem readMembers_close {gap : List Char} (space : gap.all isSpace = true) (fuel : Nat) (first : Bool)
    (after : List Char) : Outline.readMembers (fuel + 1) first (gap ++ '\x7d' :: after) = ([],true,some after) := by
  have here := skipSpace_gap space (show isSpace '\x7d' = false by decide) after
  cases first <;> rw [Outline.readMembers.eq_def] <;> simp only [here]

theorem readMembers_first {gap : List Char} (space : gap.all isSpace = true) (fuel : Nat) (text : List Char) :
    Outline.readMembers (fuel + 1) true (gap ++ '"' :: text) = Outline.readMember fuel text := by
  have here := skipSpace_gap space (show isSpace '"' = false by decide) text
  rw [Outline.readMembers.eq_def]
  simp only [here]

theorem readMembers_next {gap : List Char} (space : gap.all isSpace = true) (fuel : Nat) (text : List Char) :
    Outline.readMembers (fuel + 1) false (',' :: (gap ++ '"' :: text)) = Outline.readMember fuel text := by
  have comma : skipSpace (',' :: (gap ++ '"' :: text)) = ',' :: (gap ++ '"' :: text) :=
    skipSpace_solid (by decide) _
  have here := skipSpace_gap space (show isSpace '"' = false by decide) text
  rw [Outline.readMembers.eq_def]
  simp only [comma,here]

-- What reading a value, the items of a list and the members of an object comes to, before any
-- rest. Two steps of fuel for each character are enough.
def ReadsValue (l : Layout) (fuel : Nat) : Prop :=
  ∀ (value : Value) (level : Nat) (gap after : List Char), gap.all isSpace = true → EndsNumber after →
    2 * (value.laid l level).length ≤ fuel →
    Outline.readValue fuel (gap ++ (value.laid l level ++ after)) = (value.outline,some after)

def ReadsItems (l : Layout) (fuel : Nat) : Prop :=
  ∀ (item : Value) (rest : List Value) (level : Nat) (gap after : List Char), gap.all isSpace = true →
    2 * (item.laid l level ++ Value.laidItems l level rest).length < fuel →
    Outline.readItem fuel (item.laid l level ++ (Value.laidItems l level rest ++ (gap ++ ']' :: after))) =
      (Value.outlines (item :: rest),true,some after)

def ReadsMembers (l : Layout) (fuel : Nat) : Prop :=
  ∀ (name : String) (value : Value) (rest : List (String × Value)) (level : Nat) (gap after : List Char),
    gap.all isSpace = true → 2 * (value.laid l level ++ Value.laidMembers l level rest).length < fuel →
    Outline.readMember fuel (name.toList.flatMap escapeChar ++ '"' :: ':' :: (l.afterColon ++ (value.laid l level ++
      (Value.laidMembers l level rest ++ (gap ++ '\x7d' :: after))))) =
      (Value.outlineRows ((name,value) :: rest),true,some after)

theorem readValue_array (l : Layout) {fuel : Nat} (items : ∀ below, fuel = below + 1 → ReadsItems l below)
    (list : List Value) (level : Nat) {gap : List Char} (after : List Char) (space : gap.all isSpace = true)
    (enough : 2 * ((Value.array list).laid l level).length ≤ fuel + 1) :
    Outline.readValue (fuel + 1) (gap ++ ((Value.array list).laid l level ++ after)) =
      ((Value.array list).outline,some after) := by
  have bracket (text : List Char) := skipSpace_gap space (show isSpace '[' = false by decide) text
  rw [Outline.readValue]
  cases list with
  | nil =>
      simp only [Value.laid,List.length_cons,List.length_nil] at enough
      obtain ⟨below,rfl⟩ : ∃ below, fuel = below + 1 := ⟨fuel - 1,by omega⟩
      have close := @readItems_close [] rfl below true after
      simp only [List.nil_append] at close
      simp only [Value.laid,List.cons_append,List.nil_append,bracket,close]
      rfl
  | cons item rest =>
      simp only [Value.laid,List.length_append,List.length_cons,List.length_nil] at enough
      obtain ⟨below,rfl⟩ : ∃ below, fuel = below + 1 := ⟨fuel - 1,by omega⟩
      have read := items below rfl item rest (level + 1) (l.line level) after (l.line_space level) (by
        rw [List.length_append]
        omega)
      have first := readItems_first (l.line_space (level + 1)) below ((laid_starts l (level + 1) item).append
        (Value.laidItems l (level + 1) rest ++ (l.line level ++ ']' :: after)))
      rw [read] at first
      simp only [Value.laid,List.cons_append,List.append_assoc,List.nil_append,bracket,first]
      rfl

theorem readValue_object (l : Layout) {fuel : Nat} (members : ∀ below, fuel = below + 1 → ReadsMembers l below)
    (rows : List (String × Value)) (level : Nat) {gap : List Char} (after : List Char) (space : gap.all isSpace = true)
    (enough : 2 * ((Value.object rows).laid l level).length ≤ fuel + 1) :
    Outline.readValue (fuel + 1) (gap ++ ((Value.object rows).laid l level ++ after)) =
      ((Value.object rows).outline,some after) := by
  have bracket (text : List Char) := skipSpace_gap space (show isSpace '\x7b' = false by decide) text
  rw [Outline.readValue]
  cases rows with
  | nil =>
      simp only [Value.laid,List.length_cons,List.length_nil] at enough
      obtain ⟨below,rfl⟩ : ∃ below, fuel = below + 1 := ⟨fuel - 1,by omega⟩
      have close := @readMembers_close [] rfl below true after
      simp only [List.nil_append] at close
      simp only [Value.laid,List.cons_append,List.nil_append,bracket,close]
      rfl
  | cons row rest =>
      obtain ⟨name,value⟩ := row
      simp only [Value.laid,List.length_append,List.length_cons,List.length_nil] at enough
      obtain ⟨below,rfl⟩ : ∃ below, fuel = below + 1 := ⟨fuel - 1,by omega⟩
      have read := members below rfl name value rest (level + 1) (l.line level) after (l.line_space level) (by
        rw [List.length_append]
        omega)
      have first := readMembers_first (l.line_space (level + 1)) below (name.toList.flatMap escapeChar ++ '"' :: ':' ::
        (l.afterColon ++ (value.laid l (level + 1) ++
          (Value.laidMembers l (level + 1) rest ++ (l.line level ++ '\x7d' :: after)))))
      rw [read] at first
      simp only [Value.laid,quote,List.cons_append,List.append_assoc,List.nil_append,bracket,first]
      rfl

theorem readsValue_succ (l : Layout) (fuel : Nat) (items : ∀ below, fuel = below + 1 → ReadsItems l below)
    (members : ∀ below, fuel = below + 1 → ReadsMembers l below) : ReadsValue l (fuel + 1) := by
  intro value level gap after space ends enough
  have word (c : Char) (text : List Char) (solid : isSpace c = false) := skipSpace_gap space solid text
  cases value with
  | null =>
      rw [Outline.readValue]
      simp only [Value.laid,List.cons_append,word,Value.outline,show isSpace 'n' = false by decide,List.nil_append]
  | bool flag =>
      rw [Outline.readValue]
      cases flag
      · simp only [Value.laid,List.cons_append,word,Value.outline,show isSpace 'f' = false by decide,List.nil_append]
      · simp only [Value.laid,List.cons_append,word,Value.outline,show isSpace 't' = false by decide,List.nil_append]
  | number n =>
      have read := readValue_number space fuel n.literal_written ends
      rwa [n.literal_text] at read
  | text content =>
      rw [Outline.readValue]
      simp only [Value.laid,quote,List.cons_append,word,Value.outline,show isSpace '"' = false by decide,
        List.append_assoc,List.nil_append,readText_quoted]
  | array list => exact readValue_array l items list level after space enough
  | object rows => exact readValue_object l members rows level after space enough

theorem readsItems_succ (l : Layout) (fuel : Nat) (values : ReadsValue l fuel)
    (items : ∀ below, fuel = below + 1 → ReadsItems l below) : ReadsItems l (fuel + 1) := by
  intro item rest level gap after space enough
  rw [List.length_append] at enough
  have filled := (laid_starts l level item).length_pos
  obtain ⟨below,rfl⟩ : ∃ below, fuel = below + 1 := ⟨fuel - 1,by omega⟩
  cases rest with
  | nil =>
      have ends := endsNumber_gap space (show isDigit ']' = false ∧ _ by decide) after
      have read := values item level [] (gap ++ ']' :: after) rfl ends (by omega)
      simp only [List.nil_append] at read
      simp only [Outline.readItem,Value.laidItems,List.nil_append,read,readItems_close space below false after]
      rfl
  | cons next rest =>
      simp only [Value.laidItems,List.length_append,List.length_cons] at enough
      have ends := EndsNumber.cons (show isDigit ',' = false ∧ _ by decide)
        (l.line level ++ (next.laid l level ++ (Value.laidItems l level rest ++ (gap ++ ']' :: after))))
      have read := values item level [] _ rfl ends (by omega)
      have others := items below rfl next rest level gap after space (by
        rw [List.length_append]
        omega)
      have goes := readItems_next (l.line_space level) below ((laid_starts l level next).append
        (Value.laidItems l level rest ++ (gap ++ ']' :: after)))
      rw [others] at goes
      simp only [List.nil_append] at read
      simp only [Outline.readItem,Value.laidItems,List.cons_append,List.append_assoc,read,goes]
      rfl

theorem readsMembers_succ (l : Layout) (fuel : Nat) (values : ReadsValue l fuel)
    (members : ∀ below, fuel = below + 1 → ReadsMembers l below) : ReadsMembers l (fuel + 1) := by
  intro name value rest level gap after space enough
  rw [List.length_append] at enough
  have filled := (laid_starts l level value).length_pos
  have colon (text : List Char) : skipSpace (':' :: text) = ':' :: text :=
    skipSpace_solid (by decide) text
  obtain ⟨below,rfl⟩ : ∃ below, fuel = below + 1 := ⟨fuel - 1,by omega⟩
  cases rest with
  | nil =>
      have ends := endsNumber_gap space (show isDigit '\x7d' = false ∧ _ by decide) after
      have read := values value level l.afterColon (gap ++ '\x7d' :: after) l.afterColon_space ends (by omega)
      simp only [Outline.readMember,readText_quoted,colon,Value.laidMembers,List.nil_append,read,
        readMembers_close space below false after]
      rfl
  | cons row rest =>
      obtain ⟨next,content⟩ := row
      simp only [Value.laidMembers,List.length_append,List.length_cons] at enough
      have ends := EndsNumber.cons (show isDigit ',' = false ∧ _ by decide)
        (l.line level ++ ('"' :: (next.toList.flatMap escapeChar ++ '"' :: ':' :: (l.afterColon ++
          (content.laid l level ++ (Value.laidMembers l level rest ++ (gap ++ '\x7d' :: after)))))))
      have read := values value level l.afterColon _ l.afterColon_space ends (by omega)
      have others := members below rfl next content rest level gap after space (by
        rw [List.length_append]
        omega)
      have goes := readMembers_next (l.line_space level) below (next.toList.flatMap escapeChar ++ '"' :: ':' ::
        (l.afterColon ++ (content.laid l level ++ (Value.laidMembers l level rest ++ (gap ++ '\x7d' :: after)))))
      rw [others] at goes
      simp only [Outline.readMember,readText_quoted,colon,Value.laidMembers,quote,List.cons_append,List.nil_append,
        List.append_assoc,read,goes]
      rfl

-- The induction is on the fuel: reading goes from a value to its items, from an item to its value
-- and on to the next item, one step of fuel each time.
theorem reads_laid (l : Layout) (fuel : Nat) : ReadsValue l fuel ∧ ReadsItems l fuel ∧ ReadsMembers l fuel := by
  induction fuel using Nat.strongRecOn with
  | ind fuel ih =>
      cases fuel with
      | zero =>
          refine ⟨?_,?_,?_⟩
          · intro value level gap after space ends enough
            have filled := (laid_starts l level value).length_pos
            omega
          · intro _ _ _ _ _ _ enough
            cases enough
          · intro _ _ _ _ _ _ _ enough
            cases enough
      | succ fuel =>
          have values := (ih fuel (Nat.lt_succ_self fuel)).1
          have items : ∀ below, fuel = below + 1 → ReadsItems l below := by
            rintro below rfl
            exact (ih below (by omega)).2.1
          have members : ∀ below, fuel = below + 1 → ReadsMembers l below := by
            rintro below rfl
            exact (ih below (by omega)).2.2
          exact ⟨readsValue_succ l fuel items members,readsItems_succ l fuel values items,
            readsMembers_succ l fuel values members⟩

theorem ofText_laid (l : Layout) (level : Nat) (value : Value) (after : List Char)
    (space : after.all isSpace = true) : Outline.ofText (value.laid l level ++ after) = (value.outline,true) := by
  have ends : EndsNumber after := by
    cases after with
    | nil => exact .nil
    | cons c rest =>
        have blank : isSpace c = true := (Bool.and_eq_true_iff.mp space).1
        exact EndsNumber.cons (space_apart blank) rest
  have read := (reads_laid l (2 * (value.laid l level ++ after).length + 2)).1 value level [] after rfl ends (by
    rw [List.length_append]
    omega)
  have nothing : skipSpace after = [] := by
    have dropped : (after ++ []).dropWhile isSpace = [] := List.dropWhile_append_of_pos (List.all_eq_true.mp space)
    rwa [List.append_nil] at dropped
  rw [List.nil_append] at read
  simp only [Outline.ofText,read,nothing,List.isEmpty_nil]

theorem ofText_line (value : Value) : Outline.ofText value.line.toList = (value.outline,true) := by
  have read := ofText_laid .oneLine 0 value [] rfl
  rw [List.append_nil,laid_oneLine] at read
  simpa [Value.line] using read

theorem ofText_page (value : Value) : Outline.ofText (value.page ++ "\n").toList = (value.outline,true) := by
  have read := ofText_laid .pages 0 value ['\n'] rfl
  rw [laid_pages] at read
  simpa [Value.page] using read

end Reading

end Redline.Json
