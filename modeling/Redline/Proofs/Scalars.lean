import Redline.Json.Outline
import Redline.Json.Text

namespace Redline.Text

theorem isDigit_digitChar (digit : Nat) (small : digit < 10) : isDigit (digitChar digit) = true := by
  have cases : ∀ d, d < 10 → isDigit (digitChar d) = true := by decide
  exact cases digit small

theorem decimal_digits (n : Nat) : ∀ c ∈ decimal n, isDigit c = true := by
  induction n using Nat.strongRecOn with
  | ind n ih =>
      unfold decimal
      split
      · rename_i small
        intro c member
        rw [List.mem_singleton.mp member]
        exact isDigit_digitChar n small
      · intro c member
        rcases List.mem_append.mp member with front | last
        · exact ih (n / 10) (by omega) c front
        · rw [List.mem_singleton.mp last]
          exact isDigit_digitChar (n % 10) (by omega)

theorem decimal_head (n : Nat) :
    ∃ digit rest, decimal n = digitChar digit :: rest ∧ digit < 10 ∧ (digit = 0 → n = 0) := by
  induction n using Nat.strongRecOn with
  | ind n ih =>
      unfold decimal
      split
      · rename_i small
        exact ⟨n,[],rfl,small,id⟩
      · obtain ⟨digit,rest,eq,small,zero⟩ := ih (n / 10) (by omega)
        refine ⟨digit,rest ++ [digitChar (n % 10)],by rw [eq]; rfl,small,?_⟩
        intro none_
        have := zero none_
        omega

theorem decimal_zero : decimal 0 = ['0'] := by
  unfold decimal
  rfl

end Redline.Text

namespace Redline.Json

open Redline.Text

def EndsNumber (after : List Char) : Prop :=
  ∀ c rest, after = c :: rest → isDigit c = false ∧ c ≠ '.' ∧ c ≠ 'e' ∧ c ≠ 'E'

theorem EndsNumber.nil : EndsNumber [] := by
  intro c rest eq
  cases eq

theorem EndsNumber.cons {c : Char} (apart : isDigit c = false ∧ c ≠ '.' ∧ c ≠ 'e' ∧ c ≠ 'E') (rest : List Char) :
    EndsNumber (c :: rest) := by
  intro d behind eq
  cases eq
  exact apart

def EndsDigits (after : List Char) : Prop := ∀ c rest, after = c :: rest → isDigit c = false

theorem EndsNumber.endsDigits {after : List Char} (ends : EndsNumber after) : EndsDigits after :=
  fun c rest eq => (ends c rest eq).1

theorem EndsDigits.cons {c : Char} (apart : isDigit c = false) (rest : List Char) : EndsDigits (c :: rest) := by
  intro d behind eq
  cases eq
  exact apart

section Literals

theorem takeDigits_append {digits after : List Char} (all : ∀ c ∈ digits, isDigit c = true) (ends : EndsDigits after) :
    takeDigits (digits ++ after) = (digits,after) := by
  have stop : after.takeWhile isDigit = [] ∧ after.dropWhile isDigit = after := by
    cases after with
    | nil => exact ⟨rfl,rfl⟩
    | cons c rest =>
        have other := ends c rest rfl
        simp [other]
  rw [takeDigits,List.takeWhile_append_of_pos all,List.dropWhile_append_of_pos all,stop.1,stop.2,List.append_nil]

theorem readFraction_none {after : List Char} (pointless : ∀ rest, after ≠ '.' :: rest) :
    readFraction after = some ([],after) := by
  unfold readFraction
  split
  · exact absurd rfl (pointless _)
  · rfl

theorem readPower_none {after : List Char} (ends : EndsNumber after) : readPower after = some (false,[],after) := by
  cases after with
  | nil => rfl
  | cons c rest =>
      obtain ⟨_,_,small,large⟩ := ends c rest rfl
      unfold readPower
      exact if_neg (by simp [small,large])

namespace Literal

variable {l : Literal}

def fractionText (l : Literal) : List Char := if l.fraction.isEmpty then [] else '.' :: l.fraction

def powerText (l : Literal) : List Char :=
  if l.power.isEmpty then [] else 'e' :: (if l.powerNegative then '-' else '+') :: l.power

def text (l : Literal) : List Char :=
  (if l.negative then ['-'] else []) ++ (l.digits ++ (l.fractionText ++ l.powerText))

-- A leading zero stands alone, and an absent exponent has no sign.
structure Written (l : Literal) : Prop where
  digits : ∀ c ∈ l.digits, isDigit c = true
  filled : l.digits ≠ []
  alone : l.digits.head? = some '0' → l.digits.length ≤ 1
  fraction : ∀ c ∈ l.fraction, isDigit c = true
  power : ∀ c ∈ l.power, isDigit c = true
  unsigned : l.power = [] → l.powerNegative = false

theorem isEmpty_filled {list : List Char} (filled : list ≠ []) : list.isEmpty = false := List.isEmpty_eq_false_iff.mpr filled

theorem readPower_text (written : l.Written) {after : List Char} (ends : EndsNumber after) :
    readPower (l.powerText ++ after) = some (l.powerNegative,l.power,after) := by
  unfold powerText
  split
  · rename_i absent
    have none_ := List.isEmpty_iff.mp absent
    rw [List.nil_append,readPower_none ends,none_,written.unsigned none_]
  · rename_i present
    have filled := Bool.not_eq_true _ ▸ present
    have digits := takeDigits_append written.power ends.endsDigits
    cases l.powerNegative <;> simp [readPower,digits,filled]

theorem powerText_ends (l : Literal) {after : List Char} (ends : EndsNumber after) :
    EndsDigits (l.powerText ++ after) ∧ ∀ rest, l.powerText ++ after ≠ '.' :: rest := by
  unfold powerText
  split
  · refine ⟨ends.endsDigits,?_⟩
    intro rest eq
    exact (ends _ _ eq).2.1 rfl
  · refine ⟨.cons (by decide) _,?_⟩
    intro rest eq
    exact absurd (List.cons.inj eq).1 (by decide)

theorem readFraction_text (written : l.Written) {after : List Char} (ends : EndsNumber after) :
    readFraction (l.fractionText ++ (l.powerText ++ after)) = some (l.fraction,l.powerText ++ after) := by
  obtain ⟨stops,pointless⟩ := l.powerText_ends ends
  unfold fractionText
  split
  · rename_i absent
    rw [List.nil_append,readFraction_none pointless,List.isEmpty_iff.mp absent]
  · rename_i present
    have filled := Bool.not_eq_true _ ▸ present
    have digits := takeDigits_append written.fraction stops
    simp [readFraction,digits,filled]

theorem fractionText_ends (l : Literal) {after : List Char} (ends : EndsNumber after) :
    EndsDigits (l.fractionText ++ (l.powerText ++ after)) := by
  unfold fractionText
  split
  · exact (l.powerText_ends ends).1
  · exact .cons (by decide) _

theorem Written.text_start (written : l.Written) : ∃ c rest, l.text = c :: rest ∧ (c = '-' ∨ isDigit c = true) := by
  obtain ⟨digit,rest,eq⟩ := List.exists_cons_of_ne_nil written.filled
  unfold text
  split
  · exact ⟨_,_,rfl,.inl rfl⟩
  · rw [eq]
    exact ⟨_,_,rfl,.inr (written.digits digit (eq ▸ .head _))⟩

theorem readLiteral_text (written : l.Written) {after : List Char} (ends : EndsNumber after) :
    readLiteral (l.text ++ after) = some (l,after) := by
  obtain ⟨digit,rest,eq⟩ := List.exists_cons_of_ne_nil written.filled
  have whole := takeDigits_append written.digits (l.fractionText_ends ends)
  have filled := isEmpty_filled written.filled
  have alone : (l.digits.head? = some '0' && decide (l.digits.length > 1)) = false := by
    simp only [Bool.and_eq_false_iff,decide_eq_false_iff_not]
    by_cases zero : l.digits.head? = some '0'
    · exact .inr (Nat.not_lt.mpr (written.alone zero))
    · exact .inl zero
  have fraction := readFraction_text written ends
  have power := readPower_text written ends
  have unsigned : ∀ tail, l.digits ++ (l.fractionText ++ (l.powerText ++ after)) ≠ '-' :: tail := by
    intro tail same
    rw [eq] at same
    have minus : isDigit '-' = true := (List.cons.inj same).1 ▸ written.digits digit (eq ▸ .head _)
    revert minus
    decide
  unfold readLiteral text
  rw [List.append_assoc,List.append_assoc,List.append_assoc]
  cases negative : l.negative with
  | true =>
      simp only [if_true,List.cons_append,List.nil_append,whole,filled,alone,Bool.or_self,Bool.false_eq_true,if_false,
        fraction,power,Option.bind_eq_bind,Option.bind_some]
      rw [← negative]
      rfl
  | false =>
      simp only [Bool.false_eq_true,if_false,List.nil_append]
      simp only [whole,filled,alone,Bool.or_self,Bool.false_eq_true,if_false,fraction,power,Option.bind_eq_bind,
        Option.bind_some]
      rw [← negative]
      rfl

end Literal

end Literals

section Numbers

theorem decimal_alone {n : Nat} (more : List Char) (solid : n = 0 → more = []) :
    (decimal n ++ more).head? = some '0' → (decimal n ++ more).length ≤ 1 := by
  obtain ⟨digit,rest,eq,small,zero⟩ := decimal_head n
  intro head
  have other : ∀ d, d < 10 → d ≠ 0 → digitChar d ≠ '0' := by decide
  by_cases null : n = 0
  · rw [null,solid null,decimal_zero]
    exact Nat.le_refl 1
  · rw [eq] at head
    exact absurd (Option.some.inj head) (other digit small fun none_ => null (zero none_))

theorem decimal_filled (n : Nat) : decimal n ≠ [] := by
  obtain ⟨digit,rest,eq,_⟩ := decimal_head n
  rw [eq]
  exact List.cons_ne_nil _ _

def Literal.ofInt (n : Int) : Literal := ⟨decide (n < 0),decimal n.natAbs,[],false,[]⟩

theorem Literal.ofInt_text (n : Int) : (Literal.ofInt n).text = decimalInt n := by
  unfold Literal.text decimalInt
  by_cases negative : n < 0 <;> simp [Literal.ofInt,Literal.fractionText,Literal.powerText,negative]

theorem Literal.ofInt_written (n : Int) : (Literal.ofInt n).Written := by
  have alone := @decimal_alone n.natAbs [] fun _ => rfl
  rw [List.append_nil] at alone
  exact ⟨decimal_digits n.natAbs,decimal_filled _,alone,List.forall_mem_nil _,List.forall_mem_nil _,fun _ => rfl⟩

def Literal.ofDigits (negative : Bool) (digits : Nat) (power : Int) : Literal :=
  let text := decimal digits
  let point : Int := text.length + power
  if 0 ≤ power ∧ point ≤ 16 then ⟨negative,text ++ List.replicate power.toNat '0',['0'],false,[]⟩
  else if 0 < point ∧ point ≤ 16 then ⟨negative,text.take point.toNat,text.drop point.toNat,false,[]⟩
  else if -5 < point ∧ point ≤ 0 then ⟨negative,['0'],List.replicate (-point).toNat '0' ++ text,false,[]⟩
  else ⟨negative,text.take 1,text.drop 1,decide (point - 1 < 0),decimal (point - 1).natAbs⟩

theorem drop_filled {text : List Char} {power : Int} (behind : ¬(0 ≤ power ∧ (text.length : Int) + power ≤ 16))
    (inside : 0 < (text.length : Int) + power ∧ (text.length : Int) + power ≤ 16) :
    text.drop ((text.length : Int) + power).toNat ≠ [] := by
  intro nothing
  have short := List.drop_eq_nil_iff.mp nothing
  omega

theorem Literal.ofDigits_text (negative : Bool) (digits : Nat) (power : Int) :
    (Literal.ofDigits negative digits power).text = (if negative then ['-'] else []) ++ digitsText digits power := by
  unfold Literal.ofDigits digitsText
  have filled := decimal_filled digits
  generalize decimal digits = text at filled ⊢
  dsimp only
  split
  · simp [Literal.text,Literal.fractionText,Literal.powerText]
  split
  · rename_i behind inside
    have more := Literal.isEmpty_filled (drop_filled behind inside)
    simp [Literal.text,Literal.fractionText,Literal.powerText,more]
  split
  · simp [Literal.text,Literal.fractionText,Literal.powerText,filled]
  · have exponent := Literal.isEmpty_filled (decimal_filled ((text.length : Int) + power - 1).natAbs)
    generalize (text.length : Int) + power - 1 = shift at exponent ⊢
    by_cases below : shift < 0
    · simp [Literal.text,Literal.fractionText,Literal.powerText,exponent,decimalInt,below,Int.not_le.mpr below]
    · simp [Literal.text,Literal.fractionText,Literal.powerText,exponent,decimalInt,below,Int.not_lt.mp below]

theorem replicate_digits (n : Nat) : ∀ c ∈ List.replicate n '0', isDigit c = true := by
  intro c member
  rw [List.eq_of_mem_replicate member]
  decide

theorem append_digits {first second : List Char} (one : ∀ c ∈ first, isDigit c = true)
    (two : ∀ c ∈ second, isDigit c = true) : ∀ c ∈ first ++ second, isDigit c = true :=
  fun c member => (List.mem_append.mp member).elim (one c) (two c)

theorem Literal.ofDigits_written (negative : Bool) {digits : Nat} {power : Int} (solid : digits = 0 → power = 0) :
    (Literal.ofDigits negative digits power).Written := by
  have all := decimal_digits digits
  have filled := decimal_filled digits
  have taken (n : Nat) : ∀ c ∈ (decimal digits).take n, isDigit c = true := fun c member => all c (List.mem_of_mem_take member)
  have dropped (n : Nat) : ∀ c ∈ (decimal digits).drop n, isDigit c = true := fun c member => all c (List.mem_of_mem_drop member)
  -- What is cut off the digits begins as they do.
  have cut (n : Nat) (some_ : 0 < n) : (decimal digits).take n ≠ [] ∧
      (((decimal digits).take n).head? = some '0' → ((decimal digits).take n).length ≤ 1) := by
    refine ⟨fun nothing => (List.take_eq_nil_iff.mp nothing).elim (by omega) filled,?_⟩
    intro head
    have alone := @decimal_alone digits [] fun _ => rfl
    rw [List.append_nil] at alone
    rw [List.head?_take,if_neg (by omega)] at head
    have short := alone head
    rw [List.length_take]
    omega
  unfold Literal.ofDigits
  dsimp only
  split
  · refine ⟨append_digits all (replicate_digits _),?_,decimal_alone _ ?_,replicate_digits 1,List.forall_mem_nil _,fun _ => rfl⟩
    · exact fun nothing => filled (List.append_eq_nil_iff.mp nothing).1
    · intro zero
      rw [solid zero]
      rfl
  split
  · rename_i inside
    obtain ⟨some_,alone⟩ := cut ((decimal digits).length + power).toNat (by omega)
    exact ⟨taken _,some_,alone,dropped _,List.forall_mem_nil _,fun _ => rfl⟩
  split
  · exact ⟨replicate_digits 1,List.cons_ne_nil _ _,fun _ => Nat.le_refl 1,append_digits (replicate_digits _) all,
      List.forall_mem_nil _,fun _ => rfl⟩
  · obtain ⟨some_,alone⟩ := cut 1 (Nat.zero_lt_one)
    exact ⟨taken 1,some_,alone,dropped 1,decimal_digits _,fun nothing => absurd nothing (decimal_filled _)⟩

theorem Literal.binary?_binary {l : Literal} {number : Number} (read : l.binary? = some number) :
    ∃ value, number = .binary value := by
  obtain ⟨value,_,same⟩ := Option.bind_eq_some_iff.mp read
  exact ⟨value,(Option.some.inj same).symm⟩

theorem Literal.ofDigits_binary (negative : Bool) (digits : Nat) (power : Int) {number : Number}
    (read : (Literal.ofDigits negative digits power).number? = some number) : ∃ value, number = .binary value := by
  have parts : ((Literal.ofDigits negative digits power).fraction.isEmpty &&
      (Literal.ofDigits negative digits power).power.isEmpty) = false := by
    have filled := decimal_filled digits
    unfold Literal.ofDigits
    generalize decimal digits = text at filled ⊢
    dsimp only
    split
    · rfl
    split
    · rename_i behind inside
      rw [Literal.isEmpty_filled (drop_filled behind inside)]
      rfl
    split
    · rw [Literal.isEmpty_filled fun nothing => filled (List.append_eq_nil_iff.mp nothing).2]
      rfl
    · rw [Literal.isEmpty_filled (decimal_filled _),Bool.and_false]
  simp only [Literal.number?,parts,Bool.false_and,Bool.false_eq_true,if_false] at read
  exact Literal.binary?_binary read

namespace Binary64

theorem onGrid?_filled {mantissa : Nat} {exponent power : Int} {found : Nat}
    (grid : onGrid? mantissa exponent power = some found) : found ≠ 0 := by
  unfold onGrid? at grid
  dsimp only at grid
  split at grid
  · rename_i inside _
    have above := (Bool.and_eq_true_iff.mp inside).2
    have more := of_decide_eq_true above
    split at grid
    · cases grid
      omega
    split at grid
    · cases grid
      omega
    · cases grid
      omega
  · rename_i inside _
    have above := (Bool.and_eq_true_iff.mp inside).2
    have more := of_decide_eq_true above
    cases grid
    omega
  · cases grid
    exact Nat.succ_ne_zero _
  · cases grid

theorem shortestFrom_filled {mantissa : Nat} (filled : mantissa ≠ 0) (exponent leading : Int) (digits fuel : Nat) :
    (shortestFrom mantissa exponent leading digits fuel).1 ≠ 0 := by
  induction fuel generalizing digits with
  | zero => exact filled
  | succ fuel ih =>
      rw [shortestFrom]
      split
      · rename_i found grid
        exact onGrid?_filled grid
      · exact ih (digits + 1)

theorem withoutTrailingZeros_filled {digits : Nat} (filled : digits ≠ 0) (power : Int) (fuel : Nat) :
    (withoutTrailingZeros digits power fuel).1 ≠ 0 := by
  induction fuel generalizing digits power with
  | zero => exact filled
  | succ fuel ih =>
      rw [withoutTrailingZeros]
      split
      · exact ih (by omega) (power + 1)
      · exact filled

theorem shortest_filled {mantissa : Nat} (filled : mantissa ≠ 0) (exponent : Int) : (shortest mantissa exponent).1 ≠ 0 := by
  let leading := leadingPower (numerator (mantissa,exponent)) (denominator (mantissa,exponent)) 400
  exact withoutTrailingZeros_filled (shortestFrom_filled filled exponent leading 1 17) _ 20

def literal (value : Binary64) : Literal :=
  if value.mantissa = 0 then .ofDigits value.negative 0 0
  else .ofDigits value.negative (shortest value.mantissa value.exponent).1 (shortest value.mantissa value.exponent).2

theorem literal_text (value : Binary64) : value.literal.text = value.text := by
  unfold literal text
  split
  · rw [Literal.ofDigits_text]
    have zero : digitsText 0 0 = ['0','.','0'] := by
      unfold digitsText
      rw [decimal_zero]
      rfl
    rw [zero]
    cases value.negative <;> rfl
  · rw [Literal.ofDigits_text]
    cases value.negative <;> rfl

theorem literal_written (value : Binary64) : value.literal.Written := by
  unfold literal
  split
  · exact Literal.ofDigits_written _ fun _ => rfl
  · rename_i filled
    apply Literal.ofDigits_written
    intro zero
    exact absurd zero (shortest_filled filled _)

theorem literal_binary (value : Binary64) {number : Number} (read : value.literal.number? = some number) :
    ∃ rounded, number = .binary rounded := by
  unfold literal at read
  split at read <;> exact Literal.ofDigits_binary _ _ _ read

end Binary64

def isWhole64 (n : Int) : Bool := -(Int.pow 2 63) ≤ n && n < Int.pow 2 64

theorem ofInt_number? {n : Int} (small : isWhole64 n = true) : (Literal.ofInt n).number? = some (.whole n) := by
  unfold isWhole64 at small
  simp only [Bool.and_eq_true,decide_eq_true_eq] at small
  have low : Int.pow 2 63 = 9223372036854775808 := rfl
  have high : Int.pow 2 64 = 18446744073709551616 := rfl
  have lowNat : Nat.pow 2 63 = 9223372036854775808 := rfl
  have highNat : Nat.pow 2 64 = 18446744073709551616 := rfl
  unfold Literal.number? Literal.ofInt
  simp only [digitsValue_decimal,List.isEmpty_nil,Bool.and_true,Bool.true_and,decide_eq_true_eq]
  by_cases negative : n < 0
  · rw [if_pos (by simp only [negative,if_true,Bool.and_eq_true,decide_eq_true_eq]; omega)]
    simp only [negative,if_true]
    congr 2
    omega
  · rw [if_pos (by simp only [negative,if_false,decide_eq_true_eq]; omega)]
    simp only [negative,if_false]
    congr 2
    omega

def Number.literal : Number → Literal
  | .whole n => .ofInt n
  | .binary value => value.literal

theorem Number.literal_text (n : Number) : n.literal.text = n.text := by
  cases n with
  | whole n => exact Literal.ofInt_text n
  | binary value => exact value.literal_text

theorem Number.literal_written (n : Number) : n.literal.Written := by
  cases n with
  | whole n => exact Literal.ofInt_written n
  | binary value => exact value.literal_written

theorem Number.literal_whole {n : Number} {m : Int} (read : n.literal.number? = some (.whole m)) : n = .whole m := by
  cases n with
  | whole n =>
      have signed : (if n < 0 then -(n.natAbs : Int) else n.natAbs) = n := by
        split <;> omega
      simp only [Number.literal,Literal.number?] at read
      simp only [Literal.ofInt,digitsValue_decimal,decide_eq_true_eq,signed] at read
      have either {c : Prop} [Decidable c] {a b r : Option Number} (chosen : (if c then a else b) = r) : a = r ∨ b = r := by
        split at chosen
        · exact .inl chosen
        · exact .inr chosen
      rcases either read with same | other
      · exact Option.some.inj same
      · obtain ⟨value,odd⟩ := Literal.binary?_binary other
        cases odd
  | binary value =>
      obtain ⟨other,same⟩ := value.literal_binary read
      cases same

end Numbers

section Strings

def escapePart (c : Char) : StringPart :=
  if c.toNat < 32 ∧ c.toNat ≠ 8 ∧ c.toNat ≠ 12 ∧ c ≠ '\n' ∧ c ≠ '\r' ∧ c ≠ '\t' then .unit c.toNat
  else .char c

theorem hexUnit?_control (n : Nat) (control : n < 32) :
    hexUnit? '0' '0' (hexDigit (n / 16)) (hexDigit (n % 16)) = some n := by
  have cases : ∀ n, n < 32 → hexUnit? '0' '0' (hexDigit (n / 16)) (hexDigit (n % 16)) = some n := by decide
  exact cases n control

theorem readParts_named {e c : Char} (named : plainEscape? e = some c) (text : List Char) :
    readParts ('\\' :: e :: text) = (readParts text).map fun (parts,after) => (.char c :: parts,after) := by
  have unnumbered : e ≠ 'u' := by
    rintro rfl
    cases named
  rw [readParts]
  · rw [named]
    cases readParts text <;> rfl
  · intro _ _ _ _ _ eq
    exact absurd eq unnumbered

theorem readParts_plain {c : Char} (noQuote : c ≠ '"') (noSlash : c ≠ '\\') (printed : ¬c.toNat < 32)
    (text : List Char) : readParts (c :: text) = (readParts text).map fun (parts,after) => (.char c :: parts,after) := by
  have read : readParts (c :: text) = if c.toNat < 32 then none else do
      let (parts,after) ← readParts text
      return (.char c :: parts,after) := by
    rw [readParts.eq_def]
    split <;> simp_all
  rw [read,if_neg printed]
  cases readParts text <;> rfl

theorem readParts_escape (c : Char) (text : List Char) : readParts (escapeChar c ++ text) =
    (readParts text).map fun (parts,after) => (escapePart c :: parts,after) := by
  have numbered (d : Char) (n : Nat) (here : c.toNat = n) (same : Char.ofNat n = d) : c = d := by
    rw [← same,← here]
    exact (Char.ofNat_toNat c).symm
  unfold escapeChar
  split
  · rename_i quote; subst quote; exact readParts_named rfl text
  split
  · rename_i slash; subst slash; exact readParts_named rfl text
  split
  · rename_i back; rw [numbered _ 8 back rfl]; exact readParts_named rfl text
  split
  · rename_i feed; rw [numbered _ 12 feed rfl]; exact readParts_named rfl text
  split
  · rename_i line; subst line; exact readParts_named rfl text
  split
  · rename_i ret; subst ret; exact readParts_named rfl text
  split
  · rename_i tab; subst tab; exact readParts_named rfl text
  split
  · rename_i noBack noFeed noLine noReturn noTab control
    have unit : escapePart c = .unit c.toNat := if_pos ⟨control,noBack,noFeed,noLine,noReturn,noTab⟩
    have number := hexUnit?_control c.toNat control
    simp only [List.cons_append,List.nil_append,readParts,number,unit,Option.bind_eq_bind,Option.bind_some]
    cases readParts text <;> rfl
  · rename_i noQuote noSlash _ _ _ _ _ printed
    have plain : escapePart c = .char c := if_neg fun control => printed control.1
    rw [plain]
    exact readParts_plain noQuote noSlash printed text

theorem readParts_quoted (text after : List Char) :
    readParts (text.flatMap escapeChar ++ '"' :: after) = some (text.map escapePart,after) := by
  induction text with
  | nil => rfl
  | cons c rest ih =>
      rw [List.flatMap_cons,List.append_assoc,readParts_escape,ih]
      rfl

theorem assemble_unit {n : Nat} (low : n < 32) (parts : List StringPart) :
    assemble (.unit n :: parts) = (assemble parts).map (Char.ofNat n :: ·) := by
  have high : isHighUnit n = false := by simp [isHighUnit]; omega
  have plain : isLowUnit n = false := by simp [isLowUnit]; omega
  cases parts with
  | nil => simp [assemble,high,plain]
  | cons part rest => cases part <;> simp [assemble,high,plain]

theorem assemble_parts (text : List Char) : assemble (text.map escapePart) = some text := by
  induction text with
  | nil => rfl
  | cons c rest ih =>
      rw [List.map_cons,escapePart]
      split
      · rename_i control
        rw [assemble_unit control.1,ih,Char.ofNat_toNat]
        rfl
      · rw [assemble,ih]
        rfl

theorem readText_quoted (content : String) (after : List Char) :
    readText (content.toList.flatMap escapeChar ++ '"' :: after) = some (some content,after) := by
  rw [readText,readParts_quoted,Option.map_some]
  simp only [assemble_parts,Option.map_some,String.ofList_toList]

end Strings

end Redline.Json
