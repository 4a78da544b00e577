namespace Redline.Text

def digitChar (digit : Nat) : Char := Char.ofNat (48 + digit)

def digitValue? (c : Char) : Option Nat :=
  if '0' ≤ c ∧ c ≤ '9' then some (c.toNat - 48) else none

def isDigit (c : Char) : Bool := (digitValue? c).isSome

def decimal (n : Nat) : List Char :=
  if n < 10 then [digitChar n] else decimal (n / 10) ++ [digitChar (n % 10)]
termination_by n

def decimalInt (n : Int) : List Char :=
  if n < 0 then '-' :: decimal n.natAbs else decimal n.natAbs

def digitsFrom (start : Nat) (digits : List Char) : Nat :=
  digits.foldl (fun value c => value * 10 + (c.toNat - 48)) start

def digitsValue (digits : List Char) : Nat := digitsFrom 0 digits

theorem digitsFrom_append (start : Nat) (first second : List Char) :
    digitsFrom start (first ++ second) = digitsFrom (digitsFrom start first) second := by
  simp [digitsFrom]

theorem digitChar_toNat (digit : Nat) (small : digit < 10) : (digitChar digit).toNat = 48 + digit := by
  have cases : ∀ d, d < 10 → (digitChar d).toNat = 48 + d := by decide
  exact cases digit small

theorem digitsValue_decimal (n : Nat) : digitsValue (decimal n) = n := by
  induction n using Nat.strongRecOn with
  | ind n ih =>
      unfold decimal
      split
      · rename_i small
        simp [digitsValue,digitsFrom,digitChar_toNat n small]
      · rename_i large
        have inner := ih (n / 10) (by omega)
        rw [digitsValue] at inner ⊢
        rw [digitsFrom_append,inner]
        simp [digitsFrom,digitChar_toNat (n % 10) (by omega)]
        omega

end Redline.Text
