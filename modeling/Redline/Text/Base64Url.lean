namespace Redline.Text

def sextetChar (n : Nat) : Char :=
  if n < 26 then Char.ofNat (65 + n)
  else if n < 52 then Char.ofNat (71 + n)
  else if n < 62 then Char.ofNat (n - 4)
  else if n = 62 then '-' else '_'

def sextet? (c : Char) : Option Nat :=
  if 'A' ≤ c ∧ c ≤ 'Z' then some (c.toNat - 65)
  else if 'a' ≤ c ∧ c ≤ 'z' then some (c.toNat - 71)
  else if '0' ≤ c ∧ c ≤ '9' then some (c.toNat + 4)
  else if c = '-' then some 62
  else if c = '_' then some 63
  else none

def base64Url : List UInt8 → List Char
  | [] => []
  | [a] => [sextetChar (a.toNat / 4),sextetChar (a.toNat % 4 * 16)]
  | [a,b] =>
      [sextetChar (a.toNat / 4),sextetChar (a.toNat % 4 * 16 + b.toNat / 16),sextetChar (b.toNat % 16 * 4)]
  | a :: b :: c :: rest =>
      sextetChar (a.toNat / 4) :: sextetChar (a.toNat % 4 * 16 + b.toNat / 16) ::
        sextetChar (b.toNat % 16 * 4 + c.toNat / 64) :: sextetChar (c.toNat % 64) :: base64Url rest

-- Bits that would belong to no byte must be zero.
def ofBase64Url? : List Char → Option (List UInt8)
  | [] => some []
  | [_] => none
  | [a,b] => do
      let a ← sextet? a
      let b ← sextet? b
      if b % 16 = 0 then some [UInt8.ofNat (a * 4 + b / 16)] else none
  | [a,b,c] => do
      let a ← sextet? a
      let b ← sextet? b
      let c ← sextet? c
      if c % 4 = 0 then some [UInt8.ofNat (a * 4 + b / 16),UInt8.ofNat (b % 16 * 16 + c / 4)] else none
  | a :: b :: c :: d :: rest => do
      let a ← sextet? a
      let b ← sextet? b
      let c ← sextet? c
      let d ← sextet? d
      let bytes ← ofBase64Url? rest
      return UInt8.ofNat (a * 4 + b / 16) :: UInt8.ofNat (b % 16 * 16 + c / 4) ::
        UInt8.ofNat (c % 4 * 64 + d) :: bytes

end Redline.Text
