namespace Redline.Text

def utf8 (text : List Char) : List UInt8 := (String.ofList text).toUTF8.toList

-- What a leading byte announces: how many bytes follow, the range of the first of them, and the
-- leading bits of the character.
def announced? (b : Nat) : Option (Nat × Nat × Nat × Nat) :=
  if 0xC2 ≤ b ∧ b ≤ 0xDF then some (1,0x80,0xBF,b - 0xC0)
  else if b = 0xE0 then some (2,0xA0,0xBF,0)
  else if b = 0xED then some (2,0x80,0x9F,0xD)
  else if 0xE1 ≤ b ∧ b ≤ 0xEF then some (2,0x80,0xBF,b - 0xE0)
  else if b = 0xF0 then some (3,0x90,0xBF,0)
  else if 0xF1 ≤ b ∧ b ≤ 0xF3 then some (3,0x80,0xBF,b - 0xF0)
  else if b = 0xF4 then some (3,0x80,0x8F,4)
  else none

def continued (missing low high value : Nat) (bytes : List UInt8) : Option Char × List UInt8 :=
  match missing,bytes with
  | 0,bytes => (some (Char.ofNat value),bytes)
  | _ + 1,[] => (none,[])
  | missing + 1,b :: rest =>
      if low ≤ b.toNat ∧ b.toNat ≤ high then
        continued missing 0x80 0xBF (value * 64 + (b.toNat - 0x80)) rest
      else (none,b :: rest)

-- Characters, or nothing for each ill-formed stretch. Every step reads a byte at least.
def scanUtf8 : Nat → List UInt8 → List (Option Char)
  | _,[] => []
  | 0,_ => []
  | fuel + 1,b :: rest =>
      if b.toNat < 0x80 then some (Char.ofNat b.toNat) :: scanUtf8 fuel rest
      else match announced? b.toNat with
        | none => none :: scanUtf8 fuel rest
        | some (missing,low,high,value) =>
            let (c,rest) := continued missing low high value rest
            c :: scanUtf8 fuel rest

def ofUtf8? (bytes : List UInt8) : Option (List Char) := (scanUtf8 bytes.length bytes).mapM id

def replacement : Char := Char.ofNat 0xFFFD

def ofUtf8Lossy (bytes : List UInt8) : List Char := (scanUtf8 bytes.length bytes).map (·.getD replacement)

end Redline.Text
