import Redline.Table
import Redline.Text.Search

namespace Redline

structure Uuid where
  digits : List (Fin 16)
  length_eq : digits.length = 32
deriving DecidableEq

namespace Uuid

instance : Inhabited Uuid := ⟨⟨List.replicate 32 0,by decide⟩⟩

def digitOf? (c : Char) : Option (Fin 16) :=
  if '0' ≤ c ∧ c ≤ '9' then some (Fin.ofNat 16 (c.toNat - 48))
  else if 'a' ≤ c ∧ c ≤ 'f' then some (Fin.ofNat 16 (c.toNat - 87))
  else if 'A' ≤ c ∧ c ≤ 'F' then some (Fin.ofNat 16 (c.toNat - 55))
  else none

def digitText (d : Fin 16) : Char := if d.val < 10 then Char.ofNat (48 + d.val) else Char.ofNat (87 + d.val)

def ofDigits? (text : List Char) : Option Uuid := do
  let digits ← text.mapM digitOf?
  if h : digits.length = 32 then some ⟨digits,h⟩ else none

def ofHyphenated? (text : List Char) : Option Uuid :=
  match (text.drop 8).head?,(text.drop 13).head?,(text.drop 18).head?,(text.drop 23).head? with
  | some '-',some '-',some '-',some '-' =>
      ofDigits? (text.take 8 ++ (text.drop 9).take 4 ++ (text.drop 14).take 4 ++ (text.drop 19).take 4 ++ text.drop 24)
  | _,_,_,_ => none

def urnPrefix : List Char := ['u','r','n',':','u','u','i','d',':']

def braced? : List Char → Option (List Char)
  | '\x7b' :: rest => if rest.getLast? = some '\x7d' then some rest.dropLast else none
  | _ => none

def ofChars? (text : List Char) : Option Uuid :=
  if text.length = 32 then ofDigits? text
  else if text.length = 36 then ofHyphenated? text
  else if text.length = 38 then (braced? text).bind ofHyphenated?
  else if text.length = 45 ∧ Text.startsWithFold urnPrefix text then ofHyphenated? (text.drop 9)
  else none

def ofText? (text : String) : Option Uuid := ofChars? text.toList

def chars (u : Uuid) : List Char :=
  let hex := u.digits.map digitText
  hex.take 8 ++ '-' :: (hex.drop 8).take 4 ++ '-' :: (hex.drop 12).take 4 ++ '-' :: (hex.drop 16).take 4 ++
    '-' :: hex.drop 20

def text (u : Uuid) : String := String.ofList u.chars

def digitsBefore : List (Fin 16) → List (Fin 16) → Bool
  | a :: as,b :: bs => decide (a < b) || (decide (a = b) && digitsBefore as bs)
  | [],_ :: _ => true
  | _,[] => false

instance : KeyOrder Uuid := ⟨fun a b => digitsBefore a.digits b.digits⟩

end Uuid

end Redline
