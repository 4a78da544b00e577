import Redline.Html.Names
import Redline.Text.Search
import Redline.Json.Outline

namespace Redline.Html

open Redline.Text

-- One row of the table: a name, an equals sign and code points in hexadecimal, joined by plus signs.
def nameRow (row : List Char) : List Char × List Char :=
  let name := row.takeWhile (· ≠ '=')
  let codes := splitOn '+' (row.drop (name.length + 1))
  (name,codes.map fun code => Char.ofNat (code.foldl (fun value c => value * 16 + (Json.hexValue? c).getD 0) 0))

def named : List (List Char × List Char) :=
  allNames.flatMap fun line => (splitOn ' ' line.toList).map nameRow

def bare : List (List Char) := bareNames.flatMap fun line => splitOn ' ' line.toList

structure NamedMatch where
  chars : List Char
  length : Nat
  closed : Bool

def NamedMatch.longer (a b : NamedMatch) : NamedMatch := if b.length > a.length then b else a

def matchName? (text : List Char) (row : List Char × List Char) : Option NamedMatch :=
  let (name,chars) := row
  if !name.isPrefixOf text then none
  else if (text.drop name.length).head? = some ';' then some ⟨chars,name.length + 1,true⟩
  else if bare.contains name then some ⟨chars,name.length,false⟩
  else none

def longestName? (text : List Char) : Option NamedMatch :=
  match named.filterMap (matchName? text) with
  | [] => none
  | first :: rest => some (rest.foldl NamedMatch.longer first)

-- Numbers from 128 to 159 stand for the characters of an old code page.
def codePage : List Nat :=
  [0x20AC,0x81,0x201A,0x192,0x201E,0x2026,0x2020,0x2021,0x2C6,0x2030,0x160,0x2039,0x152,0x8D,
    0x17D,0x8F,0x90,0x2018,0x2019,0x201C,0x201D,0x2022,0x2013,0x2014,0x2DC,0x2122,0x161,0x203A,
    0x153,0x9D,0x17E,0x178]

def replacementChar : Char := Char.ofNat 0xFFFD

def numbered (n : Nat) : Char :=
  if n = 0 ∨ n > 0x10FFFF ∨ (0xD800 ≤ n ∧ n ≤ 0xDFFF) then replacementChar
  else if 0x80 ≤ n ∧ n ≤ 0x9F then Char.ofNat (codePage.getD (n - 0x80) n)
  else Char.ofNat n

def dropSemicolon : List Char → List Char
  | ';' :: rest => rest
  | text => text

def isHexDigit (c : Char) : Bool := (Json.hexValue? c).isSome

def number? (text : List Char) : Option (Nat × List Char) :=
  match text with
  | x :: rest =>
      if x = 'x' ∨ x = 'X' then
        let digits := rest.takeWhile isHexDigit
        if digits.isEmpty then none
        else some (digits.foldl (fun value c => value * 16 + (Json.hexValue? c).getD 0) 0,rest.dropWhile isHexDigit)
      else
        let digits := text.takeWhile isDigit
        if digits.isEmpty then none else some (digitsValue digits,text.dropWhile isDigit)
  | [] => none

def isWordChar (c : Char) : Bool := c.isAlphanum

-- The reference after an ampersand. In an attribute a name without semicolon that runs on, or that
-- stands before an equals sign, is no reference.
def reference? (inAttribute : Bool) (text : List Char) : Option (List Char × List Char) :=
  match text with
  | '#' :: rest => (number? rest).map fun (n,rest) => ([numbered n],dropSemicolon rest)
  | _ =>
      match longestName? text with
      | none => none
      | some found =>
          let rest := text.drop found.length
          if inAttribute && !found.closed && rest.head?.any (fun c => c = '=' || isWordChar c) then none
          else some (found.chars,rest)

def decodeWithin (inAttribute : Bool) : Nat → List Char → List Char
  | _,[] => []
  | 0,_ => []
  | fuel + 1,'&' :: rest =>
      match reference? inAttribute rest with
      | some (chars,rest) => chars ++ decodeWithin inAttribute fuel rest
      | none => '&' :: decodeWithin inAttribute fuel rest
  | fuel + 1,c :: rest => c :: decodeWithin inAttribute fuel rest

def decodeText (text : List Char) : List Char := decodeWithin false text.length text

def decodeValue (text : List Char) : List Char := decodeWithin true text.length text

end Redline.Html
