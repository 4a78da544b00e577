import Redline.Json.Value
import Redline.Text.Decimal

namespace Redline.Json

open Redline.Text

def hexDigit (n : Nat) : Char := if n < 10 then Char.ofNat (48 + n) else Char.ofNat (87 + n)

def escapeChar (c : Char) : List Char :=
  if c = '"' then ['\\','"']
  else if c = '\\' then ['\\','\\']
  else if c.toNat = 8 then ['\\','b']
  else if c.toNat = 12 then ['\\','f']
  else if c = '\n' then ['\\','n']
  else if c = '\r' then ['\\','r']
  else if c = '\t' then ['\\','t']
  else if c.toNat < 32 then ['\\','u','0','0',hexDigit (c.toNat / 16),hexDigit (c.toNat % 16)]
  else [c]

def quote (text : List Char) : List Char := '"' :: text.flatMap escapeChar ++ ['"']

-- The fewest digits that read back: positional from 1e-5 up to below 1e16, else with a signed
-- exponent; a fraction always shows a point.
def digitsText (digits : Nat) (power : Int) : List Char :=
  let text := decimal digits
  let length : Int := text.length
  let point := length + power
  if 0 ≤ power ∧ point ≤ 16 then text ++ List.replicate power.toNat '0' ++ ['.','0']
  else if 0 < point ∧ point ≤ 16 then text.take point.toNat ++ '.' :: text.drop point.toNat
  else if -5 < point ∧ point ≤ 0 then '0' :: '.' :: List.replicate (-point).toNat '0' ++ text
  else
    let fraction := text.drop 1
    let power := point - 1
    text.take 1 ++ (if fraction.isEmpty then [] else '.' :: fraction) ++
      'e' :: if 0 ≤ power then '+' :: decimalInt power else decimalInt power

def Binary64.text (value : Binary64) : List Char :=
  let body :=
    if value.mantissa = 0 then ['0','.','0']
    else
      let (digits,power) := Binary64.shortest value.mantissa value.exponent
      digitsText digits power
  if value.negative then '-' :: body else body

def Number.text : Number → List Char
  | .whole n => decimalInt n
  | .binary value => value.text

mutual

def Value.compact : Value → List Char
  | .null => ['n','u','l','l']
  | .bool true => ['t','r','u','e']
  | .bool false => ['f','a','l','s','e']
  | .number n => n.text
  | .text content => quote content.toList
  | .array items => '[' :: Value.compactItems items ++ [']']
  | .object members => '\x7b' :: Value.compactMembers members ++ ['\x7d']

def Value.compactItems : List Value → List Char
  | [] => []
  | [item] => item.compact
  | item :: rest => item.compact ++ ',' :: Value.compactItems rest

def Value.compactMembers : List (String × Value) → List Char
  | [] => []
  | [(name,value)] => quote name.toList ++ ':' :: value.compact
  | (name,value) :: rest => quote name.toList ++ ':' :: value.compact ++ ',' :: Value.compactMembers rest

end

def newLine (level : Nat) : List Char := '\n' :: List.replicate (2 * level) ' '

mutual

def Value.indented (level : Nat) : Value → List Char
  | .null => ['n','u','l','l']
  | .bool true => ['t','r','u','e']
  | .bool false => ['f','a','l','s','e']
  | .number n => n.text
  | .text content => quote content.toList
  | .array [] => ['[',']']
  | .array (item :: rest) => '[' :: Value.indentedItems (level + 1) (item :: rest) ++ newLine level ++ [']']
  | .object [] => ['\x7b','\x7d']
  | .object (row :: rest) =>
      '\x7b' :: Value.indentedMembers (level + 1) (row :: rest) ++ newLine level ++ ['\x7d']

def Value.indentedItems (level : Nat) : List Value → List Char
  | [] => []
  | [item] => newLine level ++ item.indented level
  | item :: rest => newLine level ++ item.indented level ++ ',' :: Value.indentedItems level rest

def Value.indentedMembers (level : Nat) : List (String × Value) → List Char
  | [] => []
  | [(name,value)] => newLine level ++ quote name.toList ++ ':' :: ' ' :: value.indented level
  | (name,value) :: rest =>
      newLine level ++ quote name.toList ++ ':' :: ' ' :: value.indented level ++
        ',' :: Value.indentedMembers level rest

end

def Value.line (value : Value) : String := String.ofList value.compact

def Value.page (value : Value) : String := String.ofList (value.indented 0)

end Redline.Json
