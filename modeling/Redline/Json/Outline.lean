import Redline.Json.Value
import Redline.Text.Decimal
import Redline.Text.Utf8

namespace Redline.Json

open Redline.Text

structure Literal where
  negative : Bool
  digits : List Char
  fraction : List Char
  powerNegative : Bool
  power : List Char
deriving DecidableEq, Inhabited

-- `text none` is a string whose escapes name half of a surrogate pair: lexically a string, but
-- not a text.
inductive Outline where
  | broken
  | null
  | bool (flag : Bool)
  | number (literal : Literal)
  | text (content : Option String)
  | array (items : List Outline) (closed : Bool)
  | object (members : List (Option String × Outline)) (closed : Bool)
deriving Inhabited

def isSpace (c : Char) : Bool := c = ' ' || c = '\n' || c = '\t' || c = '\r'

def skipSpace (text : List Char) : List Char := text.dropWhile isSpace

def hexValue? (c : Char) : Option Nat :=
  if '0' ≤ c ∧ c ≤ '9' then some (c.toNat - 48)
  else if 'a' ≤ c ∧ c ≤ 'f' then some (c.toNat - 87)
  else if 'A' ≤ c ∧ c ≤ 'F' then some (c.toNat - 55)
  else none

def hexUnit? (a b c d : Char) : Option Nat := do
  return ((← hexValue? a) * 4096 + (← hexValue? b) * 256 + (← hexValue? c) * 16 + (← hexValue? d))

inductive StringPart where
  | char (c : Char)
  | unit (n : Nat)
deriving DecidableEq

def plainEscape? (c : Char) : Option Char :=
  if c = '"' ∨ c = '\\' ∨ c = '/' then some c
  else if c = 'b' then some (Char.ofNat 8)
  else if c = 'f' then some (Char.ofNat 12)
  else if c = 'n' then some '\n'
  else if c = 'r' then some '\r'
  else if c = 't' then some '\t'
  else none

def readParts : List Char → Option (List StringPart × List Char)
  | [] => none
  | '"' :: rest => some ([],rest)
  | '\\' :: 'u' :: a :: b :: c :: d :: rest => do
      let n ← hexUnit? a b c d
      let (parts,after) ← readParts rest
      return (.unit n :: parts,after)
  | '\\' :: e :: rest => do
      let c ← plainEscape? e
      let (parts,after) ← readParts rest
      return (.char c :: parts,after)
  | c :: rest =>
      if c.toNat < 32 then none
      else do
        let (parts,after) ← readParts rest
        return (.char c :: parts,after)

def isHighUnit (n : Nat) : Bool := 0xD800 ≤ n && n ≤ 0xDBFF

def isLowUnit (n : Nat) : Bool := 0xDC00 ≤ n && n ≤ 0xDFFF

def assemble : List StringPart → Option (List Char)
  | [] => some []
  | .char c :: rest => (assemble rest).map (c :: ·)
  | .unit high :: .unit low :: rest =>
      if isHighUnit high then
        if isLowUnit low then
          (assemble rest).map (Char.ofNat (0x10000 + (high - 0xD800) * 1024 + (low - 0xDC00)) :: ·)
        else none
      else if isLowUnit high then none
      else (assemble (.unit low :: rest)).map (Char.ofNat high :: ·)
  | .unit n :: rest =>
      if isHighUnit n || isLowUnit n then none else (assemble rest).map (Char.ofNat n :: ·)

def readText (text : List Char) : Option (Option String × List Char) :=
  (readParts text).map fun (parts,rest) => ((assemble parts).map String.ofList,rest)

def takeDigits (text : List Char) : List Char × List Char := (text.takeWhile isDigit,text.dropWhile isDigit)

def readFraction : List Char → Option (List Char × List Char)
  | '.' :: rest =>
      let (digits,after) := takeDigits rest
      if digits.isEmpty then none else some (digits,after)
  | rest => some ([],rest)

def readPower : List Char → Option (Bool × List Char × List Char)
  | c :: rest =>
      if c = 'e' ∨ c = 'E' then
        let (negative,rest) := match rest with
          | '-' :: tail => (true,tail)
          | '+' :: tail => (false,tail)
          | tail => (false,tail)
        let (digits,after) := takeDigits rest
        if digits.isEmpty then none else some (negative,digits,after)
      else some (false,[],c :: rest)
  | [] => some (false,[],[])

def readLiteral (text : List Char) : Option (Literal × List Char) := do
  let (negative,rest) := match text with
    | '-' :: tail => (true,tail)
    | tail => (false,tail)
  let (digits,rest) := takeDigits rest
  if digits.isEmpty || (digits.head? = some '0' && digits.length > 1) then none
  else
    let (fraction,rest) ← readFraction rest
    let (powerNegative,power,rest) ← readPower rest
    return (⟨negative,digits,fraction,powerNegative,power⟩,rest)

mutual

def Outline.readValue : Nat → List Char → Outline × Option (List Char)
  | 0,_ => (.broken,none)
  | fuel + 1,input =>
      match skipSpace input with
      | 'n' :: 'u' :: 'l' :: 'l' :: rest => (.null,some rest)
      | 't' :: 'r' :: 'u' :: 'e' :: rest => (.bool true,some rest)
      | 'f' :: 'a' :: 'l' :: 's' :: 'e' :: rest => (.bool false,some rest)
      | '"' :: rest =>
          match readText rest with
          | some (content,after) => (.text content,some after)
          | none => (.broken,none)
      | '[' :: rest =>
          let (items,closed,after) := Outline.readItems fuel true rest
          (.array items closed,after)
      | '\x7b' :: rest =>
          let (members,closed,after) := Outline.readMembers fuel true rest
          (.object members closed,after)
      | c :: rest =>
          if c = '-' || isDigit c then
            match readLiteral (c :: rest) with
            | some (literal,after) => (.number literal,some after)
            | none => (.broken,none)
          else (.broken,none)
      | [] => (.broken,none)

def Outline.readItems : Nat → Bool → List Char → List Outline × Bool × Option (List Char)
  | 0,_,_ => ([],false,none)
  | fuel + 1,first,input =>
      match first,skipSpace input with
      | true,']' :: rest => ([],true,some rest)
      | false,']' :: rest => ([],true,some rest)
      | true,rest => Outline.readItem fuel rest
      | false,',' :: rest =>
          match skipSpace rest with
          | ']' :: _ => ([],false,none)
          | rest => Outline.readItem fuel rest
      | false,_ => ([],false,none)

def Outline.readItem : Nat → List Char → List Outline × Bool × Option (List Char)
  | 0,_ => ([],false,none)
  | fuel + 1,input =>
      match Outline.readValue fuel input with
      | (item,none) => ([item],false,none)
      | (item,some rest) =>
          let (items,closed,after) := Outline.readItems fuel false rest
          (item :: items,closed,after)

def Outline.readMembers : Nat → Bool → List Char → List (Option String × Outline) × Bool × Option (List Char)
  | 0,_,_ => ([],false,none)
  | fuel + 1,first,input =>
      match first,skipSpace input with
      | _,'\x7d' :: rest => ([],true,some rest)
      | true,'"' :: rest => Outline.readMember fuel rest
      | true,_ => ([],false,none)
      | false,',' :: rest =>
          match skipSpace rest with
          | '"' :: rest => Outline.readMember fuel rest
          | _ => ([],false,none)
      | false,_ => ([],false,none)

def Outline.readMember : Nat → List Char → List (Option String × Outline) × Bool × Option (List Char)
  | 0,_ => ([],false,none)
  | fuel + 1,input =>
      match readText input with
      | none => ([],false,none)
      | some (name,rest) =>
          match skipSpace rest with
          | ':' :: rest =>
              match Outline.readValue fuel rest with
              | (value,none) => ([(name,value)],false,none)
              | (value,some rest) =>
                  let (members,closed,after) := Outline.readMembers fuel false rest
                  ((name,value) :: members,closed,after)
          | _ => ([(name,.broken)],false,none)

end

def Outline.ofText (input : List Char) : Outline × Bool :=
  match Outline.readValue (2 * input.length + 2) input with
  | (outline,some rest) => (outline,(skipSpace rest).isEmpty)
  | (outline,none) => (outline,false)

def halfPairs : List Char := "\\ud800\\ud800".toList

-- Bytes that are no characters may stand in a string that is scanned past. They are put as halves of
-- surrogate pairs, whatever stands next to them, and behind a backslash as no escape.
def scannable : Bool → List (Option Char) → List Char
  | _,[] => []
  | escaped,some c :: rest => c :: scannable (c = '\\' && !escaped) rest
  | escaped,none :: rest => (if escaped then [' '] else halfPairs) ++ scannable false rest

def Outline.ofBytes (bytes : List UInt8) : Outline × Bool :=
  Outline.ofText (scannable false (scanUtf8 bytes.length bytes))

mutual

def Outline.complete : Outline → Bool
  | .broken => false
  | .array items closed => closed && Outline.completeItems items
  | .object members closed => closed && Outline.completeMembers members
  | _ => true

def Outline.completeItems : List Outline → Bool
  | [] => true
  | item :: rest => item.complete && Outline.completeItems rest

def Outline.completeMembers : List (Option String × Outline) → Bool
  | [] => true
  | (_,value) :: rest => value.complete && Outline.completeMembers rest

end

def significandFrom (start : Nat) : List Char → Nat × List Char
  | [] => (start,[])
  | c :: rest =>
      let next := start * 10 + (c.toNat - 48)
      if next < Nat.pow 2 64 then significandFrom next rest else (start,c :: rest)

def Literal.binary? (literal : Literal) : Option Number := do
  let (whole,excess) := significandFrom 0 literal.digits
  let (significand,dropped) := significandFrom whole literal.fraction
  let places : Int := literal.fraction.length - dropped.length
  let power : Int := digitsValue literal.power
  let value ← Binary64.ofDecimal? literal.negative significand
    (excess.length - places + if literal.powerNegative then -power else power)
  return .binary value

-- Whole numbers of 64 bits stay whole; all others, and minus zero, are the nearest binary64 of
-- their first digits. Nothing above the greatest finite value is a number.
def Literal.number? (literal : Literal) : Option Number :=
  let n := digitsValue literal.digits
  if literal.fraction.isEmpty && literal.power.isEmpty &&
      (if literal.negative then 0 < n && n ≤ Nat.pow 2 63 else n < Nat.pow 2 64) then
    some (.whole (if literal.negative then -(n : Int) else n))
  else literal.binary?

inductive Fault where
  | malformed
  | mismatch
deriving DecidableEq, Inhabited

mutual

def Outline.value (depth : Nat) : Outline → Except Fault Value
  | .broken => .error .malformed
  | .null => .ok .null
  | .bool flag => .ok (.bool flag)
  | .number literal =>
      match literal.number? with
      | some n => .ok (.number n)
      | none => .error .malformed
  | .text (some content) => .ok (.text content)
  | .text none => .error .malformed
  | .array items closed =>
      if depth = 0 then .error .malformed
      else do
        let values ← Outline.valueItems (depth - 1) items
        if closed then .ok (.array values) else .error .malformed
  | .object members closed =>
      if depth = 0 then .error .malformed
      else do
        let rows ← Outline.valueMembers (depth - 1) [] members
        if closed then .ok (.object rows) else .error .malformed

def Outline.valueItems (depth : Nat) : List Outline → Except Fault (List Value)
  | [] => .ok []
  | item :: rest => do
      let value ← item.value depth
      let values ← Outline.valueItems depth rest
      return value :: values

def Outline.valueMembers (depth : Nat) (known : List (String × Value)) :
    List (Option String × Outline) → Except Fault (List (String × Value))
  | [] => .ok known
  | (none,_) :: _ => .error .malformed
  | (some name,outline) :: rest => do
      let value ← outline.value depth
      Outline.valueMembers depth (Table.insert name value known) rest

end

def greatestDepth : Nat := 127

def Value.ofText? (text : String) : Option Value :=
  match Outline.ofText text.toList with
  | (outline,true) => (outline.value greatestDepth).toOption
  | (_,false) => none

end Redline.Json
