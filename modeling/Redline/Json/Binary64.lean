namespace Redline.Json

-- A finite value: `mantissa * 2 ^ exponent`, with the sign of zero kept.
structure Binary64 where
  negative : Bool
  mantissa : Nat
  exponent : Int
deriving DecidableEq, Inhabited

namespace Binary64

def leastExponent : Int := -1074

def greatestExponent : Int := 971

def zero (negative : Bool) : Binary64 := ⟨negative,0,leastExponent⟩

def roundHalfEven (num den : Nat) : Nat :=
  let low := num / den
  let rest := 2 * (num % den)
  if rest > den then low + 1 else if rest = den then low + low % 2 else low

def scaled (num den : Nat) (exponent : Int) : Nat × Nat :=
  if 0 ≤ exponent then (num,den * Nat.pow 2 exponent.toNat) else (num * Nat.pow 2 (-exponent).toNat,den)

def exponentFor (num den : Nat) : Int :=
  let guess : Int := (num.log2 : Int) - (den.log2 : Int) - 52
  let (n,d) := scaled num den guess
  let fitted := if n / d < Nat.pow 2 52 then guess - 1 else guess
  if fitted < leastExponent then leastExponent else fitted

def nearest? (num den : Nat) : Option (Nat × Int) :=
  if num = 0 then some (0,leastExponent)
  else
    let exponent := exponentFor num den
    let (n,d) := scaled num den exponent
    let rounded := roundHalfEven n d
    let (mantissa,exponent) := if rounded = Nat.pow 2 53 then (Nat.pow 2 52,exponent + 1) else (rounded,exponent)
    if mantissa = 0 then some (0,leastExponent)
    else if exponent > greatestExponent then none else some (mantissa,exponent)

def numerator (magnitude : Nat × Int) : Nat := magnitude.1 * Nat.pow 2 magnitude.2.toNat

def denominator (magnitude : Nat × Int) : Nat := Nat.pow 2 (-magnitude.2).toNat

def powerOfTen (power : Nat) : Nat × Int := (nearest? (Nat.pow 10 power) 1).getD (0,leastExponent)

def multiply? (a b : Nat × Int) : Option (Nat × Int) :=
  nearest? (numerator a * numerator b) (denominator a * denominator b)

def divide? (a b : Nat × Int) : Option (Nat × Int) :=
  nearest? (numerator a * denominator b) (denominator a * numerator b)

-- A decimal is read as its rounded significand, scaled by a rounded power of ten; powers below
-- -308 take steps of 308. `steps` bounds those: after two of them any significand is zero.
def scaleByTen? (magnitude : Nat × Int) (power : Int) : Nat → Option (Nat × Int)
  | 0 => some (0,leastExponent)
  | steps + 1 =>
      if power.natAbs ≤ 308 then
        if 0 ≤ power then multiply? magnitude (powerOfTen power.natAbs)
        else divide? magnitude (powerOfTen power.natAbs)
      else if magnitude.1 = 0 then some magnitude
      else if 0 ≤ power then none
      else (divide? magnitude (powerOfTen 308)).bind (scaleByTen? · (power + 308) steps)

def ofDecimal? (negative : Bool) (significand : Nat) (power : Int) : Option Binary64 := do
  let start ← nearest? significand 1
  let (mantissa,exponent) ← scaleByTen? start power 8
  return ⟨negative,mantissa,exponent⟩

-- The reals that round to a positive value, over the common denominator four times finer than
-- its last digit: lower end, value, upper end, denominator. Below a power of two the gap halves.
def interval (mantissa : Nat) (exponent : Int) : Nat × Nat × Nat × Nat :=
  let low := if mantissa = Nat.pow 2 52 && exponent > leastExponent then 4 * mantissa - 1 else 4 * mantissa - 2
  let unit := exponent - 2
  let up := Nat.pow 2 unit.toNat
  (low * up,4 * mantissa * up,(4 * mantissa + 2) * up,Nat.pow 2 (-unit).toNat)

def leadingPower (num den : Nat) : Nat → Int
  | 0 => 0
  | fuel + 1 =>
      if den ≤ num then ((Nat.toDigits 10 (num / den)).length : Int) - 1
      else leadingPower (num * 10) den fuel - 1

-- The nearer of the two neighbours of the value on the grid `10 ^ power` that lies in the
-- interval; an exact tie goes to the even digit.
def onGrid? (mantissa : Nat) (exponent power : Int) : Option Nat :=
  let (low,value,high,den) := interval mantissa exponent
  let tens := Nat.pow 10 power.toNat
  let den := den * tens
  let up := Nat.pow 10 (-power).toNat
  let (low,value,high) := (low * up,value * up,high * up)
  let below := value / den
  let closed := mantissa % 2 = 0
  let inside := fun digits =>
    let point := digits * den
    if closed then low ≤ point && point ≤ high else low < point && point < high
  let downDistance := value - below * den
  let upDistance := (below + 1) * den - value
  match inside below && below > 0,inside (below + 1) with
  | true,true =>
      if downDistance < upDistance then some below
      else if upDistance < downDistance then some (below + 1)
      else some (below + below % 2)
  | true,false => some below
  | false,true => some (below + 1)
  | false,false => none

def shortestFrom (mantissa : Nat) (exponent leading : Int) (digits : Nat) : Nat → Nat × Int
  | 0 => (mantissa,exponent)
  | fuel + 1 =>
      let power := leading - (digits : Int) + 1
      match onGrid? mantissa exponent power with
      | some found => (found,power)
      | none => shortestFrom mantissa exponent leading (digits + 1) fuel

def withoutTrailingZeros (digits : Nat) (power : Int) : Nat → Nat × Int
  | 0 => (digits,power)
  | fuel + 1 =>
      if digits ≠ 0 ∧ digits % 10 = 0 then withoutTrailingZeros (digits / 10) (power + 1) fuel
      else (digits,power)

def shortest (mantissa : Nat) (exponent : Int) : Nat × Int :=
  let leading := leadingPower (numerator (mantissa,exponent)) (denominator (mantissa,exponent)) 400
  let (digits,power) := shortestFrom mantissa exponent leading 1 17
  withoutTrailingZeros digits power 20

end Binary64

end Redline.Json
