import Redline.Text.Search
import Redline.Text.Decimal
import Redline.Json.Outline

namespace Redline.Format

open Redline.Text

def safeSchemes : List String :=
  ["bitcoin","ftp","ftps","geo","http","https","im","irc","ircs","magnet","mailto","mms","mx",
    "news","nntp","openpgp4fpr","sip","sms","smsto","ssh","tel","url","webcal","wtai","xmpp"]

def hostSchemes : List String := ["ftp","http","https"]

def isControlOrSpace (c : Char) : Bool := c.toNat ≤ 32

-- Outer controls and inner line ends do not count.
def cleanAddress (address : List Char) : List Char :=
  let inner := ((address.dropWhile isControlOrSpace).reverse.dropWhile isControlOrSpace).reverse
  inner.filter fun c => !(c = '\t' || c = '\n' || c = '\r')

def isSchemeChar (c : Char) : Bool := c.isAlphanum || c = '+' || c = '-' || c = '.'

def scheme? (address : List Char) : Option (String × List Char) :=
  let text := cleanAddress address
  if !(text.head?.any Char.isAlpha) then none
  else match text.dropWhile isSchemeChar with
    | ':' :: rest => some (String.ofList (lower (text.takeWhile isSchemeChar)),rest)
    | _ => none

def isSlash (c : Char) : Bool := c = '/' || c = '\\'

def withoutUser (authority : List Char) : List Char := (authority.reverse.takeWhile (· ≠ '@')).reverse

def hostAndPort (authority : List Char) : List Char × List Char :=
  if authority.head? = some '[' then
    (authority.takeWhile (· ≠ ']'),(authority.dropWhile (· ≠ ']')).drop 2)
  else (authority.takeWhile (· ≠ ':'),(authority.dropWhile (· ≠ ':')).drop 1)

def isForbiddenInHost (c : Char) : Bool :=
  c.toNat ≤ 32 || c.toNat = 127 || ['#','/',':','<','>','?','@','[','\\',']','^','|'].contains c

def percentFits : List Char → Bool
  | '%' :: a :: b :: rest => (Json.hexValue? a).isSome && (Json.hexValue? b).isSome && percentFits rest
  | '%' :: _ => false
  | _ :: rest => percentFits rest
  | [] => true

def numbersFit (parts : List (List Char)) : Bool :=
  let parts := if parts.getLast? = some [] then parts.dropLast else parts
  match parts.getLast? with
  | none => true
  | some last =>
      if last.isEmpty || !last.all isDigit then true
      else parts.length ≤ 4 && parts.all (fun part => !part.isEmpty && part.all isDigit) &&
        parts.dropLast.all (fun part => digitsValue part < 256) && digitsValue last < Nat.pow 256 (5 - parts.length)

def hostFits (host : List Char) : Bool :=
  match host with
  | '[' :: inner => inner.all fun c => (Json.hexValue? c).isSome || c = ':' || c = '.'
  | host => !host.any isForbiddenInHost && percentFits host && numbersFit (splitOn '.' host)

def portFits (port : List Char) : Bool := port.all isDigit && digitsValue port < 65536

def authorityFits (mayBeEmpty : Bool) (authority : List Char) : Bool :=
  let (host,port) := hostAndPort (withoutUser authority)
  if host.isEmpty then mayBeEmpty && port.isEmpty else hostFits host && portFits port

def addressFits (scheme : String) (rest : List Char) : Bool :=
  if hostSchemes.contains scheme then
    authorityFits false ((rest.dropWhile isSlash).takeWhile fun c => !(isSlash c || c = '?' || c = '#'))
  else match rest with
    | '/' :: '/' :: rest => authorityFits true (rest.takeWhile fun c => !(c = '/' || c = '?' || c = '#'))
    | _ => true

def isSafeAddress (address : List Char) : Bool :=
  match scheme? address with
  | none => true
  | some (scheme,rest) => safeSchemes.contains scheme && addressFits scheme rest

end Redline.Format
