import Redline.Json.Binary64
import Redline.Table

namespace Redline.Json

inductive Number where
  | whole (n : Int)
  | binary (value : Binary64)
deriving DecidableEq, Inhabited

-- Equal as numbers of one kind: a whole number never equals a binary one, and the two zeros do.
def Number.same : Number → Number → Bool
  | .whole a,.whole b => a == b
  | .binary a,.binary b => a == b || (a.mantissa == 0 && b.mantissa == 0)
  | _,_ => false

inductive Value where
  | null
  | bool (flag : Bool)
  | number (n : Number)
  | text (content : String)
  | array (items : List Value)
  | object (members : List (String × Value))
deriving Inhabited

namespace Value

def whole (n : Int) : Value := .number (.whole n)

def count (n : Nat) : Value := .number (.whole n)

def members : Value → List (String × Value)
  | .object members => members
  | _ => []

def items : Value → List Value
  | .array items => items
  | _ => []

def member? (name : String) (value : Value) : Option Value :=
  value.members.lookup name

def text? : Value → Option String
  | .text content => some content
  | _ => none

def whole? : Value → Option Int
  | .number (.whole n) => some n
  | _ => none

def flag? : Value → Option Bool
  | .bool flag => some flag
  | _ => none

end Value

mutual

def Value.same : Value → Value → Bool
  | .null,.null => true
  | .bool a,.bool b => a == b
  | .number a,.number b => a.same b
  | .text a,.text b => a == b
  | .array a,.array b => Value.sameItems a b
  | .object a,.object b => Value.sameMembers a b
  | _,_ => false

def Value.sameItems : List Value → List Value → Bool
  | [],[] => true
  | a :: as,b :: bs => Value.same a b && Value.sameItems as bs
  | _,_ => false

def Value.sameMembers : List (String × Value) → List (String × Value) → Bool
  | [],[] => true
  | (m,a) :: as,(n,b) :: bs => m == n && Value.same a b && Value.sameMembers as bs
  | _,_ => false

end

-- Members sorted and unique at every level: the values a text can be read to.
inductive Value.Sorted : Value → Prop where
  | null : Sorted .null
  | bool (flag : Bool) : Sorted (.bool flag)
  | number (n : Number) : Sorted (.number n)
  | text (content : String) : Sorted (.text content)
  | array (items : List Value) (each : ∀ item ∈ items, Sorted item) : Sorted (.array items)
  | object (members : List (String × Value)) (names : (members.map Prod.fst).Pairwise (· < ·))
      (each : ∀ row ∈ members, Sorted row.2) : Sorted (.object members)

end Redline.Json
