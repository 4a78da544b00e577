import Redline.Text.Decimal

namespace Redline.Text

inductive NumberProblem where
  | empty
  | invalidDigit
  | tooLarge
deriving DecidableEq, Inhabited

def NumberProblem.message : NumberProblem → String
  | empty => "cannot parse integer from empty string"
  | invalidDigit => "invalid digit found in string"
  | tooLarge => "number too large to fit in target type"

def unsignedFrom (limit value : Nat) : List Char → Except NumberProblem Nat
  | [] => .ok value
  | c :: rest =>
      match digitValue? c with
      | none => .error .invalidDigit
      | some digit =>
          if value * 10 + digit < limit then unsignedFrom limit (value * 10 + digit) rest else .error .tooLarge

def unsigned (limit : Nat) : List Char → Except NumberProblem Nat
  | [] => .error .empty
  | ['+'] => .error .invalidDigit
  | '+' :: digits => unsignedFrom limit 0 digits
  | digits => unsignedFrom limit 0 digits

end Redline.Text
