import Redline.Text.Blank

namespace Redline.Access

inductive Role where
  | reader
  | commentator
  | writer
deriving DecidableEq, Inhabited

namespace Role

def word : Role → String
  | reader => "reader"
  | commentator => "commentator"
  | writer => "writer"

def shown : Role → String
  | reader => "Reader"
  | commentator => "Commentator"
  | writer => "Writer"

def all : List Role := [reader,commentator,writer]

def ofWord? (word : String) : Option Role := all.find? (·.word = word)

def normalized (text : String) : String := String.ofList ((Text.trim text.toList).map Char.toLower)

def ofText? (text : String) : Option Role := ofWord? (normalized text)

end Role

end Redline.Access
