import Redline.Text.Unsigned
import Redline.Text.Search

namespace Redline.CommandLine

inductive Command where
  | serve
  | filter (format : String) (file : Option String)
  | diff (old new : String) (context : Option Nat)
  | token (user : String) (name email role : Option String)
  | validate (place : String)
deriving DecidableEq, Inhabited

structure Words where
  options : List (String × String) := []
  plain : List String := []
deriving DecidableEq, Inhabited

def startsWithDash (word : String) : Bool := word.toList.head? = some '-' && word ≠ "-"

def addOption (name value : String) (words : Words) : Option Words :=
  if (words.options.lookup name).isSome then none else some { words with options := (name,value) :: words.options }

def optionParts (word : String) : String × Option String :=
  let text := word.toList.drop 2
  match text.dropWhile (· ≠ '=') with
  | _ :: value => (String.ofList (text.takeWhile (· ≠ '=')),some (String.ofList value))
  | [] => (String.ofList text,none)

def Words.read? (known : List String) : List String → Option Words
  | [] => some {}
  | word :: rest =>
      if word = "--" then some { plain := rest }
      else if word.startsWith "--" then
        let (name,value) := optionParts word
        if !known.contains name then none
        else match value,rest with
          | some value,rest => (read? known rest).bind (addOption name value)
          | none,value :: rest =>
              if startsWithDash value then none else (read? known rest).bind (addOption name value)
          | none,[] => none
      else if startsWithDash word then none
      else (read? known rest).map fun words => { words with plain := word :: words.plain }

def pathsFit (words : Words) : Bool := words.plain.all (!·.isEmpty)

def filterCommand? (rest : List String) : Option Command := do
  let words ← Words.read? ["format"] rest
  if !pathsFit words then none
  else
    let format := (words.options.lookup "format").getD "full_html"
    match words.plain with
    | [] => some (.filter format none)
    | [file] => some (.filter format (some file))
    | _ => none

def contextOf? (words : Words) : Option (Option Nat) :=
  match words.options.lookup "context" with
  | none => some none
  | some written => ((Text.unsigned (Nat.pow 2 64) written.toList).toOption).map some

def diffCommand? (rest : List String) : Option Command := do
  let words ← Words.read? ["context"] rest
  let context ← contextOf? words
  match words.plain with
  | [old,new] => if pathsFit words then some (.diff old new context) else none
  | _ => none

def tokenCommand? (rest : List String) : Option Command := do
  let words ← Words.read? ["user","name","email","role"] rest
  let user ← words.options.lookup "user"
  if !words.plain.isEmpty then none
  else some (.token user (words.options.lookup "name") (words.options.lookup "email") (words.options.lookup "role"))

def validateCommand? (rest : List String) : Option Command := do
  let words ← Words.read? [] rest
  match words.plain with
  | [place] => if pathsFit words then some (.validate place) else none
  | _ => none

def Command.ofWords? : List String → Option Command
  | [] => some .serve
  | ["serve"] => some .serve
  | "filter" :: rest => filterCommand? rest
  | "diff" :: rest => diffCommand? rest
  | "token" :: rest => tokenCommand? rest
  | "content" :: "validate" :: rest => validateCommand? rest
  | _ => none

end Redline.CommandLine
