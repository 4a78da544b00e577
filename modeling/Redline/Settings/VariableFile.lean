import Redline.Settings.Basic

namespace Redline.Settings

open Text

-- How a line ends: done, behind a blank, behind a backslash, or inside quotes.
inductive LineState where
  | complete
  | blank
  | escape
  | weak
  | weakEscape
  | strong
  | strongEscape
deriving DecidableEq

def LineState.outside (c : Char) : LineState :=
  if c = '\\' then .escape else if c = '"' then .weak else if c = '\'' then .strong else .complete

def LineState.next (state : LineState) (c : Char) : LineState :=
  match state with
  | .complete => if isBlank c && c ≠ '\n' && c ≠ '\r' then .blank else outside c
  | .blank => outside c
  | .escape => .complete
  | .weak => if c = '\\' then .weakEscape else if c = '"' then .complete else .weak
  | .weakEscape => .weak
  | .strong => if c = '\\' then .strongEscape else if c = '\'' then .complete else .strong
  | .strongEscape => .strong

def scanLine (state : LineState) (past : List Char) : List Char → LineState ⊕ List Char
  | [] => .inl state
  | c :: rest =>
      if state = .blank ∧ c = '#' then .inr past.reverse else scanLine (state.next c) (c :: past) rest

def rawLines : List Char → List (List Char)
  | [] => []
  | c :: rest =>
      if c = '\n' then [c] :: rawLines rest
      else match rawLines rest with
        | [] => [[c]]
        | line :: lines => (c :: line) :: lines

def withoutLineEnd (line : List Char) : List Char :=
  if line.getLast? = some '\n' then
    let line := line.dropLast
    if line.getLast? = some '\r' then line.dropLast else line
  else line

def joinedLines (past : List Char) (state : LineState) : List (List Char) → List (Option (List Char))
  | [] => if state = .complete then [] else [none]
  | line :: lines =>
      if (trimStart (past ++ line)).head? = some '#' then some [] :: joinedLines [] .complete lines
      else match scanLine state [] line with
        | .inr kept => some (past ++ kept) :: joinedLines [] .complete lines
        | .inl .complete => some (withoutLineEnd (past ++ line)) :: joinedLines [] .complete lines
        | .inl state => joinedLines (past ++ line) state lines

structure Naming where
  braced : Bool
  name : List Char

structure Reading where
  output : List Char := []
  quote : Option Char := none
  escaped : Bool := false
  ending : Bool := false
  naming : Option Naming := none

def Reading.emit (r : Reading) (text : List Char) : Reading := { r with output := text.reverse ++ r.output }

def Reading.resolve (r : Reading) (valueOf : String → String) : Reading :=
  match r.naming with
  | some naming => { r.emit (valueOf (String.ofList naming.name)).toList with naming := none }
  | none => r

def escapable : List Char := ['\\','\'','"','$',' ']

def readNamed (valueOf : String → String) (r : Reading) (naming : Naming) (c : Char) : Reading :=
  if c.isAlphanum then { r with naming := some { naming with name := naming.name ++ [c] } }
  else if naming.braced then
    if c = '\x7d' then r.resolve valueOf else { r with naming := some { naming with name := naming.name ++ [c] } }
  else if c = '\x7b' && naming.name.isEmpty then { r with naming := some { naming with braced := true } }
  else if c = '$' then { r.resolve valueOf with naming := some ⟨false,[]⟩ }
  else (r.resolve valueOf).emit [c]

def readPlain (r : Reading) (c : Char) : Reading :=
  if c = '$' then { r with naming := some ⟨false,[]⟩ }
  else if c = '\\' then { r with escaped := true }
  else if r.quote = some '"' then if c = '"' then { r with quote := none } else r.emit [c]
  else if c = '\'' ∨ c = '"' then { r with quote := some c }
  else if c = ' ' ∨ c = '\t' then { r with ending := true }
  else r.emit [c]

def Reading.finish? (r : Reading) (valueOf : String → String) : Option String :=
  if r.quote.isSome || r.naming.any Naming.braced then none
  else some (String.ofList (r.resolve valueOf).output.reverse)

def readValue? (valueOf : String → String) (r : Reading) : List Char → Option String
  | [] => r.finish? valueOf
  | c :: rest =>
      if r.ending then
        if c = ' ' ∨ c = '\t' then readValue? valueOf r rest
        else if c = '#' then r.finish? valueOf
        else none
      else if r.escaped then
        let r := { r with escaped := false }
        if escapable.contains c then readValue? valueOf (r.emit [c]) rest
        else if c = 'n' then readValue? valueOf (r.emit ['\n']) rest
        else none
      else if r.quote = some '\'' then
        readValue? valueOf (if c = '\'' then { r with quote := none } else r.emit [c]) rest
      else match r.naming with
        | some naming => readValue? valueOf (readNamed valueOf r naming c) rest
        | none => readValue? valueOf (readPlain r c) rest

def isNameStart (c : Char) : Bool := c.isAlpha || c = '_'

def isNameChar (c : Char) : Bool := c.isAlphanum || c = '_' || c = '.'

def readName? (text : List Char) : Option (String × List Char) :=
  if text.head?.any isNameStart then
    some (String.ofList (text.takeWhile isNameChar),trimStart (text.dropWhile isNameChar))
  else none

inductive Line where
  | empty
  | sets (name value : String)

def readAssigned? (text : List Char) : Option (String × List Char) := do
  let (name,rest) ← readName? text
  match rest with
  | '=' :: rest => return (name,trimStart rest)
  | _ =>
      if name ≠ "export" then none
      else
        let (name,rest) ← readName? rest
        match rest with
        | '=' :: rest => return (name,trimStart rest)
        | _ => none

def readLine? (valueOf : String → String) (line : List Char) : Option Line :=
  let text := trim line
  if text.isEmpty || text.head? = some '#' then some .empty
  else do
    let (name,rest) ← readAssigned? text
    if rest.isEmpty || rest.head? = some '#' then return .sets name ""
    else return .sets name (← readValue? valueOf {} rest)

-- Variables that are set already keep their values. `stored` is what the file said so far.
def readLines (vars stored : Variables) : List (Option (List Char)) → Variables
  | [] => vars
  | none :: _ => vars
  | some line :: lines =>
      let valueOf := fun name => ((vars.lookup name).orElse fun _ => stored.lookup name).getD ""
      match readLine? valueOf line with
      | none => vars
      | some .empty => readLines vars stored lines
      | some (.sets name value) =>
          readLines (if (vars.lookup name).isSome then vars else vars ++ [(name,value)])
            ((name,value) :: stored) lines

def fileMark : Char := Char.ofNat 0xFEFF

def addFile (vars : Variables) (content : String) : Variables :=
  let text := content.toList
  let text := if text.head? = some fileMark then text.drop 1 else text
  readLines vars [] (joinedLines [] .complete (rawLines text))

end Redline.Settings
