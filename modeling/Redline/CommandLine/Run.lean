import Redline.Access.Token
import Redline.CommandLine.Arguments
import Redline.Exchange.Import
import Redline.Format.Pipeline
import Redline.Revision.Compare
import Redline.Settings.VariableFile

namespace Redline.CommandLine

open Text

structure Scene where
  «variables» : Settings.Variables := []
  tree : Files.Tree := []
  input : String := ""
  seconds : Int := 0
deriving Inhabited

structure Outcome where
  code : Nat
  output : String
  errors : String := ""
deriving DecidableEq, Inhabited

abbrev Printed := String × Option Failure

def printed (attempt : Attempt String) : Printed :=
  match attempt with
  | .ok output => (output,none)
  | .error failure => ("",some failure)

def located (written : String) : Files.Location := (⟨"",[]⟩ : Files.Location).join written

def isAbsolute (written : String) : Bool := written.toList.head? = some '/'

def readFile (scene : Scene) (written : String) : Attempt String :=
  let read := if isAbsolute written then .error .notFound else scene.tree.readText (Files.names written)
  match read with
  | .ok text => return text
  | .error problem => throw ⟨[.readFile written],.file problem⟩

def runFilter (scene : Scene) (format : String) (file : Option String) : Attempt String := do
  let text ← match file with
    | some written => readFile scene written
    | none => pure scene.input
  return String.ofList ((Format.TextFormat.ofName format).apply text.toList)

def runDiff (scene : Scene) (settings : Settings) (old new : String) (context : Option Nat) : Attempt String := do
  let old ← readFile scene old
  let new ← readFile scene new
  let c := Revision.compare old new false
  if !c.hasChanges then return ""
  else
    let snippets := c.snippets (context.getD settings.contextWords)
    let joined := String.ofList (Revision.joinSnippets snippets settings.snippetSeparator.toList)
    let page := String.ofList c.page ++ "\n"
    return if joined.isEmpty then page else page ++ "\n" ++ joined ++ "\n"

def tokenFailure (problem : Access.TokenProblem) : Failure := .of (.token problem)

def issueToken (scene : Scene) (settings : Settings) (user : Access.Profile) (role : Option String) :
    Except Access.TokenProblem (List Char) := do
  let service ← Access.TokenService.make (settings.environment.getD "") (settings.accessKey.getD "") settings.defaultRole
  let role ← role.mapM Access.Role.read
  service.issueAt user role scene.seconds

def runToken (scene : Scene) (settings : Settings) (user : Access.Profile) (role : Option String) : Attempt String :=
  match issueToken scene settings user role with
  | .ok token => return String.ofList token ++ "\n"
  | .error problem => throw (tokenFailure problem)

def reportLines (report : Exchange.Report) : String :=
  joined "" (report.counts.map fun (name,n) => s!"{name}: {n}\n") ++
    joined "" (report.warnings.map fun warning => "warning: " ++ warning.message ++ "\n")

def runValidate (scene : Scene) (written : String) : Printed :=
  let attempt := if isAbsolute written then .error ⟨[.readDirectory written],.file .notFound⟩
    else Exchange.importContent {} scene.tree (located written) true
  match attempt with
  | .error failure => ("",some failure)
  | .ok (report,_) =>
      (reportLines report,
        if report.warnings.isEmpty then none else some (.of (.warnings report.warnings.length report.total)))

-- Serving is up to whoever calls: nothing is printed for it.
def perform (scene : Scene) (settings : Settings) : Command → Printed
  | .serve => ("",none)
  | .filter format file => printed (runFilter scene format file)
  | .diff old new context => printed (runDiff scene settings old new context)
  | .token user name email role => printed (runToken scene settings ⟨user,name,email,none⟩ role)
  | .validate place => runValidate scene place

def outcome : Printed → Outcome
  | (output,none) => ⟨0,output,""⟩
  | (output,some failure) => ⟨1,output,failure.report⟩

def variableFile : String := ".env"

def Scene.allVariables (scene : Scene) : Settings.Variables :=
  match scene.tree.readText [variableFile] with
  | .ok content => Settings.addFile scene.«variables» content
  | .error _ => scene.«variables»

def run (scene : Scene) (words : List String) : Outcome :=
  match Command.ofWords? words with
  | none => ⟨2,"",""⟩
  | some command =>
      match Settings.ofVariables scene.allVariables with
      | .error failure => outcome ("",some (failure.within .configuration))
      | .ok settings => outcome (perform scene settings command)

end Redline.CommandLine
