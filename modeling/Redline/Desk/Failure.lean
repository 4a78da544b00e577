import Redline.Files.Tree
import Redline.Access.Problem
import Redline.Text.Unsigned

namespace Redline

inductive Call where
  | entityTypes
  | list
  | load
  | save
  | delete
  | push
  | pop
  | len
deriving DecidableEq, Inhabited

namespace Call

def word : Call → String
  | entityTypes => "entity_types"
  | list => "list"
  | load => "load"
  | save => "save"
  | delete => "delete"
  | push => "push"
  | pop => "pop"
  | len => "len"

def all : List Call := [entityTypes,list,load,save,delete,push,pop,len]

def ofWord? (word : String) : Option Call := all.find? (·.word = word)

end Call

inductive Variable where
  | port
  | defaultRole
  | contextWords
  | cronInterval
  | batchSize
deriving DecidableEq, Inhabited

def Variable.requirement : Variable → String
  | port => "PORT must be a valid u16"
  | defaultRole => "COLLABORATION_DEFAULT_ROLE must be reader, commentator or writer"
  | contextWords => "DIFF_CONTEXT_WORDS must be a valid usize"
  | cronInterval => "CRON_INTERVAL_SECS must be a valid u64"
  | batchSize => "USAGE_BATCH_SIZE must be a valid usize"

inductive Cause where
  | offline (call : Call)
  | file (problem : Files.Problem)
  | token (problem : Access.TokenProblem)
  | number (problem : Text.NumberProblem)
  | warnings (count total : Nat)
deriving DecidableEq, Inhabited

def Cause.message : Cause → String
  | offline call => call.word ++ " offline"
  | file problem => problem.message
  | token problem => problem.message
  | number problem => problem.message
  | warnings count total => s!"{count} warning(s) in {total} entities"

inductive Context where
  | popItem
  | listTypes
  | listEntities (entityType : String)
  | createDirectory (shown : String)
  | readDirectory (shown : String)
  | readFile (shown : String)
  | tokenService
  | configuration
  | setting (setting : Variable)
deriving DecidableEq, Inhabited

def Context.message : Context → String
  | popItem => "failed to pop usage item"
  | listTypes => "failed to list entity types"
  | listEntities entityType => "failed to list " ++ entityType ++ " entities"
  | createDirectory shown => "failed to create directory " ++ shown
  | readDirectory shown => "failed to read directory " ++ shown
  | readFile shown => "failed to read " ++ shown
  | tokenService => "failed to create collaboration token service"
  | configuration => "failed to load configuration"
  | setting var => var.requirement

-- Contexts have the outermost first.
structure Failure where
  contexts : List Context
  cause : Cause
deriving DecidableEq, Inhabited

namespace Failure

def of (cause : Cause) : Failure := ⟨[],cause⟩

def within (context : Context) (failure : Failure) : Failure :=
  { failure with contexts := context :: failure.contexts }

def chain (failure : Failure) : List String := failure.contexts.map Context.message ++ [failure.cause.message]

def message (failure : Failure) : String := Text.joined ": " failure.chain

def headline (failure : Failure) : String :=
  match failure.contexts with
  | context :: _ => context.message
  | [] => failure.cause.message

def hanging (indent : Nat) (text : String) : String :=
  String.ofList (Text.substitute '\n' ('\n' :: List.replicate indent ' ') text.toList)

def report (failure : Failure) : String :=
  match failure.chain with
  | [] => "Error: \n"
  | [line] => "Error: " ++ line ++ "\n"
  | [line,cause] => "Error: " ++ line ++ "\n\nCaused by:\n    " ++ hanging 4 cause ++ "\n"
  | line :: causes =>
      "Error: " ++ line ++ "\n\nCaused by:\n" ++
        Text.joined "" (causes.zipIdx.map fun (cause,index) => s!"    {index}: {hanging 7 cause}\n")

end Failure

-- What ends a call where it stands, as no failure does: nobody on the way answers for it.
inductive Panic where
  | wildcardAmongOrigins
  | instantOverflow
deriving DecidableEq, Inhabited

inductive Stop where
  | failed (failure : Failure)
  | panicked (panic : Panic)
deriving DecidableEq, Inhabited

def Attempt := Except Failure

instance : Monad Attempt := inferInstanceAs (Monad (Except Failure))

instance : MonadExceptOf Failure Attempt := inferInstanceAs (MonadExceptOf Failure (Except Failure))

end Redline
