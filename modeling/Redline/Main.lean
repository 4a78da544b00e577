import Redline.CommandLine.Run
import Std.Time.DateTime.Timestamp

namespace Redline.Main

open CommandLine

def variableNames : List String :=
  ["PORT","CORS_ALLOWED_ORIGINS","CKEDITOR_ENVIRONMENT_ID","CKEDITOR_ACCESS_KEY",
    "COLLABORATION_DEFAULT_ROLE","CONTENT_EXPORT_DIR","DIFF_CONTEXT_WORDS","DIFF_SNIPPET_SEPARATOR",
    "CRON_INTERVAL_SECS","CRON_KEY","USAGE_BATCH_SIZE"]

def gatherVariables : IO Settings.Variables :=
  variableNames.filterMapM fun name => do return (← IO.getEnv name).map fun value => (name,value)

partial def gather (tree : Files.Tree) (written : String) : IO Files.Tree := do
  let path := (← IO.currentDir) / written
  let place := (Files.names written).filter fun name => name ≠ "" ∧ name ≠ "."
  if ← path.isDir then
    let made := (tree.ensureDirectory place).toOption.getD tree
    (← path.readDir).foldlM (fun tree entry => gather tree (written ++ "/" ++ entry.fileName)) made
  else
    try
      let bytes ← IO.FS.readBinFile path
      return (tree.writeWithin place (.ofBytes bytes.toList)).toOption.getD tree
    catch _ => return tree

def paths : Command → List String
  | .filter _ file => file.toList
  | .diff old new _ => [old,new]
  | .validate place => [place]
  | _ => []

def readsInput : Command → Bool
  | .filter _ none => true
  | _ => false

def gatherScene (command : Command) : IO Scene := do
  let tree ← (variableFile :: paths command).foldlM gather []
  let input ← if readsInput command then (← IO.getStdin).readToEnd else pure ""
  return { «variables» := ← gatherVariables, tree, input, seconds := (← Std.Time.Timestamp.now).toSecondsSinceUnixEpoch.val }

end Redline.Main

def main (words : List String) : IO UInt32 := do
  match Redline.CommandLine.Command.ofWords? words with
  | some .serve =>
      IO.eprintln "serving is left to a program that listens"
      return 1
  | command =>
      let scene ← match command with
        | some command => Redline.Main.gatherScene command
        | none => pure {}
      let outcome := Redline.CommandLine.run scene words
      IO.print outcome.output
      IO.eprint outcome.errors
      return UInt32.ofNat outcome.code
