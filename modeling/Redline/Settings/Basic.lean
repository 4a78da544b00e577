import Redline.Access.Role
import Redline.Desk.Failure
import Redline.Text.Quoted
import Redline.Text.Unsigned

namespace Redline

open Text

structure Settings where
  port : Nat := 3000
  allowedOrigins : List String := ["*"]
  environment : Option String := none
  accessKey : Option String := none
  defaultRole : Access.Role := .writer
  exportPlace : String := "./content"
  contextWords : Nat := 3
  snippetSeparator : String := " <span class=\"diff-separator\">[…]</span> "
  cronInterval : Nat := 60
  cronKey : Option String := none
  batchSize : Nat := 100
deriving DecidableEq, Inhabited

namespace Settings

abbrev Variables := List (String × String)

def filled? (vars : Variables) (name : String) : Option String :=
  (vars.lookup name).filter fun value => !allBlank value

def number (vars : Variables) (name : String) (default limit : Nat) (setting : Variable) : Attempt Nat :=
  match vars.lookup name with
  | none => return default
  | some value =>
      match unsigned limit value.toList with
      | .ok n => return n
      | .error problem => throw ⟨[.setting setting],.number problem⟩

def origins (value : String) : List String :=
  (splitOn ',' value.toList).map fun piece => String.ofList (trim piece)

def role (vars : Variables) : Attempt Access.Role :=
  match filled? vars "COLLABORATION_DEFAULT_ROLE" with
  | none => return .writer
  | some word =>
      match Access.Role.read word with
      | .ok role => return role
      | .error problem => throw ⟨[.setting .defaultRole],.token problem⟩

def ofVariables (vars : Variables) : Attempt Settings := do
  let standard : Settings := {}
  let port ← number vars "PORT" standard.port (Nat.pow 2 16) .port
  let defaultRole ← role vars
  let contextWords ← number vars "DIFF_CONTEXT_WORDS" standard.contextWords (Nat.pow 2 64) .contextWords
  let cronInterval ← number vars "CRON_INTERVAL_SECS" standard.cronInterval (Nat.pow 2 64) .cronInterval
  let batchSize ← number vars "USAGE_BATCH_SIZE" standard.batchSize (Nat.pow 2 64) .batchSize
  return {
    port
    allowedOrigins := ((vars.lookup "CORS_ALLOWED_ORIGINS").map origins).getD standard.allowedOrigins
    environment := filled? vars "CKEDITOR_ENVIRONMENT_ID"
    accessKey := filled? vars "CKEDITOR_ACCESS_KEY"
    defaultRole
    exportPlace := (vars.lookup "CONTENT_EXPORT_DIR").getD standard.exportPlace
    contextWords
    snippetSeparator := (vars.lookup "DIFF_SNIPPET_SEPARATOR").getD standard.snippetSeparator
    cronInterval
    cronKey := filled? vars "CRON_KEY"
    batchSize }

def shownOption : Option String → String
  | some value => "Some(" ++ quoted value ++ ")"
  | none => "None"

def redacted (secret : Option String) : Option String := secret.map fun _ => "[redacted]"

def shown (s : Settings) : String :=
  "Config \x7b " ++ joined ", "
    [s!"port: {s.port}","cors_allowed_origins: [" ++ joined ", " (s.allowedOrigins.map quoted) ++ "]",
      "ckeditor_environment_id: " ++ shownOption s.environment,
      "ckeditor_access_key: " ++ shownOption (redacted s.accessKey),
      "collaboration_default_role: " ++ s.defaultRole.shown,
      "content_export_dir: " ++ quotedPath s.exportPlace,
      s!"diff_context_words: {s.contextWords}",s!"cron_interval_secs: {s.cronInterval}",
      "cron_key: " ++ shownOption (redacted s.cronKey),s!"usage_batch_size: {s.batchSize}"] ++ " \x7d"

end Settings

end Redline
