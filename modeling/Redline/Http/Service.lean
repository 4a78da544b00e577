import Redline.Access.Token
import Redline.Desk.Schedule
import Redline.Exchange.Export
import Redline.Format.Pipeline
import Redline.Http.Media
import Redline.Http.Origin
import Redline.Http.Route
import Redline.Revision.Compare
import Redline.Settings.Basic

namespace Redline.Http

open Json Access

structure Clock where
  seconds : Int
  stamp : String
deriving DecidableEq, Inhabited

structure Service where
  desk : Desk
  tree : Files.Tree
  exportPlace : Files.Location
  tokens : Option TokenService
  origins : OriginPolicy
  contextWords : Nat
  snippetSeparator : String
  cronKey : Option String
deriving Inhabited

abbrev Answer := Except Refusal Reply × Service

def tokensOf (settings : Settings) : Attempt (Option TokenService) :=
  match settings.environment,settings.accessKey with
  | some environment,some key =>
      match TokenService.make environment key settings.defaultRole with
      | .ok service => return some service
      | .error problem => throw ⟨[.tokenService],.token problem⟩
  | _,_ => return none

namespace Service

-- The tokens are set up before the routes, so their failure comes before a panic over the origins.
def make (settings : Settings) (exportPlace : Files.Location) : Except Stop Service := do
  let tokens ← (tokensOf settings).mapError Stop.failed
  let origins ← (OriginPolicy.make settings.allowedOrigins).mapError Stop.panicked
  return {
    desk := { batchSize := settings.batchSize }
    tree := []
    exportPlace
    tokens
    origins
    contextWords := settings.contextWords
    snippetSeparator := settings.snippetSeparator
    cronKey := settings.cronKey }

def shown (s : Service) : String :=
  s!"AppState \x7b tokens_enabled: {s.tokens.isSome}, content_export_dir: " ++
    Text.quotedPath s.exportPlace.shown ++ " \x7d"

def queueLength (s : Service) : Except Refusal Nat :=
  match s.desk.len usageQueue with
  | .ok n => .ok n
  | .error _ => .error .internal

def health (s : Service) : Reply :=
  .ok (.object [("status",.text "healthy"),("collaboration_tokens",.bool s.tokens.isSome),
    ("usage_queue",.count (s.queueLength.toOption.getD 0))])

def metrics (s : Service) : Reply :=
  ⟨200,.page "text/plain; version=0.0.4; charset=utf-8" s.desk.counters.page,[]⟩

def lastRunValue (result : RunResult) : Value := .object [("timestamp",.count 0),("result",result.toValue)]

def cronStatus (s : Service) : Except Refusal Reply := do
  let waiting ← s.queueLength
  return .ok (.object [("last_run",(s.desk.lastRun.map lastRunValue).getD .null),("usage_queue",.count waiting)])

def cron (s : Service) (key : List Char) : Answer :=
  match decoded key with
  | .error refusal => (.error refusal,s)
  | .ok key =>
      match s.cronKey with
      | none => (.error .notFound,s)
      | some expected =>
          if key ≠ expected then (.error .forbidden,s)
          else
            let (result,desk) := s.desk.run
            let status := match result with
              | .failed _ => 500
              | _ => 200
            (.ok ⟨status,.json result.toValue,[]⟩,{ s with desk })

def tokenShape : Shape :=
  .record [Field.required "user_id" .text,Field.nullable "name" .text,Field.nullable "email" .text,
    Field.nullable "avatar" .text,Field.nullable "role" .text]

def textOf? (value : Value) (name : String) : Option String := (value.member? name).bind Value.text?

def userOf (value : Value) : Profile :=
  ⟨(textOf? value "user_id").getD "",textOf? value "name",textOf? value "email",textOf? value "avatar"⟩

def refusalOf : TokenProblem → Refusal
  | .missingEnvironment => .unavailable TokenProblem.missingEnvironment.message
  | .missingKey => .unavailable TokenProblem.missingKey.message
  | .invalid _ => .internal
  | problem => .badRequest problem.message

def issued (service : TokenService) (value : Value) (clock : Clock) : Except TokenProblem Value := do
  let role ← (textOf? value "role").mapM Role.read
  let token ← service.issueAt (userOf value) role clock.seconds
  return .object [("token",.text (String.ofList token)),("environment_id",.text service.environment),
    ("role",.text (role.getD service.defaultRole).word)]

def onCounters (s : Service) (change : Counters → Counters) : Service :=
  { s with desk := { s.desk with counters := change s.desk.counters } }

def token (s : Service) (request : Request) (clock : Clock) : Answer :=
  match request.json tokenShape with
  | .error refusal => (.error refusal,s)
  | .ok value =>
      match s.tokens with
      | none => (.error (.unavailable "collaboration service is not configured"),s)
      | some service =>
          match issued service value clock with
          | .error problem => (.error (refusalOf problem),s)
          | .ok answer => (.ok (.ok answer),s.onCounters Counters.recordToken)

def filterShape : Shape := .record [Field.required "html" .text,Field.nullable "format" .text]

def filter (s : Service) (request : Request) : Answer :=
  match request.json filterShape with
  | .error refusal => (.error refusal,s)
  | .ok value =>
      let format := Format.TextFormat.ofName ((textOf? value "format").getD "")
      let html := ((textOf? value "html").getD "").toList
      let answer := .object [("html",.text (String.ofList (format.apply html))),("format",.text format.name)]
      (.ok (.ok answer),s.onCounters fun c => c.recordFilter format.name (Markup.mentionsMarkers html))

def diffShape : Shape :=
  .record [Field.required "old" .text,Field.required "new" .text,
    Field.nullable "context_words" (.whole 0 (Int.pow 2 64 - 1))]

def greatestContext : Nat := 50

def changeValue (change : Revision.Change) : Value :=
  .object [("kind",.text change.kind.word),("removed",.text (String.ofList change.removed)),
    ("inserted",.text (String.ofList change.inserted))]

def diff (s : Service) (request : Request) : Answer :=
  match request.json diffShape with
  | .error refusal => (.error refusal,s)
  | .ok value =>
      let asked := ((value.member? "context_words").bind Value.whole?).map Int.toNat
      let c := Revision.compare ((textOf? value "old").getD "") ((textOf? value "new").getD "") false
      let snippets := c.snippets (min (asked.getD s.contextWords) greatestContext)
      let answer := .object [("has_changes",.bool c.hasChanges),("html",.text (String.ofList c.page)),
        ("added_content",.array (c.added.map fun text => .text (String.ofList text))),
        ("changes",.array (c.changes.map changeValue)),
        ("context",.text (String.ofList (Revision.joinSnippets snippets s.snippetSeparator.toList)))]
      (.ok (.ok answer),s.onCounters Counters.recordDiff)

def accepted? (e : Entity) (clock : Clock) : Option Entity :=
  if Text.allBlank e.entityType || Text.allBlank e.bundle then none
  else some (if e.changed = 0 then { e with changed := clock.seconds } else e)

def putContent (s : Service) (request : Request) (clock : Clock) : Answer :=
  match request.json Entity.shape with
  | .error refusal => (.error refusal,s)
  | .ok value =>
      match Entity.ofValue? value with
      | none => (.error .mismatch,s)
      | some e =>
          match accepted? e clock with
          | none => (.error (.badRequest "entity_type and bundle are required"),s)
          | some e =>
              match s.desk.submit e with
              | (.ok (),desk) => (.ok (.ok e.toValue),{ s with desk })
              | (.error _,desk) => (.error .internal,{ s with desk })

def getContent (s : Service) (entityType uuid : List Char) : Except Refusal Reply := do
  let ref ← reference entityType uuid
  match s.desk.load ref with
  | .ok (some e) => return .ok e.toValue
  | .ok none => throw .notFound
  | .error _ => throw .internal

def deleteContent (s : Service) (entityType uuid : List Char) : Answer :=
  match reference entityType uuid with
  | .error refusal => (.error refusal,s)
  | .ok ref =>
      match s.desk.withdraw ref with
      | (.ok true,desk) => (.ok ⟨204,.text "",[]⟩,{ s with desk })
      | (.ok false,desk) => (.error .notFound,{ s with desk })
      | (.error _,desk) => (.error .internal,{ s with desk })

def refValue (ref : EntityRef) : Value :=
  .object [("entity_type",.text ref.entityType),("uuid",.text ref.uuid.text)]

def rowValue (row : Usage.Row) : Value :=
  .object [("source",refValue row.source),("target",refValue row.target),("method",.text row.method.word),
    ("count",.count row.count)]

def usage (s : Service) (entityType uuid : List Char) : Except Refusal Reply := do
  let ref ← reference entityType uuid
  return .ok (.object [("targets",.array ((s.desk.registry.targets ref).map rowValue)),
    ("sources",.array ((s.desk.registry.sources ref).map rowValue))])

def exportShape : Shape := .record [Field.defaulted "clean" .flag]

def reportValue (report : Exchange.Report) : Value :=
  .object [("counts",.object (report.counts.map fun (name,n) => (name,.count n))),
    ("unchanged",.count report.unchanged),("removed",.count report.removed),
    ("warnings",.array (report.warnings.map fun warning => .text warning.message))]

def exportAll (s : Service) (request : Request) (clock : Clock) : Answer :=
  match request.optionalJson exportShape with
  | .error refusal => (.error refusal,s)
  | .ok value =>
      let clean := ((value.bind (Value.member? "clean")).bind Value.flag?).getD false
      match Exchange.exportContent s.desk ⟨s.exportPlace,clean,clock.stamp⟩ s.tree with
      | (.ok report,tree) => (.ok (.ok (reportValue report)),{ s with tree })
      | (.error _,tree) => (.error .internal,{ s with tree })

def serve (s : Service) (request : Request) (clock : Clock) (method : Method) (resource : Resource) : Answer :=
  match method,resource with
  | .get,.health => (.ok s.health,s)
  | .get,.metrics => (.ok s.metrics,s)
  | .get,.cronStatus => (s.cronStatus,s)
  | .post,.cron key => s.cron key
  | .post,.token => s.token request clock
  | .post,.filter => s.filter request
  | .post,.diff => s.diff request
  | .put,.content => s.putContent request clock
  | .post,.contentExport => s.exportAll request clock
  | .get,.entity entityType uuid => (s.getContent entityType uuid,s)
  | .delete,.entity entityType uuid => s.deleteContent entityType uuid
  | .get,.usage entityType uuid => (s.usage entityType uuid,s)
  | _,_ => (.error .wrongMethod,s)

def replyOf : Except Refusal Reply → Reply
  | .ok reply => reply
  | .error refusal => refusal.reply

def dispatch (s : Service) (request : Request) (clock : Clock) : Reply × Service :=
  match resource? (pathOf request.target) with
  | none => (⟨404,.text "",[]⟩,s)
  | some resource =>
      if request.method = .head then
        let (result,s) := s.serve request clock .get resource
        ((replyOf result).headOnly,s)
      else
        let (result,s) := s.serve request clock request.method resource
        (replyOf result,s)

def handle (s : Service) (request : Request) (clock : Clock) : Reply × Service :=
  if request.method = .options then (s.origins.answer request ⟨200,.text "",[]⟩,s)
  else
    let (reply,after) := s.dispatch request clock
    (s.origins.answer request reply,after)

end Service

end Redline.Http
