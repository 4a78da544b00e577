import Redline.Desk.Work

namespace Redline

namespace RunResult

open Json

-- A run takes no measurable time here.
def toValue : RunResult → Value
  | completed tasks =>
      .object [("status",.text "completed"),("tasks_run",.array (tasks.map .text)),("duration_ms",.count 0)]
  | skipped => .object [("status",.text "skipped")]
  | failed headline => .object [("status",.text "failed"),("error",.text headline)]

end RunResult

namespace Desk

def start? (desk : Desk) : Option Desk := if desk.running then none else some { desk with running := true }

def finish (desk : Desk) (result : RunResult) : Desk :=
  { desk with running := false, lastRun := some result }

def work (desk : Desk) : RunResult × Desk :=
  match desk.drain desk.batchSize with
  | .ok (summary,desk) =>
      (.completed [s!"entity_usage: {summary.total}"],
        { desk with counters := desk.counters.recordUsage summary })
  | .error failure => (.failed failure.headline,desk)

def run (desk : Desk) : RunResult × Desk :=
  match desk.start? with
  | none => (.skipped,desk)
  | some desk =>
      let (result,desk) := desk.work
      (result,desk.finish result)

-- What a second run comes to that starts when the first one loads its first entity.
def meanwhile (desk : Desk) : Option RunResult := do
  let started ← desk.start?
  let busy ← started.atFirstLoad? started.batchSize
  return busy.run.1

def runTimes (desk : Desk) : Nat → Desk
  | 0 => desk
  | times + 1 => runTimes desk.run.2 times

def runPeriodically (desk : Desk) (interval stop : Nat) : Desk := desk.runTimes (stop / interval + 1)

end Desk

end Redline
