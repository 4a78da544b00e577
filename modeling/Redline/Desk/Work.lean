import Redline.Desk.Failure
import Redline.Desk.Store
import Redline.Desk.Queue
import Redline.Desk.Counters
import Redline.Usage.Registry
import Redline.Usage.WorkItem

namespace Redline

open Usage

def usageQueue : String := "entity_usage"

inductive RunResult where
  | completed (tasks : List String)
  | skipped
  | failed (headline : String)
deriving DecidableEq, Inhabited

structure Desk where
  store : Store := []
  queues : Queues := []
  registry : Registry := []
  counters : Counters := {}
  batchSize : Nat := 100
  running : Bool := false
  lastRun : Option RunResult := none
  failing : List Call := []
deriving Inhabited

inductive Outcome where
  | processed (targets : Nat)
  | removed
  | skipped
deriving DecidableEq, Inhabited

namespace Outcome

def summary : Outcome → DrainSummary
  | processed _ => ⟨1,0,0⟩
  | removed => ⟨0,1,0⟩
  | skipped => ⟨0,0,1⟩

end Outcome

namespace Desk

def ask (desk : Desk) (call : Call) : Attempt Unit :=
  if desk.failing.contains call then throw (Failure.of (.offline call)) else return ()

def save (desk : Desk) (e : Entity) : Attempt Desk := do
  desk.ask .save
  return { desk with store := desk.store.save e }

def load (desk : Desk) (ref : EntityRef) : Attempt (Option Entity) := do
  desk.ask .load
  return desk.store.load ref

def delete (desk : Desk) (ref : EntityRef) : Attempt (Bool × Desk) := do
  desk.ask .delete
  return ((desk.store.load ref).isSome,{ desk with store := desk.store.delete ref })

def types (desk : Desk) : Attempt (List String) := do
  desk.ask .entityTypes
  return desk.store.types

def list (desk : Desk) (entityType : String) : Attempt (List Entity) := do
  desk.ask .list
  return desk.store.list entityType

def push (desk : Desk) (name item : String) : Attempt Desk := do
  desk.ask .push
  return { desk with queues := desk.queues.push name item }

def pop (desk : Desk) (name : String) : Attempt (Option String × Desk) := do
  desk.ask .pop
  match desk.queues.pop name with
  | some (item,rest) => return (some item,{ desk with queues := rest })
  | none => return (none,desk)

-- When a pop that waits gives up. Out of service it fails before it looks at the clock.
def deadline (desk : Desk) (now timeout : Nat) : Except Stop Nat := do
  (desk.ask .pop).mapError Stop.failed
  (Queues.deadline now timeout).mapError Stop.panicked

def await (desk : Desk) (now : Nat) (name : String) (timeout : Nat) (arrivals : List Queues.Arrival) :
    Except Stop (Option String) × Desk :=
  let arrivals := if desk.failing.contains .push then [] else arrivals
  match desk.deadline now timeout with
  | .error stop => (.error stop,{ desk with queues := desk.queues.pushAll arrivals })
  | .ok deadline =>
      let (item,queues) := desk.queues.await name deadline arrivals
      (.ok item,{ desk with queues })

def len (desk : Desk) (name : String) : Attempt Nat := do
  desk.ask .len
  return desk.queues.len name

def enqueue (desk : Desk) (item : WorkItem) : Attempt Desk := desk.push usageQueue item.payload

-- Saves an entity and asks for its usage. What was saved stays when the queue refuses.
def submit (desk : Desk) (e : Entity) : Attempt Unit × Desk :=
  match desk.save e with
  | .error failure => (.error failure,desk)
  | .ok saved =>
      match saved.enqueue ⟨e.ref,.update⟩ with
      | .error failure => (.error failure,saved)
      | .ok queued => (.ok (),queued)

-- Deletes an entity and asks for its usage to go. Nothing is queued for one that was not there.
def withdraw (desk : Desk) (ref : EntityRef) : Attempt Bool × Desk :=
  match desk.delete ref with
  | .error failure => (.error failure,desk)
  | .ok (false,desk) => (.ok false,desk)
  | .ok (true,deleted) =>
      match deleted.enqueue ⟨ref,.delete⟩ with
      | .error failure => (.error failure,deleted)
      | .ok queued => (.ok true,queued)

-- One work item. An entity that cannot be loaded is left for a later item.
def process (desk : Desk) (item : WorkItem) : Outcome × Desk :=
  match item.operation with
  | .delete => (.removed,{ desk with registry := desk.registry.remove item.source })
  | .update =>
      match desk.load item.source with
      | .ok (some e) =>
          (.processed (distinctTargets (rowsOf e)),{ desk with registry := desk.registry.register e })
      | _ => (.skipped,desk)

def handle (desk : Desk) (payload : String) : Outcome × Desk :=
  match WorkItem.ofPayload? payload with
  | some item => desk.process item
  | none => (.skipped,desk)

def drain (desk : Desk) : Nat → Attempt (DrainSummary × Desk)
  | 0 => return ({},desk)
  | limit + 1 =>
      match desk.pop usageQueue with
      | .error failure => throw (failure.within .popItem)
      | .ok (none,desk) => return ({},desk)
      | .ok (some payload,desk) => do
          let (outcome,desk) := desk.handle payload
          let (summary,desk) ← drain desk limit
          return (outcome.summary.add summary,desk)

def atFirstLoad? (desk : Desk) : Nat → Option Desk
  | 0 => none
  | limit + 1 =>
      match desk.pop usageQueue with
      | .ok (some payload,desk) =>
          match WorkItem.ofPayload? payload with
          | some ⟨_,.update⟩ => some desk
          | _ => atFirstLoad? (desk.handle payload).2 limit
      | _ => none

end Desk

end Redline
