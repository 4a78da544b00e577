import Redline.Proofs.UsageTracking
import Redline.Proofs.Waits

namespace Redline

open Usage

-- What the answers of a session tell about the usage queue: items pushed to it, handed out by pops,
-- and named by the summaries of drains.
structure Receipts where
  pushed : Nat := 0
  popped : Nat := 0
  drained : Nat := 0

def Receipts.add (a b : Receipts) : Receipts := ⟨a.pushed + b.pushed,a.popped + b.popped,a.drained + b.drained⟩

-- What is asked of a desk. A delete queues its item also where nothing was stored; a withdrawal does not.
inductive Demand where
  | push (name item : String)
  | enqueue (item : WorkItem)
  | save (e : Entity)
  | delete (ref : EntityRef)
  | withdraw (ref : EntityRef)
  | pop (name : String)
  | await (now : Nat) (name : String) (timeout : Nat) (arrivals : List Queues.Arrival)
  | drain (limit : Nat)
  | run (batchSize : Nat)

def usageItem (name : String) : Nat := if name = usageQueue then 1 else 0

def usageArrivals (arrivals : List Queues.Arrival) : Nat := arrivals.countP fun arrival => arrival.name = usageQueue

def Demand.meet (desk : Desk) : Demand → Receipts × Desk
  | push name item =>
      match desk.push name item with
      | .ok pushed => ({ pushed := usageItem name },pushed)
      | .error _ => ({},desk)
  | enqueue item =>
      match desk.enqueue item with
      | .ok queued => ({ pushed := 1 },queued)
      | .error _ => ({},desk)
  | save e =>
      match desk.submit e with
      | (.ok _,saved) => ({ pushed := 1 },saved)
      | (.error _,left) => ({},left)
  | delete ref =>
      match desk.delete ref with
      | .error _ => ({},desk)
      | .ok (_,deleted) =>
          match deleted.enqueue ⟨ref,.delete⟩ with
          | .ok queued => ({ pushed := 1 },queued)
          | .error _ => ({},deleted)
  | withdraw ref =>
      match desk.withdraw ref with
      | (.ok true,withdrawn) => ({ pushed := 1 },withdrawn)
      | (_,left) => ({},left)
  | pop name =>
      match desk.pop name with
      | .ok (some _,popped) => ({ popped := usageItem name },popped)
      | .ok (none,left) => ({},left)
      | .error _ => ({},desk)
  | await now name timeout arrivals =>
      match desk.await now name timeout arrivals with
      | (answer,left) =>
          ({ pushed := if desk.failing.contains .push then 0 else usageArrivals arrivals
             popped := match answer with
               | .ok (some _) => usageItem name
               | _ => 0 },left)
  | drain limit =>
      match desk.drain limit with
      | .ok (summary,drained) => ({ drained := summary.total },drained)
      | .error _ => ({},desk)
  | run batchSize => ({},({ desk with batchSize }.run).2)

structure Turn where
  failing : List Call
  demand : Demand

def Turn.take (state : Receipts × Desk) (turn : Turn) : Receipts × Desk :=
  match turn.demand.meet { state.2 with failing := turn.failing } with
  | (receipts,desk) => (state.1.add receipts,desk)

def session (start : Desk) (turns : List Turn) : Receipts × Desk := turns.foldl Turn.take ({},start)

-- The items on the page of running totals, where outcomes that never occurred have no line.
def Counters.itemsShown (c : Counters) : Nat := (usageRows c.usageItems).foldl (fun sum row => sum + row.2) 0

-- What is waiting or has been counted by a scheduled run.
def Desk.onBooks (desk : Desk) : Nat := desk.counters.itemsShown + desk.queues.len usageQueue

-- A payload that is skipped when its turn comes: it is no work item, or its entity cannot be loaded.
def Desk.skips (desk : Desk) (payload : String) : Bool :=
  match WorkItem.ofPayload? payload with
  | none => true
  | some ⟨source,.update⟩ => desk.failing.contains .load || (desk.store.load source).isNone
  | some ⟨_,.delete⟩ => false

theorem itemsShown_total (c : Counters) : c.itemsShown = c.usageItems.total := by
  obtain ⟨_,_,_,_,processed,removed,skipped⟩ := c
  unfold Counters.itemsShown Counters.usageRows DrainSummary.total
  cases processed <;> cases removed <;> cases skipped <;> simp

section Queues

open Queues

variable (queues : Queues) (name item : String)

theorem len_push : (queues.push name item).len usageQueue = queues.len usageQueue + usageItem name := by
  unfold len usageItem
  rw [waiting_push,List.length_append]
  split <;> rfl

theorem len_pop {queues rest : Queues} {name item : String} (popped : queues.pop name = some (item,rest)) :
    queues.len usageQueue = rest.len usageQueue + usageItem name := by
  unfold len usageItem
  rw [pop_keeps popped usageQueue,List.length_append,Nat.add_comm]
  simp only [eq_comm (a := usageQueue)]
  split <;> rfl

theorem length_itemsTo (arrivals : List Arrival) : (itemsTo usageQueue arrivals).length = usageArrivals arrivals := by
  rw [itemsTo,List.length_map,usageArrivals,List.countP_eq_length_filter]

theorem len_pushAll (arrivals : List Arrival) :
    (queues.pushAll arrivals).len usageQueue = queues.len usageQueue + usageArrivals arrivals := by
  unfold len
  rw [waiting_pushAll,List.length_append,length_itemsTo]

theorem len_await (deadline : Nat) (arrivals : List Arrival) :
    queues.len usageQueue + usageArrivals arrivals = (queues.await name deadline arrivals).2.len usageQueue +
      ((queues.await name deadline arrivals).1.map fun _ => usageItem name).getD 0 := by
  have whole := congrArg List.length (@await_keeps queues name deadline usageQueue arrivals)
  rw [List.length_append,List.length_append,length_itemsTo] at whole
  unfold len usageItem
  rw [whole,Nat.add_comm]
  simp only [eq_comm (a := usageQueue)]
  cases (queues.await name deadline arrivals).1 <;> split <;> rfl

end Queues

section Drains

-- What a drain took: the first items, up to the limit, each counted once. Skipped are those that are
-- no work items and those whose entity cannot be loaded.
structure Drained (desk : Desk) (limit : Nat) (summary : DrainSummary) (next : Desk) : Prop where
  total : summary.total = ((desk.queues.waiting usageQueue).take limit).length
  skipped : summary.skipped = ((desk.queues.waiting usageQueue).take limit).countP desk.skips
  left : next.queues.waiting usageQueue = (desk.queues.waiting usageQueue).drop limit
  counters : next.counters = desk.counters

theorem total_add (a b : DrainSummary) : (a.add b).total = a.total + b.total := by
  simp only [DrainSummary.add,DrainSummary.total]
  omega

theorem handle_counted (desk : Desk) (payload : String) : ∃ registry, (desk.handle payload).2 = { desk with registry } ∧
    (desk.handle payload).1.summary.total = 1 ∧
    (desk.handle payload).1.summary.skipped = if desk.skips payload then 1 else 0 := by
  unfold Desk.handle Desk.skips
  cases WorkItem.ofPayload? payload with
  | none => exact ⟨desk.registry,rfl,rfl,rfl⟩
  | some item =>
      obtain ⟨source,operation⟩ := item
      cases operation with
      | delete => exact ⟨_,rfl,rfl,rfl⟩
      | update =>
          dsimp only [Desk.process]
          rw [load_answer]
          cases desk.failing.contains .load with
          | true => exact ⟨desk.registry,rfl,rfl,rfl⟩
          | false =>
              rw [if_neg Bool.false_ne_true]
              rcases Option.eq_none_or_eq_some (desk.store.load source) with gone | ⟨e,stored⟩
              · simp only [gone]
                exact ⟨desk.registry,rfl,rfl,rfl⟩
              · simp only [stored]
                exact ⟨desk.registry.register e,rfl,rfl,rfl⟩

theorem drain_result (desk : Desk) (limit : Nat) :
    match desk.drain limit with
    | .ok (summary,next) => Drained desk limit summary next
    | .error _ => limit ≠ 0 ∧ desk.failing.contains .pop = true := by
  induction limit generalizing desk with
  | zero => exact ⟨rfl,rfl,rfl,rfl⟩
  | succ limit ih =>
      have answer := pop_answer desk usageQueue
      cases offline : desk.failing.contains .pop with
      | true =>
          rw [offline,if_pos rfl] at answer
          simp only [Desk.drain,answer]
          exact ⟨Nat.succ_ne_zero limit,trivial⟩
      | false =>
          rw [offline,if_neg Bool.false_ne_true,Queues.pop] at answer
          cases waiting : desk.queues.waiting usageQueue with
          | nil =>
              rw [waiting] at answer
              simp only [Desk.drain,answer]
              exact ⟨by rw [waiting]; rfl,by rw [waiting]; rfl,waiting.trans (by rw [waiting]; rfl),rfl⟩
          | cons payload rest =>
              rw [waiting] at answer
              let popped : Desk := { desk with queues := Table.insert usageQueue rest desk.queues }
              have taken : desk.pop usageQueue = .ok (some payload,popped) := answer
              obtain ⟨registry,handled,once,skipped⟩ := handle_counted popped payload
              have behind : (popped.handle payload).2.queues.waiting usageQueue = rest := by
                rw [handled]
                exact waiting_insert desk.queues rest
              have others := ih (popped.handle payload).2
              cases worked : (popped.handle payload).2.drain limit with
              | error failure =>
                  rw [worked,handled] at others
                  exact absurd (offline.symm.trans others.2) Bool.false_ne_true
              | ok answer =>
                  obtain ⟨summary,next⟩ := answer
                  have came : desk.drain (limit + 1) = .ok ((popped.handle payload).1.summary.add summary,next) := by
                    simp only [Desk.drain,taken,worked]
                    rfl
                  rw [worked] at others
                  obtain ⟨total,later,left,counters⟩ := others
                  rw [behind] at total later left
                  rw [handled] at later counters
                  rw [came]
                  refine ⟨?_,?_,?_,counters⟩
                  · rw [total_add,once,total,waiting,List.take_succ_cons,List.length_cons,Nat.add_comm]
                  · rw [waiting,List.take_succ_cons,List.countP_cons]
                    change _ + summary.skipped = _
                    rw [skipped,later,Nat.add_comm]
                    rfl
                  · rw [left,waiting,List.drop_succ_cons]

-- A completed run drains one batch and adds what it took to the totals. One that fails or is skipped
-- changes neither the totals nor the queues.
theorem run_result (desk : Desk) :
    match desk.run with
    | (.completed _,next) => ∃ summary, Drained desk desk.batchSize summary { next with counters := desk.counters } ∧
        next.counters = desk.counters.recordUsage summary
    | (.failed _,next) => next.counters = desk.counters ∧ next.queues = desk.queues
    | (.skipped,next) => next = desk := by
  unfold Desk.run Desk.start?
  by_cases busy : desk.running = true
  · rw [if_pos busy]
  · rw [if_neg busy]
    have drained := drain_result { desk with running := true } desk.batchSize
    dsimp only [Desk.work]
    cases worked : ({ desk with running := true } : Desk).drain desk.batchSize with
    | error failure => exact ⟨rfl,rfl⟩
    | ok answer =>
        obtain ⟨summary,next⟩ := answer
        rw [worked] at drained
        refine ⟨summary,⟨drained.total,drained.skipped,drained.left,rfl⟩,?_⟩
        change next.counters.recordUsage summary = _
        rw [drained.counters]

end Drains

section Balance

theorem onBooks_same {desk next : Desk} (counters : next.counters = desk.counters)
    (waiting : next.queues.waiting usageQueue = desk.queues.waiting usageQueue) : next.onBooks = desk.onBooks := by
  unfold Desk.onBooks Queues.len
  rw [counters,waiting]

theorem onBooks_drain {desk next : Desk} {limit : Nat} {summary : DrainSummary} (taken : Drained desk limit summary next) :
    desk.onBooks = summary.total + next.onBooks := by
  have parts := congrArg List.length (List.take_append_drop limit (desk.queues.waiting usageQueue))
  rw [List.length_append,← taken.total,← taken.left] at parts
  unfold Desk.onBooks Queues.len
  rw [taken.counters]
  omega

theorem onBooks_run (desk : Desk) : desk.run.2.onBooks = desk.onBooks := by
  have result := run_result desk
  cases ran : desk.run with
  | mk outcome next =>
      rw [ran] at result
      cases outcome with
      | skipped => exact congrArg Desk.onBooks result
      | failed headline => exact onBooks_same result.1 (congrArg (·.waiting usageQueue) result.2)
      | completed tasks =>
          obtain ⟨summary,taken,counters⟩ := result
          have moved := onBooks_drain taken
          unfold Desk.onBooks at moved ⊢
          rw [itemsShown_total] at moved
          rw [itemsShown_total,itemsShown_total,counters,Counters.recordUsage,total_add]
          dsimp only at moved ⊢
          omega

-- What a demand pushed and what was on the books before is what it handed out and what is on the books after.
def Balanced (desk : Desk) (met : Receipts × Desk) : Prop :=
  met.1.pushed + desk.onBooks = met.1.popped + met.1.drained + met.2.onBooks

theorem balanced_idle {desk next : Desk} (same : next.onBooks = desk.onBooks) : Balanced desk ({},next) := by
  unfold Balanced
  dsimp only
  omega

theorem balanced_push (desk : Desk) (name item : String) : Balanced desk (match desk.push name item with
    | .ok pushed => ({ pushed := usageItem name },pushed)
    | .error _ => ({},desk)) := by
  cases came : desk.push name item with
  | error failure => exact balanced_idle rfl
  | ok pushed =>
      cases asked_ok came
      have moved := len_push desk.queues name item
      unfold Balanced Desk.onBooks
      dsimp only
      omega

theorem balanced_enqueue (desk : Desk) (item : WorkItem) : Balanced desk (match desk.enqueue item with
    | .ok queued => ({ pushed := 1 },queued)
    | .error _ => ({},desk)) := by
  have pushed := balanced_push desk usageQueue item.payload
  rw [usageItem,if_pos rfl] at pushed
  exact pushed

theorem balanced_pop (desk : Desk) (name : String) : Balanced desk (match desk.pop name with
    | .ok (some _,popped) => ({ popped := usageItem name },popped)
    | .ok (none,left) => ({},left)
    | .error _ => ({},desk)) := by
  cases came : desk.pop name with
  | error failure => exact balanced_idle rfl
  | ok answer =>
      have taken := asked_ok came
      cases popped : desk.queues.pop name with
      | none =>
          rw [popped] at taken
          cases taken
          exact balanced_idle rfl
      | some found =>
          obtain ⟨item,rest⟩ := found
          rw [popped] at taken
          cases taken
          have moved := len_pop popped
          unfold Balanced Desk.onBooks
          dsimp only
          omega

theorem balanced_pushAll (desk : Desk) (arrivals : List Queues.Arrival) :
    usageArrivals arrivals + desk.onBooks = ({ desk with queues := desk.queues.pushAll arrivals } : Desk).onBooks := by
  have moved := len_pushAll desk.queues arrivals
  unfold Desk.onBooks
  dsimp only
  omega

theorem balanced_await (desk : Desk) (now : Nat) (name : String) (timeout : Nat) (arrivals : List Queues.Arrival) :
    Balanced desk ((Demand.await now name timeout arrivals).meet desk) := by
  have reach : usageArrivals (if desk.failing.contains .push then [] else arrivals) =
      if desk.failing.contains .push then 0 else usageArrivals arrivals := by
    split <;> rfl
  dsimp only [Demand.meet,Desk.await]
  rw [← reach]
  generalize (if desk.failing.contains .push then [] else arrivals) = reaching
  cases desk.deadline now timeout with
  | error stop =>
      unfold Balanced
      have moved := balanced_pushAll desk reaching
      dsimp only
      omega
  | ok deadline =>
      have moved := len_await desk.queues name deadline reaching
      unfold Balanced Desk.onBooks
      dsimp only
      cases taken : (desk.queues.await name deadline reaching).1 with
      | none =>
          rw [taken,Option.map_none,Option.getD_none] at moved
          dsimp only
          omega
      | some item =>
          rw [taken,Option.map_some,Option.getD_some] at moved
          dsimp only
          omega

theorem meet_balanced (desk : Desk) (demand : Demand) : Balanced desk (demand.meet desk) := by
  cases demand with
  | push name item => exact balanced_push desk name item
  | enqueue item => exact balanced_enqueue desk item
  | save e =>
      dsimp only [Demand.meet,Desk.submit]
      cases came : desk.save e with
      | error failure => exact balanced_idle rfl
      | ok saved =>
          have queued := balanced_enqueue saved ⟨e.ref,.update⟩
          cases asked_ok came
          dsimp only
          cases answer : Desk.enqueue _ ⟨e.ref,.update⟩ with
          | error failure => exact balanced_idle rfl
          | ok queues =>
              rw [answer] at queued
              exact queued
  | delete ref =>
      dsimp only [Demand.meet]
      cases came : desk.delete ref with
      | error failure => exact balanced_idle rfl
      | ok answer =>
          cases asked_ok came
          exact balanced_enqueue { desk with store := desk.store.delete ref } ⟨ref,.delete⟩
  | withdraw ref =>
      dsimp only [Demand.meet,Desk.withdraw]
      cases came : desk.delete ref with
      | error failure => exact balanced_idle rfl
      | ok answer =>
          cases asked_ok came
          cases found : (desk.store.load ref).isSome with
          | false => exact balanced_idle rfl
          | true =>
              have queued := balanced_enqueue { desk with store := desk.store.delete ref } ⟨ref,.delete⟩
              dsimp only
              cases answer : Desk.enqueue _ ⟨ref,.delete⟩ with
              | error failure => exact balanced_idle rfl
              | ok queues =>
                  rw [answer] at queued
                  exact queued
  | pop name => exact balanced_pop desk name
  | await now name timeout arrivals => exact balanced_await desk now name timeout arrivals
  | drain limit =>
      have result := drain_result desk limit
      dsimp only [Demand.meet]
      cases drained : desk.drain limit with
      | error failure => exact balanced_idle rfl
      | ok answer =>
          rw [drained] at result
          have moved := onBooks_drain result
          unfold Balanced
          dsimp only
          omega
  | run batchSize => exact balanced_idle (onBooks_run { desk with batchSize })

theorem take_balanced {desk : Desk} {state : Receipts × Desk} (turn : Turn) (so : Balanced desk state) :
    Balanced desk (Turn.take state turn) := by
  obtain ⟨before,current⟩ := state
  have step := meet_balanced { current with failing := turn.failing } turn.demand
  unfold Turn.take
  cases met : turn.demand.meet { current with failing := turn.failing } with
  | mk receipts next =>
      rw [met] at step
      unfold Balanced at so step ⊢
      have same : ({ current with failing := turn.failing } : Desk).onBooks = current.onBooks := rfl
      dsimp only [Receipts.add] at so step same ⊢
      omega

theorem session_balanced (start : Desk) (turns : List Turn) : Balanced start (session start turns) := by
  have run : ∀ state, Balanced start state → Balanced start (turns.foldl Turn.take state) := by
    induction turns with
    | nil => exact fun _ so => so
    | cons turn later ih => exact fun state so => ih _ (take_balanced turn so)
  exact run ({},start) (balanced_idle rfl)

end Balance

-- No item is lost and none counted twice. A drain counts each item it takes, those that are malformed
-- or cannot be loaded as skipped; a scheduled run that fails leaves the totals and the queue as they were.
theorem items_accounted :
    (∀ (start : Desk) (turns : List Turn),
      (session start turns).1.pushed + (start.counters.itemsShown + start.queues.len usageQueue) =
        (session start turns).1.popped + (session start turns).1.drained +
          ((session start turns).2.counters.itemsShown + (session start turns).2.queues.len usageQueue)) ∧
      (∀ (desk : Desk) (limit : Nat), match desk.drain limit with
        | .ok (summary,next) => Drained desk limit summary next
        | .error _ => limit ≠ 0 ∧ desk.failing.contains .pop = true) ∧
      (∀ desk : Desk, match desk.run with
        | (.completed _,next) =>
            ∃ summary, Drained desk desk.batchSize summary { next with counters := desk.counters } ∧
              next.counters = desk.counters.recordUsage summary
        | (.failed _,next) => next.counters = desk.counters ∧ next.queues = desk.queues
        | (.skipped,next) => next = desk) :=
  ⟨session_balanced,drain_result,run_result⟩

end Redline
