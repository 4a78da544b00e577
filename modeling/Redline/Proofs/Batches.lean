import Redline.Proofs.ItemAccounting

namespace Redline

open Usage

-- The storage as the worker meets it. Each load is answered or fails, and may depend on all that went before.
abbrev Loader (σ : Type) := σ → EntityRef → Attempt (Option Entity) × σ

-- The worker and what it works on, beside the queues.
structure Worker (σ : Type) where
  storage : σ
  registry : Registry

def Queues.skip (queues : Queues) (name : String) : Nat → Queues
  | 0 => queues
  | count + 1 =>
      match queues.pop name with
      | none => queues
      | some (_,rest) => skip rest name count

namespace Worker

variable {σ : Type} (load : Loader σ)

def process (worker : Worker σ) (item : WorkItem) : Outcome × Worker σ :=
  match item.operation with
  | .delete => (.removed,{ worker with registry := worker.registry.remove item.source })
  | .update =>
      match load worker.storage item.source with
      | (.ok (some e),storage) => (.processed (distinctTargets (rowsOf e)),⟨storage,worker.registry.register e⟩)
      | (_,storage) => (.skipped,{ worker with storage })

def handle (worker : Worker σ) (payload : String) : Outcome × Worker σ :=
  match WorkItem.ofPayload? payload with
  | some item => process load worker item
  | none => (.skipped,worker)

def drainFrom (limit : Nat) (summary : DrainSummary) (queues : Queues) (worker : Worker σ) :
    DrainSummary × Queues × Worker σ :=
  if summary.total < limit then
    match _taken : queues.pop usageQueue with
    | none => (summary,queues,worker)
    | some (payload,rest) =>
        match handle load worker payload with
        | (outcome,next) => drainFrom limit (summary.add outcome.summary) rest next
  else (summary,queues,worker)
termination_by queues.len usageQueue
decreasing_by
  rw [len_pop _taken,usageItem,if_pos rfl]
  exact Nat.lt_succ_self _

def drain (limit : Nat) (queues : Queues) (worker : Worker σ) : DrainSummary × Queues × Worker σ :=
  drainFrom load limit {} queues worker

-- Payloads handled one after the other, however many there are.
def workOff (worker : Worker σ) : List String → DrainSummary × Worker σ
  | [] => ({},worker)
  | payload :: rest =>
      match handle load worker payload with
      | (outcome,next) =>
          match workOff next rest with
          | (summary,last) => (outcome.summary.add summary,last)

end Worker

-- What a drain took: the payloads at the front of the usage queue, as many as there are up to the limit.
-- They were worked off in their order; the others wait, and so does everything under other names.
structure Batch {σ : Type} (load : Loader σ) (queues : Queues) (worker : Worker σ) (limit : Nat)
    (summary : DrainSummary) (left : Queues) (next : Worker σ) : Prop where
  worked : worker.workOff load ((queues.waiting usageQueue).take limit) = (summary,next)
  total : summary.total = min limit (queues.waiting usageQueue).length
  rest : left.waiting usageQueue = (queues.waiting usageQueue).drop limit
  others : ∀ name, name ≠ usageQueue → left.waiting name = queues.waiting name

section Summaries

theorem summary_total (outcome : Outcome) : outcome.summary.total = 1 := by
  cases outcome <;> rfl

theorem empty_add (summary : DrainSummary) : DrainSummary.add {} summary = summary := by
  simp only [DrainSummary.add,Nat.zero_add]

theorem add_assoc (a b c : DrainSummary) : (a.add b).add c = a.add (b.add c) := by
  simp only [DrainSummary.add,Nat.add_assoc]

end Summaries

namespace Queues

variable (queues : Queues) (name : String)

theorem skip_none (popped : queues.pop name = none) (count : Nat) : queues.skip name count = queues := by
  cases count with
  | zero => rfl
  | succ count => rw [skip,popped]

theorem skip_waiting (count : Nat) :
    (queues.skip name count).waiting name = (queues.waiting name).drop count ∧
      ∀ other, other ≠ name → (queues.skip name count).waiting other = queues.waiting other := by
  induction count generalizing queues with
  | zero => exact ⟨rfl,fun _ _ => rfl⟩
  | succ count ih =>
      rw [skip,pop]
      cases here : queues.waiting name with
      | nil => exact ⟨here,fun _ _ => rfl⟩
      | cons item rest =>
          obtain ⟨own,others⟩ := ih (Table.insert name rest queues)
          refine ⟨own.trans ?_,fun other apart => (others other apart).trans ?_⟩
          · rw [waiting_inserted,if_pos rfl,List.drop_succ_cons]
          · rw [waiting_inserted,if_neg apart]

theorem skip_add (a b : Nat) : queues.skip name (a + b) = (queues.skip name a).skip name b := by
  induction a generalizing queues with
  | zero => rw [Nat.zero_add,skip]
  | succ a ih =>
      rw [Nat.succ_add]
      cases popped : queues.pop name with
      | none => rw [skip_none _ _ popped,skip_none _ _ popped,skip_none _ _ popped]
      | some found =>
          simp only [skip,popped]
          exact ih found.2

end Queues

namespace Worker

variable {σ : Type} (load : Loader σ)

theorem workOff_append (worker : Worker σ) (front back : List String) :
    worker.workOff load (front ++ back) =
      ((worker.workOff load front).1.add ((worker.workOff load front).2.workOff load back).1,
        ((worker.workOff load front).2.workOff load back).2) := by
  induction front generalizing worker with
  | nil => simp only [List.nil_append,workOff,empty_add]
  | cons payload front ih => simp only [List.cons_append,workOff,ih,add_assoc]

theorem workOff_total (worker : Worker σ) (payloads : List String) :
    (worker.workOff load payloads).1.total = payloads.length := by
  induction payloads generalizing worker with
  | nil => rfl
  | cons payload rest ih =>
      simp only [workOff,total_add,summary_total,ih,List.length_cons,Nat.add_comm]

-- Each item raises the total by one, so the loop ends behind as many items as the total lacks.
theorem drainFrom_eq (limit : Nat) (summary : DrainSummary) (queues : Queues) (worker : Worker σ) :
    drainFrom load limit summary queues worker =
      (summary.add (worker.workOff load ((queues.waiting usageQueue).take (limit - summary.total))).1,
        queues.skip usageQueue (limit - summary.total),
        (worker.workOff load ((queues.waiting usageQueue).take (limit - summary.total))).2) := by
  fun_induction drainFrom load limit summary queues worker with
  | case1 summary queues worker below dry =>
      rw [Queues.pop_none.mp dry,List.take_nil,Queues.skip_none _ _ dry]
      rfl
  | case2 summary queues worker below payload rest taken outcome next handled ih =>
      have first := Queues.pop_keeps taken usageQueue
      rw [if_pos rfl,List.singleton_append] at first
      have lacks : limit - summary.total = limit - (summary.add outcome.summary).total + 1 := by
        rw [total_add,summary_total]
        omega
      rw [ih,first,lacks,List.take_succ_cons,Queues.skip]
      simp only [taken,workOff,handled,add_assoc]
  | case3 summary queues worker done =>
      rw [Nat.sub_eq_zero_of_le (Nat.not_lt.mp done)]
      rfl

theorem drain_eq (limit : Nat) (queues : Queues) (worker : Worker σ) : drain load limit queues worker =
    ((worker.workOff load ((queues.waiting usageQueue).take limit)).1,queues.skip usageQueue limit,
      (worker.workOff load ((queues.waiting usageQueue).take limit)).2) := by
  rw [drain,drainFrom_eq,empty_add]
  rfl

theorem drain_batch (limit : Nat) (queues : Queues) (worker : Worker σ) :
    Batch load queues worker limit (drain load limit queues worker).1 (drain load limit queues worker).2.1
      (drain load limit queues worker).2.2 := by
  obtain ⟨rest,others⟩ := queues.skip_waiting usageQueue limit
  rw [drain_eq]
  refine ⟨rfl,?_,rest,others⟩
  rw [workOff_total,List.length_take]

theorem drain_add (a b : Nat) (queues : Queues) (worker : Worker σ) :
    drain load (a + b) queues worker =
      match drain load a queues worker with
      | (first,left,middle) =>
          match drain load b left middle with
          | (second,last) => (first.add second,last) := by
  simp only [drain_eq,List.take_add,workOff_append,Queues.skip_add,(queues.skip_waiting usageQueue a).1]

end Worker

section Desks

def Desk.loads (desk : Desk) : Loader Unit := fun _ ref => (desk.load ref,())

def Desk.worker (desk : Desk) : Worker Unit := ⟨(),desk.registry⟩

theorem handle_worker (desk : Desk) (payload : String) :
    (desk.handle payload).1 = (desk.worker.handle desk.loads payload).1 ∧
      (desk.handle payload).2 = { desk with registry := (desk.worker.handle desk.loads payload).2.registry } := by
  unfold Desk.handle Worker.handle
  cases WorkItem.ofPayload? payload with
  | none => exact ⟨rfl,rfl⟩
  | some item =>
      obtain ⟨source,operation⟩ := item
      cases operation with
      | delete => exact ⟨rfl,rfl⟩
      | update =>
          simp only [Desk.process,Worker.process,Desk.loads]
          rcases desk.load source with failure | (_ | e) <;> exact ⟨rfl,rfl⟩

theorem drain_taken {desk popped last : Desk} {payload : String} {limit : Nat} {summary : DrainSummary}
    (taken : desk.pop usageQueue = .ok (some payload,popped))
    (others : (popped.handle payload).2.drain limit = .ok (summary,last)) :
    desk.drain (limit + 1) = .ok ((popped.handle payload).1.summary.add summary,last) := by
  simp only [Desk.drain,taken,others]
  rfl

theorem drain_worker (desk : Desk) (pops : .pop ∉ desk.failing) (limit : Nat) : desk.drain limit =
    match desk.worker.drain desk.loads limit desk.queues with
    | (summary,queues,next) => .ok (summary,{ desk with queues, registry := next.registry }) := by
  rw [Worker.drain_eq]
  induction limit generalizing desk with
  | zero => rfl
  | succ limit ih =>
      have popped := pop_answer desk usageQueue
      rw [if_neg (by rwa [List.contains_iff_mem])] at popped
      cases found : desk.queues.pop usageQueue with
      | none =>
          simp only [found] at popped
          rw [Queues.pop_none.mp found,Queues.skip_none _ _ found,Desk.drain]
          simp only [popped]
          rfl
      | some taken =>
          obtain ⟨payload,rest⟩ := taken
          simp only [found] at popped
          have first := Queues.pop_keeps found usageQueue
          rw [if_pos rfl,List.singleton_append] at first
          obtain ⟨outcome,after⟩ := handle_worker { desk with queues := rest } payload
          have others := ih ({ desk with queues := rest }.handle payload).2 (by rwa [after])
          rw [drain_taken popped others,outcome,after,first,List.take_succ_cons,Queues.skip]
          simp only [found,Worker.workOff]
          rfl

end Desks

-- Where pops go through, a drain works off the items at the front of the usage queue in their order, as
-- many as its limit allows, and leaves the others; its total is their number. Two drains one after the
-- other leave what one with the sum of their limits leaves, and their summaries add up to its summary.
-- The same holds of the loop whatever the loads answer, and however they fail from one to the next.
theorem drains_in_batches :
    (∀ (desk : Desk) (a b : Nat), .pop ∉ desk.failing → ∃ first middle second last,
      desk.drain a = .ok (first,middle) ∧ middle.drain b = .ok (second,last) ∧
        desk.drain (a + b) = .ok (first.add second,last) ∧
        Batch desk.loads desk.queues desk.worker a first middle.queues middle.worker) ∧
      ∀ (σ : Type) (load : Loader σ) (queues : Queues) (worker : Worker σ) (a b : Nat),
        ∃ first left middle second rest last,
          worker.drain load a queues = (first,left,middle) ∧ middle.drain load b left = (second,rest,last) ∧
            worker.drain load (a + b) queues = (first.add second,rest,last) ∧
            Batch load queues worker a first left middle := by
  constructor
  · intro desk a b pops
    have taken := Worker.drain_batch desk.loads a desk.queues desk.worker
    have whole := Worker.drain_add desk.loads a b desk.queues desk.worker
    have front := drain_worker desk pops a
    cases drained : desk.worker.drain desk.loads a desk.queues with
    | mk first state =>
        obtain ⟨left,middle⟩ := state
        rw [drained] at taken whole front
        have back := drain_worker { desk with queues := left, registry := middle.registry } pops b
        refine ⟨first,_,_,_,front,back,?_,taken⟩
        rw [drain_worker desk pops,whole]
        rfl
  · intro σ load queues worker a b
    exact ⟨_,_,_,_,_,_,rfl,rfl,Worker.drain_add load a b queues worker,Worker.drain_batch load a queues worker⟩

theorem drains_in_batches_mixed :
    let image : EntityRef := ⟨"media",⟨List.replicate 32 2,by decide⟩⟩
    let page : Entity := (Entity.blank "node" "page" "Home" ⟨List.replicate 32 1,by decide⟩).withField "image"
      (.object [("target_type",.text "media"),("target_uuid",.text image.uuid.text)])
    let items : List String := ["not an item",WorkItem.payload ⟨image,.delete⟩,
      WorkItem.payload ⟨page.ref,.update⟩,WorkItem.payload ⟨image,.update⟩,"[]"]
    let desk : Desk := { store := [(page.ref,page)], queues := [("entity_usage",items),("other",["kept"])] }
    .pop ∉ desk.failing ∧ ∃ first middle second last,
      desk.drain 2 = .ok (first,middle) ∧ middle.drain 2 = .ok (second,last) ∧
        desk.drain 4 = .ok (first.add second,last) ∧ first = ⟨0,1,1⟩ ∧ second = ⟨1,0,1⟩ ∧
        Batch desk.loads desk.queues desk.worker 2 first middle.queues middle.worker := by
  intro image page items desk
  have pops : .pop ∉ desk.failing := List.not_mem_nil
  obtain ⟨first,middle,second,last,front,back,whole,taken⟩ := drains_in_batches.1 desk 2 2 pops
  have shown : (desk.drain 2 >>= fun one => one.2.drain 2 >>= fun two => return (one.1,two.1)).toOption =
      some (⟨0,1,1⟩,⟨1,0,1⟩) := by decide +kernel
  rw [front] at shown
  change (middle.drain 2 >>= fun two => return (first,two.1)).toOption = _ at shown
  rw [back] at shown
  obtain ⟨counted,counted'⟩ := Prod.mk.inj (Option.some.inj shown)
  exact ⟨pops,first,middle,second,last,front,back,whole,counted,counted',taken⟩

end Redline
