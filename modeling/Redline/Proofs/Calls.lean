import Redline.Desk.Work

namespace Redline

open Usage

section Answers

theorem ask_bind {α : Type} (desk : Desk) (call : Call) (answer : Attempt α) : (desk.ask call >>= fun _ => answer) =
    if desk.failing.contains call then throw (Failure.of (.offline call)) else answer := by
  unfold Desk.ask
  by_cases offline : desk.failing.contains call = true
  · rw [if_pos offline,if_pos offline]
    rfl
  · rw [if_neg offline,if_neg offline]
    rfl

theorem asked_ok {α : Type} {desk : Desk} {call : Call} {answer : Attempt α} {given : α}
    (came : (desk.ask call >>= fun _ => answer) = .ok given) : answer = .ok given := by
  rw [ask_bind] at came
  split at came
  · cases came
  · exact came

variable {desk : Desk}

theorem pop_answer (desk : Desk) (name : String) : desk.pop name = if desk.failing.contains .pop then
    throw (Failure.of (.offline .pop)) else match desk.queues.pop name with
      | some (item,rest) => return (some item,{ desk with queues := rest })
      | none => return (none,desk) :=
  ask_bind desk .pop _

theorem load_answer (desk : Desk) (ref : EntityRef) : desk.load ref = if desk.failing.contains .load then
    throw (Failure.of (.offline .load)) else return desk.store.load ref :=
  ask_bind desk .load _

theorem types_answer (desk : Desk) : desk.types = if desk.failing.contains .entityTypes then
    throw (Failure.of (.offline .entityTypes)) else return desk.store.types :=
  ask_bind desk .entityTypes _

theorem types_ok {types : List String} (came : desk.types = .ok types) : types = desk.store.types :=
  (Except.ok.inj (asked_ok came)).symm

theorem list_ok {entityType : String} {entities : List Entity} (came : desk.list entityType = .ok entities) :
    entities = desk.store.list entityType :=
  (Except.ok.inj (asked_ok came)).symm

theorem ask_through {call : Call} (through : call ∉ desk.failing) : desk.ask call = .ok () :=
  if_neg (by rwa [List.contains_iff_mem])

theorem ask_offline {call : Call} (offline : call ∈ desk.failing) : desk.ask call = .error (Failure.of (.offline call)) :=
  if_pos (List.contains_iff_mem.mpr offline)

theorem save_through (through : .save ∉ desk.failing) (e : Entity) :
    desk.save e = .ok { desk with store := desk.store.save e } := by
  unfold Desk.save
  rw [ask_through through]
  rfl

theorem save_offline (offline : .save ∈ desk.failing) (e : Entity) :
    desk.save e = .error (Failure.of (.offline .save)) := by
  unfold Desk.save
  rw [ask_offline offline]
  rfl

theorem delete_through (through : .delete ∉ desk.failing) (ref : EntityRef) :
    desk.delete ref = .ok ((desk.store.load ref).isSome,{ desk with store := desk.store.delete ref }) := by
  unfold Desk.delete
  rw [ask_through through]
  rfl

theorem delete_offline (offline : .delete ∈ desk.failing) (ref : EntityRef) :
    desk.delete ref = .error (Failure.of (.offline .delete)) := by
  unfold Desk.delete
  rw [ask_offline offline]
  rfl

theorem enqueue_through (through : .push ∉ desk.failing) (item : WorkItem) :
    desk.enqueue item = .ok { desk with queues := desk.queues.push usageQueue item.payload } := by
  unfold Desk.enqueue Desk.push
  rw [ask_through through]
  rfl

theorem enqueue_offline (offline : .push ∈ desk.failing) (item : WorkItem) :
    desk.enqueue item = .error (Failure.of (.offline .push)) := by
  unfold Desk.enqueue Desk.push
  rw [ask_offline offline]
  rfl

end Answers

section Working

variable {desk : Desk} (working : desk.failing = [])

include working

theorem through_working (call : Call) : call ∉ desk.failing := by
  rw [working]
  exact List.not_mem_nil

theorem ask_working (call : Call) : desk.ask call = .ok () := ask_through (through_working working call)

theorem save_working (e : Entity) : desk.save e = .ok { desk with store := desk.store.save e } :=
  save_through (through_working working .save) e

theorem delete_working (ref : EntityRef) : desk.delete ref =
    .ok ((desk.store.load ref).isSome,{ desk with store := desk.store.delete ref }) :=
  delete_through (through_working working .delete) ref

theorem load_working (ref : EntityRef) : desk.load ref = .ok (desk.store.load ref) := by
  unfold Desk.load
  rw [ask_working working]
  rfl

theorem enqueue_working (item : WorkItem) : desk.enqueue item =
    .ok { desk with queues := desk.queues.push usageQueue item.payload } :=
  enqueue_through (through_working working .push) item

theorem pop_nothing (empty : desk.queues.waiting usageQueue = []) : desk.pop usageQueue = .ok (none,desk) := by
  have nothing : desk.queues.pop usageQueue = none := by
    rw [Queues.pop,empty]
  simp only [Desk.pop,ask_working working,nothing]
  rfl

theorem pop_first {payload : String} {rest : List String} (queued : desk.queues.waiting usageQueue = payload :: rest) :
    desk.pop usageQueue = .ok (some payload,{ desk with queues := Table.insert usageQueue rest desk.queues }) := by
  have first : desk.queues.pop usageQueue = some (payload,Table.insert usageQueue rest desk.queues) := by
    rw [Queues.pop,queued]
  simp only [Desk.pop,ask_working working,first]
  rfl

theorem types_working : desk.types = .ok desk.store.types := by
  unfold Desk.types
  rw [ask_working working]
  rfl

theorem list_working (entityType : String) : desk.list entityType = .ok (desk.store.list entityType) := by
  unfold Desk.list
  rw [ask_working working]
  rfl

end Working

end Redline
