import Redline.Http.Service
import Redline.Proofs.Interleavings

namespace Redline.Http

open Json Usage

-- What a content request asks for, as the two steps of a write and a push.
abbrev Edit := Redline.Request

namespace Edit

def reply : Edit → Reply
  | .put e => .ok e.toValue
  | .delete _ => ⟨204,.text "",[]⟩

def outcome (desk : Desk) (edit : Edit) : Reply × Desk :=
  match edit.write desk with
  | .error _ => (Refusal.internal.reply,desk)
  | .ok (none,kept) => (Refusal.notFound.reply,kept)
  | .ok (some item,written) =>
      match written.enqueue item with
      | .error _ => (Refusal.internal.reply,written)
      | .ok queued => (reply edit,queued)

-- The write goes through and changes the storage, and the push of its item does not go through.
def HalfDone (desk : Desk) (edit : Edit) : Prop :=
  .push ∈ desk.failing ∧
    ∃ item written, edit.write desk = .ok (some item,written) ∧ written.store ≠ desk.store

section Outcomes

variable {desk kept written : Desk} {edit : Edit} {item : Option WorkItem}

theorem reply_status (edit : Edit) : (reply edit).status < 400 := by
  cases edit with
  | put e => exact (by decide : 200 < 400)
  | delete ref => exact (by decide : 204 < 400)

theorem put_writes (through : .save ∉ desk.failing) (e : Entity) : (Request.put e).write desk =
    .ok (some ⟨e.ref,.update⟩,{ desk with store := desk.store.save e }) := by
  rw [Request.write,save_through through]
  rfl

theorem delete_writes (through : .delete ∉ desk.failing) (ref : EntityRef) : (Request.delete ref).write desk =
    .ok (if (desk.store.load ref).isSome then some ⟨ref,.delete⟩ else none,
      { desk with store := desk.store.delete ref }) := by
  rw [Request.write,delete_through through]
  rfl

theorem put_written {e : Entity} (wrote : (Request.put e).write desk = .ok (item,written)) :
    item = some ⟨e.ref,.update⟩ ∧ written = { desk with store := desk.store.save e } := by
  by_cases save : .save ∈ desk.failing
  · rw [Request.write,save_offline save] at wrote
    cases wrote
  · rw [put_writes save] at wrote
    cases wrote
    exact ⟨rfl,rfl⟩

theorem delete_written {ref : EntityRef} (wrote : (Request.delete ref).write desk = .ok (item,written)) :
    item = (if (desk.store.load ref).isSome then some ⟨ref,.delete⟩ else none) ∧
      written = { desk with store := desk.store.delete ref } := by
  by_cases delete : .delete ∈ desk.failing
  · rw [Request.write,delete_offline delete] at wrote
    cases wrote
  · rw [delete_writes delete] at wrote
    cases wrote
    exact ⟨rfl,rfl⟩

theorem write_store (wrote : edit.write desk = .ok (item,written)) :
    written = { desk with store := written.store } := by
  cases edit with
  | put e =>
      obtain ⟨_,rfl⟩ := put_written wrote
      rfl
  | delete ref =>
      obtain ⟨_,rfl⟩ := delete_written wrote
      rfl

theorem write_nothing (wrote : edit.write desk = .ok (none,kept)) : kept = desk := by
  cases edit with
  | put e => cases (put_written wrote).1
  | delete ref =>
      obtain ⟨missing,rfl⟩ := delete_written wrote
      have absent : desk.store.load ref = none := by
        cases stored : desk.store.load ref with
        | none => rfl
        | some e =>
            rw [stored] at missing
            cases missing
      rw [Store.delete,Table.erase_absent absent]

theorem outcome_failed (failed : 400 ≤ (outcome desk edit).1.status) :
    (outcome desk edit).2 = desk ∨ HalfDone desk edit := by
  unfold outcome at failed ⊢
  split
  · exact .inl rfl
  · rename_i wrote
    exact .inl (write_nothing wrote)
  · rename_i item written wrote
    rw [wrote] at failed
    by_cases push : .push ∈ desk.failing
    · have kept : .push ∈ written.failing := by
        rw [write_store wrote]
        exact push
      rw [enqueue_offline kept]
      by_cases same : written.store = desk.store
      · exact .inl ((write_store wrote).trans (by rw [same]))
      · exact .inr ⟨push,item,written,wrote,same⟩
    · have kept : .push ∉ written.failing := by
        rw [write_store wrote]
        exact push
      simp only [enqueue_through kept] at failed
      exact absurd (reply_status edit) (Nat.not_lt.mpr failed)

theorem outcome_halfDone (half : HalfDone desk edit) : ∃ item written, edit.write desk = .ok (some item,written) ∧
    written.store ≠ desk.store ∧ outcome desk edit = (Refusal.internal.reply,written) := by
  obtain ⟨push,item,written,wrote,changed⟩ := half
  have kept : .push ∈ written.failing := by
    rw [write_store wrote]
    exact push
  refine ⟨item,written,wrote,changed,?_⟩
  simp only [outcome,wrote,enqueue_offline kept]

theorem outcome_put (working : desk.failing = []) (e : Entity) : outcome desk (.put e) = (.ok e.toValue,
    { desk with
      store := desk.store.save e, queues := desk.queues.push usageQueue (WorkItem.payload ⟨e.ref,.update⟩) }) := by
  have pushed := @enqueue_working { desk with store := desk.store.save e } working ⟨e.ref,.update⟩
  simp only [outcome,put_writes (through_working working .save),pushed]
  rfl

theorem outcome_delete (working : desk.failing = []) (ref : EntityRef) : (outcome desk (.delete ref)).1 =
    if (desk.store.load ref).isSome then ⟨204,.text "",[]⟩ else Refusal.notFound.reply := by
  have pushed := @enqueue_working { desk with store := desk.store.delete ref } working ⟨ref,.delete⟩
  simp only [outcome,delete_writes (through_working working .delete)]
  cases (desk.store.load ref).isSome with
  | false => rfl
  | true =>
      simp only [if_true,pushed]
      rfl

end Outcomes

end Edit

def Request.EditsContent (request : Request) : Prop :=
  (request.method = .put ∧ resource? (pathOf request.target) = some .content) ∨
    (request.method = .delete ∧
      ∃ entityType uuid, resource? (pathOf request.target) = some (.entity entityType uuid))

-- What a body asks to be saved. One that is no good asks for nothing.
def Request.entity? (request : Request) (clock : Clock) : Option Entity := do
  let value ← (request.json Entity.shape).toOption
  let e ← Entity.ofValue? value
  Service.accepted? e clock

def Request.edit? (request : Request) (clock : Clock) : Option Edit :=
  match request.method,resource? (pathOf request.target) with
  | .put,some .content => (request.entity? clock).map .put
  | .delete,some (.entity entityType uuid) => (reference entityType uuid).toOption.map .delete
  | _,_ => none

def Service.restored (s : Service) : Service := { s with desk := { s.desk with failing := [] } }

-- A service that did what an edit asks for, as far as its calls went through.
def Service.edited (s : Service) (edit : Edit) : Reply × Service :=
  ((edit.outcome s.desk).1,{ s with desk := (edit.outcome s.desk).2 })

-- A request that asks for nothing leaves the service alone; another comes to what becomes of its edit.
def Service.Served (s : Service) : Option Edit → Reply × Service → Prop
  | none,answer => answer.2 = s
  | some edit,answer => answer = s.edited edit

section Requests

variable {s : Service} {request : Request} {clock later : Clock} {edit : Edit}

theorem answer_status (policy : OriginPolicy) (plain : request.method ≠ .options) (reply : Reply) :
    (policy.answer request reply).status = reply.status := by
  rw [OriginPolicy.answer,if_neg plain]

theorem dispatch_serve {resource : Resource} (whole : request.method ≠ .head)
    (found : resource? (pathOf request.target) = some resource) : s.dispatch request clock =
      (Service.replyOf (s.serve request clock request.method resource).1,
        (s.serve request clock request.method resource).2) := by
  rw [Service.dispatch,found]
  simp only [if_neg whole]

theorem Request.EditsContent.method_ne_options (edits : request.EditsContent) : request.method ≠ .options := by
  rcases edits with ⟨put,_⟩ | ⟨delete,_⟩
  · simp [put]
  · simp [delete]

theorem putContent_served (s : Service) (request : Request) (clock : Clock) :
    s.Served ((request.entity? clock).map .put)
      (Service.replyOf (s.putContent request clock).1,(s.putContent request clock).2) := by
  unfold Request.entity? Service.putContent
  cases read : request.json Entity.shape with
  | error refusal => rfl
  | ok value =>
      cases held : Entity.ofValue? value with
      | none => simp [Except.toOption,held,Service.Served]
      | some e =>
          cases fit : Service.accepted? e clock with
          | none => simp [Except.toOption,held,fit,Service.Served]
          | some accepted =>
              simp only [Except.toOption,held,fit,Option.bind_eq_bind,Option.bind_some,submit_steps,Service.Served,
                Option.map_some,Service.edited,Edit.outcome]
              cases wrote : (Request.put accepted).write s.desk with
              | error failure => rfl
              | ok result =>
                  obtain ⟨item,written⟩ := result
                  obtain ⟨rfl,_⟩ := Edit.put_written wrote
                  cases pushed : written.enqueue ⟨accepted.ref,.update⟩ <;> simp [pushed,Service.replyOf,Edit.reply]

theorem deleteContent_served (s : Service) (entityType uuid : List Char) :
    s.Served ((reference entityType uuid).toOption.map .delete)
      (Service.replyOf (s.deleteContent entityType uuid).1,(s.deleteContent entityType uuid).2) := by
  unfold Service.deleteContent
  cases named : reference entityType uuid with
  | error refusal => rfl
  | ok ref =>
      simp only [Except.toOption,withdraw_steps,Service.Served,Option.map_some,Service.edited,Edit.outcome]
      cases wrote : (Request.delete ref).write s.desk with
      | error failure => rfl
      | ok result =>
          obtain ⟨item,written⟩ := result
          cases item with
          | none => rfl
          | some item => cases pushed : written.enqueue item <;> simp [pushed,Service.replyOf,Edit.reply]

theorem dispatch_served (edits : request.EditsContent) : s.Served (request.edit? clock) (s.dispatch request clock) := by
  rcases edits with ⟨put,path⟩ | ⟨delete,entityType,uuid,path⟩
  · rw [dispatch_serve (by simp [put]) path]
    simp only [Request.edit?,put,path]
    exact putContent_served s request clock
  · rw [dispatch_serve (by simp [delete]) path]
    simp only [Request.edit?,delete,path]
    exact deleteContent_served s entityType uuid

theorem handle_idle (edits : request.EditsContent) (nothing : request.edit? clock = none) :
    (s.handle request clock).2 = s := by
  have served : s.Served (request.edit? clock) (s.dispatch request clock) := dispatch_served edits
  rw [nothing] at served
  rw [Service.handle,if_neg edits.method_ne_options]
  exact served

theorem handle_edit (edits : request.EditsContent) (asks : request.edit? clock = some edit) : s.handle request clock =
    (s.origins.answer request (s.edited edit).1,(s.edited edit).2) := by
  have served : s.Served (request.edit? clock) (s.dispatch request clock) := dispatch_served edits
  rw [asks] at served
  rw [Service.handle,if_neg edits.method_ne_options,served]

theorem handle_failed (edits : request.EditsContent) (failed : 400 ≤ (s.handle request clock).1.status) :
    (s.handle request clock).2 = s ∨ ∃ edit, request.edit? clock = some edit ∧ Edit.HalfDone s.desk edit := by
  cases asks : request.edit? clock with
  | none => exact .inl (handle_idle edits asks)
  | some edit =>
      rw [handle_edit edits asks] at failed ⊢
      rw [answer_status s.origins edits.method_ne_options] at failed
      rcases Edit.outcome_failed failed with same | half
      · exact .inl (congrArg (fun desk => { s with desk }) same)
      · exact .inr ⟨edit,rfl,half⟩

theorem handle_halfDone (edits : request.EditsContent) (asks : request.edit? clock = some edit)
    (half : Edit.HalfDone s.desk edit) : ∃ item written, edit.write s.desk = .ok (some item,written) ∧
      written.store ≠ s.desk.store ∧ (s.handle request clock).1.status = 500 ∧
      (s.handle request clock).2 = { s with desk := written } := by
  obtain ⟨item,written,wrote,changed,came⟩ := Edit.outcome_halfDone half
  refine ⟨item,written,wrote,changed,?_⟩
  rw [handle_edit edits asks,answer_status _ edits.method_ne_options,Service.edited,came]
  exact ⟨rfl,rfl⟩

end Requests

section Repeats

variable {s : Service} {request : Request} {clock : Clock} {item : Option WorkItem} {written : Desk} (later : Clock)

theorem entity?_later {e : Entity} (asks : request.entity? clock = some e) :
    ∃ again, request.entity? later = some again ∧ again.ref = e.ref := by
  obtain ⟨value,read,asks⟩ := Option.bind_eq_some_iff.mp asks
  obtain ⟨given,held,fit⟩ := Option.bind_eq_some_iff.mp asks
  rw [Request.entity?,read,Option.bind_eq_bind,Option.bind_some,held,Option.bind_eq_bind,Option.bind_some]
  unfold Service.accepted? at fit ⊢
  split at fit
  · cases fit
  · rename_i named
    rw [if_neg named]
    cases fit
    refine ⟨_,rfl,?_⟩
    split <;> rfl

theorem edit?_put {e : Entity} (asks : request.edit? clock = some (.put e)) :
    ∃ again, request.edit? later = some (.put again) ∧ again.ref = e.ref := by
  unfold Request.edit? at asks ⊢
  split at asks
  · obtain ⟨held,asked,same⟩ := Option.map_eq_some_iff.mp asks
    cases same
    obtain ⟨again,asked,ref⟩ := entity?_later later asked
    exact ⟨again,congrArg _ asked,ref⟩
  · obtain ⟨ref,_,same⟩ := Option.map_eq_some_iff.mp asks
    cases same
  · cases asks

theorem edit?_delete {ref : EntityRef} (asks : request.edit? clock = some (.delete ref)) :
    request.edit? later = some (.delete ref) := by
  unfold Request.edit? at asks ⊢
  split at asks
  · obtain ⟨held,_,same⟩ := Option.map_eq_some_iff.mp asks
    cases same
  · exact asks
  · cases asks

-- What is saved again covers what was saved before.
theorem repeated_put (edits : request.EditsContent) {e : Entity} (asks : request.edit? clock = some (.put e))
    (wrote : (Request.put e).write s.desk = .ok (item,written)) :
    Service.handle (Service.restored { s with desk := written }) request later = s.restored.handle request later := by
  obtain ⟨again,asked,ref⟩ := edit?_put later asks
  obtain ⟨_,rfl⟩ := Edit.put_written wrote
  have covered : (s.desk.store.save e).save again = s.desk.store.save again := by
    rw [Store.save,Store.save,Store.save,ref,Table.insert_insert]
  rw [handle_edit edits asked,handle_edit edits asked]
  simp only [Service.edited,Service.restored,Edit.outcome_put,covered]

-- What is gone is not found again, though the worker was not told of it.
theorem repeated_delete (edits : request.EditsContent) {ref : EntityRef}
    (asks : request.edit? clock = some (.delete ref)) (wrote : (Request.delete ref).write s.desk = .ok (item,written))
    (changed : written.store ≠ s.desk.store) :
    (Service.handle (Service.restored { s with desk := written }) request later).1.status = 404 ∧
      (s.restored.handle request later).1.status = 204 := by
  have asked : request.edit? later = some (.delete ref) := edit?_delete later asks
  obtain ⟨_,rfl⟩ := Edit.delete_written wrote
  have gone : (s.desk.store.delete ref).load ref = none := Table.find?_erase_self ref s.desk.store
  have there : (s.desk.store.load ref).isSome = true :=
    Option.isSome_iff_ne_none.mpr fun absent => changed (Table.erase_absent absent)
  rw [handle_edit edits asked,handle_edit edits asked,answer_status _ edits.method_ne_options,answer_status _ edits.method_ne_options]
  simp [Service.edited,Service.restored,Edit.outcome_delete,gone,there,Refusal.reply]

end Repeats

-- A content request that fails has queued nothing, and it has changed nothing unless it has changed
-- the storage; one that is refused has changed nothing. One that fails has changed the storage just
-- where its write went through and its push did not. There a save that is repeated comes to what it
-- would have come to at first, and a delete does not.
theorem failed_edits_change_nothing_iff (s : Service) (request : Request) (clock later : Clock)
    (edits : request.EditsContent) :
    let reply := (s.handle request clock).1
    let after := (s.handle request clock).2
    (400 ≤ reply.status → after.desk.queues = s.desk.queues ∧ (after.desk.store = s.desk.store → after = s)) ∧
      (400 ≤ reply.status → reply.status < 500 → after = s) ∧
      ((400 ≤ reply.status → after.desk.store = s.desk.store ∧ after.desk.queues = s.desk.queues) ↔
        ∀ edit, request.edit? clock = some edit → ¬Edit.HalfDone s.desk edit) ∧
      ((400 ≤ reply.status → after.restored.handle request later = s.restored.handle request later) ↔
        ∀ ref, request.edit? clock = some (.delete ref) → ¬Edit.HalfDone s.desk (.delete ref)) := by
  intro reply after
  have failed (status : 400 ≤ reply.status) :
      after = s ∨ ∃ edit, request.edit? clock = some edit ∧ Edit.HalfDone s.desk edit := handle_failed edits status
  refine ⟨?_,?_,⟨?_,?_⟩,⟨?_,?_⟩⟩
  · intro status
    rcases failed status with same | ⟨edit,asks,half⟩
    · rw [same]
      exact ⟨rfl,fun _ => rfl⟩
    · obtain ⟨_,written,wrote,changed,_,came⟩ := handle_halfDone edits asks half
      rw [show after = _ from came]
      refine ⟨?_,fun same => absurd same changed⟩
      rw [Edit.write_store wrote]
  · intro status refused
    rcases failed status with same | ⟨edit,asks,half⟩
    · exact same
    · obtain ⟨_,_,_,_,internal,_⟩ := handle_halfDone edits asks half
      rw [show reply.status = _ from internal] at refused
      omega
  · intro unchanged edit asks half
    obtain ⟨_,written,_,changed,internal,came⟩ := handle_halfDone edits asks half
    have same := (unchanged (by rw [show reply.status = _ from internal]; decide)).1
    rw [show after = _ from came] at same
    exact changed same
  · intro whole status
    rcases failed status with same | ⟨edit,asks,half⟩
    · rw [same]
      exact ⟨rfl,rfl⟩
    · exact absurd half (whole edit asks)
  · intro repeats ref asks half
    obtain ⟨_,written,wrote,changed,internal,came⟩ := handle_halfDone edits asks half
    obtain ⟨missing,done⟩ := repeated_delete later edits asks wrote changed
    rw [← repeats (by rw [show reply.status = _ from internal]; decide),show after = _ from came,missing] at done
    cases done
  · intro whole status
    rcases failed status with same | ⟨edit,asks,half⟩
    · rw [same]
    · obtain ⟨_,written,wrote,_,_,came⟩ := handle_halfDone edits asks half
      rw [show after = _ from came]
      cases edit with
      | put e => exact repeated_put later edits asks wrote
      | delete ref => exact absurd half (whole ref asks)

theorem failed_edits_change_nothing_iff_offline :
    let page : Entity := Entity.blank "node" "page" "Home" ⟨List.replicate 32 1,by decide⟩
    let calls : List Call := [.save,.delete,.push]
    let s : Service := { (default : Service) with desk := { store := [(page.ref,page)], failing := calls } }
    let request : Request := ⟨.delete,"/api/content/node/11111111-1111-1111-1111-111111111111",[],""⟩
    let reply := (s.handle request default).1
    let after := (s.handle request default).2
    request.EditsContent ∧ reply.status = 500 ∧
      after.desk.store = s.desk.store ∧ after.desk.queues = s.desk.queues ∧
      after.restored.handle request default = s.restored.handle request default := by
  intro page calls s request reply after
  have edits : request.EditsContent :=
    .inr ⟨rfl,"node".toList,"11111111-1111-1111-1111-111111111111".toList,by decide⟩
  have status : reply.status = 500 := by decide +kernel
  have whole (edit : Edit) : ¬Edit.HalfDone s.desk edit := by
    rintro ⟨_,_,_,wrote,_⟩
    cases edit with
    | put e => cases wrote
    | delete ref => cases wrote
  have reached : 400 ≤ reply.status := by
    rw [status]
    decide
  clear_value s request
  obtain ⟨_,_,unchanged,repeats⟩ := failed_edits_change_nothing_iff s request default default edits
  obtain ⟨store,queues⟩ := unchanged.mpr (fun edit _ => whole edit) reached
  exact ⟨edits,status,store,queues,repeats.mpr (fun ref _ => whole (.delete ref)) reached⟩

-- A page is stored, and the queue is out of service. The delete fails and takes the page away; when it
-- is repeated, there is no page and no item for the worker, while at first there would have been both.
theorem half_done_delete_is_lost :
    let page : Entity := Entity.blank "node" "page" "Home" ⟨List.replicate 32 1,by decide⟩
    let s : Service := { (default : Service) with desk := { store := [(page.ref,page)], failing := [.push] } }
    let request : Request := ⟨.delete,"/api/content/node/11111111-1111-1111-1111-111111111111",[],""⟩
    let failed := s.handle request default
    let repeated := failed.2.restored.handle request default
    let untried := s.restored.handle request default
    failed.1.status = 500 ∧ s.desk.store.keys = [page.ref] ∧ failed.2.desk.store.keys = [] ∧
      repeated.1.status = 404 ∧ repeated.2.desk.queues.len usageQueue = 0 ∧
      untried.1.status = 204 ∧ untried.2.desk.queues.len usageQueue = 1 := by
  decide +kernel

end Redline.Http
