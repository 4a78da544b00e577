import Redline.Desk.Schedule
import Redline.Proofs.Calls
import Redline.Proofs.Records

namespace Redline

open Usage

-- What a desk is asked for: content saved or deleted with the item that brings the registry up to
-- date, the queue worked off up to a limit, or a scheduled run with a batch size.
inductive Event where
  | save (e : Entity)
  | delete (ref : EntityRef)
  | withdraw (ref : EntityRef)
  | drain (limit : Nat)
  | run (batchSize : Nat)

def Event.apply (desk : Desk) : Event → Attempt Desk
  | .save e =>
      match desk.submit e with
      | (.ok _,saved) => return saved
      | (.error failure,_) => throw failure
  | .delete ref => do
      let (_,deleted) ← desk.delete ref
      deleted.enqueue ⟨ref,.delete⟩
  | .withdraw ref =>
      match desk.withdraw ref with
      | (.ok _,withdrawn) => return withdrawn
      | (.error failure,_) => throw failure
  | .drain limit => do
      let (_,drained) ← desk.drain limit
      return drained
  | .run batchSize => return ({ desk with batchSize }.run).2

-- The rows that a source should have.
def rowsFor (store : Store) (source : EntityRef) : List Row :=
  match store.load source with
  | some e => rowsOf e
  | none => []

-- The last thing asked for a source.
def lastAsked (items : List WorkItem) (source : EntityRef) : Option Operation :=
  ((items.filter (·.source = source)).getLast?).map (·.operation)

-- What the last item of a source knows, and what holds when there is none.
def Agrees (store : Store) (registry : Registry) (source : EntityRef) : Option Operation → Prop
  | some .update => (store.load source).isSome = true
  | some .delete => store.load source = none
  | none => registry.targets source = rowsFor store source

structure Tracked (desk : Desk) (items : List WorkItem) : Prop where
  working : desk.failing = []
  queued : desk.queues.waiting usageQueue = items.map WorkItem.payload
  keyed : ∀ source e, desk.store.load source = some e → e.ref = source
  agrees : ∀ source, Agrees desk.store desk.registry source (lastAsked items source)

section Asked

theorem lastAsked_self (items : List WorkItem) (item : WorkItem) :
    lastAsked (items ++ [item]) item.source = some item.operation := by
  simp [lastAsked]

theorem lastAsked_other (items : List WorkItem) {item : WorkItem} {source : EntityRef} (apart : item.source ≠ source) :
    lastAsked (items ++ [item]) source = lastAsked items source := by
  simp [lastAsked,apart]

-- Taking the first item matters only for its own source, and there only when it was the last.
theorem lastAsked_cons (item : WorkItem) (rest : List WorkItem) (source : EntityRef) :
    lastAsked (item :: rest) source = lastAsked rest source ∨
      (item.source = source ∧ lastAsked rest source = none ∧ lastAsked (item :: rest) source = some item.operation) := by
  by_cases own : item.source = source
  · cases later : (rest.filter (·.source = source)).getLast? with
    | none =>
        have nothing := List.getLast?_eq_none_iff.mp later
        exact .inr ⟨own,by rw [lastAsked,later]; rfl,by simp [lastAsked,own,nothing]⟩
    | some last =>
        left
        simp [lastAsked,own,List.getLast?_cons,later]
  · left
    simp [lastAsked,own]

end Asked

theorem waiting_insert (queues : Queues) (rest : List String) :
    Queues.waiting (Table.insert usageQueue rest queues) usageQueue = rest :=
  (queues.waiting_inserted usageQueue usageQueue rest).trans (if_pos rfl)

section Rows

theorem targets_register_self (registry : Registry) (e : Entity) : (registry.register e).targets e.ref = rowsOf e := by
  unfold Registry.register Registry.targets
  split
  · rename_i none_
    rw [Table.find?_erase_self,List.isEmpty_iff.mp none_]
    rfl
  · rw [Table.find?_insert_self]
    rfl

theorem targets_register_other (registry : Registry) (e : Entity) {source : EntityRef} (apart : source ≠ e.ref) :
    (registry.register e).targets source = registry.targets source := by
  unfold Registry.register Registry.targets
  split
  · rw [Table.find?_erase_other _ apart]
  · rw [Table.find?_insert_other _ _ _ _ apart]

theorem targets_remove_self (registry : Registry) (source : EntityRef) :
    (registry.remove source).targets source = [] := by
  unfold Registry.remove Registry.targets
  rw [Table.find?_erase_self]
  rfl

theorem targets_remove_other (registry : Registry) {source other : EntityRef} (apart : other ≠ source) :
    (registry.remove source).targets other = registry.targets other := by
  unfold Registry.remove Registry.targets
  rw [Table.find?_erase_other _ apart]

-- The rows of its source after an item was processed. A delete clears them whatever is stored; an
-- update leaves them when nothing is.
def rowsAfter (store : Store) (item : WorkItem) (before : List Row) : List Row :=
  match item.operation,store.load item.source with
  | .delete,_ => []
  | .update,some e => rowsOf e
  | .update,none => before

-- Processing an item changes the registry alone, and there only the rows of its source.
theorem process_rows (desk : Desk) (item : WorkItem) (working : desk.failing = [])
    (keyed : ∀ source e, desk.store.load source = some e → e.ref = source) :
    ∃ registry, (desk.process item).2 = { desk with registry } ∧
      (∀ source, source ≠ item.source → registry.targets source = desk.registry.targets source) ∧
      registry.targets item.source = rowsAfter desk.store item (desk.registry.targets item.source) := by
  obtain ⟨source,operation⟩ := item
  cases operation with
  | delete =>
      exact ⟨desk.registry.remove source,rfl,fun other apart => targets_remove_other _ apart,targets_remove_self _ _⟩
  | update =>
      cases stored : desk.store.load source with
      | none =>
          refine ⟨desk.registry,?_,fun _ _ => rfl,?_⟩
          · simp only [Desk.process,load_working working,stored]
          · simp only [rowsAfter,stored]
      | some e =>
          have own := keyed source e stored
          refine ⟨desk.registry.register e,?_,?_,?_⟩
          · simp only [Desk.process,load_working working,stored]
          · intro other apart
            exact targets_register_other _ e (own ▸ apart)
          · simp only [rowsAfter,stored]
            rw [← own,targets_register_self]

theorem rowsAfter_right {store : Store} {registry : Registry} {item : WorkItem} (before : List Row)
    (right : Agrees store registry item.source (some item.operation)) :
    rowsAfter store item before = rowsFor store item.source := by
  obtain ⟨source,operation⟩ := item
  cases operation with
  | delete =>
      have gone : store.load source = none := right
      simp only [rowsAfter,rowsFor,gone]
  | update =>
      obtain ⟨e,stored⟩ := Option.isSome_iff_exists.mp right
      simp only [rowsAfter,rowsFor,stored]

end Rows

section Steps

theorem Agrees.congr {store store' : Store} {registry registry' : Registry} {source : EntityRef}
    {asked : Option Operation} (loads : store'.load source = store.load source)
    (rows : registry'.targets source = registry.targets source) (agrees : Agrees store registry source asked) :
    Agrees store' registry' source asked := by
  cases asked with
  | none => rw [Agrees,rows,rowsFor,loads]; exact agrees
  | some operation => cases operation <;> (rw [Agrees,loads]; exact agrees)

theorem Tracked.push_item {desk : Desk} {items : List WorkItem} (tracked : Tracked desk items) (item : WorkItem)
    {store : Store} (keyed : ∀ source e, store.load source = some e → e.ref = source)
    (others : ∀ source, source ≠ item.source → store.load source = desk.store.load source)
    (right : Agrees store desk.registry item.source (some item.operation)) :
    Tracked { desk with store := store, queues := desk.queues.push usageQueue item.payload } (items ++ [item]) := by
  refine ⟨tracked.working,?_,keyed,?_⟩
  · rw [Queues.waiting_push_self,tracked.queued,List.map_append]
    rfl
  · intro source
    by_cases own : item.source = source
    · rw [← own,lastAsked_self]
      exact right
    · rw [lastAsked_other items own]
      exact (tracked.agrees source).congr (others source (Ne.symm own)) rfl

theorem keyed_save {store : Store} (keyed : ∀ source e, store.load source = some e → e.ref = source) (e : Entity) :
    ∀ source held, (store.save e).load source = some held → held.ref = source := by
  intro source held stored
  by_cases own : source = e.ref
  · rw [own,Store.load_save_self] at stored
    rw [own,Option.some.inj stored]
  · rw [Store.load_save_other _ _ _ own] at stored
    exact keyed source held stored

theorem load_delete (store : Store) (ref source : EntityRef) :
    (store.delete ref).load source = if source = ref then none else store.load source := by
  split
  · rename_i own
    rw [own]
    exact Table.find?_erase_self ref store
  · rename_i apart
    exact Table.find?_erase_other store apart

theorem keyed_delete {store : Store} (keyed : ∀ source e, store.load source = some e → e.ref = source)
    (ref : EntityRef) : ∀ source held, (store.delete ref).load source = some held → held.ref = source := by
  intro source held stored
  rw [load_delete] at stored
  split at stored
  · cases stored
  · exact keyed source held stored

theorem Tracked.apply_save {desk : Desk} {items : List WorkItem} (tracked : Tracked desk items) (e : Entity) :
    ∃ next, Event.apply desk (.save e) = .ok next ∧ Tracked next (items ++ [⟨e.ref,.update⟩]) := by
  refine ⟨_,?_,tracked.push_item ⟨e.ref,.update⟩ (keyed_save tracked.keyed e) ?_ ?_⟩
  · have stored := save_working tracked.working e
    have queued := @enqueue_working { desk with store := desk.store.save e } tracked.working ⟨e.ref,.update⟩
    simp only [Event.apply,Desk.submit,stored,queued]
    rfl
  · intro source apart
    exact Store.load_save_other _ _ _ apart
  · change ((desk.store.save e).load e.ref).isSome = true
    rw [Store.load_save_self]
    rfl

theorem Tracked.delete_push {desk : Desk} {items : List WorkItem} (tracked : Tracked desk items) (ref : EntityRef) :
    Tracked
      { desk with store := desk.store.delete ref, queues := desk.queues.push usageQueue (WorkItem.payload ⟨ref,.delete⟩) }
      (items ++ [⟨ref,.delete⟩]) := by
  apply tracked.push_item ⟨ref,.delete⟩ (keyed_delete tracked.keyed ref)
  · intro source apart
    rw [load_delete,if_neg apart]
  · change (desk.store.delete ref).load ref = none
    rw [load_delete,if_pos rfl]

theorem Tracked.delete_absent {desk : Desk} {items : List WorkItem} (tracked : Tracked desk items) {ref : EntityRef}
    (absent : desk.store.load ref = none) : Tracked { desk with store := desk.store.delete ref } items := by
  have same (source : EntityRef) : (desk.store.delete ref).load source = desk.store.load source := by
    rw [load_delete]
    split
    · rename_i own
      rw [own,absent]
    · rfl
  refine ⟨tracked.working,tracked.queued,keyed_delete tracked.keyed ref,?_⟩
  intro source
  exact (tracked.agrees source).congr (same source) rfl

theorem Tracked.apply_delete {desk : Desk} {items : List WorkItem} (tracked : Tracked desk items) (ref : EntityRef) :
    ∃ next items', Event.apply desk (.delete ref) = .ok next ∧ Tracked next items' := by
  refine ⟨_,_,?_,tracked.delete_push ref⟩
  have queued := @enqueue_working { desk with store := desk.store.delete ref } tracked.working ⟨ref,.delete⟩
  simp only [Event.apply,delete_working tracked.working]
  exact queued

theorem Tracked.apply_withdraw {desk : Desk} {items : List WorkItem} (tracked : Tracked desk items) (ref : EntityRef) :
    ∃ next items', Event.apply desk (.withdraw ref) = .ok next ∧ Tracked next items' := by
  have deleted := delete_working tracked.working ref
  cases stored : desk.store.load ref with
  | none =>
      refine ⟨_,_,?_,tracked.delete_absent stored⟩
      rw [stored] at deleted
      simp only [Event.apply,Desk.withdraw,deleted]
      rfl
  | some e =>
      refine ⟨_,_,?_,tracked.delete_push ref⟩
      have queued := @enqueue_working { desk with store := desk.store.delete ref } tracked.working ⟨ref,.delete⟩
      rw [stored] at deleted
      simp only [Event.apply,Desk.withdraw,deleted,Option.isSome_some,queued]
      rfl

theorem Tracked.pop_none {desk : Desk} (tracked : Tracked desk []) : desk.pop usageQueue = .ok (none,desk) :=
  pop_nothing tracked.working tracked.queued

theorem Tracked.pop_handle {desk : Desk} {item : WorkItem} {rest : List WorkItem} (tracked : Tracked desk (item :: rest)) :
    ∃ popped, desk.pop usageQueue = .ok (some item.payload,popped) ∧ Tracked (popped.handle item.payload).2 rest := by
  refine ⟨_,pop_first tracked.working tracked.queued,?_⟩
  obtain ⟨registry,next,others,own⟩ := process_rows
    { desk with queues := Table.insert usageQueue (rest.map WorkItem.payload) desk.queues } item tracked.working tracked.keyed
  rw [Desk.handle,item.ofPayload?_payload]
  change Tracked (Desk.process _ item).2 rest
  rw [next]
  refine ⟨tracked.working,waiting_insert _ _,tracked.keyed,?_⟩
  intro source
  have before := tracked.agrees source
  rcases lastAsked_cons item rest source with later | ⟨rfl,last,first⟩
  · by_cases mine : source = item.source
    · rw [later] at before
      cases asked : lastAsked rest source with
      | none =>
          -- No item of the source is left, so this one was none of its either.
          exfalso
          subst mine
          have here : lastAsked (item :: rest) item.source = none := later.trans asked
          simp [lastAsked] at here
      | some operation =>
          rw [asked] at before
          cases operation <;> exact before
    · rw [later] at before
      exact before.congr rfl (others source mine)
  · rw [first] at before
    rw [last]
    exact own.trans (rowsAfter_right _ before)

end Steps

theorem Tracked.drain_ok (limit : Nat) {desk : Desk} {items : List WorkItem} (tracked : Tracked desk items) :
    ∃ summary next items', desk.drain limit = .ok (summary,next) ∧ Tracked next items' := by
  induction limit generalizing desk items with
  | zero => exact ⟨_,_,_,rfl,tracked⟩
  | succ limit ih =>
      cases items with
      | nil =>
          refine ⟨{},_,_,?_,tracked⟩
          rw [Desk.drain,tracked.pop_none]
          rfl
      | cons item rest =>
          obtain ⟨popped,taken,next⟩ := tracked.pop_handle
          obtain ⟨summary,last,items',drained,done⟩ := ih next
          refine ⟨(popped.handle item.payload).1.summary.add summary,last,items',?_,done⟩
          simp only [Desk.drain,taken,drained]
          rfl

theorem Tracked.run_desk (batchSize : Nat) {desk : Desk} {items : List WorkItem} (tracked : Tracked desk items) :
    ∃ items', Tracked ({ desk with batchSize }.run).2 items' := by
  unfold Desk.run Desk.start?
  split
  · exact ⟨items,tracked.working,tracked.queued,tracked.keyed,tracked.agrees⟩
  · rename_i started free
    split at free
    · cases free
    · cases free
      have ready : Tracked { desk with batchSize, running := true } items :=
        ⟨tracked.working,tracked.queued,tracked.keyed,tracked.agrees⟩
      obtain ⟨summary,next,items',drained,done⟩ := ready.drain_ok batchSize
      refine ⟨items',?_⟩
      have worked := drained
      simp only [Desk.work,worked]
      exact ⟨done.working,done.queued,done.keyed,done.agrees⟩

theorem Tracked.apply_event {desk : Desk} {items : List WorkItem} (tracked : Tracked desk items) (event : Event) :
    ∃ next items', event.apply desk = .ok next ∧ Tracked next items' := by
  cases event with
  | save e =>
      obtain ⟨next,applied,after⟩ := tracked.apply_save e
      exact ⟨next,_,applied,after⟩
  | delete ref => exact tracked.apply_delete ref
  | withdraw ref => exact tracked.apply_withdraw ref
  | drain limit =>
      obtain ⟨summary,next,items',drained,done⟩ := tracked.drain_ok limit
      refine ⟨next,items',?_,done⟩
      simp only [Event.apply,drained]
      rfl
  | run batchSize =>
      obtain ⟨items',done⟩ := tracked.run_desk batchSize
      exact ⟨_,items',rfl,done⟩

theorem Tracked.apply_all (events : List Event) {desk : Desk} {items : List WorkItem} (tracked : Tracked desk items) :
    ∃ last items', events.foldlM Event.apply desk = .ok last ∧ Tracked last items' := by
  induction events generalizing desk items with
  | nil => exact ⟨desk,items,rfl,tracked⟩
  | cons event rest ih =>
      obtain ⟨next,items',applied,after⟩ := tracked.apply_event event
      obtain ⟨last,left,ran,done⟩ := ih after
      refine ⟨last,left,?_,done⟩
      rw [List.foldlM_cons,applied]
      exact ran

section Start

variable {start : Desk} (store : start.store = []) (queue : start.queues.waiting usageQueue = [])
  (registry : start.registry = []) (calls : start.failing = [])

include store queue registry calls

theorem tracked_start : Tracked start [] := by
  refine ⟨calls,queue,?_,?_⟩
  · intro source e stored
    rw [store] at stored
    cases stored
  · intro source
    change start.registry.targets source = rowsFor start.store source
    rw [store,registry]
    rfl

end Start

theorem references_ordered (e : Entity) : Table.Ordered (references e) := by
  have counted (found : List Occurrence) (counts : Table Occurrence Nat) (ordered : counts.Ordered) :
      (found.foldl (fun counts occurrence => counts.alter occurrence 0 (· + 1)) counts).Ordered := by
    induction found generalizing counts with
    | nil => exact ordered
    | cons occurrence rest ih => exact ih _ (Table.ordered_alter occurrence 0 (· + 1) ordered)
  exact counted _ [] .nil

-- What the queue still holds for a source.
def pendingFor (desk : Desk) (source : EntityRef) : List WorkItem :=
  ((desk.queues.waiting usageQueue).filterMap WorkItem.ofPayload?).filter (·.source = source)

theorem Tracked.targets_settled {desk : Desk} {items : List WorkItem} (tracked : Tracked desk items) {source : EntityRef}
    (done : pendingFor desk source = []) : desk.registry.targets source = rowsFor desk.store source := by
  have read : (desk.queues.waiting usageQueue).filterMap WorkItem.ofPayload? = items := by
    have known : WorkItem.ofPayload? ∘ WorkItem.payload = some := by
      funext item
      rw [Function.comp_apply,WorkItem.ofPayload?_payload]
    rw [tracked.queued,List.filterMap_map,known,List.filterMap_some]
  have asked : lastAsked items source = none := by
    rw [pendingFor,read] at done
    rw [lastAsked,done]
    rfl
  have agrees := tracked.agrees source
  rw [asked] at agrees
  exact agrees

-- From nothing, through any history without a failing call: a source that the queue holds nothing
-- for has, in map order, one row for each target and method that its stored entity references, and
-- no rows when there is none.
theorem usage_follows_content (start : Desk) (store : start.store = []) (queue : start.queues.waiting usageQueue = [])
    (registry : start.registry = []) (calls : start.failing = []) (events : List Event) :
    ∃ desk, events.foldlM Event.apply start = .ok desk ∧ ∀ source, pendingFor desk source = [] →
      match desk.store.load source with
      | some e => Table.Ordered (references e) ∧ desk.registry.targets source =
          (references e).map fun ((target,method),count) => ⟨source,target,method,count⟩
      | none => desk.registry.targets source = [] := by
  obtain ⟨desk,items,ran,tracked⟩ := (tracked_start store queue registry calls).apply_all events
  refine ⟨desk,ran,?_⟩
  intro source done
  have rows := tracked.targets_settled done
  rw [rowsFor] at rows
  split
  · rename_i e stored
    rw [stored] at rows
    have own := tracked.keyed source e stored
    refine ⟨references_ordered e,?_⟩
    rw [rows,← own]
    rfl
  · rename_i absent
    rwa [absent] at rows

theorem usage_follows_content_edited :
    let image : EntityRef := ⟨"media",⟨List.replicate 32 2,by decide⟩⟩
    let page : Entity := (Entity.blank "node" "page" "Home" ⟨List.replicate 32 1,by decide⟩).withField "image"
      (.object [("target_type",.text "media"),("target_uuid",.text image.uuid.text)])
    let events : List Event :=
      [.save { page with fields := [] },.save page,.drain 1,.withdraw page.ref,.save page,.run 9]
    ∃ desk, events.foldlM Event.apply {} = .ok desk ∧ pendingFor desk page.ref = [] ∧
      desk.registry.targets page.ref = [⟨page.ref,image,.reference,1⟩] ∧
      match desk.store.load page.ref with
      | some e => Table.Ordered (references e) ∧ desk.registry.targets page.ref =
          (references e).map fun ((target,method),count) => ⟨page.ref,target,method,count⟩
      | none => desk.registry.targets page.ref = [] := by
  intro image page events
  obtain ⟨desk,ran,follows⟩ := usage_follows_content {} rfl rfl rfl rfl events
  have shown : (Except.toOption (events.foldlM Event.apply {} : Attempt Desk)).map
      (fun desk => (pendingFor desk page.ref,desk.registry.targets page.ref)) =
      some ([],[⟨page.ref,image,.reference,1⟩]) := by decide +kernel
  rw [ran] at shown
  obtain ⟨done,rows⟩ := Prod.mk.inj (Option.some.inj shown)
  exact ⟨desk,ran,done,rows,follows page.ref done⟩

end Redline
