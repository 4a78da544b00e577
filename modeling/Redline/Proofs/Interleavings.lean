import Redline.Proofs.UsageTracking

namespace Redline

open Usage

inductive Request where
  | put (e : Entity)
  | delete (ref : EntityRef)

-- The first step. The item is what the second step pushes; a delete of what is not there has none.
def Request.write (desk : Desk) : Request → Attempt (Option WorkItem × Desk)
  | .put e => do
      let saved ← desk.save e
      return (some ⟨e.ref,.update⟩,saved)
  | .delete ref => do
      let (existed,deleted) ← desk.delete ref
      return (if existed then some ⟨ref,.delete⟩ else none,deleted)

-- A desk with the requests between their steps, each known by its item, and what was pushed so far.
-- No step reads the pushed items.
structure Bench where
  desk : Desk
  between : List WorkItem := []
  pushed : List WorkItem := []

-- A request starts, one between its steps ends, or the worker takes one item. Where no request is
-- between its steps at a place, and where nothing waits, nothing happens.
inductive Act where
  | write (request : Request)
  | push (place : Nat)
  | work

def Act.apply (bench : Bench) : Act → Attempt Bench
  | .write request => do
      let (item,desk) ← request.write bench.desk
      return { bench with desk, between := bench.between ++ item.toList }
  | .push place =>
      match bench.between[place]? with
      | none => return bench
      | some item => do
          let desk ← bench.desk.enqueue item
          return ⟨desk,bench.between.eraseIdx place,bench.pushed ++ [item]⟩
  | .work => do
      let (_,desk) ← bench.desk.drain 1
      return { bench with desk }

section Handlers

theorem submit_steps (desk : Desk) (e : Entity) : desk.submit e =
    match (Request.put e).write desk with
    | .error failure => (.error failure,desk)
    | .ok (none,saved) => (.ok (),saved)
    | .ok (some item,saved) =>
        match saved.enqueue item with
        | .error failure => (.error failure,saved)
        | .ok queued => (.ok (),queued) := by
  cases saved : desk.save e <;> (simp only [Desk.submit,Request.write,saved]; rfl)

theorem withdraw_steps (desk : Desk) (ref : EntityRef) : desk.withdraw ref =
    match (Request.delete ref).write desk with
    | .error failure => (.error failure,desk)
    | .ok (none,kept) => (.ok false,kept)
    | .ok (some item,deleted) =>
        match deleted.enqueue item with
        | .error failure => (.error failure,deleted)
        | .ok queued => (.ok true,queued) := by
  cases result : desk.delete ref with
  | error failure =>
      simp only [Desk.withdraw,Request.write,result]
      rfl
  | ok answer =>
      obtain ⟨existed,deleted⟩ := answer
      cases existed <;> (simp only [Desk.withdraw,Request.write,result]; rfl)

end Handlers

-- The rows that a source is left with by the last item pushed for it.
def rowsLeft (store : Store) (pushed : List WorkItem) (source : EntityRef) : List Row :=
  match store.load source,lastAsked pushed source with
  | some _,some .delete => []
  | some e,_ => rowsOf e
  | none,_ => []

-- What is known of a source on the way. The item of its last write is still to be pushed, or items
-- of it wait in the queue, or its rows are those that the pushes left it.
def Follows (bench : Bench) (items : List WorkItem) (source : EntityRef) : Prop :=
  match bench.desk.store.load source with
  | some _ => ⟨source,.update⟩ ∈ bench.between ∨ (∃ operation, ⟨source,operation⟩ ∈ items) ∨
      bench.desk.registry.targets source = rowsLeft bench.desk.store bench.pushed source
  | none => ⟨source,.delete⟩ ∈ bench.between ∨ ⟨source,.delete⟩ ∈ items ∨
      bench.desk.registry.targets source = rowsLeft bench.desk.store bench.pushed source

structure Followed (bench : Bench) (items : List WorkItem) : Prop where
  working : bench.desk.failing = []
  waiting : bench.desk.queues.waiting usageQueue = items.map WorkItem.payload
  keyed : ∀ source e, bench.desk.store.load source = some e → e.ref = source
  latest : ∃ taken, bench.pushed = taken ++ items
  follows : ∀ source, Follows bench items source

section Sources

variable {bench next : Bench} {items items' : List WorkItem} {source : EntityRef}

theorem rowsLeft_congr {store store' : Store} {pushed pushed' : List WorkItem}
    (loads : store'.load source = store.load source) (asked : lastAsked pushed' source = lastAsked pushed source) :
    rowsLeft store' pushed' source = rowsLeft store pushed source := by
  rw [rowsLeft,rowsLeft,loads,asked]

theorem Follows.congr (follows : Follows bench items source)
    (loads : next.desk.store.load source = bench.desk.store.load source)
    (rows : next.desk.registry.targets source = bench.desk.registry.targets source)
    (asked : lastAsked next.pushed source = lastAsked bench.pushed source)
    (between : ∀ operation, ⟨source,operation⟩ ∈ bench.between → ⟨source,operation⟩ ∈ next.between)
    (queued : ∀ operation, ⟨source,operation⟩ ∈ items → ⟨source,operation⟩ ∈ items') : Follows next items' source := by
  have left := rowsLeft_congr loads asked
  unfold Follows at follows ⊢
  rw [loads]
  cases stored : bench.desk.store.load source with
  | some e =>
      rw [stored] at follows
      rcases follows with open_ | ⟨operation,waits⟩ | settled
      · exact .inl (between _ open_)
      · exact .inr (.inl ⟨operation,queued _ waits⟩)
      · exact .inr (.inr (rows.trans (settled.trans left.symm)))
  | none =>
      rw [stored] at follows
      rcases follows with open_ | waits | settled
      · exact .inl (between _ open_)
      · exact .inr (.inl (queued _ waits))
      · exact .inr (.inr (rows.trans (settled.trans left.symm)))

theorem Follows.targets_settled (follows : Follows bench [] source) (ended : bench.between = []) :
    bench.desk.registry.targets source = rowsLeft bench.desk.store bench.pushed source := by
  unfold Follows at follows
  rw [ended] at follows
  split at follows
  · rcases follows with open_ | ⟨operation,waits⟩ | settled
    · cases open_
    · cases waits
    · exact settled
  · rcases follows with open_ | waits | settled
    · cases open_
    · cases waits
    · exact settled

end Sources

section Steps

theorem Followed.apply_put {bench : Bench} {items : List WorkItem} (followed : Followed bench items) (e : Entity) :
    ∃ next, Act.apply bench (.write (.put e)) = .ok next ∧ Followed next items := by
  refine ⟨{ bench with desk := { bench.desk with store := bench.desk.store.save e }, between := bench.between ++ [⟨e.ref,.update⟩] },
    ?_,followed.working,followed.waiting,keyed_save followed.keyed e,followed.latest,?_⟩
  · simp only [Act.apply,Request.write,save_working followed.working]
    rfl
  · intro source
    by_cases own : source = e.ref
    · subst own
      unfold Follows
      simp only [Store.load_save_self]
      exact .inl (List.mem_append_right _ List.mem_cons_self)
    · apply (followed.follows source).congr
      · exact Store.load_save_other _ _ _ own
      · rfl
      · rfl
      · exact fun operation open_ => List.mem_append_left _ open_
      · exact fun operation waits => waits

theorem Followed.apply_delete {bench : Bench} {items : List WorkItem} (followed : Followed bench items) (ref : EntityRef) :
    ∃ next, Act.apply bench (.write (.delete ref)) = .ok next ∧ Followed next items := by
  let item : Option WorkItem := if (bench.desk.store.load ref).isSome then some ⟨ref,.delete⟩ else none
  refine ⟨{ bench with desk := { bench.desk with store := bench.desk.store.delete ref }, between := bench.between ++ item.toList },
    ?_,followed.working,followed.waiting,keyed_delete followed.keyed ref,followed.latest,?_⟩
  · simp only [Act.apply,Request.write,delete_working followed.working]
    rfl
  · have kept : ∀ source operation, (⟨source,operation⟩ : WorkItem) ∈ bench.between → ⟨source,operation⟩ ∈ bench.between ++ item.toList :=
      fun source operation open_ => List.mem_append_left _ open_
    intro source
    have loads := load_delete bench.desk.store ref source
    by_cases gone : source = ref ∧ (bench.desk.store.load ref).isSome = true
    · obtain ⟨rfl,existed⟩ := gone
      rw [if_pos rfl] at loads
      have opened : item = some ⟨source,.delete⟩ := if_pos existed
      unfold Follows
      simp only [loads,opened]
      exact .inl (List.mem_append_right _ List.mem_cons_self)
    · -- Another source, or one that was not there: nothing is different.
      have same : (bench.desk.store.delete ref).load source = bench.desk.store.load source := by
        rw [loads]
        split
        · rename_i own
          cases absent : bench.desk.store.load ref with
          | none => rw [own,absent]
          | some e => exact absurd ⟨own,by rw [absent]; rfl⟩ gone
        · rfl
      exact (followed.follows source).congr same rfl rfl (kept source) fun _ waits => waits

theorem Followed.apply_push {bench : Bench} {items : List WorkItem} (followed : Followed bench items) (place : Nat) :
    ∃ next items', Act.apply bench (.push place) = .ok next ∧ Followed next items' := by
  cases found : bench.between[place]? with
  | none =>
      refine ⟨bench,items,?_,followed⟩
      simp only [Act.apply,found]
      rfl
  | some item =>
      obtain ⟨taken,pushed⟩ := followed.latest
      refine ⟨⟨{ bench.desk with queues := bench.desk.queues.push usageQueue item.payload },bench.between.eraseIdx place,
        bench.pushed ++ [item]⟩,items ++ [item],?_,followed.working,?_,followed.keyed,⟨taken,?_⟩,?_⟩
      · simp only [Act.apply,found,enqueue_working followed.working]
        rfl
      · change Queues.waiting (Queues.push _ _ _) _ = _
        rw [Queues.waiting_push_self,followed.waiting,List.map_append]
        rfl
      · rw [pushed,List.append_assoc]
      · -- Whatever else is between its steps stays there.
        have others : ∀ other : WorkItem, other ≠ item → other ∈ bench.between → other ∈ bench.between.eraseIdx place := by
          intro other apart open_
          obtain ⟨at_,here⟩ := List.mem_iff_getElem?.mp open_
          refine List.mem_eraseIdx_iff_getElem?.mpr ⟨at_,?_,here⟩
          rintro rfl
          rw [found] at here
          exact apart (Option.some.inj here).symm
        intro source
        by_cases own : item.source = source
        · subst own
          have follows := followed.follows item.source
          unfold Follows at follows ⊢
          cases stored : bench.desk.store.load item.source with
          | some e =>
              exact .inr (.inl ⟨item.operation,List.mem_append_right _ List.mem_cons_self⟩)
          | none =>
              rw [stored] at follows
              by_cases removes : item = ⟨item.source,.delete⟩
              · exact .inr (.inl (List.mem_append_right _ (removes ▸ List.mem_cons_self)))
              · rcases follows with open_ | waits | settled
                · exact .inl (others _ (Ne.symm removes) open_)
                · exact .inr (.inl (List.mem_append_left _ waits))
                · refine .inr (.inr (settled.trans ?_))
                  simp only [rowsLeft,stored]
        · have apart (operation : Operation) : (⟨source,operation⟩ : WorkItem) ≠ item := by
            rintro rfl
            exact own rfl
          exact (followed.follows source).congr rfl rfl (lastAsked_other _ own) (fun operation => others _ (apart operation))
            fun operation waits => List.mem_append_left _ waits

-- The item that is taken is the last of its source, or items of it are left behind it.
theorem lastAsked_taken (taken : List WorkItem) {item : WorkItem} {rest : List WorkItem}
    (last : ∀ operation, ⟨item.source,operation⟩ ∉ rest) :
    lastAsked (taken ++ item :: rest) item.source = some item.operation := by
  have none_left : rest.filter (·.source = item.source) = [] := by
    rw [List.filter_eq_nil_iff]
    intro other later own
    have same : other.source = item.source := of_decide_eq_true own
    exact last other.operation (same ▸ later)
  simp [lastAsked,none_left]

theorem Follows.of_processed {bench next : Bench} {taken rest : List WorkItem} {item : WorkItem}
    (follows : Follows bench (item :: rest) item.source) (latest : bench.pushed = taken ++ item :: rest)
    (store : next.desk.store = bench.desk.store) (between : next.between = bench.between)
    (pushed : next.pushed = bench.pushed) (rows : next.desk.registry.targets item.source =
      rowsAfter bench.desk.store item (bench.desk.registry.targets item.source)) : Follows next rest item.source := by
  unfold Follows at follows ⊢
  rw [store,between,pushed,rows]
  cases stored : bench.desk.store.load item.source with
  | some e =>
      by_cases more : ∃ operation, ⟨item.source,operation⟩ ∈ rest
      · exact .inr (.inl more)
      · have asked := lastAsked_taken taken (not_exists.mp more)
        rw [← latest] at asked
        right; right
        rw [rowsLeft,stored,asked,rowsAfter,stored]
        cases item.operation <;> rfl
  | none =>
      rw [stored] at follows
      cases operation : item.operation with
      | delete =>
          right; right
          rw [rowsLeft,stored,rowsAfter,stored,operation]
      | update =>
          rcases follows with open_ | waits | settled
          · exact .inl open_
          · rcases List.mem_cons.mp waits with this | later
            · rw [← this] at operation
              cases operation
            · exact .inr (.inl later)
          · right; right
            rw [rowsAfter,stored,operation]
            exact settled

theorem Followed.apply_work {bench : Bench} {items : List WorkItem} (followed : Followed bench items) :
    ∃ next items', Act.apply bench .work = .ok next ∧ Followed next items' := by
  cases items with
  | nil =>
      refine ⟨bench,[],?_,followed⟩
      simp only [Act.apply,Desk.drain,pop_nothing followed.working followed.waiting]
      rfl
  | cons item rest =>
      obtain ⟨taken,latest⟩ := followed.latest
      let popped : Desk :=
        { bench.desk with queues := Table.insert usageQueue (rest.map WorkItem.payload) bench.desk.queues }
      obtain ⟨registry,processed,others,own⟩ := process_rows popped item followed.working followed.keyed
      refine ⟨{ bench with desk := { popped with registry } },rest,?_,followed.working,waiting_insert _ _,followed.keyed,
        ⟨taken ++ [item],?_⟩,?_⟩
      · have taken_ : bench.desk.pop usageQueue = .ok (some item.payload,popped) :=
          pop_first followed.working followed.waiting
        have handled : (popped.handle item.payload).2 = { popped with registry } := by
          rw [Desk.handle,item.ofPayload?_payload]
          exact processed
        simp only [Act.apply,Desk.drain,taken_]
        rw [handled]
        rfl
      · rw [List.append_assoc]
        exact latest
      · intro source
        by_cases mine : source = item.source
        · subst mine
          exact (followed.follows item.source).of_processed latest rfl rfl rfl own
        · refine (followed.follows source).congr rfl (others source mine) rfl (fun _ open_ => open_) ?_
          intro operation waits
          rcases List.mem_cons.mp waits with this | later
          · exact absurd (congrArg WorkItem.source this) mine
          · exact later

theorem Followed.apply_act {bench : Bench} {items : List WorkItem} (followed : Followed bench items) (act : Act) :
    ∃ next items', act.apply bench = .ok next ∧ Followed next items' := by
  cases act with
  | write request =>
      cases request with
      | put e =>
          obtain ⟨next,applied,after⟩ := followed.apply_put e
          exact ⟨next,items,applied,after⟩
      | delete ref =>
          obtain ⟨next,applied,after⟩ := followed.apply_delete ref
          exact ⟨next,items,applied,after⟩
  | push place => exact followed.apply_push place
  | work => exact followed.apply_work

end Steps

theorem Followed.apply_all (acts : List Act) {bench : Bench} {items : List WorkItem} (followed : Followed bench items) :
    ∃ last items', acts.foldlM Act.apply bench = .ok last ∧ Followed last items' := by
  induction acts generalizing bench items with
  | nil => exact ⟨bench,items,rfl,followed⟩
  | cons act rest ih =>
      obtain ⟨next,items',applied,after⟩ := followed.apply_act act
      obtain ⟨last,left,ran,done⟩ := ih after
      refine ⟨last,left,?_,done⟩
      rw [List.foldlM_cons,applied]
      exact ran

-- A desk that no request and no item is under way on, with the rows of what is stored.
structure Settled (desk : Desk) : Prop where
  working : desk.failing = []
  empty : desk.queues.waiting usageQueue = []
  keyed : ∀ source e, desk.store.load source = some e → e.ref = source
  rows : ∀ source, desk.registry.targets source = rowsFor desk.store source

theorem Settled.followed_start {desk : Desk} (settled : Settled desk) : Followed { desk := desk } [] := by
  refine ⟨settled.working,settled.empty,settled.keyed,⟨[],rfl⟩,?_⟩
  intro source
  have rows := settled.rows source
  rw [rowsFor] at rows
  unfold Follows rowsLeft
  cases stored : desk.store.load source with
  | some e =>
      simp only [stored] at rows
      exact .inr (.inr rows)
  | none =>
      simp only [stored] at rows
      exact .inr (.inr rows)

-- The pushes leave a source the rows it should have unless they end with a delete for one that is
-- stored and references something.
theorem rowsLeft_right (store : Store) (pushed : List WorkItem) (source : EntityRef) :
    rowsLeft store pushed source = rowsFor store source ↔
      ∀ e, store.load source = some e → lastAsked pushed source = some .delete → references e = [] := by
  rw [rowsLeft,rowsFor]
  cases stored : store.load source with
  | none =>
      refine ⟨fun _ e held => ?_,fun _ => rfl⟩
      cases held
  | some e =>
      cases asked : lastAsked pushed source with
      | none =>
          refine ⟨fun _ _ _ last => ?_,fun _ => rfl⟩
          cases last
      | some operation =>
          cases operation with
          | update =>
              refine ⟨fun _ _ _ last => ?_,fun _ => rfl⟩
              cases last
          | delete =>
              constructor
              · intro same held there _
                cases there
                exact List.map_eq_nil_iff.mp same.symm
              · intro nothing
                have free := nothing e rfl rfl
                simp only [rowsOf,free,List.map_nil]

-- Whatever the order of the steps, every one goes through. When all requests have ended and the
-- queue is empty, each source has the rows that the last item pushed for it left; so all sources
-- have the rows they should have exactly when no stored entity that references something had a
-- delete pushed last.
theorem usage_settles_iff {start : Desk} (settled : Settled start) (acts : List Act) :
    ∃ last, acts.foldlM Act.apply { desk := start } = .ok last ∧
      (last.between = [] → last.desk.queues.waiting usageQueue = [] →
        (∀ source, last.desk.registry.targets source = rowsLeft last.desk.store last.pushed source) ∧
        ((∀ source, last.desk.registry.targets source = rowsFor last.desk.store source) ↔
          ∀ source e, last.desk.store.load source = some e → lastAsked last.pushed source = some .delete →
            references e = [])) := by
  obtain ⟨last,items,ran,followed⟩ := settled.followed_start.apply_all acts
  refine ⟨last,ran,?_⟩
  intro ended worked
  have nothing : items = [] := List.map_eq_nil_iff.mp (followed.waiting.symm.trans worked)
  subst nothing
  have left (source : EntityRef) := (followed.follows source).targets_settled ended
  refine ⟨left,?_⟩
  constructor
  · intro right source
    exact (rowsLeft_right _ _ _).mp ((left source).symm.trans (right source))
  · intro last_ source
    exact (left source).trans ((rowsLeft_right _ _ _).mpr (last_ source))

theorem usage_settles_iff_crossed_saves :
    let image : EntityRef := ⟨"media",⟨List.replicate 32 2,by decide⟩⟩
    let page : Entity := (Entity.blank "node" "page" "Home" ⟨List.replicate 32 1,by decide⟩).withField "image"
      (.object [("target_type",.text "media"),("target_uuid",.text image.uuid.text)])
    let acts : List Act := [.write (.put { page with fields := [] }),.write (.put page),.push 1,.push 0,.work,.work]
    Settled {} ∧ ∃ last, acts.foldlM Act.apply { desk := {} } = .ok last ∧ last.between = [] ∧
      last.desk.queues.waiting usageQueue = [] ∧ last.desk.registry.targets page.ref = [⟨page.ref,image,.reference,1⟩] ∧
      (∀ source, last.desk.registry.targets source = rowsLeft last.desk.store last.pushed source) ∧
      ((∀ source, last.desk.registry.targets source = rowsFor last.desk.store source) ↔
        ∀ source e, last.desk.store.load source = some e → lastAsked last.pushed source = some .delete →
          references e = []) := by
  intro image page acts
  have settled : Settled {} := by
    refine ⟨rfl,rfl,?_,fun _ => rfl⟩
    intro source e stored
    cases stored
  obtain ⟨last,ran,settles⟩ := usage_settles_iff settled acts
  have shown : (Except.toOption (acts.foldlM Act.apply { desk := {} } : Attempt Bench)).map
      (fun last => (last.between,last.desk.queues.waiting usageQueue,last.desk.registry.targets page.ref)) =
      some ([],[],[⟨page.ref,image,.reference,1⟩]) := by decide +kernel
  rw [ran] at shown
  obtain ⟨ended,after⟩ := Prod.mk.inj (Option.some.inj shown)
  obtain ⟨worked,rows⟩ := Prod.mk.inj after
  exact ⟨settled,last,ran,ended,worked,rows,settles ended worked⟩

-- A page is stored and its usage registered. A delete writes, a save writes and pushes, and then
-- the delete pushes: its item is the last to be taken, and the stored page is left without rows.
theorem overtaken_delete_clears_usage :
    let image : EntityRef := ⟨"media",⟨List.replicate 32 2,by decide⟩⟩
    let page : Entity := (Entity.blank "node" "page" "Home" ⟨List.replicate 32 1,by decide⟩).withField "image"
      (.object [("target_type",.text "media"),("target_uuid",.text image.uuid.text)])
    let acts : List Act := [.write (.put page),.push 0,.work,
      .write (.delete page.ref),.write (.put page),.push 1,.push 0,.work,.work]
    ∃ last, acts.foldlM Act.apply { desk := {} } = .ok last ∧ last.between = [] ∧
      last.desk.queues.waiting usageQueue = [] ∧
      (last.desk.store.load page.ref).map rowsOf = some [⟨page.ref,image,.reference,1⟩] ∧
      last.desk.registry.targets page.ref = [] := by
  intro image page acts
  have shown : (Except.toOption (acts.foldlM Act.apply { desk := {} } : Attempt Bench)).map
      (fun last => (last.between,last.desk.queues.waiting usageQueue,
        (last.desk.store.load page.ref).map rowsOf,last.desk.registry.targets page.ref)) =
      some ([],[],some [⟨page.ref,image,.reference,1⟩],[]) := by decide +kernel
  cases ran : (acts.foldlM Act.apply { desk := {} } : Attempt Bench) with
  | error failure =>
      rw [ran] at shown
      cases shown
  | ok last =>
      rw [ran] at shown
      obtain ⟨ended,after⟩ := Prod.mk.inj (Option.some.inj shown)
      obtain ⟨worked,after⟩ := Prod.mk.inj after
      obtain ⟨needed,rows⟩ := Prod.mk.inj after
      exact ⟨last,rfl,ended,worked,needed,rows⟩

end Redline
