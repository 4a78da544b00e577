import Mathlib.Tactic.ByContra
import Redline.Desk.Queue
import Redline.Proofs.Ordering

namespace Redline.Queues

-- What the pop does next. In the end it has returned, at some moment, if its deadline could be set.
inductive Point where
  | calling
  | entering
  | looking
  | comparing
  | resting
  | returned (found : Option String) (moment : Nat)
  | panicked
deriving DecidableEq

def Point.hasEnded : Point → Bool
  | returned _ _ => true
  | panicked => true
  | _ => false

-- The pop is `told` when there was a notification since it registered. `ringing` counts the pushes
-- whose item is in its queue and whose notification is yet to come.
structure Wait where
  queues : Queues
  arrivals : List Arrival
  clock : Nat := 0
  point : Point := .calling
  told : Bool := false
  ringing : Nat := 0

section Steps

variable (name : String) (limit : Except Panic Nat)

-- The steps of the pop and of the pushes take no time. The clock goes on where nothing else can: the
-- pop rests or is over, no push is due and none is at work.
inductive Step : Wait → Wait → Prop where
  | set {s : Wait} {deadline : Nat} (here : s.point = .calling) (set : limit = .ok deadline) :
      Step s { s with point := .entering }
  | panic {s : Wait} {panic : Panic} (here : s.point = .calling) (unset : limit = .error panic) :
      Step s { s with point := .panicked }
  | enlist {s : Wait} (here : s.point = .entering) : Step s { s with point := .looking, told := false }
  | take {s : Wait} {item : String} {rest : Queues} (here : s.point = .looking)
      (popped : s.queues.pop name = some (item,rest)) :
      Step s { s with queues := rest, point := .returned (some item) s.clock }
  | miss {s : Wait} (here : s.point = .looking) (nothing : s.queues.pop name = none) :
      Step s { s with point := .comparing }
  | giveUp {s : Wait} {deadline : Nat} (here : s.point = .comparing) (set : limit = .ok deadline)
      (late : deadline ≤ s.clock) : Step s { s with point := .returned none s.clock }
  | rest {s : Wait} {deadline : Nat} (here : s.point = .comparing) (set : limit = .ok deadline)
      (early : s.clock < deadline) : Step s { s with point := .resting }
  | wake {s : Wait} (here : s.point = .resting) (told : s.told = true) :
      Step s { s with point := .entering, told := false }
  | expire {s : Wait} {deadline : Nat} (here : s.point = .resting) (quiet : s.told = false)
      (set : limit = .ok deadline) (late : deadline ≤ s.clock) :
      Step s { s with point := .returned none s.clock }
  | append {s : Wait} {arrival : Arrival} {later : List Arrival} (next : s.arrivals = arrival :: later)
      (due : arrival.moment ≤ s.clock) : Step s { s with
        queues := s.queues.push arrival.name arrival.item, arrivals := later, ringing := s.ringing + 1 }
  | notify {s : Wait} {others : Nat} (rings : s.ringing = others + 1) :
      Step s { s with told := true, ringing := others }
  | tick {s : Wait} (silent : s.ringing = 0) (ahead : ∀ a ∈ s.arrivals, s.clock < a.moment)
      (idle : (s.point = .resting ∧ s.told = false ∧ ∀ deadline, limit = .ok deadline → s.clock < deadline) ∨
        s.point.hasEnded = true ∧ s.arrivals ≠ []) : Step s { s with clock := s.clock + 1 }

inductive Run (start : Wait) : Nat → Wait → Prop where
  | start : Run start 0 start
  | step {n : Nat} {s t : Wait} (run : Run start n s) (step : Step name limit s t) : Run start (n + 1) t

end Steps

section Answers

-- What a pop answers and when, if it notices the pushes before some moment: the front item, else the first
-- that is pushed to its queue, else none.
def answer (now : Nat) (queues : Queues) (name : String) (deadline noticed : Nat) (arrivals : List Arrival) :
    Option String × Nat :=
  match queues.waiting name with
  | item :: _ => (some item,now)
  | [] =>
      match arrivals.find? fun arrival => arrival.name = name ∧ arrival.moment < noticed with
      | some arrival => (some arrival.item,arrival.moment)
      | none => (none,deadline)

def itemsTo (name : String) (arrivals : List Arrival) : List String :=
  (arrivals.filter fun arrival => arrival.name = name).map Arrival.item

variable {queues : Queues} {name : String} {deadline : Nat}

theorem pop_push {item : String} {rest : Queues} (popped : queues.pop name = some (item,rest)) (other pushed : String) :
    (queues.push other pushed).pop name = some (item,rest.push other pushed) := by
  rw [pop] at popped
  split at popped
  · cases popped
  · rename_i first behind here
    cases popped
    rw [pop,waiting_push,here]
    by_cases own : other = name
    · subst own
      simp only [if_true,List.cons_append,push,waiting_inserted,Table.insert_insert]
    · simp only [if_neg own,List.append_nil,push,waiting_inserted,Table.insert_comm (Ne.symm own)]

theorem waiting_pushAll (arrivals : List Arrival) :
    (queues.pushAll arrivals).waiting name = queues.waiting name ++ itemsTo name arrivals := by
  induction arrivals generalizing queues with
  | nil => exact (List.append_nil _).symm
  | cons arrival later ih =>
      rw [pushAll,List.foldl_cons,← pushAll,ih,waiting_push,List.append_assoc]
      by_cases own : arrival.name = name <;> simp [itemsTo,own]

theorem await_taken {item : String} {rest : Queues} (popped : queues.pop name = some (item,rest)) (deadline : Nat)
    (arrivals : List Arrival) : queues.await name deadline arrivals = (some item,rest.pushAll arrivals) := by
  cases arrivals with
  | nil => rw [await,popped]; rfl
  | cons => rw [await,popped]

theorem await_late (nothing : queues.pop name = none) {arrivals : List Arrival}
    (late : ∀ a ∈ arrivals, deadline ≤ a.moment) : queues.await name deadline arrivals = (none,queues.pushAll arrivals) := by
  cases arrivals with
  | nil => rw [await,nothing]; rfl
  | cons arrival later => simp only [await,nothing,if_neg (Nat.not_lt.mpr (late arrival (.head _)))]

theorem await_pushed {arrival : Arrival} (early : arrival.moment < deadline) (later : List Arrival) :
    (queues.push arrival.name arrival.item).await name deadline later = queues.await name deadline (arrival :: later) := by
  cases popped : queues.pop name with
  | none => simp only [await,popped,if_pos early]
  | some found =>
      obtain ⟨item,rest⟩ := found
      rw [await_taken popped,await_taken (pop_push popped arrival.name arrival.item)]
      rfl

theorem await_keeps (other : String) (arrivals : List Arrival) : queues.waiting other ++ itemsTo other arrivals =
    (if other = name then (queues.await name deadline arrivals).1.toList else []) ++
      (queues.await name deadline arrivals).2.waiting other := by
  induction arrivals generalizing queues with
  | nil =>
      cases popped : queues.pop name with
      | none => simp [await,popped,itemsTo]
      | some found =>
          rw [await_taken popped,waiting_pushAll,pop_keeps popped other,List.append_assoc]
          rfl
  | cons arrival later ih =>
      cases popped : queues.pop name with
      | some found =>
          rw [await_taken popped,waiting_pushAll,pop_keeps popped other,List.append_assoc]
          rfl
      | none =>
          by_cases early : arrival.moment < deadline
          · rw [← await_pushed early,← ih,waiting_push,List.append_assoc]
            by_cases own : arrival.name = other <;> simp [itemsTo,own]
          · simp only [await,popped,if_neg early,waiting_pushAll]
            simp

end Answers

section Keeping

abbrev Outcome := (Option String × Queues) × (Option String × Nat)

variable (name : String) (deadline noticed : Nat)

def outcome (s : Wait) : Outcome :=
  (s.queues.await name noticed s.arrivals,answer s.clock s.queues name deadline noticed s.arrivals)

variable {name deadline noticed} {s : Wait}

theorem outcome_of_pop {item : String} {rest : Queues} (popped : s.queues.pop name = some (item,rest)) :
    outcome name deadline noticed s = ((some item,rest.pushAll s.arrivals),(some item,s.clock)) := by
  rw [outcome,await_taken popped,answer,pop_keeps popped name,if_pos rfl]
  rfl

theorem outcome_of_nothing (nothing : s.queues.waiting name = []) (late : ∀ a ∈ s.arrivals, noticed ≤ a.moment) :
    outcome name deadline noticed s = ((none,s.queues.pushAll s.arrivals),(none,deadline)) := by
  have none_ : s.arrivals.find? (fun arrival => arrival.name = name ∧ arrival.moment < noticed) = none := by
    rw [List.find?_eq_none]
    intro a member found
    exact Nat.not_lt.mpr (late a member) (of_decide_eq_true found).2
  rw [outcome,await_late (pop_none.mpr nothing) late,answer,nothing,none_]

-- A push makes no difference to what is to come, if it is noticed or comes behind another item.
theorem outcome_append {arrival : Arrival} {later : List Arrival} (next : s.arrivals = arrival :: later)
    (now : arrival.moment = s.clock) (seen : arrival.moment < noticed ∨ s.queues.waiting name ≠ []) :
    outcome name deadline noticed { s with
      queues := s.queues.push arrival.name arrival.item, arrivals := later, ringing := s.ringing + 1 } =
        outcome name deadline noticed s := by
  cases popped : s.queues.pop name with
  | some found =>
      obtain ⟨item,rest⟩ := found
      rw [outcome_of_pop (pop_push popped arrival.name arrival.item),outcome_of_pop popped,next]
      rfl
  | none =>
      have nothing := pop_none.mp popped
      have early := seen.resolve_right (absurd nothing)
      have soon : s.clock < noticed := now ▸ early
      simp only [outcome,next,await_pushed early,answer,nothing,waiting_push]
      by_cases own : arrival.name = name
      · simp [own,now,soon]
      · simp [own]

theorem outcome_tick (nothing : s.queues.waiting name = []) :
    outcome name deadline noticed { s with clock := s.clock + 1 } = outcome name deadline noticed s := by
  simp only [outcome,answer,nothing]

variable (name deadline) (due late : Outcome) (all : Queues)

-- Before the pop has returned. What it comes to if it notices the pushes at the deadline too does not
-- change. What it comes to if it does not is either nothing, or it is still ahead; then an item is there
-- at the deadline, and the pop has yet to look. If it has looked before the deadline and there is an item
-- now, it is told or will be.
structure Pending (s : Wait) : Prop where
  comes : outcome name deadline (deadline + 1) s = late
  whole : s.queues.pushAll s.arrivals = all
  inTime : s.clock ≤ deadline
  ahead : ∀ a ∈ s.arrivals, s.clock ≤ a.moment
  inSight : due = ((none,all),(none,deadline)) ∨ outcome name deadline deadline s = due ∧
    (s.clock = deadline → s.queues.waiting name ≠ [] ∧ s.point ≠ .comparing ∧ s.point ≠ .resting)
  heard : s.point = .comparing ∨ s.point = .resting → s.clock < deadline → s.queues.waiting name ≠ [] →
    s.told = true ∨ 0 < s.ringing

def Ended (s : Wait) (found : Option String) (moment : Nat) : Prop :=
  ((found,s.queues.pushAll s.arrivals),(found,moment)) = due ∨
    found ≠ none ∧ ((found,s.queues.pushAll s.arrivals),(found,moment)) = late

structure Kept (s : Wait) : Prop where
  pending : s.point.hasEnded = false → Pending name deadline due late all s
  ended : ∀ found moment, s.point = .returned found moment → Ended due late s found moment
  set : s.point ≠ .panicked

variable {name deadline due late all}

namespace Pending

theorem at_point (pending : Pending name deadline due late all s) (point : Point) (told : Bool)
    (sight : s.clock = deadline → point ≠ .comparing ∧ point ≠ .resting ∨ due = ((none,all),(none,deadline)))
    (heard : point = .comparing ∨ point = .resting → s.clock < deadline → s.queues.waiting name ≠ [] →
      told = true ∨ 0 < s.ringing) : Pending name deadline due late all { s with point, told } := by
  refine ⟨pending.comes,pending.whole,pending.inTime,pending.ahead,?_,heard⟩
  rcases pending.inSight with nothing | ⟨comes,seen⟩
  · exact .inl nothing
  · by_cases reached : s.clock = deadline
    · exact (sight reached).symm.imp_right fun apart => ⟨comes,fun _ => ⟨(seen reached).1,apart⟩⟩
    · exact .inr ⟨comes,fun odd => absurd odd reached⟩

theorem ended_of_pop (pending : Pending name deadline due late all s) {item : String} {rest : Queues}
    (popped : s.queues.pop name = some (item,rest)) (point : Point) :
    Ended due late { s with queues := rest, point } (some item) s.clock := by
  refine .inr ⟨Option.some_ne_none item,?_⟩
  rw [← pending.comes,outcome_of_pop popped]

-- Who finds nothing at the deadline, or has looked by then, is to come to nothing.
theorem due_of_nothing (pending : Pending name deadline due late all s) (reached : s.clock = deadline)
    (nothing : s.queues.waiting name = [] ∨ s.point = .comparing ∨ s.point = .resting) :
    due = ((none,all),(none,deadline)) := by
  refine pending.inSight.resolve_right fun ⟨_,seen⟩ => ?_
  obtain ⟨filled,before,apart⟩ := seen reached
  exact nothing.elim filled fun here => here.elim before apart

theorem ended_of_deadline (pending : Pending name deadline due late all s)
    (here : s.point = .comparing ∨ s.point = .resting) (late_ : deadline ≤ s.clock) (point : Point) :
    Ended due late { s with point } none s.clock := by
  have reached : s.clock = deadline := Nat.le_antisymm pending.inTime late_
  refine .inl ?_
  rw [pending.due_of_nothing reached (.inr here),← pending.whole,reached]

theorem pending_append (pending : Pending name deadline due late all s) {arrival : Arrival} {later : List Arrival}
    (next : s.arrivals = arrival :: later) (moment : arrival.moment ≤ s.clock) :
    Pending name deadline due late all { s with
      queues := s.queues.push arrival.name arrival.item, arrivals := later, ringing := s.ringing + 1 } := by
  obtain ⟨comes,whole,inTime,ahead,inSight,_⟩ := pending
  have first_behind := ahead
  rw [next] at first_behind
  obtain ⟨first,behind⟩ := List.forall_mem_cons.mp first_behind
  have now : arrival.moment = s.clock := Nat.le_antisymm moment first
  refine ⟨?_,?_,inTime,behind,?_,fun _ _ _ => .inr (Nat.succ_pos _)⟩
  · rw [outcome_append next now (.inl (Nat.lt_succ_of_le (now ▸ inTime))),comes]
  · rw [← whole,next]
    rfl
  · refine inSight.imp_right fun ⟨comes,seen⟩ => ?_
    have seen_ : arrival.moment < deadline ∨ s.queues.waiting name ≠ [] := by
      rcases Nat.lt_or_eq_of_le inTime with early | reached
      · exact .inl (now ▸ early)
      · exact .inr (seen reached).1
    refine ⟨(outcome_append next now seen_).trans comes,fun reached => ?_⟩
    obtain ⟨filled,apart⟩ := seen reached
    refine ⟨?_,apart⟩
    rw [waiting_push]
    exact List.append_ne_nil_of_left_ne_nil filled _

theorem pending_notify (pending : Pending name deadline due late all s) (others : Nat) :
    Pending name deadline due late all { s with told := true, ringing := others } :=
  ⟨pending.comes,pending.whole,pending.inTime,pending.ahead,pending.inSight,fun _ _ _ => .inl rfl⟩

theorem pending_tick (pending : Pending name deadline due late all s) (here : s.point = .resting)
    (quiet : s.told = false) (silent : s.ringing = 0) (ahead : ∀ a ∈ s.arrivals, s.clock < a.moment)
    (early : s.clock < deadline) : Pending name deadline due late all { s with clock := s.clock + 1 } := by
  have nothing : s.queues.waiting name = [] := by
    by_contra filled
    rcases pending.heard (.inr here) early filled with told | rings
    · cases quiet.symm.trans told
    · exact Nat.ne_of_gt rings silent
  refine ⟨?_,pending.whole,early,ahead,?_,fun _ _ filled => absurd nothing filled⟩
  · rw [outcome_tick nothing,pending.comes]
  · rcases pending.inSight with none_ | ⟨comes,_⟩
    · exact .inl none_
    · rcases Nat.lt_or_eq_of_le (show s.clock + 1 ≤ deadline from early) with before | reached
      · exact .inr ⟨(outcome_tick nothing).trans comes,fun odd => absurd odd (Nat.ne_of_lt before)⟩
      · -- Nothing was there when the deadline came.
        have late_ : ∀ a ∈ s.arrivals, deadline ≤ a.moment := fun a member => reached ▸ ahead a member
        rw [outcome_of_nothing nothing late_,pending.whole] at comes
        exact .inl comes.symm

end Pending

theorem Kept.of_pending (here : s.point.hasEnded = false) (pending : Pending name deadline due late all s) :
    Kept name deadline due late all s := by
  refine ⟨fun _ => pending,fun found moment odd => ?_,fun odd => ?_⟩ <;>
  · rw [odd] at here
    cases here

theorem Kept.of_ended {found : Option String} {moment : Nat} (here : s.point = .returned found moment)
    (ended : Ended due late s found moment) : Kept name deadline due late all s := by
  refine ⟨fun odd => ?_,fun found' moment' same => ?_,fun odd => ?_⟩
  · rw [here] at odd
    cases odd
  · cases here.symm.trans same
    exact ended
  · cases here.symm.trans odd

theorem Step.kept_after {t : Wait} (step : Step name (.ok deadline) s t) (kept : Kept name deadline due late all s) :
    Kept name deadline due late all t := by
  obtain ⟨pending,ended,fine⟩ := kept
  cases step with
  | set here =>
      exact .of_pending rfl ((pending (here ▸ rfl)).at_point .entering s.told (fun _ => .inl ⟨nofun,nofun⟩) nofun)
  | panic here unset => cases unset
  | enlist here =>
      exact .of_pending rfl ((pending (here ▸ rfl)).at_point .looking false (fun _ => .inl ⟨nofun,nofun⟩) nofun)
  | take here popped => exact .of_ended rfl ((pending (here ▸ rfl)).ended_of_pop popped _)
  | miss here nothing =>
      have before := pending (here ▸ rfl)
      have empty := pop_none.mp nothing
      exact .of_pending rfl (before.at_point .comparing s.told
        (fun reached => .inr (before.due_of_nothing reached (.inl empty))) fun _ _ filled => absurd empty filled)
  | giveUp here set late =>
      cases set
      exact .of_ended rfl ((pending (here ▸ rfl)).ended_of_deadline (.inl here) late _)
  | rest here set early =>
      cases set
      have before := pending (here ▸ rfl)
      exact .of_pending rfl (before.at_point .resting s.told (fun reached => absurd reached (Nat.ne_of_lt early))
        fun _ => before.heard (.inl here))
  | wake here told =>
      exact .of_pending rfl ((pending (here ▸ rfl)).at_point .entering false (fun _ => .inl ⟨nofun,nofun⟩) nofun)
  | expire here quiet set late =>
      cases set
      exact .of_ended rfl ((pending (here ▸ rfl)).ended_of_deadline (.inr here) late _)
  | append next now =>
      refine ⟨fun point => (pending point).pending_append next now,fun found moment here => ?_,fine⟩
      have before := ended found moment here
      rw [Ended,next] at before
      exact before
  | notify rings => exact ⟨fun point => (pending point).pending_notify _,ended,fine⟩
  | tick silent ahead idle =>
      refine ⟨fun point => ?_,ended,fine⟩
      rcases idle with ⟨here,quiet,early⟩ | ⟨odd,_⟩
      · exact (pending point).pending_tick here quiet silent ahead (early deadline rfl)
      · cases point.symm.trans odd

end Keeping

end Redline.Queues
