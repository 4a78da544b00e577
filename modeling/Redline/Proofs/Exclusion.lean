import Mathlib.Logic.Function.Iterate
import Redline.Desk.Schedule
import Redline.Proofs.ItemAccounting

namespace Redline

-- What a run comes to that got the mark.
abbrev WorkResult := { result : RunResult // result ≠ .skipped }

theorem completed_unskipped (tasks : List String) : RunResult.completed tasks ≠ .skipped := fun odd => by cases odd

theorem failed_unskipped (headline : String) : RunResult.failed headline ≠ .skipped := fun odd => by cases odd

-- Where a run stands: what it does next, with the items it has counted and how many it may still
-- take. One that was given up does nothing any more.
inductive RunPoint where
  | asked
  | taking (taken : DrainSummary) (left : Nat)
  | holding (payload : String) (taken : DrainSummary) (left : Nat)
  | counting (taken : DrainSummary)
  | noting (result : WorkResult)
  | leaving (result : WorkResult)
  | ended (result : RunResult)
  | dropped
deriving DecidableEq

namespace RunPoint

-- Whether a run stands between taking and freeing the mark.
def holdsMark : RunPoint → Bool
  | asked | ended _ | dropped => false
  | _ => true

def step (desk : Desk) : RunPoint → RunPoint × Desk
  | asked =>
      match desk.start? with
      | none => (ended .skipped,desk)
      | some started => (taking {} started.batchSize,started)
  | taking taken 0 => (counting taken,desk)
  | taking taken (left + 1) =>
      match desk.pop usageQueue with
      | .error failure => (noting ⟨.failed (failure.within .popItem).headline,failed_unskipped _⟩,desk)
      | .ok (none,desk) => (counting taken,desk)
      | .ok (some payload,desk) => (holding payload taken left,desk)
  | holding payload taken left =>
      match desk.handle payload with
      | (outcome,desk) => (taking (taken.add outcome.summary) left,desk)
  | counting taken =>
      (noting ⟨.completed [s!"entity_usage: {taken.total}"],completed_unskipped _⟩,
        { desk with counters := desk.counters.recordUsage taken })
  | noting result => (leaving result,{ desk with lastRun := some result.1 })
  | leaving result => (ended result.1,{ desk with running := false })
  | ended result => (ended result,desk)
  | dropped => (dropped,desk)

-- A run is given up: its guard frees the mark if it has it. One that has ended stays as it is.
def giveUp (desk : Desk) : RunPoint → RunPoint × Desk
  | ended result => (ended result,desk)
  | point => (dropped,if point.holdsMark then { desk with running := false } else desk)

-- More steps than this a run does not take.
def rank (batchSize : Nat) : RunPoint → Nat
  | asked => 2 * batchSize + 5
  | taking _ left => 2 * left + 4
  | holding _ _ left => 2 * left + 5
  | counting _ => 3
  | noting _ => 2
  | leaving _ => 1
  | ended _ | dropped => 0

end RunPoint

-- The desk and all runs that were asked for, in the order of asking.
structure Floor where
  desk : Desk
  runs : List RunPoint := []

def Floor.turn (floor : Floor) (place : Nat) (work : Desk → RunPoint → RunPoint × Desk) : Floor :=
  match floor.runs[place]? with
  | none => floor
  | some point =>
      match work floor.desk point with
      | (next,desk) => ⟨desk,floor.runs.set place next⟩

-- A run is asked for, takes one step or is given up, or something else happens at the desk. Only runs
-- touch the mark and the last result.
inductive Move where
  | ask
  | step (place : Nat)
  | drop (place : Nat)
  | elsewhere (other : Desk)

namespace Move

def apply (floor : Floor) : Move → Floor
  | ask => { floor with runs := floor.runs ++ [.asked] }
  | step place => floor.turn place RunPoint.step
  | drop place => floor.turn place RunPoint.giveUp
  | elsewhere other =>
      { floor with desk := { other with
          running := floor.desk.running, lastRun := floor.desk.lastRun, batchSize := floor.desk.batchSize } }

def stepsOf (place : Nat) : Move → Bool
  | step other => other = place
  | _ => false

def dropsOf (place : Nat) : Move → Bool
  | drop other => other = place
  | _ => false

end Move

section Alone

def advance (run : RunPoint × Desk) : RunPoint × Desk := run.1.step run.2

theorem add_add (a b c : DrainSummary) : (a.add b).add c = a.add (b.add c) := by
  simp only [DrainSummary.add,Nat.add_assoc]

theorem nothing_add (a : DrainSummary) : ({} : DrainSummary).add a = a := by
  simp only [DrainSummary.add,Nat.zero_add]

theorem drain_steps {desk : Desk} (online : desk.failing.contains .pop = false) (taken : DrainSummary) (left : Nat) :
    ∃ steps summary next, desk.drain left = .ok (summary,next) ∧
      advance^[steps] (.taking taken left,desk) = (.counting (taken.add summary),next) := by
  induction left generalizing desk taken with
  | zero => exact ⟨1,{},desk,rfl,rfl⟩
  | succ left ih =>
      have answer := pop_answer desk usageQueue
      rw [online,if_neg Bool.false_ne_true] at answer
      cases popped : desk.queues.pop usageQueue with
      | none =>
          rw [popped] at answer
          refine ⟨1,{},desk,?_,?_⟩
          · simp only [Desk.drain,answer]
            rfl
          · simp only [Function.iterate_one,advance,RunPoint.step,answer]
            rfl
      | some found =>
          obtain ⟨payload,rest⟩ := found
          rw [popped] at answer
          let remaining : Desk := { desk with queues := rest }
          have first : desk.pop usageQueue = .ok (some payload,remaining) := answer
          obtain ⟨registry,handled,_,_⟩ := handle_counted remaining payload
          have still : (remaining.handle payload).2.failing.contains .pop = false := by
            rw [handled]
            exact online
          obtain ⟨steps,summary,next,drained,came⟩ := ih still (taken.add (remaining.handle payload).1.summary)
          refine ⟨steps + 2,(remaining.handle payload).1.summary.add summary,next,?_,?_⟩
          · simp only [Desk.drain,first,drained]
            rfl
          · have taking : advance (.taking taken (left + 1),desk) = (.holding payload taken left,remaining) := by
              simp only [advance,RunPoint.step,first]
            have holding : advance (.holding payload taken left,remaining) =
                (.taking (taken.add (remaining.handle payload).1.summary) left,(remaining.handle payload).2) := rfl
            rw [Function.iterate_add_apply,Function.iterate_succ_apply,Function.iterate_one,taking,holding,came,add_add]

theorem work_steps (desk : Desk) : ∃ steps result,
    advance^[steps] (.taking {} desk.batchSize,desk) = (.noting result,desk.work.2) ∧ result.1 = desk.work.1 := by
  cases online : desk.failing.contains .pop with
  | false =>
      obtain ⟨steps,summary,next,drained,came⟩ := drain_steps online {} desk.batchSize
      rw [nothing_add] at came
      refine ⟨steps + 1,⟨.completed [s!"entity_usage: {summary.total}"],completed_unskipped _⟩,?_,?_⟩
      · rw [Function.iterate_succ_apply',came]
        simp only [advance,RunPoint.step,Desk.work,drained]
      · simp only [Desk.work,drained]
  | true =>
      have refused := pop_answer desk usageQueue
      rw [online,if_pos rfl] at refused
      cases limit : desk.batchSize with
      | zero =>
          refine ⟨2,⟨.completed ["entity_usage: 0"],completed_unskipped _⟩,?_,?_⟩
          · simp only [Desk.work,limit]
            rfl
          · simp only [Desk.work,limit]
            rfl
      | succ left =>
          refine ⟨1,⟨.failed ((Failure.of (.offline .pop)).within .popItem).headline,failed_unskipped _⟩,?_,?_⟩
          · simp only [Function.iterate_one,advance,RunPoint.step,refused,Desk.work,limit,Desk.drain]
            rfl
          · simp only [Desk.work,limit,Desk.drain,refused]
            rfl

theorem run_alone (desk : Desk) : ∃ steps, advance^[steps] (.asked,desk) = (.ended desk.run.1,desk.run.2) := by
  by_cases busy : desk.running = true
  · refine ⟨1,?_⟩
    simp only [Function.iterate_one,advance,RunPoint.step,Desk.run,Desk.start?,if_pos busy]
  · let started : Desk := { desk with running := true }
    have entered : advance (.asked,desk) = (.taking {} started.batchSize,started) := by
      simp only [advance,RunPoint.step,Desk.start?,if_neg busy,started]
    have ran : desk.run = (started.work.1,started.work.2.finish started.work.1) := by
      simp only [Desk.run,Desk.start?,if_neg busy,started]
    obtain ⟨steps,result,worked,same⟩ := work_steps started
    refine ⟨2 + (steps + 1),?_⟩
    rw [Function.iterate_add_apply,Function.iterate_succ_apply advance steps,entered,worked,ran,← same]
    rfl

end Alone

section Steps

inductive Passes (desk : Desk) : RunPoint → RunPoint → Desk → Prop where
  | refused : desk.running = true → Passes desk .asked (.ended .skipped) desk
  | entered : desk.running = false → Passes desk .asked (.taking {} desk.batchSize) { desk with running := true }
  | worked {point next : RunPoint} {after : Desk} : point.holdsMark = true → next.holdsMark = true →
      after.running = desk.running → after.batchSize = desk.batchSize →
      (after.lastRun = desk.lastRun ∨ ∃ result : WorkResult, after.lastRun = some result.1) →
      Passes desk point next after
  | left {point next : RunPoint} : point.holdsMark = true → next.holdsMark = false →
      Passes desk point next { desk with running := false }
  | idle {point next : RunPoint} : point.holdsMark = false → next.holdsMark = false → Passes desk point next desk

theorem pop_keeps {desk next : Desk} {name : String} {item : Option String} (popped : desk.pop name = .ok (item,next)) :
    ∃ queues, next = { desk with queues } := by
  rw [pop_answer] at popped
  split at popped
  · cases popped
  · split at popped <;> (cases popped; exact ⟨_,rfl⟩)

theorem step_passes (desk : Desk) (point : RunPoint) : Passes desk point (point.step desk).1 (point.step desk).2 := by
  cases point with
  | asked =>
      rw [RunPoint.step,Desk.start?]
      by_cases busy : desk.running = true
      · rw [if_pos busy]
        exact .refused busy
      · rw [if_neg busy]
        exact .entered (Bool.eq_false_iff.mpr busy)
  | taking taken left =>
      cases left with
      | zero => exact .worked rfl rfl rfl rfl (.inl rfl)
      | succ left =>
          rw [RunPoint.step]
          split
          · exact .worked rfl rfl rfl rfl (.inl rfl)
          · rename_i popped
            obtain ⟨queues,rfl⟩ := pop_keeps popped
            exact .worked rfl rfl rfl rfl (.inl rfl)
          · rename_i popped
            obtain ⟨queues,rfl⟩ := pop_keeps popped
            exact .worked rfl rfl rfl rfl (.inl rfl)
  | holding payload taken left =>
      obtain ⟨registry,handled,_,_⟩ := handle_counted desk payload
      change Passes desk _ (.taking _ left) (desk.handle payload).2
      rw [handled]
      exact .worked rfl rfl rfl rfl (.inl rfl)
  | counting taken => exact .worked rfl rfl rfl rfl (.inl rfl)
  | noting result => exact .worked rfl rfl rfl rfl (.inr ⟨result,rfl⟩)
  | leaving result => exact .left rfl rfl
  | ended result => exact .idle rfl rfl
  | dropped => exact .idle rfl rfl

theorem giveUp_passes (desk : Desk) (point : RunPoint) : Passes desk point (point.giveUp desk).1 (point.giveUp desk).2 := by
  cases point with
  | asked => exact .idle rfl rfl
  | ended result => exact .idle rfl rfl
  | dropped => exact .idle rfl rfl
  | _ => exact .left rfl rfl

end Steps

section Moves

inductive Moved (floor : Floor) : Floor → Prop where
  | asked : Moved floor { floor with runs := floor.runs ++ [.asked] }
  | went {place : Nat} {point next : RunPoint} {after : Desk} : floor.runs[place]? = some point →
      Passes floor.desk point next after → Moved floor ⟨after,floor.runs.set place next⟩
  | elsewhere {after : Desk} : after.running = floor.desk.running → after.batchSize = floor.desk.batchSize →
      after.lastRun = floor.desk.lastRun → Moved floor { floor with desk := after }

theorem turn_moved (floor : Floor) (place : Nat) {work : Desk → RunPoint → RunPoint × Desk}
    (passes : ∀ desk point, Passes desk point (work desk point).1 (work desk point).2) : Moved floor (floor.turn place work) := by
  unfold Floor.turn
  split
  · exact .elsewhere rfl rfl rfl
  · rename_i point here
    exact .went here (passes floor.desk point)

theorem apply_moved (floor : Floor) (move : Move) : Moved floor (move.apply floor) := by
  cases move with
  | ask => exact .asked
  | elsewhere other => exact .elsewhere rfl rfl rfl
  | step place => exact turn_moved floor place step_passes
  | drop place => exact turn_moved floor place giveUp_passes

theorem holders_set {runs : List RunPoint} {place : Nat} {point next : RunPoint} (here : runs[place]? = some point) :
    (runs.set place next).countP RunPoint.holdsMark + point.holdsMark.toNat =
      runs.countP RunPoint.holdsMark + next.holdsMark.toNat := by
  induction runs generalizing place with
  | nil => cases here
  | cons first others ih =>
      cases place with
      | zero =>
          obtain rfl : first = point := Option.some.inj here
          rw [List.set_cons_zero,List.countP_cons,List.countP_cons]
          cases first.holdsMark <;> cases next.holdsMark <;> rfl
      | succ place =>
          have behind := ih here
          rw [List.set_cons_succ,List.countP_cons,List.countP_cons]
          omega

-- The mark is held by one run when it is set, else by none.
structure Exclusive (floor : Floor) : Prop where
  held : floor.runs.countP RunPoint.holdsMark = floor.desk.running.toNat
  noted : floor.desk.lastRun ≠ some .skipped

variable {floor after : Floor}

theorem Moved.batchSize_eq (moved : Moved floor after) : after.desk.batchSize = floor.desk.batchSize := by
  cases moved with
  | asked => rfl
  | elsewhere _ batchSize _ => exact batchSize
  | went here passes =>
      cases passes with
      | worked _ _ _ batchSize _ => exact batchSize
      | _ => rfl

theorem Exclusive.running_iff (known : Exclusive floor) :
    floor.desk.running = true ↔ ∃ point ∈ floor.runs, point.holdsMark = true := by
  rw [← List.countP_pos_iff,known.held]
  cases floor.desk.running <;> decide

theorem Exclusive.of_moved (known : Exclusive floor) (moved : Moved floor after) : Exclusive after := by
  obtain ⟨held,noted⟩ := id known
  cases moved with
  | asked => exact ⟨by rw [List.countP_append,held]; rfl,noted⟩
  | elsewhere running _ lastRun => exact ⟨by rw [running]; exact held,by rw [lastRun]; exact noted⟩
  | went here passes =>
      rename_i place point next desk
      have holders := @holders_set _ _ _ next here
      cases passes with
      | refused busy => exact ⟨holders.trans held,noted⟩
      | entered free =>
          refine ⟨?_,noted⟩
          rw [held,free] at holders
          exact holders
      | worked before behind running _ lastRun =>
          refine ⟨?_,?_⟩
          · rw [before,behind,held] at holders
            rw [running]
            exact Nat.add_right_cancel holders
          · rcases lastRun with same | ⟨result,fresh⟩
            · rw [same]
              exact noted
            · rw [fresh]
              exact fun skipped => result.2 (Option.some.inj skipped)
      | left before behind =>
          refine ⟨?_,noted⟩
          have marked : floor.desk.running = true := known.running_iff.mpr ⟨point,List.mem_of_getElem? here,before⟩
          rw [before,behind,held,marked] at holders
          exact Nat.add_right_cancel holders
      | idle before behind =>
          refine ⟨?_,noted⟩
          rw [before,behind,held] at holders
          exact holders

theorem Exclusive.foldl_apply (known : Exclusive floor) (moves : List Move) : Exclusive (moves.foldl Move.apply floor) := by
  induction moves generalizing floor with
  | nil => exact known
  | cons move later ih => exact ih (known.of_moved (apply_moved floor move))

end Moves

section Admission

-- A run that got the mark, and may have freed it since.
def RunPoint.admitted : RunPoint → Prop
  | .asked => False
  | .ended result => result ≠ .skipped
  | _ => True

variable {floor : Floor} {place : Nat} {point : RunPoint}

theorem turn_here (here : floor.runs[place]? = some point) (work : Desk → RunPoint → RunPoint × Desk) :
    floor.turn place work = ⟨(work floor.desk point).2,floor.runs.set place (work floor.desk point).1⟩ := by
  simp only [Floor.turn,here]

theorem turn_elsewhere {other : Nat} (apart : other ≠ place) (here : floor.runs[place]? = some point)
    (work : Desk → RunPoint → RunPoint × Desk) : (floor.turn other work).runs[place]? = some point := by
  unfold Floor.turn
  split
  · exact here
  · exact (List.getElem?_set_ne apart).trans here

theorem apply_place (move : Move) (here : floor.runs[place]? = some point) :
    (move.apply floor).runs[place]? = some (if move.stepsOf place then (point.step floor.desk).1
      else if move.dropsOf place then (point.giveUp floor.desk).1 else point) := by
  obtain ⟨bound,_⟩ := List.getElem?_eq_some_iff.mp here
  cases move with
  | ask => exact (List.getElem?_append_left bound).trans here
  | elsewhere other => exact here
  | step other =>
      by_cases own : other = place
      · subst own
        simp only [Move.apply,turn_here here,Move.stepsOf,decide_true,if_true]
        exact List.getElem?_set_self bound
      · simp only [Move.stepsOf,Move.dropsOf,own,decide_false,Bool.false_eq_true,if_false]
        exact turn_elsewhere own here RunPoint.step
  | drop other =>
      by_cases own : other = place
      · subst own
        simp only [Move.apply,turn_here here,Move.stepsOf,Move.dropsOf,decide_true,Bool.false_eq_true,if_true,if_false]
        exact List.getElem?_set_self bound
      · simp only [Move.stepsOf,Move.dropsOf,own,decide_false,Bool.false_eq_true,if_false]
        exact turn_elsewhere own here RunPoint.giveUp

theorem apply_batchSize (floor : Floor) (move : Move) : (move.apply floor).desk.batchSize = floor.desk.batchSize :=
  (apply_moved floor move).batchSize_eq

-- A step of a run brings it nearer to its end.
theorem step_onward (desk : Desk) (inside : point.admitted) : (point.step desk).1.admitted ∧
    (point ≠ .dropped → (point.step desk).1 ≠ .dropped) ∧
    (point.step desk).1.rank desk.batchSize ≤ point.rank desk.batchSize - 1 := by
  cases point with
  | asked => cases inside
  | taking taken left =>
      cases left with
      | zero => exact ⟨trivial,nofun,Nat.le_refl _⟩
      | succ left =>
          rw [RunPoint.step]
          split <;> exact ⟨trivial,nofun,by simp only [RunPoint.rank]; omega⟩
  | holding payload taken left => exact ⟨trivial,nofun,Nat.le_refl _⟩
  | counting taken => exact ⟨trivial,nofun,Nat.le_refl _⟩
  | noting result => exact ⟨trivial,nofun,Nat.le_refl _⟩
  | leaving result => exact ⟨result.2,nofun,Nat.le_refl _⟩
  | ended result => exact ⟨inside,nofun,Nat.le_refl _⟩
  | dropped => exact ⟨trivial,absurd rfl,Nat.le_refl _⟩

theorem giveUp_admitted (desk : Desk) (inside : point.admitted) : (point.giveUp desk).1.admitted := by
  cases point with
  | asked => cases inside
  | ended result => exact inside
  | _ => trivial

-- Whatever is done meanwhile, a run that got the mark is not skipped, and is nearer to its end by
-- each of its own steps unless it is given up.
theorem admitted_run (later : List Move) (here : floor.runs[place]? = some point) (inside : point.admitted) :
    ∃ now, (later.foldl Move.apply floor).runs[place]? = some now ∧ now.admitted ∧
      (later.all (!·.dropsOf place) = true → point ≠ .dropped → now ≠ .dropped ∧
        now.rank floor.desk.batchSize ≤ point.rank floor.desk.batchSize - later.countP (·.stepsOf place)) := by
  induction later generalizing floor point with
  | nil => exact ⟨point,here,inside,fun _ kept => ⟨kept,Nat.le_refl _⟩⟩
  | cons move later ih =>
      have next := apply_place move here
      rw [List.foldl_cons,List.all_cons,List.countP_cons,← apply_batchSize floor move]
      by_cases own : move.stepsOf place = true
      · rw [if_pos own] at next
        obtain ⟨stays,kept,nearer⟩ := step_onward floor.desk inside
        obtain ⟨now,stands,admitted,onward⟩ := ih next stays
        refine ⟨now,stands,admitted,fun undropped alive => ?_⟩
        obtain ⟨alive,rank⟩ := onward (Bool.and_eq_true_iff.mp undropped).2 (kept alive)
        rw [apply_batchSize] at rank ⊢
        rw [if_pos own]
        exact ⟨alive,by omega⟩
      · rw [if_neg own] at next
        by_cases given : move.dropsOf place = true
        · rw [if_pos given] at next
          obtain ⟨now,stands,admitted,_⟩ := ih next (giveUp_admitted floor.desk inside)
          refine ⟨now,stands,admitted,fun undropped => ?_⟩
          rw [given] at undropped
          cases undropped
        · rw [if_neg given] at next
          obtain ⟨now,stands,admitted,onward⟩ := ih next inside
          refine ⟨now,stands,admitted,fun undropped alive => ?_⟩
          rw [if_neg own]
          exact onward (Bool.and_eq_true_iff.mp undropped).2 alive

end Admission

-- What holds between runs at any moment: who has the mark, what becomes of a run that finds it set,
-- and of one that starts while no other has it, whatever is done meanwhile. Undisturbed, a run is
-- the one that the desk does in one go.
structure RunsApart (floor : Floor) : Prop where
  alone : floor.runs.countP RunPoint.holdsMark ≤ 1
  marked : floor.desk.running = true ↔ ∃ point ∈ floor.runs, point.holdsMark = true
  noted : floor.desk.lastRun ≠ some .skipped
  refused : ∀ place, floor.runs[place]? = some .asked → floor.desk.running = true →
    Move.apply floor (.step place) = { floor with runs := floor.runs.set place (.ended .skipped) }
  admitted : ∀ place, floor.runs[place]? = some .asked → (∀ point ∈ floor.runs, point.holdsMark = false) →
    ∀ later : List Move, ∀ behind, behind = later.foldl Move.apply (Move.apply floor (.step place)) →
      behind.runs[place]? ≠ some (.ended .skipped) ∧
      (later.all (!·.dropsOf place) = true → 2 * floor.desk.batchSize + 4 ≤ later.countP (·.stepsOf place) →
        ∃ result, result ≠ .skipped ∧ behind.runs[place]? = some (.ended result))
  undisturbed : ∀ place, floor.runs[place]? = some .asked → ∃ steps,
    (List.replicate steps (Move.step place)).foldl Move.apply floor =
      ⟨floor.desk.run.2,floor.runs.set place (.ended floor.desk.run.1)⟩

theorem spent_ended {point : RunPoint} {batchSize : Nat} (spent : point.rank batchSize = 0) (alive : point ≠ .dropped) :
    ∃ result, point = .ended result := by
  cases point with
  | ended result => exact ⟨result,rfl⟩
  | dropped => exact absurd rfl alive
  | _ => cases spent

theorem steps_advance {floor : Floor} {place : Nat} {point : RunPoint} (here : floor.runs[place]? = some point) (steps : Nat) :
    (List.replicate steps (Move.step place)).foldl Move.apply floor =
      ⟨(advance^[steps] (point,floor.desk)).2,floor.runs.set place (advance^[steps] (point,floor.desk)).1⟩ := by
  obtain ⟨bound,rfl⟩ := List.getElem?_eq_some_iff.mp here
  induction steps with
  | zero => simp
  | succ steps ih =>
      rw [List.replicate_succ',List.foldl_append,ih,Function.iterate_succ_apply']
      simp [Move.apply,Floor.turn,bound,advance]

theorem Exclusive.runs_apart {floor : Floor} (known : Exclusive floor) : RunsApart floor := by
  have alone : floor.runs.countP RunPoint.holdsMark ≤ 1 := Nat.le_trans (Nat.le_of_eq known.held) (Bool.toNat_le _)
  refine ⟨alone,known.running_iff,known.noted,fun place here busy => ?_,
    fun place here unheld later behind came => ?_,fun place here => ?_⟩
  · simp only [Move.apply,turn_here here,RunPoint.step,Desk.start?,if_pos busy]
  · have free : floor.desk.running = false := by
      refine Bool.eq_false_iff.mpr fun busy => ?_
      obtain ⟨point,member,holds⟩ := known.running_iff.mp busy
      exact absurd holds (Bool.eq_false_iff.mp (unheld point member))
    have entered := apply_place (.step place) here
    simp only [Move.stepsOf,decide_true,if_true,RunPoint.step,Desk.start?,free,Bool.false_eq_true,if_false] at entered
    obtain ⟨now,stands,admitted,onward⟩ := admitted_run later entered trivial
    subst came
    refine ⟨fun skipped => ?_,fun undropped enough => ?_⟩
    · obtain rfl := Option.some.inj (stands.symm.trans skipped)
      exact admitted rfl
    · obtain ⟨alive,rank⟩ := onward undropped nofun
      rw [RunPoint.rank,Nat.sub_eq_zero_of_le enough] at rank
      obtain ⟨result,rfl⟩ := spent_ended (Nat.le_zero.mp rank) alive
      exact ⟨result,admitted,stands⟩
  · obtain ⟨steps,came⟩ := run_alone floor.desk
    refine ⟨steps,?_⟩
    rw [steps_advance here,came]

-- Runs never overlap, in whatever order they take their steps and whatever fails in between.
theorem runs_exclude_each_other (start : Desk) (free : start.running = false)
    (unskipped : start.lastRun ≠ some .skipped) (moves : List Move) :
    RunsApart (moves.foldl Move.apply { desk := start }) :=
  (Exclusive.foldl_apply ⟨by rw [free]; rfl,unskipped⟩ moves).runs_apart

theorem runs_exclude_each_other_failed_pop :
    let start : Desk := { queues := [(usageQueue,["{}","{}"])], batchSize := 2 }
    let moves : List Move := [.ask,.ask,.step 0,.step 1,.step 0,.step 0,.elsewhere { failing := [.pop] },
      .step 0,.step 0,.step 0,.ask,.step 2]
    start.running = false ∧ start.lastRun ≠ some .skipped ∧ RunsApart (moves.foldl Move.apply { desk := start }) ∧
      (moves.foldl Move.apply { desk := start }).runs =
        [.ended (.failed "failed to pop usage item"),.ended .skipped,.taking {} 2] := by
  intro start moves
  have free : start.running = false := rfl
  have unskipped : start.lastRun ≠ some .skipped := nofun
  exact ⟨free,unskipped,runs_exclude_each_other start free unskipped moves,by decide +kernel⟩

end Redline
