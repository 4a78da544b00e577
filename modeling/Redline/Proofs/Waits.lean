import Mathlib.Algebra.Order.BigOperators.Group.List
import Mathlib.Algebra.Order.Group.Nat
import Redline.Proofs.Awaiting

namespace Redline.Queues

section Ending

-- More steps than this a wait cannot take, if no push comes behind the horizon.
def Point.rank : Point → Nat
  | calling => 5
  | entering => 4
  | looking => 3
  | comparing => 2
  | resting => 1
  | returned _ _ => 0
  | panicked => 0

def Wait.measure (s : Wait) (horizon : Nat) : Nat :=
  horizon - s.clock + 12 * s.arrivals.length + 6 * s.ringing + s.point.rank + 5 * s.told.toNat

variable {name : String} {deadline horizon : Nat} {s t : Wait}

theorem Step.arrivals_suffix {limit : Except Panic Nat} (step : Step name limit s t) : t.arrivals <:+ s.arrivals := by
  cases step with
  | append next => exact next ▸ List.suffix_cons _ _
  | _ => exact List.suffix_rfl

theorem Step.measure_lt (step : Step name (.ok deadline) s t) (last : deadline ≤ horizon)
    (moments : ∀ a ∈ s.arrivals, a.moment ≤ horizon) : t.measure horizon < s.measure horizon := by
  have one := s.told.toNat_le
  cases step with
  | set here | panic here | enlist here | take here | miss here | giveUp here | rest here | expire here =>
      simp only [Wait.measure,here,Point.rank,Bool.toNat_false]
      omega
  | wake here told =>
      simp only [Wait.measure,here,told,Point.rank,Bool.toNat_false,Bool.toNat_true]
      omega
  | append next =>
      simp only [Wait.measure,next,List.length_cons]
      omega
  | notify rings =>
      simp only [Wait.measure,rings,Bool.toNat_true]
      omega
  | tick silent ahead idle =>
      have room : s.clock < horizon := by
        rcases idle with ⟨_,_,early⟩ | ⟨_,more⟩
        · exact Nat.lt_of_lt_of_le (early deadline rfl) last
        · obtain ⟨arrival,member⟩ := List.exists_mem_of_ne_nil _ more
          exact Nat.lt_of_lt_of_le (ahead arrival member) (moments arrival member)
      simp only [Wait.measure]
      omega

theorem ended_of_stuck (rising : s.arrivals.Pairwise fun a b => a.moment ≤ b.moment)
    (still : ∀ t, ¬Step name (.ok deadline) s t) :
    s.point.hasEnded = true ∧ s.arrivals = [] ∧ s.ringing = 0 := by
  have silent : s.ringing = 0 := by
    by_contra rings
    obtain ⟨others,rings⟩ := Nat.exists_eq_succ_of_ne_zero rings
    exact still _ (.notify rings)
  -- Of pushes in order the first is due or none is.
  have ahead : ∀ a ∈ s.arrivals, s.clock < a.moment := by
    cases next : s.arrivals with
    | nil => exact List.forall_mem_nil _
    | cons first later =>
        rw [next] at rising
        have early : s.clock < first.moment := by
          by_contra due
          exact still _ (.append next (Nat.not_lt.mp due))
        exact List.forall_mem_cons.mpr ⟨early,fun a member =>
          Nat.lt_of_lt_of_le early ((List.pairwise_cons.mp rising).1 a member)⟩
  have pushed (over_ : s.point.hasEnded = true) : s.point.hasEnded = true ∧ s.arrivals = [] ∧ s.ringing = 0 := by
    refine ⟨over_,?_,silent⟩
    by_contra more
    exact still _ (.tick silent ahead (.inr ⟨over_,more⟩))
  cases here : s.point with
  | calling => exact absurd (.set here rfl) (still _)
  | entering => exact absurd (.enlist here) (still _)
  | looking =>
      cases popped : s.queues.pop name with
      | none => exact absurd (.miss here popped) (still _)
      | some found => exact absurd (.take here popped) (still _)
  | comparing =>
      rcases Nat.lt_or_ge s.clock deadline with early | late
      · exact absurd (.rest here rfl early) (still _)
      · exact absurd (.giveUp here rfl late) (still _)
  | resting =>
      cases told : s.told with
      | true => exact absurd (.wake here told) (still _)
      | false =>
          rcases Nat.lt_or_ge s.clock deadline with early | late
          · exact absurd (.tick silent ahead (.inl ⟨here,told,fun _ set => Except.ok.inj set ▸ early⟩)) (still _)
          · exact absurd (.expire here told rfl late) (still _)
  | returned found moment => exact here ▸ pushed (here ▸ rfl)
  | panicked => exact here ▸ pushed (here ▸ rfl)

end Ending

section Runs

variable {name : String} {deadline : Nat} {start s : Wait} {n : Nat}

theorem Run.arrivals_suffix {limit : Except Panic Nat} (run : Run name limit start n s) :
    s.arrivals <:+ start.arrivals := by
  induction run with
  | start => exact List.suffix_rfl
  | step _ step ih => exact step.arrivals_suffix.trans ih

theorem Run.kept_after {due late : Outcome} {all : Queues} (run : Run name (.ok deadline) start n s)
    (kept : Kept name deadline due late all start) : Kept name deadline due late all s := by
  induction run with
  | start => exact kept
  | step _ step ih => exact step.kept_after ih

theorem Run.measure_le {horizon : Nat} (run : Run name (.ok deadline) start n s) (last : deadline ≤ horizon)
    (moments : ∀ a ∈ start.arrivals, a.moment ≤ horizon) : n + s.measure horizon ≤ start.measure horizon := by
  induction run with
  | start => exact Nat.le_of_eq (Nat.zero_add _)
  | step run step ih =>
      have less := step.measure_lt last fun a member => moments a (run.arrivals_suffix.subset member)
      omega

theorem Run.exists_last {limit : Except Panic Nat} {bound : Nat} (bounded : ∀ n s, Run name limit start n s → n ≤ bound) :
    ∃ n last, Run name limit start n last ∧ ∀ t, ¬Step name limit last t := by
  by_contra endless
  have on (n : Nat) : ∃ s, Run name limit start n s := by
    induction n with
    | zero => exact ⟨start,.start⟩
    | succ n ih =>
        obtain ⟨s,run⟩ := ih
        by_contra none_
        exact endless ⟨n,s,run,fun t step => none_ ⟨t,run.step step⟩⟩
  obtain ⟨s,run⟩ := on (bound + 1)
  exact Nat.not_succ_le_self bound (bounded _ s run)

theorem Run.rests_until {limit : Except Panic Nat} (run : Run name limit start n s) (here : s.point = .resting)
    (quiet : s.told = false) (silent : s.ringing = 0) (time : Nat)
    (ahead : ∀ a ∈ s.arrivals, s.clock + time ≤ a.moment)
    (early : ∀ deadline, limit = .ok deadline → s.clock + time ≤ deadline) :
    Run name limit start (n + time) { s with clock := s.clock + time } := by
  induction time with
  | zero => exact run
  | succ time ih =>
      have before := ih (fun a member => Nat.le_of_succ_le (ahead a member)) fun deadline set =>
        Nat.le_of_succ_le (early deadline set)
      exact before.step (.tick silent ahead (.inl ⟨here,quiet,early⟩))

end Runs

section Waiting

variable (queues : Queues) (name : String) (deadline : Nat) (arrivals : List Arrival)

-- The front item, else the first that is pushed to the queue before the deadline, else none when the
-- deadline comes; in that last case possibly the first that is pushed at the deadline.
def Right (found : Option String) (moment : Nat) : Prop :=
  (found,moment) = answer 0 queues name deadline deadline arrivals ∨
    (answer 0 queues name deadline deadline arrivals).1 = none ∧
      ∃ arrival, arrivals.find? (fun arrival => arrival.name = name ∧ arrival.moment = deadline) = some arrival ∧
        found = some arrival.item ∧ moment = deadline

-- What a wait has come to: a right answer, all other items in their order, and the same as the call that
-- does or does not notice a push at the deadline.
structure Served (last : Wait) (found : Option String) (moment : Nat) : Prop where
  returned : last.point = .returned found moment
  right : Right queues name deadline arrivals found moment
  pushed : last.arrivals = [] ∧ last.ringing = 0
  kept : ∀ other, queues.waiting other ++ itemsTo other arrivals =
    (if other = name then found.toList else []) ++ last.queues.waiting other
  called : (found,last.queues) = queues.await name deadline arrivals ∨
    (found,last.queues) = queues.await name (deadline + 1) arrivals

variable {queues name deadline arrivals}

-- The first push that is noticed comes before the deadline, or at the deadline with none before it.
theorem first_noticed (rising : arrivals.Pairwise fun a b => a.moment ≤ b.moment) {arrival : Arrival}
    (noticed : arrivals.find? (fun a => a.name = name ∧ a.moment < deadline + 1) = some arrival) :
    arrivals.find? (fun a => a.name = name ∧ a.moment < deadline) = some arrival ∨
      arrivals.find? (fun a => a.name = name ∧ a.moment < deadline) = none ∧ arrival.moment = deadline ∧
        arrivals.find? (fun a => a.name = name ∧ a.moment = deadline) = some arrival := by
  obtain ⟨own,before,behind,rfl,others⟩ := List.find?_eq_some_iff_append.mp noticed
  simp only [decide_eq_true_eq,Bool.not_eq_true',decide_eq_false_iff_not] at own others
  -- What is noticed under a stricter condition has nothing before it either.
  have first {p : Arrival → Prop} [DecidablePred p] (here : p arrival)
      (less : ∀ a, p a → a.name = name ∧ a.moment < deadline + 1) :
      (before ++ arrival :: behind).find? (fun a => p a) = some arrival := by
    refine List.find?_eq_some_iff_append.mpr ⟨decide_eq_true here,before,behind,rfl,fun a member => ?_⟩
    rw [Bool.not_eq_true',decide_eq_false_iff_not]
    exact fun odd => others a member (less a odd)
  rcases Nat.lt_or_eq_of_le (Nat.le_of_lt_succ own.2) with early | tie
  · exact .inl (first ⟨own.1,early⟩ fun a odd => ⟨odd.1,Nat.lt_succ_of_lt odd.2⟩)
  · refine .inr ⟨?_,tie,first ⟨own.1,tie⟩ fun a odd => ⟨odd.1,odd.2 ▸ Nat.lt_succ_self _⟩⟩
    have later : ∀ a ∈ arrival :: behind, deadline ≤ a.moment := by
      have order := List.pairwise_cons.mp (List.pairwise_append.mp rising).2.1
      exact List.forall_mem_cons.mpr ⟨Nat.le_of_eq tie.symm,fun a member => tie ▸ order.1 a member⟩
    rw [List.find?_eq_none]
    intro a member odd
    obtain ⟨same,less⟩ := of_decide_eq_true odd
    rcases List.mem_append.mp member with front | back
    · exact others a front ⟨same,Nat.lt_succ_of_lt less⟩
    · exact Nat.not_lt.mpr (later a back) less

theorem right_of_noticed (rising : arrivals.Pairwise fun a b => a.moment ≤ b.moment) {found : Option String}
    {moment : Nat} (filled : found ≠ none)
    (late : (found,moment) = answer 0 queues name deadline (deadline + 1) arrivals) :
    Right queues name deadline arrivals found moment := by
  unfold answer at late
  unfold Right answer
  cases here : queues.waiting name with
  | cons item others =>
      rw [here] at late
      exact .inl late
  | nil =>
      rw [here] at late
      dsimp only at late ⊢
      cases noticed : arrivals.find? (fun arrival => arrival.name = name ∧ arrival.moment < deadline + 1) with
      | none =>
          rw [noticed] at late
          exact absurd (congrArg Prod.fst late) filled
      | some arrival =>
          rw [noticed] at late
          cases late
          rcases first_noticed rising noticed with early | ⟨nothing,tie,first⟩
          · exact .inl (by rw [early])
          · exact .inr ⟨by rw [nothing],arrival,first,rfl,tie⟩

theorem kept_start : Kept name deadline (outcome name deadline deadline { queues, arrivals })
    (outcome name deadline (deadline + 1) { queues, arrivals }) (queues.pushAll arrivals) { queues, arrivals } := by
  refine .of_pending rfl ⟨rfl,rfl,Nat.zero_le _,fun _ _ => Nat.zero_le _,?_,nofun⟩
  by_cases nothing : queues.waiting name = [] ∧ 0 = deadline
  · exact .inl (outcome_of_nothing nothing.1 fun _ _ => nothing.2 ▸ Nat.zero_le _)
  · exact .inr ⟨rfl,fun reached => ⟨fun empty => nothing ⟨empty,reached⟩,nofun,nofun⟩⟩

theorem right_of_ended (rising : arrivals.Pairwise fun a b => a.moment ≤ b.moment) {s : Wait} {found : Option String}
    {moment : Nat} (ended : Ended (outcome name deadline deadline { queues, arrivals })
      (outcome name deadline (deadline + 1) { queues, arrivals }) s found moment) :
    Right queues name deadline arrivals found moment := by
  rcases ended with due | ⟨some_,late⟩
  · exact .inl (congrArg Prod.snd due)
  · exact right_of_noticed rising some_ (congrArg Prod.snd late)

theorem served_of_stuck (rising : arrivals.Pairwise fun a b => a.moment ≤ b.moment) {n : Nat} {last : Wait}
    (run : Run name (.ok deadline) { queues, arrivals } n last) (still : ∀ t, ¬Step name (.ok deadline) last t) :
    ∃ found moment, Served queues name deadline arrivals last found moment := by
  have kept := run.kept_after kept_start
  obtain ⟨over_,empty,silent⟩ := ended_of_stuck (rising.sublist run.arrivals_suffix.sublist) still
  cases here : last.point with
  | returned found moment =>
      have ended := kept.ended found moment here
      have right := right_of_ended rising ended
      rw [Ended,empty] at ended
      have called : (found,last.queues) = queues.await name deadline arrivals ∨
          (found,last.queues) = queues.await name (deadline + 1) arrivals :=
        ended.imp (congrArg Prod.fst) fun late => congrArg Prod.fst late.2
      refine ⟨found,moment,here,right,⟨empty,silent⟩,fun other => ?_,called⟩
      rcases called with same | same
      · rw [@await_keeps queues name deadline,← same]
      · rw [@await_keeps queues name (deadline + 1),← same]
  | panicked => exact absurd here kept.set
  | calling | entering | looking | comparing | resting =>
      rw [here] at over_
      cases over_

-- Whatever pushes come and however their steps fall between those of the pop: it ends, with a right answer
-- at the right moment, and nothing that it does not return is lost.
theorem waiting_pop_misses_no_push (queues : Queues) (name : String) {now timeout : Nat}
    (shown : now + timeout < Nat.pow 2 63) {arrivals : List Arrival}
    (rising : arrivals.Pairwise fun a b => a.moment ≤ b.moment) :
    (∃ bound, ∀ n s, Run name (Queues.deadline now timeout) { queues, arrivals } n s → n ≤ bound) ∧
      (∀ n s, Run name (Queues.deadline now timeout) { queues, arrivals } n s → s.point ≠ .panicked ∧
        (∀ found moment, s.point = .returned found moment →
          Right queues name (nanoseconds timeout) arrivals found moment) ∧
        ((∃ t, Step name (Queues.deadline now timeout) s t) ∨
          ∃ found moment, Served queues name (nanoseconds timeout) arrivals s found moment)) ∧
      ∃ n last found moment, Run name (Queues.deadline now timeout) { queues, arrivals } n last ∧
        Served queues name (nanoseconds timeout) arrivals last found moment := by
  have set : Queues.deadline now timeout = .ok (nanoseconds timeout) := if_pos shown
  rw [set]
  generalize nanoseconds timeout = deadline
  have bounded : ∃ bound, ∀ n s, Run name (.ok deadline) { queues, arrivals } n s → n ≤ bound := by
    have moments : ∀ a ∈ arrivals, a.moment ≤ deadline + (arrivals.map Arrival.moment).sum := fun a member =>
      Nat.le_trans (List.le_sum_of_mem (List.mem_map_of_mem member)) (Nat.le_add_left _ _)
    exact ⟨_,fun n s run => Nat.le_trans (Nat.le_add_right _ _) (run.measure_le (Nat.le_add_right _ _) moments)⟩
  refine ⟨bounded,fun n s run => ⟨?_,?_,?_⟩,?_⟩
  · exact (run.kept_after kept_start).set
  · intro found moment here
    exact right_of_ended rising ((run.kept_after kept_start).ended found moment here)
  · by_cases on : ∃ t, Step name (.ok deadline) s t
    · exact .inl on
    · exact .inr (served_of_stuck rising run (not_exists.mp on))
  · obtain ⟨bound,within⟩ := bounded
    obtain ⟨n,last,run,still⟩ := Run.exists_last within
    obtain ⟨found,moment,served⟩ := served_of_stuck rising run still
    exact ⟨n,last,found,moment,run,served⟩

theorem waiting_pop_misses_no_push_woken :
    let arrivals : List Arrival := [⟨nanoseconds 10,"b","x"⟩,⟨nanoseconds 20,"a","1"⟩,⟨nanoseconds 30,"a","2"⟩,
      ⟨nanoseconds 60,"b","y"⟩]
    ∃ n last, Run "a" (Queues.deadline 7 50) { queues := [], arrivals } n last ∧
      last.point = .returned (some "1") (nanoseconds 20) ∧ last.queues.waiting "a" = ["2"] ∧
      last.queues.waiting "b" = ["x","y"] := by
  intro arrivals
  obtain ⟨_,_,n,last,found,moment,run,served⟩ :=
    @waiting_pop_misses_no_push [] "a" 7 50 (by decide) arrivals (by decide)
  have due : (found,moment) = (some "1",nanoseconds 20) := served.right.resolve_right nofun
  cases due
  exact ⟨n,last,run,served.returned,(List.cons.inj (served.kept "a").symm).2,(served.kept "b").symm⟩

theorem Run.pushed_at_deadline {now timeout : Nat} (shown : now + timeout < Nat.pow 2 63) (waits : 0 < timeout)
    (name item : String) : ∃ n s, Run name (Queues.deadline now timeout)
      { queues := [], arrivals := [⟨nanoseconds timeout,name,item⟩] } n s ∧
        s.point = .returned (some item) (nanoseconds timeout) := by
  have set : Queues.deadline now timeout = .ok (nanoseconds timeout) := if_pos shown
  rw [set]
  have early : 0 < nanoseconds timeout := Nat.mul_pos waits (by decide)
  generalize nanoseconds timeout = deadline at early ⊢
  let arrival : Arrival := ⟨deadline,name,item⟩
  have looks : Run name (.ok deadline) { queues := [], arrivals := [arrival] } 4
      { queues := [], arrivals := [arrival], point := .resting } :=
    (((Run.start.step (.set rfl rfl)).step (.enlist rfl)).step (.miss rfl rfl)).step (.rest rfl rfl early)
  have reached := Nat.zero_add deadline
  have reaches := looks.rests_until rfl rfl rfl deadline (by simp [arrival]) fun _ own =>
    Except.ok.inj own ▸ Nat.le_of_eq reached
  have wakes := (((reaches.step (.append rfl (Nat.le_of_eq reached.symm))).step (.notify rfl)).step
    (.wake rfl rfl)).step (.enlist rfl)
  have own : Queues.pop (Queues.push [] name item) name =
      some (item,Table.insert name [] (Queues.push [] name item)) := by
    have here : Queues.waiting (Queues.push [] name item) name = [item] := by
      rw [waiting_push,if_pos rfl]
      rfl
    rw [Queues.pop,here]
  exact ⟨_,_,wakes.step (.take rfl own),congrArg (Point.returned (some item)) reached⟩

-- A push at the deadline of a wait of one second, and a wait whose deadline the clock cannot show, though
-- an item is there.
theorem push_at_deadline_returned :
    (∃ n s, Run "q" (Queues.deadline 0 1) { queues := [], arrivals := [⟨nanoseconds 1,"q","x"⟩] } n s ∧
      s.point = .returned (some "x") (nanoseconds 1)) ∧
    ∃ n s, Run "q" (Queues.deadline 0 18446744073709551615) { queues := [("q",["x"])], arrivals := [] } n s ∧
      s.point = .panicked ∧ s.queues.waiting "q" = ["x"] :=
  ⟨Run.pushed_at_deadline (by decide) (by decide) "q" "x",1,_,Run.start.step (.panic rfl rfl),rfl,rfl⟩

end Waiting

end Redline.Queues
