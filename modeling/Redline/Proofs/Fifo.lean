import Redline.Desk.Queue

namespace Redline.Queues

inductive QueueCall where
  | push (name item : String)
  | pop (name : String)
  | len (name : String)

inductive QueueAnswer where
  | done
  | item (found : Option String)
  | count (n : Nat)
deriving DecidableEq

namespace QueueCall

def name : QueueCall → String
  | push name _ => name
  | pop name => name
  | len name => name

def make (queues : Queues) : QueueCall → QueueAnswer × Queues
  | push name item => (.done,queues.push name item)
  | pop name =>
      match queues.await name 0 [] with
      | (found,rest) => (.item found,rest)
  | len name => (.count (queues.len name),queues)

def onItems (items : List String) : QueueCall → QueueAnswer × List String
  | push _ item => (.done,items ++ [item])
  | pop _ => (.item items.head?,items.tail)
  | len _ => (.count items.length,items)

end QueueCall

-- Calls with their answers, in the order in which they were made.
abbrev Past := List (QueueCall × QueueAnswer)

def makeAll (queues : Queues) : List QueueCall → Past × Queues
  | [] => ([],queues)
  | call :: rest =>
      match call.make queues with
      | (answer,next) =>
          match makeAll next rest with
          | (later,last) => ((call,answer) :: later,last)

@[simp] theorem makeAll_nil (queues : Queues) : makeAll queues [] = ([],queues) := rfl
@[simp] theorem makeAll_cons (queues : Queues) (call : QueueCall) (rest : List QueueCall) :
    makeAll queues (call :: rest) = ((call,(call.make queues).1) :: (makeAll (call.make queues).2 rest).1,
      (makeAll (call.make queues).2 rest).2) := rfl

section Histories

variable (name : String)

def pushedItem? : QueueCall × QueueAnswer → Option String
  | (.push other item,_) => if other = name then some item else none
  | _ => none

def poppedItem? : QueueCall × QueueAnswer → Option String
  | (.pop other,.item found) => if other = name then found else none
  | _ => none

def pushedTo (past : Past) : List String := past.filterMap (pushedItem? name)

def poppedFrom (past : Past) : List String := past.filterMap (poppedItem? name)

end Histories

-- What a call must answer after what went before: a pop hands out the first item that was pushed to
-- its queue and not yet popped, and has none exactly when all of them were popped.
structure Answered (past : Past) (call : QueueCall) (answer : QueueAnswer) : Prop where
  right : answer = match call with
    | .push _ _ => .done
    | .pop name => .item (pushedTo name past)[(poppedFrom name past).length]?
    | .len name => .count ((pushedTo name past).length - (poppedFrom name past).length)
  dry : ∀ name, call = .pop name →
    (answer = .item none ↔ (poppedFrom name past).length = (pushedTo name past).length)

-- Each queue holds what was pushed to it less what was popped from it, which came first.
def Remembers (past : Past) (queues : Queues) : Prop :=
  ∀ name, pushedTo name past = poppedFrom name past ++ queues.waiting name

section Calls

variable (queues : Queues) (call : QueueCall)

theorem await_now (name : String) : queues.await name 0 [] =
    match queues.waiting name with
    | [] => (none,queues)
    | first :: others => (some first,Table.insert name others queues) := by
  rw [await,Queues.pop]
  cases queues.waiting name <;> rfl

theorem make_onItems : (call.make queues).1 = (call.onItems (queues.waiting call.name)).1 ∧
    ∀ name, (call.make queues).2.waiting name =
      if name = call.name then (call.onItems (queues.waiting name)).2 else queues.waiting name := by
  cases call with
  | push own item =>
      refine ⟨rfl,fun name => ?_⟩
      change waiting (Table.insert own (queues.waiting own ++ [item]) queues) name = _
      rw [waiting_inserted]
      split
      · rename_i same
        rw [same]
        exact (if_pos rfl).symm
      · rename_i apart
        exact (if_neg apart).symm
  | pop own =>
      have popped := await_now queues own
      cases here : queues.waiting own with
      | nil =>
          rw [here] at popped
          simp only [QueueCall.make,popped]
          refine ⟨congrArg (QueueAnswer.item ·.head?) here.symm,fun name => ?_⟩
          by_cases same : name = own
          · rw [same,here]
            exact (if_pos rfl).symm
          · exact (if_neg same).symm
      | cons first others =>
          rw [here] at popped
          simp only [QueueCall.make,popped]
          refine ⟨congrArg (QueueAnswer.item ·.head?) here.symm,fun name => ?_⟩
          rw [waiting_inserted]
          by_cases same : name = own
          · rw [same,here,if_pos rfl]
            exact (if_pos rfl).symm
          · rw [if_neg same]
            exact (if_neg same).symm
  | len own =>
      refine ⟨rfl,fun name => ?_⟩
      split <;> rfl

theorem make_elsewhere {name : String} (apart : name ≠ call.name) :
    (call.make queues).2.waiting name = queues.waiting name :=
  ((make_onItems queues call).2 name).trans (if_neg apart)

end Calls

section Runs

theorem pushedTo_snoc (name : String) (past : Past) (entry : QueueCall × QueueAnswer) :
    pushedTo name (past ++ [entry]) = pushedTo name past ++ (pushedItem? name entry).toList := by
  unfold pushedTo
  rw [List.filterMap_append]
  cases here : pushedItem? name entry <;> simp [here]

theorem poppedFrom_snoc (name : String) (past : Past) (entry : QueueCall × QueueAnswer) :
    poppedFrom name (past ++ [entry]) = poppedFrom name past ++ (poppedItem? name entry).toList := by
  unfold poppedFrom
  rw [List.filterMap_append]
  cases here : poppedItem? name entry <;> simp [here]

variable {past : Past} {queues : Queues}

theorem Remembers.make_answered (remembers : Remembers past queues) (call : QueueCall) :
    Answered past call (call.make queues).1 := by
  have told := (make_onItems queues call).1
  have held := remembers call.name
  rw [told]
  cases call with
  | push own item => exact ⟨rfl,fun _ odd => by cases odd⟩
  | pop own =>
      replace held : pushedTo own past = poppedFrom own past ++ queues.waiting own := held
      have next : (queues.waiting own).head? = (pushedTo own past)[(poppedFrom own past).length]? := by
        rw [held,List.getElem?_append_right (Nat.le_refl _),Nat.sub_self,List.head?_eq_getElem?]
      refine ⟨congrArg QueueAnswer.item next,?_⟩
      rintro name ⟨⟩
      change QueueAnswer.item _ = _ ↔ _
      rw [held,List.length_append,QueueAnswer.item.injEq,List.head?_eq_none_iff]
      change queues.waiting own = [] ↔ _ = _ + (queues.waiting own).length
      rw [← List.length_eq_zero_iff]
      omega
  | len own =>
      replace held : pushedTo own past = poppedFrom own past ++ queues.waiting own := held
      refine ⟨congrArg QueueAnswer.count ?_,fun _ odd => by cases odd⟩
      change (queues.waiting own).length = _
      rw [held,List.length_append,Nat.add_sub_cancel_left]

theorem Remembers.of_make (remembers : Remembers past queues) (call : QueueCall) :
    Remembers (past ++ [(call,(call.make queues).1)]) (call.make queues).2 := by
  obtain ⟨answer,left⟩ := make_onItems queues call
  intro name
  have held := remembers name
  rw [pushedTo_snoc,poppedFrom_snoc,left,answer,held]
  by_cases own : name = call.name
  · subst own
    rw [if_pos rfl]
    cases call with
    | push own item => simp [pushedItem?,poppedItem?,QueueCall.onItems,QueueCall.name]
    | pop own =>
        cases here : queues.waiting own <;>
          simp [pushedItem?,poppedItem?,QueueCall.onItems,QueueCall.name,here]
    | len own => simp [pushedItem?,poppedItem?,QueueCall.onItems]
  · rw [if_neg own]
    have apart := Ne.symm own
    cases call <;> simp_all [pushedItem?,poppedItem?,QueueCall.onItems,QueueCall.name]

theorem Remembers.of_makeAll (remembers : Remembers past queues) (calls : List QueueCall) :
    Remembers (past ++ (makeAll queues calls).1) (makeAll queues calls).2 ∧
      ∀ before call answer after, (makeAll queues calls).1 = before ++ (call,answer) :: after →
        Answered (past ++ before) call answer := by
  induction calls generalizing past queues with
  | nil =>
      refine ⟨by rw [makeAll,List.append_nil]; exact remembers,?_⟩
      intro before call answer after odd
      cases before <;> cases odd
  | cons first rest ih =>
      obtain ⟨ends,answers⟩ := ih (remembers.of_make first)
      rw [List.append_assoc] at ends
      refine ⟨ends,?_⟩
      intro before call answer after cut
      cases before with
      | nil =>
          cases cut
          rw [List.append_nil]
          exact remembers.make_answered first
      | cons entry before =>
          obtain ⟨rfl,behind⟩ := List.cons.inj cut
          have right := answers before call answer after behind
          rwa [List.append_assoc] at right

-- The calls on one name, made without the others, get the same answers and leave the same items.
theorem makeAll_alone (name : String) (calls : List QueueCall) {queues alone : Queues}
    (same : queues.waiting name = alone.waiting name) :
    (makeAll queues calls).1.filter (fun entry => entry.1.name = name) =
        (makeAll alone (calls.filter fun call => call.name = name)).1 ∧
      (makeAll queues calls).2.waiting name =
        (makeAll alone (calls.filter fun call => call.name = name)).2.waiting name := by
  induction calls generalizing queues alone with
  | nil => exact ⟨rfl,same⟩
  | cons call rest ih =>
      obtain ⟨answer,left⟩ := make_onItems queues call
      by_cases own : call.name = name
      · obtain ⟨answer',left'⟩ := make_onItems alone call
        have equal : (call.make queues).1 = (call.make alone).1 := by rw [answer,answer',own,same]
        have next : (call.make queues).2.waiting name = (call.make alone).2.waiting name := by
          rw [left,left',same]
        obtain ⟨answers,ends⟩ := ih next
        rw [List.filter_cons_of_pos (by simpa using own),makeAll_cons,makeAll_cons,
          List.filter_cons_of_pos (by simpa using own),answers,equal]
        exact ⟨rfl,ends⟩
      · have next : (call.make queues).2.waiting name = alone.waiting name :=
          (make_elsewhere queues call (Ne.symm own)).trans same
        obtain ⟨answers,ends⟩ := ih next
        rw [List.filter_cons_of_neg (by simpa using own),makeAll_cons,List.filter_cons_of_neg (by simpa using own)]
        exact ⟨answers,ends⟩

end Runs

-- Whatever calls are made on whatever names: each is answered by what went before on its own name,
-- what was popped from a queue came first of what was pushed to it, the rest is what is counted, and
-- without the calls on other names a queue answers and holds the same.
theorem queues_first_in_first_out (calls : List QueueCall) :
    (∀ before call answer after, (makeAll [] calls).1 = before ++ (call,answer) :: after → Answered before call answer) ∧
      (∀ name, poppedFrom name (makeAll [] calls).1 <+: pushedTo name (makeAll [] calls).1 ∧
        (makeAll [] calls).2.len name =
          (pushedTo name (makeAll [] calls).1).length - (poppedFrom name (makeAll [] calls).1).length) ∧
      (∀ (queues : Queues) (call : QueueCall) name, name ≠ call.name →
        (call.make queues).2.waiting name = queues.waiting name) ∧
      ∀ name, (makeAll [] calls).1.filter (fun entry => entry.1.name = name) =
          (makeAll [] (calls.filter fun call => call.name = name)).1 ∧
        (makeAll [] calls).2.waiting name =
          (makeAll [] (calls.filter fun call => call.name = name)).2.waiting name := by
  have start : Remembers [] [] := fun _ => rfl
  obtain ⟨ends,answers⟩ := start.of_makeAll calls
  refine ⟨answers,fun name => ?_,fun queues call name => make_elsewhere queues call,fun name => makeAll_alone name calls rfl⟩
  have held := ends name
  rw [List.nil_append] at held
  refine ⟨⟨_,held.symm⟩,?_⟩
  rw [held,List.length_append,Nat.add_sub_cancel_left]
  rfl

example : (makeAll [] [.push "a" "1",.pop "a",.push "b" "x",.pop "a",.push "a" "2",.len "b",.pop "a"]).1.map Prod.snd =
    [.done,.item (some "1"),.done,.item none,.done,.count 1,.item (some "2")] := by decide

end Redline.Queues
