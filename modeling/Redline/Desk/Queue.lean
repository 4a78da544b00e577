import Redline.Desk.Failure
import Redline.Table

namespace Redline

abbrev Queues := Table String (List String)

namespace Queues

def waiting (queues : Queues) (name : String) : List String := (Table.find? name queues).getD []

def push (queues : Queues) (name item : String) : Queues :=
  Table.insert name (waiting queues name ++ [item]) queues

def pop (queues : Queues) (name : String) : Option (String × Queues) :=
  match waiting queues name with
  | [] => none
  | item :: rest => some (item,Table.insert name rest queues)

def len (queues : Queues) (name : String) : Nat := (waiting queues name).length

structure Arrival where
  moment : Nat
  name : String
  item : String
deriving DecidableEq, Inhabited

def pushAll (queues : Queues) (arrivals : List Arrival) : Queues :=
  arrivals.foldl (fun queues arrival => queues.push arrival.name arrival.item) queues

def nanoseconds (seconds : Nat) : Nat := seconds * 1000000000

-- The deadline of a wait of so many seconds, where the clock of the machine shows `now` seconds. That
-- clock has sixty-three bits, and a deadline which it cannot show is a panic.
def deadline (now timeout : Nat) : Except Panic Nat :=
  if now + timeout < Nat.pow 2 63 then .ok (nanoseconds timeout) else .error .instantOverflow

-- A pop that waits until its deadline, while pushes arrive in the order of their moments. It looks
-- at the start and after each push; here what arrives at the deadline itself comes too late.
def await (queues : Queues) (name : String) (deadline : Nat) : List Arrival → Option String × Queues
  | [] =>
      match queues.pop name with
      | some (item,rest) => (some item,rest)
      | none => (none,queues)
  | arrival :: later =>
      match queues.pop name with
      | some (item,rest) => (some item,rest.pushAll (arrival :: later))
      | none =>
          if arrival.moment < deadline then
            await (queues.push arrival.name arrival.item) name deadline later
          else (none,queues.pushAll (arrival :: later))

theorem waiting_inserted (queues : Queues) (name other : String) (items : List String) :
    waiting (Table.insert name items queues) other = if other = name then items else queues.waiting other := by
  unfold waiting
  split
  · rename_i own
    rw [own,Table.find?_insert_self]
    rfl
  · rename_i apart
    rw [Table.find?_insert_other _ _ _ _ apart]

theorem waiting_push_self (queues : Queues) (name item : String) :
    (queues.push name item).waiting name = queues.waiting name ++ [item] :=
  (waiting_inserted queues name name _).trans (if_pos rfl)

theorem waiting_push_other (queues : Queues) (name other item : String) (apart : other ≠ name) :
    (queues.push name item).waiting other = queues.waiting other :=
  (waiting_inserted queues name other _).trans (if_neg apart)

theorem waiting_push (queues : Queues) (name item other : String) : (queues.push name item).waiting other =
    queues.waiting other ++ if name = other then [item] else [] := by
  split
  · rename_i own
    rw [← own,waiting_push_self]
  · rename_i apart
    rw [waiting_push_other _ _ _ _ (Ne.symm apart),List.append_nil]

theorem pop_none {queues : Queues} {name : String} : queues.pop name = none ↔ queues.waiting name = [] := by
  rw [pop]
  cases queues.waiting name <;> simp

theorem pop_keeps {queues rest : Queues} {name item : String} (popped : queues.pop name = some (item,rest))
    (other : String) : queues.waiting other = (if other = name then [item] else []) ++ rest.waiting other := by
  rw [pop] at popped
  split at popped
  · cases popped
  · rename_i first behind here
    cases popped
    rw [waiting_inserted]
    split
    · rename_i own
      rw [own,here,List.singleton_append]
    · rfl

end Queues

end Redline
