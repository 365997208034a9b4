import PubSub.Counter
import PubSub.Event
import PubSub.Journal
/-!
# The best-effort queue

A bounded queue in memory. A full queue drops what is pushed next, and closing drops what is
waiting. The queue says which events it is done with, for their publishers to be told.
-/

namespace PubSub

structure BestEffortQueue where
  name : String
  capacity : Nat
  waiting : List Event := []
  counter : Counter := {}
  closed : Bool := false
  deriving DecidableEq

namespace BestEffortQueue

/-- An empty queue, with room for one event at least. -/
def new (name : String) (capacity : Nat) : BestEffortQueue := { name, capacity := max capacity 1 }

/-- What became of an event that was not refused. -/
inductive Outcome where
  | queued
  | dropped
  deriving DecidableEq, Repr

/-- What there is to report about an event pushed. -/
def Outcome.notices (q : BestEffortQueue) (e : Event) : Outcome → List Notice
  | queued => []
  | dropped => [.bestEffortFull q.name e.message]

def push (q : BestEffortQueue) (e : Event) : Except QueueError (Outcome × BestEffortQueue) :=
  if q.closed then .error (.closed q.name)
  else if q.waiting.length < q.capacity then .ok (.queued, { q with waiting := q.waiting ++ [e] })
  else .ok (.dropped, q)

/-- The event that has waited longest, with the delivery made of it. -/
def pop (q : BestEffortQueue) : Option (Event × Delivery) × BestEffortQueue :=
  match q.waiting with
  | [] => (none, q)
  | e :: rest =>
    let (id, counter) := q.counter.take
    (some (e, ⟨id, e.message⟩), { q with waiting := rest, counter })

def size (q : BestEffortQueue) : Nat := q.waiting.length

/-- Closes the queue, with the events that were waiting. -/
def close (q : BestEffortQueue) : List Event × BestEffortQueue :=
  if q.closed then ([], q) else (q.waiting, { q with waiting := [], closed := true })

/-- What there is to report about closing the queue. -/
def closingNotices (q : BestEffortQueue) : List Notice :=
  if q.close.1.isEmpty then [] else [.bestEffortClosed q.name q.close.1.length]

end BestEffortQueue

end PubSub
