import PubSub.Message.Basic
/-!
# Events and their completion

An event is a message under way. It is completed once, when the broker is done with it, and its
publisher is told then. It can be split into copies, one for each receiver. A copy is settled when
it is completed or when nothing refers to it any more; the last copy of a split that is settled
completes the event that was split. An event that is only dropped is never completed.
-/

namespace PubSub

/-! ## One notification -/

/-- A notification that is sent at most once. -/
structure Completion where
  notifies : Bool := true
  completed : Bool := false
  fired : Nat := 0
  deriving DecidableEq, Repr

namespace Completion

/-- Completes, and says whether this was the call that did. -/
def complete (c : Completion) : Bool × Completion :=
  if c.completed then (false, c)
  else (true, { c with completed := true, fired := if c.notifies then c.fired + 1 else c.fired })

/-- The state as a debugging text. -/
def debug (c : Completion) : String :=
  "Completion \x7b completed: " ++ toString c.completed ++ " \x7d"

end Completion

/-! ## Many events -/

/-- An event's name: a published event has a number, and a copy is named after the event it was
split from, by which split of it and which place in that split. -/
inductive EventId where
  | published (number : Nat)
  | copy (source : EventId) (split place : Nat)
  deriving DecidableEq, Repr

/-- What is known of an event: its references, and for each split of it how many copies are not
settled yet. -/
structure EventState where
  message : Message
  completion : Completion
  holders : Nat := 1
  splits : List Nat := []
  deriving DecidableEq, Repr

/-- An event as its receivers hold it. -/
structure Event where
  id : EventId
  message : Message
  deriving DecidableEq, Repr

/-- Every event there has been, and how many of them were published. -/
structure EventTable where
  states : List (EventId × EventState) := []
  published : Nat := 0
  deriving DecidableEq, Repr

namespace EventTable

def get? (t : EventTable) (e : EventId) : Option EventState := t.states.lookup e

/-- Changes the state of an event, if it is known. -/
def update (t : EventTable) (e : EventId) (f : EventState → EventState) : EventTable :=
  { t with states := t.states.map fun s => if s.1 = e then (s.1, f s.2) else s }

def isDone (t : EventTable) (e : EventId) : Bool :=
  ((t.get? e).map (·.completion.completed)).getD false

/-- The copies of a split that are not settled. -/
def unsettled (t : EventTable) (e : EventId) (split : Nat) : Nat :=
  ((t.get? e).bind (·.splits[split]?)).getD 0

/-- A new event with one reference to it. -/
def publish (t : EventTable) (m : Message) (notifies : Bool) : Event × EventTable :=
  let id := EventId.published t.published
  (⟨id, m⟩, ⟨(id, { message := m, completion := { notifies } }) :: t.states, t.published + 1⟩)

/-- Counts one copy of a split as settled. -/
def settle (t : EventTable) (e : EventId) (split : Nat) : EventTable :=
  t.update e fun s => { s with splits := s.splits.modify split (· - 1) }

/-- Completes an event. The last copy of a split completes the event that was split with it. -/
def finish : EventId → EventTable → EventTable
  | .published n, t =>
    t.update (.published n) fun s => { s with completion := s.completion.complete.2 }
  | .copy source split place, t =>
    if t.isDone (.copy source split place) then t
    else
      let t := t.update (.copy source split place) fun s => { s with completion := s.completion.complete.2 }
      let t := t.settle source split
      if t.unsettled source split = 0 then finish source t else t

/-- Gives up one reference. A copy that nothing refers to any more, and that is not waiting for
copies of its own, is settled. -/
def drop (e : EventId) (t : EventTable) : EventTable :=
  match t.get? e with
  | none => t
  | some s =>
    let t := t.update e fun s => { s with holders := s.holders - 1 }
    match e with
    | .published _ => t
    | .copy source split _ =>
      if s.holders = 1 ∧ ¬ s.completion.completed ∧ s.splits = [] then
        let t := t.settle source split
        if t.unsettled source split = 0 then finish source t else t
      else t

/-- Completes an event and gives up the reference to it. -/
def release (e : EventId) (t : EventTable) : EventTable := (t.finish e).drop e

/-- Splits an event into `n` copies with one reference to each. With no copies to wait for the
event is complete. -/
def split (e : EventId) (n : Nat) (t : EventTable) : List Event × EventTable :=
  match t.get? e with
  | none => ([], t)
  | some s =>
    let copies := (List.range n).map fun place => Event.mk (.copy e s.splits.length place) s.message
    let t := t.update e fun s => { s with splits := s.splits ++ [n] }
    let t := { t with states := copies.map (fun c => (c.id, { message := c.message, completion := {} })) ++ t.states }
    (copies, if n = 0 then t.finish e else t)

/-- The numbers of the published events whose publishers have been told. -/
def told (t : EventTable) : List Nat :=
  t.states.filterMap fun s => match s.1 with
    | .published n => if 0 < s.2.completion.fired then some n else none
    | .copy .. => none

end EventTable

end PubSub
