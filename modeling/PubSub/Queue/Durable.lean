import PubSub.Store.Bucket
/-!
# The durable queue

Messages are kept as records of a bucket from the time they are accepted until they are
acknowledged. The queue remembers which records it has still to hand out, in order, and which it
has handed out; at most a window's worth is out at a time. Opening a queue over a bucket makes
every record it finds available again. What the store answers when a record is to be stored, read or
flushed is an argument: it does as it is asked unless something else is said.
-/

namespace PubSub

structure DurableQueue where
  bucket : Bucket
  window : Nat
  next : UInt64
  pending : List UInt64
  inflight : List UInt64 := []
  closed : Bool := false
  deriving DecidableEq

namespace DurableQueue

/-- The queue over the records of a bucket. -/
def new (bucket : Bucket) (window : Nat) (k : Keyspace) : DurableQueue :=
  let pending := bucket.sequences k
  { bucket, window := max window 1, pending, next := (pending.getLast?.map (· + 1)).getD 1 }

/-- What opening a queue over a bucket has to report. -/
def openingNotices (bucket : Bucket) (k : Keyspace) : List Notice :=
  let n := (bucket.sequences k).length
  bucket.strays k ++ if n = 0 then [] else [.recordsReloaded bucket.name n]

def closedError (q : DurableQueue) : QueueError := .closed q.bucket.name

/-- Stores a message behind all others. -/
def push (q : DurableQueue) (k : Keyspace) (m : Message) (answer : WriteAnswer := .written) :
    Except QueueError (DurableQueue × Keyspace) :=
  if q.closed then .error q.closedError
  else match answer.failure? with
    | some e => .error (.store e)
    | none => .ok ({ q with next := q.next + 1, pending := q.pending ++ [q.next] },
        q.bucket.put k q.next (Binary.encodeMessage m))

/-- Puts a number at its place in an ascending list. -/
def insertSequence (s : UInt64) : List UInt64 → List UInt64
  | [] => [s]
  | x :: xs => if s < x then s :: x :: xs else if s = x then x :: xs else x :: insertSequence s xs

/-- The first of the pending records that is still there, or that the store refuses to read: its
message or what is wrong with it, the records still pending, and those that were gone. -/
def firstStored (b : Bucket) (k : Keyspace) (refused : UInt64 → Option String) :
    List UInt64 → Option (UInt64 × Except StoreError Message) × List UInt64 × List UInt64
  | [] => (none, [], [])
  | s :: rest =>
    match b.read k Binary.readMessage s (refused s) with
    | .ok none =>
      let (found, pending, gone) := firstStored b k refused rest
      (found, pending, s :: gone)
    | .ok (some m) => (some (s, .ok m), rest, [])
    | .error e => (some (s, .error e), s :: rest, [])

/-- Hands out the next message, none while the window is full. A record that cannot be read, or that
the store refuses to read, stays where it is. -/
def pop (q : DurableQueue) (k : Keyspace) (refused : UInt64 → Option String := fun _ => none) :
    Except QueueError (Option Delivery) × DurableQueue × List Notice :=
  if q.closed then (.error q.closedError, q, [])
  else if q.window ≤ q.inflight.length then (.ok none, q, [])
  else
    let (found, pending, gone) := firstStored q.bucket k refused q.pending
    let notices := gone.map (.recordVanished q.bucket.name)
    match found with
    | none => (.ok none, { q with pending }, notices)
    | some (s, .ok m) => (.ok (some ⟨s, m⟩), { q with pending, inflight := insertSequence s q.inflight }, notices)
    | some (_, .error e) => (.error (.store e), { q with pending }, notices)

/-- Deletes an acknowledged record, whether it was still out or already pending again. -/
def ack (q : DurableQueue) (k : Keyspace) (seq : UInt64) : DurableQueue × Keyspace :=
  let q :=
    if seq ∈ q.inflight then { q with inflight := q.inflight.filter (· ≠ seq) }
    else { q with pending := q.pending.filter (· ≠ seq) }
  (q, q.bucket.delete k seq)

/-- Makes every record that is out available again, before all others. -/
def requeue (q : DurableQueue) : DurableQueue :=
  { q with pending := q.inflight ++ q.pending, inflight := [] }

def size (q : DurableQueue) : Nat := q.pending.length

/-- Closes the queue. A clean close deletes its records too. Any other has the store flush them; if that
is refused, it is reported. -/
def close (q : DurableQueue) (k : Keyspace) (clean : Bool) (refused : Option String := none) :
    DurableQueue × Keyspace × List Notice :=
  if q.closed then (q, k, [])
  else
    let q := { q with closed := true, pending := [], inflight := [] }
    if clean then
      let (n, k') := q.bucket.clear k
      (q, k', q.bucket.strays k ++ if n = 0 then [] else [.recordsDiscarded q.bucket.name n])
    else (q, k, refused.toList.map fun reason => .recordsNotFlushed q.bucket.name (.notSynced reason))

end DurableQueue

end PubSub
