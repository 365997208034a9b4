import PubSub.Data.OrderedMap
/-!
# Deliveries awaiting acknowledgement

Each delivery handed to a client has a number, and the cache remembers which stored record it came
from. Numbers up to the cache's offset belong to an earlier time and are refused.
-/

namespace PubSub

/-- Why a number is not accepted. -/
inductive AckError where
  | beforeOffset (id offset : UInt64)
  | unknown (id : UInt64)
  deriving DecidableEq, Repr

def AckError.message : AckError → String
  | beforeOffset id offset => s!"id {id} predates this session (offset {offset})"
  | unknown id => s!"id {id} is not awaiting acknowledgement"

structure AckCache where
  offset : UInt64
  entries : OrderedMap UInt64 UInt64 := .empty
  deriving DecidableEq

namespace AckCache

/-- Remembers that delivery `id` came from record `seq`. -/
def store (c : AckCache) (id seq : UInt64) : Except AckError AckCache :=
  if id ≤ c.offset then .error (.beforeOffset id c.offset)
  else .ok { c with entries := c.entries.insert id seq }

/-- The record delivery `id` came from, and the cache without it. -/
def remove (c : AckCache) (id : UInt64) : Except AckError (UInt64 × AckCache) :=
  if id ≤ c.offset then .error (.beforeOffset id c.offset)
  else match c.entries.get? id with
    | some seq => .ok (seq, { c with entries := c.entries.erase id })
    | none => .error (.unknown id)

/-- Forgets every delivery, and says how many there were. -/
def clear (c : AckCache) : Nat × AckCache := (c.entries.size, { c with entries := .empty })

/-- The numbers outstanding, oldest first. -/
def ids (c : AckCache) : List UInt64 := c.entries.keys

def size (c : AckCache) : Nat := c.entries.size

def isEmpty (c : AckCache) : Bool := c.size = 0

end AckCache

end PubSub
