import PubSub.Data.OrderedMap
import PubSub.Journal
import PubSub.Message.Binary
/-!
# Stored data

The store is two keyspaces, each an ordered map from bytes to bytes: one of session records by
client id, and one of queue records. A bucket is the part of the queue keyspace that belongs to one
name: its keys are the name, a zero byte and a sequence number of eight bytes, highest first, so
that byte order is the order of the numbers.
-/

namespace PubSub

abbrev Keyspace := OrderedMap Bytes Bytes

structure Store where
  sessions : Keyspace := .empty
  queue : Keyspace := .empty
  deriving DecidableEq

/-- A name is usable for a bucket when it is not empty and no zero byte can be confused with the
one after it. -/
def usableName (name : String) : Bool := name ≠ "" ∧ '\x00' ∉ name.toList

/-- The records of the queue keyspace under one name. -/
structure Bucket where
  name : String
  usable : usableName name = true
  deriving DecidableEq

namespace Bucket

def ofName (name : String) : Except StoreError Bucket :=
  if h : usableName name = true then .ok ⟨name, h⟩ else .error (.invalidBucket name)

/-! ## Keys -/

/-- A sequence number in eight bytes, highest first. -/
def sequenceBytes (seq : UInt64) : Bytes := (Binary.littleEndian 8 seq.toNat).reverse

/-- What every key of the bucket starts with. -/
def start (b : Bucket) : Bytes := Text.bytes b.name ++ [0]

def key (b : Bucket) (seq : UInt64) : Bytes := b.start ++ sequenceBytes seq

/-- The rest of a key that starts as the bucket's keys do. -/
def keyRest? (b : Bucket) (key : Bytes) : Option Bytes := b.start.isPrefixOf? key

/-- The sequence number of a key of the bucket. -/
def sequence? (b : Bucket) (key : Bytes) : Option UInt64 :=
  (b.keyRest? key).bind fun rest =>
    if rest.length = 8 then some (UInt64.ofNat (Binary.ofLittleEndian rest.reverse)) else none

/-! ## Records -/

def get? (b : Bucket) (k : Keyspace) (seq : UInt64) : Option Bytes := OrderedMap.get? k (b.key seq)

/-- Why a record could not be read, in words. -/
def faultText : Binary.Fault → String
  | .truncated => "record ends too early"
  | .invalidText => "record holds invalid text"
  | .invalidFlag => "record holds an invalid flag"
  | .invalidQoS e => e.message

/-- The value of a record, none where there is no record. The store may refuse to look for it. -/
def read {α : Type} (b : Bucket) (k : Keyspace) (value : Binary.Reader α) (seq : UInt64)
    (refused : Option String := none) : Except StoreError (Option α) :=
  match refused with
  | some reason => .error (.notRead reason)
  | none =>
    match b.get? k seq with
    | none => .ok none
    | some bytes =>
      match Binary.decode value bytes with
      | .ok v => .ok (some v)
      | .error f => .error (.notDecoded (faultText f))

/-- Stores a record, replacing the one before it. -/
def put (b : Bucket) (k : Keyspace) (seq : UInt64) (record : Bytes) : Keyspace :=
  OrderedMap.insert k (b.key seq) record

def delete (b : Bucket) (k : Keyspace) (seq : UInt64) : Keyspace := OrderedMap.erase k (b.key seq)

/-- The sequence numbers of all records, ascending. -/
def sequences (b : Bucket) (k : Keyspace) : List UInt64 := k.keys.filterMap b.sequence?

/-- A notice for each key under the bucket's name that has no sequence number. -/
def strays (b : Bucket) (k : Keyspace) : List Notice :=
  k.keys.filterMap fun key =>
    if (b.keyRest? key).isSome ∧ (b.sequence? key).isNone then some (.strayKey b.name) else none

/-- Deletes every record, and says how many there were. -/
def clear (b : Bucket) (k : Keyspace) : Nat × Keyspace :=
  let seqs := b.sequences k
  (seqs.length, seqs.foldl b.delete k)

end Bucket

end PubSub
