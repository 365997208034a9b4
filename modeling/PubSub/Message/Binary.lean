import PubSub.Message.Basic
/-!
# The record form of values

Records hold values in a binary form: numbers in little-endian order, texts and byte strings after
their length in eight bytes, a delivery class and a flag in one byte each. Each reader answers with
the value and the bytes after it, so a record may be longer than its value.
-/

namespace PubSub.Binary

/-- Why a record holds no value of the kind asked for. -/
inductive Fault where
  | truncated
  | invalidText
  | invalidFlag
  | invalidQoS (e : InvalidQoS)
  deriving DecidableEq, Repr

/-- A reader of one value at the start of a byte string. -/
abbrev Reader (α : Type) := Bytes → Except Fault (α × Bytes)

/-! ## Numbers -/

/-- The lowest `width` bytes of a number, lowest first. -/
def littleEndian : Nat → Nat → Bytes
  | 0, _ => []
  | width + 1, n => UInt8.ofNat n :: littleEndian width (n / 256)

/-- The number whose bytes, lowest first, these are. -/
def ofLittleEndian : Bytes → Nat
  | [] => 0
  | b :: rest => b.toNat + 256 * ofLittleEndian rest

/-- The next `n` bytes. -/
def take (n : Nat) : Reader Bytes := fun b =>
  if n ≤ b.length then .ok (b.take n, b.drop n) else .error .truncated

def readNat (width : Nat) : Reader Nat := fun b => do
  let (digits, rest) ← take width b
  return (ofLittleEndian digits, rest)

/-! ## Values -/

def encodeBytes (b : Bytes) : Bytes := littleEndian 8 b.length ++ b

def readBytes : Reader Bytes := fun b => do
  let (n, rest) ← readNat 8 b
  take n rest

def encodeText (s : String) : Bytes := encodeBytes (Text.bytes s)

def readText : Reader String := fun b => do
  let (raw, rest) ← readBytes b
  match Text.ofBytes? raw with
  | some s => return (s, rest)
  | none => throw .invalidText

def encodeQoS (q : QoS) : Bytes := [UInt8.ofNat q.toNat]

def readQoS : Reader QoS := fun b => do
  let (n, rest) ← readNat 1 b
  match QoS.fromCode n with
  | .ok q => return (q, rest)
  | .error e => throw (.invalidQoS e)

def encodeFlag (f : Bool) : Bytes := [if f then 1 else 0]

def readFlag : Reader Bool := fun b => do
  let (n, rest) ← readNat 1 b
  if n = 0 then return (false, rest)
  else if n = 1 then return (true, rest)
  else throw .invalidFlag

def encodeMessage (m : Message) : Bytes :=
  encodeText m.topic ++ encodeBytes m.payload ++ encodeQoS m.qos ++ encodeFlag m.retain

def readMessage : Reader Message := fun b => do
  let (topic, b) ← readText b
  let (payload, b) ← readBytes b
  let (qos, b) ← readQoS b
  let (retain, b) ← readFlag b
  return (⟨topic, payload, qos, retain⟩, b)

/-- The value at the start of a record, whatever comes after it. -/
def decode {α : Type} (r : Reader α) (b : Bytes) : Except Fault α := (r b).map (·.1)

end PubSub.Binary
