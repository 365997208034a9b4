import PubSub.Data.OrderedMap
import PubSub.Message.Json
/-!
# What is known of a session

A session's identity, its will message and its subscriptions. They are kept as a JSON record, in
which empty fields are left out. The clean flag is not part of the record: a clean session has none.
-/

namespace PubSub

structure Info where
  id : String := ""
  will : Option Message := none
  subscriptions : OrderedMap String QoS := .empty
  clean : Bool := false
  deriving DecidableEq

/-- A filter and the service asked for it. -/
structure Subscription where
  filter : String
  qos : QoS
  deriving DecidableEq, Repr

namespace Info

def writeJson (i : Info) : String :=
  let id := if i.id = "" then [] else [Json.Writer.member "id" (Json.Writer.text i.id)]
  let will := i.will.toList.map fun m => Json.Writer.member "will" m.writeJson
  let subscription (e : String × QoS) := Json.Writer.member e.1 (toString e.2.toNat)
  let subs := if i.subscriptions.isEmpty then []
    else [Json.Writer.member "subs" (Json.Writer.object (i.subscriptions.entries.map subscription))]
  Json.Writer.object (id ++ will ++ subs)

/-- The record of a session. -/
def encode (i : Info) : Bytes := Text.bytes i.writeJson

/-! ## Reading a record -/

/-- Subscriptions by filter; of a filter that comes twice the last one counts. -/
def readSubscriptions : Json.Reader (OrderedMap String QoS) := do
  if (← Json.needToken) = Json.ascii '\x7b' then
    Json.discard
    Json.objectBody (fun filter m => do Json.colon; return m.insert filter (← QoS.readJson)) .empty
  else Json.mismatch

/-- The fields read so far. -/
structure Draft where
  id : Option String := none
  will : Option (Option Message) := none
  subscriptions : Option (OrderedMap String QoS) := none

def Draft.finish (d : Draft) : Info :=
  { id := d.id.getD "", will := d.will.getD none, subscriptions := d.subscriptions.getD .empty }

/-- Reads the value of a member; a field that has one already is refused. -/
def readMember (name : String) (d : Draft) : Json.Reader Draft := do
  if name = "id" then
    if d.id.isSome then throw .mismatched
    Json.colon; return { d with id := some (← Json.text) }
  else if name = "will" then
    if d.will.isSome then throw .mismatched
    Json.colon; return { d with will := some (← Json.optional Message.readJson) }
  else if name = "subs" then
    if d.subscriptions.isSome then throw .mismatched
    Json.colon; return { d with subscriptions := some (← readSubscriptions) }
  else Json.colon; Json.skipValue; return d

def readFields : Json.Reader Info := do
  let id ← Json.field true (pure "") Json.text
  let will ← Json.field false (pure none) (Json.optional Message.readJson)
  let subscriptions ← Json.field false (pure .empty) readSubscriptions
  Json.closeArray
  return { id, will, subscriptions }

/-- Reads an object, or an array of the fields in order. Every field may be left out. -/
def readJson : Json.Reader Info := do
  let b ← Json.needToken
  if b = Json.ascii '\x7b' then
    Json.discard
    return (← Json.objectBody readMember {}).finish
  else if b = Json.ascii '[' then Json.discard; readFields
  else Json.mismatch

def decode (b : Bytes) : Except Json.Fault Info := Json.parse readJson b

end Info

end PubSub
