import PubSub.Json.Structure
import PubSub.Json.Writer
import PubSub.Message.Basic
/-!
# Messages in JSON

A message is written as an object with all its fields, the payload as an array of numbers. It is
read from an object or from an array of the fields in order; only the topic has to be there, and a
payload may also be given as a string.
-/

namespace PubSub

namespace QoS

def readJson : Json.Reader QoS := do
  match ofNat? (← Json.natural 255) with
  | some q => return q
  | none => throw .mismatched

end QoS

namespace Message

def writeJson (m : Message) : String :=
  Json.Writer.object [
    Json.Writer.member "topic" (Json.Writer.text m.topic),
    Json.Writer.member "payload" (Json.Writer.array (m.payload.map fun b => toString b.toNat)),
    Json.Writer.member "qos" (toString m.qos.toNat),
    Json.Writer.member "retain" (toString m.retain)]

/-- A payload: numbers below 256, or the bytes of a string. -/
def readPayload : Json.Reader Bytes := do
  let b ← Json.needToken
  if b = Json.ascii '"' then Json.discard; Json.rawString
  else if b = Json.ascii '[' then
    Json.discard
    Json.arrayBody do return UInt8.ofNat (← Json.natural 255)
  else Json.mismatch

/-- The fields read so far. -/
structure Draft where
  topic : Option String := none
  payload : Option Bytes := none
  qos : Option QoS := none
  retain : Option Bool := none

def Draft.finish (d : Draft) : Json.Reader Message :=
  match d.topic with
  | none => throw .mismatched
  | some topic => return ⟨topic, d.payload.getD [], d.qos.getD .atMostOnce, d.retain.getD false⟩

/-- Reads the value of a member; a field that has one already is refused. -/
def readMember (name : String) (d : Draft) : Json.Reader Draft := do
  if name = "topic" then
    if d.topic.isSome then throw .mismatched
    Json.colon; return { d with topic := some (← Json.text) }
  else if name = "payload" then
    if d.payload.isSome then throw .mismatched
    Json.colon; return { d with payload := some (← readPayload) }
  else if name = "qos" then
    if d.qos.isSome then throw .mismatched
    Json.colon; return { d with qos := some (← QoS.readJson) }
  else if name = "retain" then
    if d.retain.isSome then throw .mismatched
    Json.colon; return { d with retain := some (← Json.boolean) }
  else Json.colon; Json.skipValue; return d

def readFields : Json.Reader Message := do
  let topic ← Json.field true (throw .mismatched) Json.text
  let payload ← Json.field false (pure []) readPayload
  let qos ← Json.field false (pure .atMostOnce) QoS.readJson
  let retain ← Json.field false (pure false) Json.boolean
  Json.closeArray
  return ⟨topic, payload, qos, retain⟩

def readJson : Json.Reader Message := do
  let b ← Json.needToken
  if b = Json.ascii '\x7b' then
    Json.discard
    (← Json.objectBody readMember {}).finish
  else if b = Json.ascii '[' then Json.discard; readFields
  else Json.mismatch

end Message

end PubSub
