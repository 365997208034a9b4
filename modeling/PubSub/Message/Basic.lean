import PubSub.QoS
import PubSub.Text.Utf8
/-!
# Messages

What a publisher sends: a topic without wildcards, a payload, the delivery class asked for and the
retain flag.
-/

namespace PubSub

structure Message where
  topic : String
  payload : Bytes := []
  qos : QoS := .atMostOnce
  retain : Bool := false
  deriving DecidableEq, Repr

/-- A message in one line, with the length of its payload only. -/
def Message.summary (m : Message) : String :=
  s!"topic={m.topic} qos={m.qos.toNat} retain={m.retain} payload={m.payload.length}B"

/-- A message handed out by a queue, under the number to acknowledge it by. -/
structure Delivery where
  id : UInt64
  message : Message
  deriving DecidableEq, Repr

end PubSub
