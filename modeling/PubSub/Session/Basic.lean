import PubSub.AckCache
import PubSub.Queue.BestEffort
import PubSub.Queue.Durable
import PubSub.Session.Info
import PubSub.Text.Quoted
import PubSub.Topic.Trie
/-!
# Sessions

One client's state while its broker is open: what is known of it, its filters ready for matching,
its two queues, and the deliveries it has still to acknowledge.
-/

namespace PubSub

structure Session where
  info : Info
  filters : Topic.Trie := {}
  bestEffort : BestEffortQueue
  durable : DurableQueue
  counter : Counter
  acks : AckCache
  deriving DecidableEq

namespace Session

def id (s : Session) : String := s.info.id

/-- A session over the records of its bucket. The first number is the offset of its deliveries. -/
def new (info : Info) (bucket : Bucket) (maxBestEffort maxGuaranteed : Nat) (k : Keyspace) : Session :=
  let (offset, counter) := Counter.take {}
  { info
    bestEffort := .new info.id maxBestEffort
    durable := .new bucket maxGuaranteed k
    counter
    acks := { offset } }

/-- Registers filters for matching. -/
def register (s : Session) (subs : List (String × QoS)) : Session :=
  { s with filters := subs.foldl (fun t e => t.set e.1 e.2) s.filters }

/-- Takes a filter out of the session, whether it was there or not. -/
def forget (s : Session) (filter : String) : Session :=
  { s with
    filters := (s.filters.remove filter).2
    info := { s.info with subscriptions := s.info.subscriptions.erase filter } }

/-- The strongest service asked for the topic. -/
def matchQoS (s : Session) (topic : String) : Option QoS := s.filters.maxQoS topic

/-- How many deliveries are not acknowledged. -/
def inflight (s : Session) : Nat := s.acks.size

/-- The session as a debugging text. -/
def debug (s : Session) : String :=
  "Session \x7b id: " ++ Text.quoted s.id ++ ", inflight: " ++ toString s.inflight ++ ", .. \x7d"

end Session

end PubSub
