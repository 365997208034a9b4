import PubSub.AckCache
import PubSub.Message.Basic
import PubSub.Store.Error
import PubSub.Topic.Filter
/-!
# The journal

What the broker reports as it works: each notice has a level and a line of text.
-/

namespace PubSub

inductive Level where
  | error
  | warn
  | info
  | debug
  deriving DecidableEq, Repr

def Level.name : Level → String
  | error => "ERROR"
  | warn => "WARN"
  | info => "INFO"
  | debug => "DEBUG"

/-- Something worth reporting. -/
inductive Notice where
  | storeOpened
  | sessionsLoaded (count : Nat)
  | sessionNotLoaded (id : String) (e : StoreError)
  | sessionsRestored (count : Nat)
  | strayKey (bucket : String)
  | recordsReloaded (queue : String) (count : Nat)
  | recordVanished (queue : String) (seq : UInt64)
  | recordsDiscarded (queue : String) (count : Nat)
  | recordsNotFlushed (queue : String) (e : StoreError)
  | bestEffortFull (queue : String) (m : Message)
  | bestEffortClosed (queue : String) (dropped : Nat)
  | noBucket (id : String) (e : StoreError)
  | sessionCreated (id : String) (offset : UInt64)
  | sessionClosing (id : String)
  | sessionClosed (id : String)
  | sessionResumed (id : String)
  | sessionDiscarded (id : String)
  | cleanSessionDropped (id : String)
  | noSubscription (id : String) (m : Message)
  | subscriptionRefused (id : String) (e : Topic.InvalidFilter)
  | subscriptionDenied (id filter : String)
  | ackRefused (id : String) (e : AckError)
  | untracked (id : String) (e : AckError)
  | requeued (id : String) (count : Nat)
  | notDelivered (id topic : String) (e : QueueError)
  | brokerClosed (sessions : Nat)
  deriving DecidableEq, Repr

namespace Notice

def level : Notice → Level
  | recordsNotFlushed .. | noBucket .. | untracked .. => .error
  | sessionNotLoaded .. | strayKey .. | recordVanished .. | noSubscription .. | subscriptionRefused ..
  | subscriptionDenied .. | ackRefused .. | notDelivered .. => .warn
  | storeOpened | sessionsLoaded .. | sessionsRestored .. | recordsReloaded .. | sessionClosing ..
  | sessionClosed .. | brokerClosed .. => .info
  | recordsDiscarded .. | bestEffortFull .. | bestEffortClosed .. | sessionCreated .. | sessionResumed ..
  | sessionDiscarded .. | cleanSessionDropped .. | requeued .. => .debug

def text : Notice → String
  | storeOpened => "Persistence layer opened successfully"
  | sessionsLoaded n => s!"Loaded {n} sessions from disk"
  | sessionNotLoaded id e => s!"Failed to load session {id}: {e.message}"
  | sessionsRestored n => s!"Restored {n} persistent sessions"
  | strayKey bucket => s!"Skipping malformed queue key in bucket {bucket}"
  | recordsReloaded queue n => s!"[{queue}] reloaded {n} stored qos1 messages"
  | recordVanished queue seq => s!"[{queue}] qos1 record {seq} vanished, skipping"
  | recordsDiscarded queue n => s!"[{queue}] discarded {n} stored qos1 messages"
  | recordsNotFlushed queue e => s!"[{queue}] failed to flush qos1 queue: {e.message}"
  | bestEffortFull queue m => s!"[{queue}] qos0 queue full, dropping message: {m.summary}"
  | bestEffortClosed queue n => s!"[{queue}] qos0 queue closed, {n} messages dropped"
  | noBucket id e => s!"[{id}] failed to create queue bucket: {e.message}"
  | sessionCreated id offset => s!"[{id}] session created, ack ids start after {offset}"
  | sessionClosing id => s!"[{id}] session is closing"
  | sessionClosed id => s!"[{id}] session has closed"
  | sessionResumed id => s!"[{id}] resuming session"
  | sessionDiscarded id => s!"[{id}] discarding previous session"
  | cleanSessionDropped id => s!"[{id}] dropping clean session"
  | noSubscription id m => s!"[{id}] message ignored since no subscription matched: {m.summary}"
  | subscriptionRefused id e => s!"[{id}] subscription rejected: {e.message}"
  | subscriptionDenied id filter => s!"[{id}] topic not permitted to subscribe: {filter}"
  | ackRefused id e => s!"[{id}] failed to acknowledge: {e.message}"
  | untracked id e => s!"[{id}] failed to track delivery: {e.message}"
  | requeued id n => s!"[{id}] requeued {n} unacknowledged messages"
  | notDelivered id topic e => s!"[{id}] failed to push message on {topic}: {e.message}"
  | brokerClosed n => s!"Session manager closed ({n} sessions)"

/-- The notice as one line. -/
def line (n : Notice) : String := n.level.name ++ " " ++ n.text

end Notice

end PubSub
