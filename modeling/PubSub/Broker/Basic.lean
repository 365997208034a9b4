import PubSub.Config.Settings
import PubSub.Exchange
import PubSub.Session.Basic
import PubSub.Store.SessionRecords
/-!
# The broker's state

The broker owns the store, the exchange and every session it has made, also those that were
replaced since. The registry says which session a client id stands for.
-/

namespace PubSub

/-- Why the broker refused. -/
inductive BrokerError where
  | store (e : StoreError)
  | queue (e : QueueError)
  | config (e : ConfigError)
  deriving DecidableEq, Repr

def BrokerError.message : BrokerError → String
  | store e => "Persistence error: " ++ e.message
  | queue e => "Queue error: " ++ e.message
  | config e => "Configuration error: " ++ e.message

structure Broker where
  settings : Settings := {}
  store : Store := {}
  exchange : Exchange := {}
  /-- Every session made since the broker was opened, by number. -/
  sessions : List Session := []
  registry : OrderedMap String SessionRef := .empty
  events : EventTable := {}
  journal : List Notice := []

namespace Broker

def session? (b : Broker) (r : SessionRef) : Option Session := b.sessions[r]?

def setSession (b : Broker) (r : SessionRef) (s : Session) : Broker :=
  { b with sessions := b.sessions.set r s }

def report (b : Broker) (ns : List Notice) : Broker := { b with journal := b.journal ++ ns }

def setQueueRecords (b : Broker) (k : Keyspace) : Broker := { b with store := { b.store with queue := k } }

/-- Writes the record of a session, or deletes it for a clean one. -/
def persist (b : Broker) (info : Info) : Broker :=
  let k := if info.clean then SessionRecords.remove b.store.sessions info.id
    else SessionRecords.save b.store.sessions info.id info
  { b with store := { b.store with sessions := k } }

end Broker

end PubSub
