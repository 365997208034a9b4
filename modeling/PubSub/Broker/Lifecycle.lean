import PubSub.Broker.Delivery
import PubSub.Broker.Subscriptions
/-!
# Opening, connecting, closing

A broker restores every session with a record when it is opened. A client that connects gets its
session back, or a fresh one when it asks for a clean start. A clean session is forgotten when its
client leaves; any other stays and takes its deliveries back.
-/

namespace PubSub

/-- What lies where the data should be. -/
inductive Location where
  | database (s : Store)
  | file
  /-- A database whose keyspaces cannot be opened. -/
  | damaged (reason : String)
  deriving DecidableEq

def Location.load : Location → Except StoreError Store
  | database s => .ok s
  | file => .error (.notOpened "not a directory")
  | damaged reason => .error (.keyspaceNotOpened reason)

namespace Broker

/-- Closes both queues of a session. A clean session loses its records with that. -/
def closeSession (b : Broker) (r : SessionRef) : Broker :=
  match b.session? r with
  | none => b
  | some s =>
    let (dropped, bestEffort) := s.bestEffort.close
    let (durable, k, notices) := s.durable.close b.store.queue s.info.clean
    let b := (b.setSession r { s with bestEffort, durable }).setQueueRecords k
    let b := dropped.foldl release b
    b.report (.sessionClosing s.id :: s.bestEffort.closingNotices ++ notices ++ [.sessionClosed s.id])

/-- Makes a session and writes its record. Its subscriptions are not registered yet. -/
def create (b : Broker) (info : Info) : Except StoreError SessionRef × Broker :=
  match Bucket.ofName info.id with
  | .error e => (.error e, b.report [.noBucket info.id e])
  | .ok bucket =>
    let s := Session.new info bucket b.settings.maxBestEffort b.settings.maxGuaranteed b.store.queue
    let notices := DurableQueue.openingNotices bucket b.store.queue ++ [.sessionCreated info.id s.acks.offset]
    (.ok b.sessions.length, ({ b with sessions := b.sessions ++ [s] }.report notices).persist info)

def register (b : Broker) (id : String) (r : SessionRef) : Broker :=
  { b with registry := b.registry.insert id r }

def unregister (b : Broker) (id : String) : Broker := { b with registry := b.registry.erase id }

/-- Restores sessions one by one, up to the first that cannot be made. -/
def restoreAll (b : Broker) : List Info → Except StoreError Unit × Broker
  | [] => (.ok (), b)
  | info :: rest =>
    match b.create info with
    | (.error e, b) => (.error e, b)
    | (.ok r, b) => ((b.registerAll r).register info.id r).restoreAll rest

/-- Restores every session with a readable record. -/
def restore (b : Broker) : Except StoreError Unit × Broker :=
  let (infos, notices) := SessionRecords.loadAll b.store.sessions
  match (b.report notices).restoreAll infos with
  | (.error e, b) => (.error e, b)
  | (.ok (), b) => (.ok (), b.report (if b.registry.isEmpty then [] else [.sessionsRestored b.registry.size]))

/-- Opens a broker on stored data and over an exchange, with the sessions that are there already and the events there
have been so far. When it fails the broker it got to is given too. -/
def openOver (exchange : Exchange) (sessions : List Session) (settings : Settings) (location : Location)
    (events : EventTable) : Except BrokerError Unit × Broker :=
  match settings.check with
  | .error e => (.error (.config e), { settings, exchange, sessions, events })
  | .ok settings =>
    match location.load with
    | .error e => (.error (.store e), { settings, exchange, sessions, events })
    | .ok store =>
      match restore { settings, store, exchange, sessions, events, journal := [.storeOpened] } with
      | (.error e, b) => (.error (.store e), b)
      | (.ok (), b) => (.ok (), b)

/-- Opens a broker on stored data over a fresh exchange. -/
def openOn (settings : Settings) (location : Location) (events : EventTable) : Except BrokerError Unit × Broker :=
  openOver {} [] settings location events

/-- Ends a client's session and frees its id. -/
def dismiss (b : Broker) (id : String) (r : SessionRef) : Broker :=
  ((b.unbindAll r).closeSession r).unregister id

/-- Attaches a client to its session. A session that is there is resumed with the new will and clean
flag; a clean start makes it a clean one first, ends it, and makes another. -/
def connect (b : Broker) (info : Info) : Except StoreError SessionRef × Broker :=
  let fresh (b : Broker) : Except StoreError SessionRef × Broker :=
    match b.create info with
    | (.error e, b) => (.error e, b)
    | (.ok r, b) => (.ok r, b.register info.id r)
  match b.registry.get? info.id with
  | none => fresh b
  | some r =>
    if info.clean then
      fresh (((b.report [.sessionDiscarded info.id]).update r { info with will := none }).dismiss info.id r)
    else (.ok r, (b.report [.sessionResumed info.id]).update r info)

/-- Detaches a client from its session. -/
def disconnect (b : Broker) (id : String) : Broker :=
  match b.registry.get? id with
  | none => b
  | some r =>
    if ((b.session? r).map (·.info.clean)).getD false then
      (b.report [.cleanSessionDropped id]).dismiss id r
    else b.requeue r

/-- Closes every registered session. -/
def close (b : Broker) : Broker :=
  let registered := b.registry.entries
  let b := registered.foldl (fun b e => b.dismiss e.1 e.2) b
  b.report [.brokerClosed registered.length]

/-- Lets go of every session without closing any: what waits for a best-effort delivery is dropped. -/
def abandon (b : Broker) : Broker :=
  let waiting := b.sessions.flatMap (·.bestEffort.waiting)
  { b with
    events := waiting.foldl (fun t e => t.drop e.id) b.events
    sessions := []
    registry := .empty
    exchange := {} }

end Broker

end PubSub
