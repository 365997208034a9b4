import PubSub.Proofs.Frame
import PubSub.Proofs.Runs
/-!
# Requests of clients

A client knows its id and not the sessions of a broker. What it asks for is done with the session registered
under the id (`Broker.serve`), and it is told what came of it (`Broker.reply`). Requests that are of no client
concern all of them: routing, closing, and opening the broker anew.
-/

namespace PubSub

/-- What can be asked about a session. -/
inductive Query where
  | matchQoS (topic : String)
  | info
  | will
  | inflight

inductive Request where
  | connect (info : Info)
  | disconnect (id : String)
  | call (id : String) (c : Call)
  | query (id : String) (q : Query)
  | route (m : Message)
  | close
  | reopen (settings : Settings) (orderly : Bool)

namespace Request

/-- The client that a request is of. -/
def client? : Request → Option String
  | connect info => some info.id
  | disconnect id | call id _ | query id _ => some id
  | route _ | close | reopen _ _ => none

/-- Whether a request is of this client or of none. -/
def concerns (id : String) (q : Request) : Bool := q.client?.all (· = id)

theorem concerns_iff {id : String} {q : Request} : q.concerns id = true ↔ q.client? = none ∨ q.client? = some id := by
  unfold concerns
  cases q.client? <;> simp

theorem concerns_eq_false_iff {id : String} {q : Request} :
    q.concerns id = false ↔ ∃ other, q.client? = some other ∧ other ≠ id := by
  unfold concerns
  cases q.client? <;> simp

/-- A broker is opened with usable settings only. -/
def Configured : Request → Prop
  | reopen settings _ => settings.flaw = none
  | _ => True

end Request

/-- What is told of a request. -/
inductive Reply where
  | done
  /-- The client has no session. -/
  | absent
  | connected (result : Except StoreError Unit)
  | pushed (result : Except QueueError Unit)
  /-- What was asked of those who allow subscriptions. -/
  | asked (about : List (Action × String))
  | delivered (result : Except QueueError (Option Delivery))
  | service (q : Option QoS)
  | info (i : Info)
  | will (m : Option Message)
  | inflight (count : Nat)
  | routed (sessions : Nat)
  | opened (result : Except BrokerError Unit)
  deriving DecidableEq

def Session.tell (s : Session) : Query → Reply
  | .matchQoS topic => .service (s.matchQoS topic)
  | .info => .info s.info
  | .will => .will s.info.will
  | .inflight => .inflight s.inflight

namespace Broker

variable {b : Broker} {r : SessionRef} {s : Session} {id : String}

/-- The session registered under a client id. -/
def client? (b : Broker) (id : String) : Option Session := (b.registry.get? id).bind b.session?

theorem client?_of (hr : b.registry.get? id = some r) (hs : b.session? r = some s) : b.client? id = some s := by
  rw [client?, hr]
  exact hs

theorem client?_free (h : b.registry.get? id = none) : b.client? id = none := by
  rw [client?, h]
  rfl

theorem client?_eq_some_iff : b.client? id = some s ↔ ∃ r, b.registry.get? id = some r ∧ b.session? r = some s := by
  rw [client?, Option.bind_eq_some_iff]

/-- The operation that a request comes to. -/
def op? (b : Broker) : Request → Option Op
  | .connect info => some (.connect info)
  | .disconnect id => some (.disconnect id)
  | .call id c => (b.registry.get? id).map (.call · c)
  | .query _ _ => none
  | .route m => some (.route m)
  | .close => some .close
  | .reopen settings orderly => some (.reopen settings orderly)

def serve (b : Broker) (q : Request) : Broker := ((b.op? q).map b.step).getD b

/-- What a call answers. -/
def answer (b : Broker) (r : SessionRef) : Call → Reply
  | .push m => .pushed (b.push r m).1
  | .subscribe subs authorize => .asked (b.subscribe r subs authorize).1
  | .nextBestEffort => .delivered (.ok (b.nextBestEffort r).1)
  | .nextGuaranteed => .delivered (b.nextGuaranteed r).1
  | _ => .done

def reply (b : Broker) : Request → Reply
  | .connect info => .connected ((b.connect info).1.map fun _ => ())
  | .call id c => ((b.registry.get? id).map (b.answer · c)).getD .absent
  | .query id q => ((b.client? id).map (·.tell q)).getD .absent
  | .route m => .routed (b.route m).1
  | .reopen settings orderly => .opened (b.reopen settings orderly).1
  | .disconnect _ | .close => .done

theorem serve_call (hr : b.registry.get? id = some r) (c : Call) : b.serve (.call id c) = b.perform r c := by
  simp only [serve, op?, hr, Option.map_some]
  rfl

theorem serve_call_free (h : b.registry.get? id = none) (c : Call) : b.serve (.call id c) = b := by
  simp only [serve, op?, h, Option.map_none]
  rfl

theorem reply_call (hr : b.registry.get? id = some r) (c : Call) : b.reply (.call id c) = b.answer r c := by
  simp only [reply, hr, Option.map_some]
  rfl

theorem reply_call_free (h : b.registry.get? id = none) (c : Call) : b.reply (.call id c) = .absent := by
  simp only [reply, h, Option.map_none]
  rfl

/-- What a client is told of its own requests. -/
def replies (id : String) : Broker → List Request → List Reply
  | _, [] => []
  | b, q :: qs => (if q.client? = some id then [b.reply q] else []) ++ replies id (b.serve q) qs

/-- The records in the bucket of a client. -/
def bucketRecords (b : Broker) (id : String) : OrderedMap UInt64 Bytes :=
  match Bucket.ofName id with
  | .ok bucket => bucket.contents b.store.queue
  | .error _ => .empty

end Broker

/-- What requests come to for one client: what it is told, and what is stored of it in the end. -/
structure Outcome where
  replies : List Reply
  record : Option Bytes
  records : OrderedMap UInt64 Bytes
  deriving DecidableEq

namespace Broker

def outcome (b : Broker) (id : String) (qs : List Request) : Outcome where
  replies := replies id b qs
  record := OrderedMap.get? (qs.foldl serve b).store.sessions (Text.bytes id)
  records := (qs.foldl serve b).bucketRecords id

theorem outcome_cons (b : Broker) (id : String) (q : Request) (qs : List Request) : b.outcome id (q :: qs)
    = { (b.serve q).outcome id qs with
        replies := (if q.client? = some id then [b.reply q] else []) ++ ((b.serve q).outcome id qs).replies } := rfl

end Broker

end PubSub
