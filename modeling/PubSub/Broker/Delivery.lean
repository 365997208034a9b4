import PubSub.Broker.Basic
/-!
# Delivering messages

An event pushed on a session goes to exactly one place: to the best-effort queue, to the durable
queue, or nowhere when it is to be guaranteed and no filter wants it. An event is completed when it
is stored, handed out or dropped. Routing splits an event into a copy for each session the exchange
finds.
-/

namespace PubSub.Broker

/-- Completes an event that nobody needs any more. -/
def release (b : Broker) (e : Event) : Broker := { b with events := b.events.release e.id }

/-! ## Pushing -/

def pushBestEffort (b : Broker) (r : SessionRef) (s : Session) (e : Event) : Except QueueError Unit × Broker :=
  match s.bestEffort.push e with
  | .error err => (.error err, b)
  | .ok (outcome, q) =>
    let b := (b.setSession r { s with bestEffort := q }).report (outcome.notices q e)
    (.ok (), if outcome = .dropped then b.release e else b)

def pushDurable (b : Broker) (r : SessionRef) (s : Session) (e : Event) (answer : WriteAnswer := .written) :
    Except QueueError Unit × Broker :=
  match s.durable.push b.store.queue e.message answer with
  | .error err => (.error err, b)
  | .ok (q, k) => (.ok (), ((b.setSession r { s with durable := q }).setQueueRecords k).release e)

/-- Offers an event to a session. An event that is refused is left as it is. -/
def offer (b : Broker) (r : SessionRef) (e : Event) (answer : WriteAnswer := .written) :
    Except QueueError Unit × Broker :=
  match b.session? r with
  | none => (.ok (), b)
  | some s =>
    if ¬ e.message.qos.isGuaranteed then b.pushBestEffort r s e
    else match s.matchQoS e.message.topic with
      | none => (.ok (), (b.report [.noSubscription s.id e.message]).release e)
      | some q => if q.isGuaranteed then b.pushDurable r s e answer else b.pushBestEffort r s e

/-- Publishes a message to one session. -/
def push (b : Broker) (r : SessionRef) (m : Message) : Except QueueError Unit × Broker :=
  let (e, events) := b.events.publish m true
  { b with events }.offer r e

/-- Offers a copy to a session, and completes it when it is refused. -/
def deliver (b : Broker) (target : Binding) (e : Event) : Broker :=
  match b.offer target.session e with
  | (.ok (), b) => b
  | (.error err, b) => (b.report [.notDelivered target.id e.message.topic err]).release e

/-- Publishes a message to every session with a filter for it, and says to how many. -/
def route (b : Broker) (m : Message) : Nat × Broker :=
  let (e, events) := b.events.publish m true
  let targets := b.exchange.targets m.topic
  let (copies, events) := events.split e.id targets.length
  let b := { b with events := events.drop e.id }
  (targets.length, (targets.zip copies).foldl (fun b tc => b.deliver tc.1 tc.2) b)

/-! ## Handing out -/

/-- The next best-effort message of a session. -/
def nextBestEffort (b : Broker) (r : SessionRef) : Option Delivery × Broker :=
  match b.session? r with
  | none => (none, b)
  | some s =>
    match s.bestEffort.pop with
    | (none, _) => (none, b)
    | (some (e, d), q) => (some d, (b.setSession r { s with bestEffort := q }).release e)

/-- The next guaranteed message of a session, under a number of its own to be acknowledged by. -/
def nextGuaranteed (b : Broker) (r : SessionRef) : Except QueueError (Option Delivery) × Broker :=
  match b.session? r with
  | none => (.ok none, b)
  | some s =>
    let (result, q, notices) := s.durable.pop b.store.queue
    let s := { s with durable := q }
    let b := b.report notices
    match result with
    | .ok (some d) =>
      let (id, counter) := s.counter.take
      match s.acks.store id d.id with
      | .ok acks => (.ok (some ⟨id, d.message⟩), b.setSession r { s with counter, acks })
      | .error e => (.ok (some ⟨id, d.message⟩), (b.setSession r { s with counter }).report [.untracked s.id e])
    | other => (other, b.setSession r s)

/-- Acknowledges a delivery. Numbers that are not outstanding are only reported. -/
def acknowledge (b : Broker) (r : SessionRef) (id : UInt64) : Broker :=
  match b.session? r with
  | none => b
  | some s =>
    match s.acks.remove id with
    | .error e => b.report [.ackRefused s.id e]
    | .ok (seq, acks) =>
      let (q, k) := s.durable.ack b.store.queue seq
      (b.setSession r { s with durable := q, acks }).setQueueRecords k

/-- Makes every delivery that is not acknowledged available again. -/
def requeue (b : Broker) (r : SessionRef) : Broker :=
  match b.session? r with
  | none => b
  | some s =>
    let (n, acks) := s.acks.clear
    (b.setSession r { s with durable := s.durable.requeue, acks }).report
      (if n = 0 then [] else [.requeued s.id n])

end PubSub.Broker
