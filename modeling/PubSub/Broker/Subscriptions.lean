import PubSub.Authorization
import PubSub.Broker.Basic
/-!
# Subscribing

A subscription is held in three places: in what is known of the session, in its filters, and as a
binding of the exchange. Each operation here changes all three and then writes the session's record.
-/

namespace PubSub.Broker

/-- Registers every subscription a session is known to have. -/
def registerAll (b : Broker) (r : SessionRef) : Broker :=
  match b.session? r with
  | none => b
  | some s =>
    let subs := s.info.subscriptions.entries
    { b.setSession r (s.register subs) with
      exchange := b.exchange.bindAll (subs.map (·.1)) s.id r }

/-- Removes every binding of a session and leaves its subscriptions as they are. -/
def unbindAll (b : Broker) (r : SessionRef) : Broker :=
  match b.session? r with
  | none => b
  | some s => { b with exchange := b.exchange.unbindAll s.info.subscriptions.keys s.id r }

/-- Takes filters out of a session and out of the exchange. -/
def forgetAll (b : Broker) (r : SessionRef) (filters : List String) : Broker :=
  match b.session? r with
  | none => b
  | some s =>
    { b.setSession r (filters.foldl Session.forget s) with
      exchange := b.exchange.unbindAll filters s.id r }

/-- Writes the record of a session as it is now. -/
def persistSession (b : Broker) (r : SessionRef) : Broker :=
  match b.session? r with
  | none => b
  | some s => b.persist s.info

/-- Adds the subscriptions whose filters are in order to what is known of a session. -/
def accept (b : Broker) (r : SessionRef) (subs : List Subscription) : Broker :=
  match b.session? r with
  | none => b
  | some s =>
    let accepted := subs.filter fun sub => (Topic.flaw sub.filter).isNone
    let refused := subs.filterMap fun sub =>
      (Topic.flaw sub.filter).map fun f => Notice.subscriptionRefused s.id ⟨sub.filter, f⟩
    let subscriptions := accepted.foldl (fun m sub => m.insert sub.filter sub.qos) s.info.subscriptions
    (b.setSession r { s with info := { s.info with subscriptions } }).report refused

/-- Subscribes, and then asks about every subscription held; those not allowed are removed. Answers
with what was asked. With nothing to subscribe to, nothing is done. -/
def subscribe (b : Broker) (r : SessionRef) (subs : List Subscription) (authorize : Option Authorize) :
    List (Action × String) × Broker :=
  match subs, b.session? r with
  | [], _ | _, none => ([], b)
  | _, some s =>
    let b := (b.accept r subs).registerAll r
    match authorize with
    | none => ([], b.persistSession r)
    | some allowed =>
      let held := ((b.session? r).map (·.info.subscriptions.keys)).getD []
      let denied := held.filter fun f => ¬ allowed .subscribe f
      let b := (b.report (denied.map (.subscriptionDenied s.id))).forgetAll r denied
      (held.map (.subscribe, ·), b.persistSession r)

/-- Unsubscribes. Filters that are not held do no harm. -/
def unsubscribe (b : Broker) (r : SessionRef) (filters : List String) : Broker :=
  match filters with
  | [] => b
  | _ => (b.forgetAll r filters).persistSession r

/-- Takes over a new will message and clean flag. -/
def update (b : Broker) (r : SessionRef) (info : Info) : Broker :=
  match b.session? r with
  | none => b
  | some s =>
    (b.setSession r { s with info := { s.info with will := info.will, clean := info.clean } }).persistSession r

/-- Takes back the will message. -/
def cleanWill (b : Broker) (r : SessionRef) : Broker :=
  match b.session? r with
  | none => b
  | some s => (b.setSession r { s with info := { s.info with will := none } }).persistSession r

end PubSub.Broker
