import PubSub.Proofs.Frame
import PubSub.Proofs.Runs
/-!
# What a call asks of a session

Seen from its guaranteed deliveries a session is a small machine (`Mail.run`): a message is stored, the
next one is handed out, a delivery is acknowledged, all are taken back, the queue is closed. Every call
on a session is one such job or none at all (`perform_spec`), and so is every delivery of a routed
message (`deliver_spec`).
-/

namespace PubSub

/-- What is removed from a cache was in it. -/
theorem AckCache.remove_eq_ok_iff {c acks : AckCache} {id seq : UInt64} : c.remove id = .ok (seq, acks) ↔
    c.offset < id ∧ c.entries.get? id = some seq ∧ acks = { c with entries := c.entries.erase id } := by
  rw [remove]
  split
  · next hle => exact iff_of_false (by simp) fun h => UInt64.not_lt.2 hle h.1
  · next hlt =>
    split
    · next found hfound =>
      constructor
      · intro h
        obtain ⟨rfl, rfl⟩ := Prod.mk.inj (Except.ok.inj h)
        exact ⟨UInt64.not_le.1 hlt, hfound, rfl⟩
      · rintro ⟨-, hget, rfl⟩
        rw [Option.some.inj (hfound.symm.trans hget)]
    · next hnone =>
      refine iff_of_false (by simp) fun h => ?_
      rw [hnone] at h
      cases h.2.1

/-- Something done with a session's mail. -/
inductive Job where
  | store (m : Message)
  | next
  | acknowledge (id : UInt64)
  | requeue
  | close (clean : Bool)

/-- Whether a job takes a sequence number or a delivery number. -/
def Job.takesNumber : Job → Bool
  | .store _ | .next => true
  | _ => false

namespace Mail

/-- The next delivery under a number of its own. -/
def next (m : Mail) (k : Keyspace) : Except QueueError (Option Delivery) × Mail :=
  match m.durable.pop k with
  | (.ok (some d), durable, _) =>
    (.ok (some ⟨m.counter.next, d.message⟩), { m with
      durable
      counter := m.counter.take.2
      acks := match m.acks.store m.counter.next d.id with
        | .ok acks => acks
        | .error _ => m.acks })
  | (other, durable, _) => (other, { m with durable })

def run (m : Mail) (k : Keyspace) : Job → Mail × Keyspace
  | .store msg =>
    match m.durable.push k msg with
    | .ok (durable, k) => ({ m with durable }, k)
    | .error _ => (m, k)
  | .next => ((m.next k).2, k)
  | .acknowledge id =>
    match m.acks.remove id with
    | .ok (seq, acks) => ({ m with durable := (m.durable.ack k seq).1, acks }, (m.durable.ack k seq).2)
    | .error _ => (m, k)
  | .requeue => ({ m with durable := m.durable.requeue, acks := m.acks.clear.2 }, k)
  | .close clean => ({ m with durable := (m.durable.close k clean).1 }, (m.durable.close k clean).2.1)

variable (m : Mail) (k : Keyspace)

theorem run_store_open {m : Mail} (h : m.durable.closed = false) (k : Keyspace) (msg : Message) :
    m.run k (.store msg) = ({ m with durable := { m.durable with
      next := m.durable.next + 1, pending := m.durable.pending ++ [m.durable.next] } },
      m.durable.bucket.put k m.durable.next (Binary.encodeMessage msg)) := by
  rw [run, DurableQueue.push_open h]

theorem run_store_closed {m : Mail} (h : m.durable.closed = true) (k : Keyspace) (msg : Message) :
    m.run k (.store msg) = (m, k) := by
  rw [run, DurableQueue.push_closed h]

theorem run_acknowledge_ok {m : Mail} {id seq : UInt64} {acks : AckCache} (h : m.acks.remove id = .ok (seq, acks))
    (k : Keyspace) : m.run k (.acknowledge id)
      = ({ m with durable := (m.durable.ack k seq).1, acks }, m.durable.bucket.delete k seq) := by
  simp [run, h, m.durable.ack_records]

theorem run_acknowledge_error {m : Mail} {id : UInt64} {e : AckError} (h : m.acks.remove id = .error e)
    (k : Keyspace) : m.run k (.acknowledge id) = (m, k) := by
  simp [run, h]

theorem run_next_durable : (m.run k .next).1.durable = (m.durable.pop k).2.1 := by
  show (m.next k).2.durable = _
  unfold next
  split <;> rename_i h <;> rw [h]

theorem run_next_counter :
    (m.run k .next).1.counter = m.counter ∨ (m.run k .next).1.counter.next = m.counter.next + 1 := by
  show (m.next k).2.counter = _ ∨ (m.next k).2.counter.next = _
  unfold next
  split
  · exact .inr rfl
  · exact .inl rfl

/-- Only closing closes a queue. -/
theorem run_closed {j : Job} (h : ∀ clean, j ≠ .close clean) : (m.run k j).1.durable.closed = m.durable.closed := by
  cases j with
  | store msg =>
    cases hc : m.durable.closed with
    | true => rw [run_store_closed hc, hc]
    | false => rw [run_store_open hc, hc]
  | next => rw [run_next_durable, m.durable.pop_closed]
  | acknowledge id =>
    cases ha : m.acks.remove id with
    | error e => rw [run_acknowledge_error ha]
    | ok found =>
      rw [run_acknowledge_ok ha]
      exact m.durable.ack_closed k found.1
  | requeue => rfl
  | close clean => exact absurd rfl (h clean)

/-- No job opens a queue again. -/
theorem run_of_closed {m : Mail} (h : m.durable.closed = true) (k : Keyspace) (j : Job) :
    (m.run k j).1.durable.closed = true := by
  by_cases hj : ∃ clean, j = .close clean
  · obtain ⟨clean, rfl⟩ := hj
    exact m.durable.close_closed k clean
  · exact (m.run_closed k fun clean hclean => hj ⟨clean, hclean⟩).trans h

/-- No job changes the bucket of a queue or its window. -/
theorem run_setup (j : Job) : (m.run k j).1.durable.bucket = m.durable.bucket ∧
    (m.run k j).1.durable.window = m.durable.window := by
  cases j with
  | store msg =>
    cases hc : m.durable.closed with
    | true => rw [run_store_closed hc]; exact ⟨rfl, rfl⟩
    | false => rw [run_store_open hc]; exact ⟨rfl, rfl⟩
  | next => rw [run_next_durable]; exact ⟨m.durable.pop_bucket k, m.durable.pop_window k⟩
  | acknowledge id =>
    cases ha : m.acks.remove id with
    | error e => rw [run_acknowledge_error ha]; exact ⟨rfl, rfl⟩
    | ok found => rw [run_acknowledge_ok ha]; exact ⟨m.durable.ack_bucket k found.1, m.durable.ack_window k found.1⟩
  | requeue => exact ⟨rfl, rfl⟩
  | close clean => exact ⟨m.durable.close_bucket k clean, m.durable.close_window k clean⟩

/-- What a job can do to the records. -/
theorem run_records (j : Job) : (m.run k j).2 = k ∨
    (∃ msg, j = .store msg ∧ m.durable.closed = false ∧
      (m.run k j).2 = m.durable.bucket.put k m.durable.next (Binary.encodeMessage msg)) ∨
    (∃ id seq acks, j = .acknowledge id ∧ m.acks.remove id = .ok (seq, acks) ∧
      (m.run k j).2 = m.durable.bucket.delete k seq) ∨
    (j = .close true ∧ m.durable.closed = false ∧ (m.run k j).2 = (m.durable.bucket.clear k).2) := by
  cases j with
  | store msg =>
    cases hc : m.durable.closed with
    | true => rw [run_store_closed hc]; exact .inl rfl
    | false => rw [run_store_open hc]; exact .inr (.inl ⟨msg, rfl, rfl, rfl⟩)
  | next => exact .inl rfl
  | acknowledge id =>
    cases ha : m.acks.remove id with
    | error e => rw [run_acknowledge_error ha]; exact .inl rfl
    | ok found => rw [run_acknowledge_ok ha]; exact .inr (.inr (.inl ⟨id, _, _, rfl, ha, rfl⟩))
  | requeue => exact .inl rfl
  | close clean =>
    cases hc : m.durable.closed with
    | true => exact .inl (by simp [run, DurableQueue.close, hc])
    | false =>
      cases clean with
      | false => exact .inl (by simp [run, DurableQueue.close, hc])
      | true => exact .inr (.inr (.inr ⟨rfl, rfl, DurableQueue.close_records hc k⟩))

end Mail

namespace Session

/-- Whether a message for the session goes to its durable queue. -/
def accepts (s : Session) (m : Message) : Bool :=
  m.qos.isGuaranteed && ((s.matchQoS m.topic).map QoS.isGuaranteed).getD false && !s.durable.closed

/-- What a call asks of the session's mail, if anything. -/
def job? (s : Session) : Call → Option Job
  | .push m => if s.accepts m then some (.store m) else none
  | .nextGuaranteed => some .next
  | .acknowledge id => some (.acknowledge id)
  | .requeue => some .requeue
  | .close => some (.close s.info.clean)
  | _ => none

end Session

namespace Broker

variable {b b' b'' : Broker} {r : SessionRef} {s : Session} {j : Job}

/-- One job is done with the mail of session `r`, and nothing else is. -/
structure Does (r : SessionRef) (j : Job) (b b' : Broker) : Prop where
  frame : Local r b b'
  mail : ∀ s, b.session? r = some s →
    ∃ s', b'.session? r = some s' ∧ (s'.mail, b'.store.queue) = s.mail.run b.store.queue j

namespace Does

/-- A job done where only the interests or the events differ. -/
theorem of_same (hl : Local r b b') (hm : SameMail b b') (h : Does r j b' b'') : Does r j b b'' where
  frame := hl.trans h.frame
  mail s hs := by
    obtain ⟨s', hs', heq⟩ := hm.session? hs
    obtain ⟨s'', hs'', hrun⟩ := h.mail s' hs'
    rw [heq, hm.records] at hrun
    exact ⟨s'', hs'', hrun⟩

end Does

/-! ## Storing -/

theorem SameMail.events (b : Broker) (t : EventTable) : SameMail b { b with events := t } := ⟨rfl, rfl, rfl, rfl⟩

theorem SameMail.pushBestEffort (h : b.session? r = some s) (e : Event) : SameMail b (b.pushBestEffort r s e).2 := by
  unfold Broker.pushBestEffort
  split
  · exact .refl b
  · next outcome q _ =>
    have hset : SameMail b (b.setSession r { s with bestEffort := q }) := setSession h rfl
    split
    · exact (hset.trans (report _ _)).trans (release _ e)
    · exact hset.trans (report _ _)

theorem pushDurable_spec (h : b.session? r = some s) (e : Event) :
    (s.durable.closed = false → (b.pushDurable r s e).1 = .ok () ∧ Does r (.store e.message) b (b.pushDurable r s e).2) ∧
    (s.durable.closed = true → (b.pushDurable r s e).2 = b) := by
  have hframe : Local r b (b.pushDurable r s e).2 := .pushDurable h e
  unfold pushDurable at hframe ⊢
  cases hpush : s.durable.push b.store.queue e.message with
  | error err =>
    have hclosed : s.durable.closed = true := by
      rcases DurableQueue.push_eq_error_iff.1 hpush with ⟨hclosed, -⟩ | ⟨-, f, hf, -⟩
      · exact hclosed
      · cases hf
    exact ⟨fun hopen => by simp [hclosed] at hopen, fun _ => rfl⟩
  | ok stored =>
    rw [hpush] at hframe
    refine ⟨fun _ => ⟨rfl, hframe, fun t ht => ?_⟩, fun hclosed => ?_⟩
    · obtain rfl : s = t := Option.some.inj (h.symm.trans ht)
      refine ⟨{ s with durable := stored.1 }, session?_setSession_self h, ?_⟩
      simp only [Mail.run, Session.mail, hpush]
      rfl
    · rw [DurableQueue.push_closed hclosed] at hpush
      cases hpush

/-- An event offered to a session is stored where it is accepted, and leaves the mail alone otherwise. -/
theorem offer_spec (h : b.session? r = some s) (e : Event) :
    (s.accepts e.message = true → (b.offer r e).1 = .ok () ∧ Does r (.store e.message) b (b.offer r e).2) ∧
    (s.accepts e.message = false → SameMail b (b.offer r e).2) := by
  have hrefused (hno : s.accepts e.message = false) {x : Except QueueError Unit × Broker} (hx : SameMail b x.2) :
      (s.accepts e.message = true → x.1 = .ok () ∧ Does r (.store e.message) b x.2) ∧
      (s.accepts e.message = false → SameMail b x.2) :=
    ⟨fun ha => absurd (hno.symm.trans ha) Bool.false_ne_true, fun _ => hx⟩
  unfold offer
  rw [h]
  dsimp only
  by_cases hq : e.message.qos.isGuaranteed = true
  · rw [if_neg (not_not_intro hq)]
    cases hmatch : s.matchQoS e.message.topic with
    | none => exact hrefused (by simp [Session.accepts, hmatch]) ((SameMail.report b _).trans (.release _ e))
    | some q =>
      dsimp only
      by_cases hg : q.isGuaranteed = true
      · -- The message goes to the durable queue, which refuses it when it is closed.
        obtain ⟨hopen, hclosed⟩ := pushDurable_spec h e
        have haccepts : s.accepts e.message = !s.durable.closed := by simp [Session.accepts, hq, hmatch, hg]
        rw [if_pos hg, haccepts, Bool.not_eq_true', Bool.not_eq_false']
        refine ⟨hopen, fun hc => ?_⟩
        rw [hclosed hc]
        exact .refl b
      · rw [if_neg hg]
        exact hrefused (by simp [Session.accepts, hmatch, hg]) (.pushBestEffort h e)
  · rw [if_pos hq]
    exact hrefused (by simp [Session.accepts, hq]) (.pushBestEffort h e)

theorem deliver_spec {target : Binding} (h : b.session? target.session = some s) (e : Event) :
    (s.accepts e.message = true → Does target.session (.store e.message) b (b.deliver target e)) ∧
    (s.accepts e.message = false → SameMail b (b.deliver target e)) := by
  obtain ⟨haccepted, hrefused⟩ := offer_spec h e
  unfold deliver
  constructor
  · intro ha
    obtain ⟨hok, hdoes⟩ := haccepted ha
    split
    · next heq => rwa [heq] at hdoes
    · next heq =>
      rw [heq] at hok
      cases hok
  · intro ha
    have hsame := hrefused ha
    split
    · next heq => rwa [heq] at hsame
    · next heq =>
      rw [heq] at hsame
      exact (hsame.trans (.report _ _)).trans (.release _ e)

theorem push_spec (h : b.session? r = some s) (m : Message) :
    (s.accepts m = true → Does r (.store m) b (b.push r m).2) ∧
    (s.accepts m = false → SameMail b (b.push r m).2) := by
  have hevents : SameMail b { b with events := (b.events.publish m true).2 } := .events b _
  have hs : ({ b with events := (b.events.publish m true).2 } : Broker).session? r = some s := h
  obtain ⟨haccepted, hrefused⟩ := offer_spec hs (b.events.publish m true).1
  exact ⟨fun ha => .of_same (.events b _) hevents (haccepted ha).2, fun ha => hevents.trans (hrefused ha)⟩

/-! ## The other jobs -/

theorem nextGuaranteed_spec (h : b.session? r = some s) :
    (b.nextGuaranteed r).1 = (s.mail.next b.store.queue).1 ∧ Does r .next b (b.nextGuaranteed r).2 := by
  have hframe := Local.nextGuaranteed b r
  suffices hmail : (b.nextGuaranteed r).1 = (s.mail.next b.store.queue).1 ∧
      ∃ s', (b.nextGuaranteed r).2.session? r = some s' ∧ s'.mail = (s.mail.next b.store.queue).2 ∧
        (b.nextGuaranteed r).2.store.queue = b.store.queue by
    obtain ⟨hresult, s', hs', heq, hrecords⟩ := hmail
    refine ⟨hresult, hframe, fun t ht => ⟨s', hs', ?_⟩⟩
    obtain rfl : s = t := Option.some.inj (h.symm.trans ht)
    rw [Mail.run, heq, hrecords]
  unfold nextGuaranteed Mail.next
  rw [h]
  dsimp only
  have hset (s' : Session) (ns : List Notice) : ((b.report ns).setSession r s').session? r = some s' :=
    session?_setSession_self (b := b.report ns) h
  have hpop : s.mail.durable.pop b.store.queue = s.durable.pop b.store.queue := rfl
  rw [hpop]
  rcases s.durable.pop b.store.queue with ⟨_ | _ | d, q, ns⟩
  · exact ⟨rfl, _, hset _ _, rfl, rfl⟩
  · exact ⟨rfl, _, hset _ _, rfl, rfl⟩
  · have hacks : s.mail.acks.store s.mail.counter.next d.id = s.acks.store s.counter.take.1 d.id := rfl
    simp only [hacks]
    cases s.acks.store s.counter.take.1 d.id with
    | error e => exact ⟨rfl, _, hset _ _, rfl, rfl⟩
    | ok acks => exact ⟨rfl, _, hset _ _, rfl, rfl⟩

theorem acknowledge_spec (h : b.session? r = some s) (id : UInt64) :
    Does r (.acknowledge id) b (b.acknowledge r id) where
  frame := .acknowledge b r id
  mail t ht := by
    obtain rfl : s = t := Option.some.inj (h.symm.trans ht)
    have hacks : s.mail.acks.remove id = s.acks.remove id := rfl
    unfold acknowledge Mail.run
    rw [h]
    simp only [hacks]
    cases s.acks.remove id with
    | error e => exact ⟨s, h, rfl⟩
    | ok found => exact ⟨_, session?_setSession_self h, rfl⟩

theorem requeue_spec (h : b.session? r = some s) : Does r .requeue b (b.requeue r) where
  frame := .requeue b r
  mail t ht := by
    obtain rfl : s = t := Option.some.inj (h.symm.trans ht)
    unfold requeue
    rw [h]
    exact ⟨_, session?_setSession_self h, rfl⟩

theorem closeSession_spec (h : b.session? r = some s) : Does r (.close s.info.clean) b (b.closeSession r) where
  frame := .closeSession b r
  mail t ht := by
    obtain rfl : s = t := Option.some.inj (h.symm.trans ht)
    obtain ⟨hs', hrecords⟩ := closeSession_eq h
    exact ⟨_, hs', by rw [hrecords]; rfl⟩

theorem SameMail.nextBestEffort (b : Broker) (r : SessionRef) : SameMail b (b.nextBestEffort r).2 := by
  unfold Broker.nextBestEffort
  split
  · exact .refl b
  · next s h =>
    split
    · exact .refl b
    · next e d q _ =>
      have hset : SameMail b (b.setSession r { s with bestEffort := q }) := setSession h rfl
      exact hset.trans (release _ e)

/-! ## Calls -/

/-- A call does its job, and leaves all mail alone when it has none. -/
theorem perform_spec (h : b.session? r = some s) (c : Call) :
    (∀ j, s.job? c = some j → Does r j b (b.perform r c)) ∧ (s.job? c = none → SameMail b (b.perform r c)) := by
  have hdone {j : Job} {b' : Broker} (hd : Does r j b b') :
      (∀ i, some j = some i → Does r i b b') ∧ (some j = none → SameMail b b') :=
    ⟨fun i hi => Option.some.inj hi ▸ hd, nofun⟩
  have hidle {b' : Broker} (hs : SameMail b b') :
      (∀ i : Job, none = some i → Does r i b b') ∧ ((none : Option Job) = none → SameMail b b') :=
    ⟨nofun, fun _ => hs⟩
  cases c with
  | push m =>
    obtain ⟨haccepted, hrefused⟩ := push_spec h m
    cases ha : s.accepts m with
    | true => simpa [Session.job?, ha, perform] using haccepted ha
    | false => simpa [Session.job?, ha, perform] using hrefused ha
  | subscribe subs authorize => exact hidle (.subscribe b r subs authorize)
  | unsubscribe filters => exact hidle (.unsubscribe b r filters)
  | update info => exact hidle (.update b r info)
  | cleanWill => exact hidle (.cleanWill b r)
  | nextBestEffort => exact hidle (.nextBestEffort b r)
  | nextGuaranteed => exact hdone (nextGuaranteed_spec h).2
  | acknowledge id => exact hdone (acknowledge_spec h id)
  | requeue => exact hdone (requeue_spec h)
  | close => exact hdone (closeSession_spec h)

theorem perform_absent (h : b.session? r = none) (c : Call) : SameMail b (b.perform r c) := by
  cases c with
  | push m =>
    have h' : ({ b with events := (b.events.publish m true).2 } : Broker).session? r = none := h
    simp only [perform, push, offer, h']
    exact .events b _
  | subscribe subs authorize => exact .subscribe b r subs authorize
  | unsubscribe filters => exact .unsubscribe b r filters
  | update info => exact .update b r info
  | cleanWill => exact .cleanWill b r
  | nextBestEffort => exact .nextBestEffort b r
  | nextGuaranteed => simp only [perform, nextGuaranteed, h]; exact .refl b
  | acknowledge id => simp only [perform, acknowledge, h]; exact .refl b
  | requeue => simp only [perform, requeue, h]; exact .refl b
  | close => simp only [perform, closeSession, h]; exact .refl b

theorem registry_perform (b : Broker) (r : SessionRef) (c : Call) : (b.perform r c).registry = b.registry := by
  cases h : b.session? r with
  | none => exact (perform_absent h c).registry
  | some s =>
    obtain ⟨hdone, hidle⟩ := perform_spec h c
    cases hj : s.job? c with
    | none => exact (hidle hj).registry
    | some j => exact (hdone j hj).frame.interest.registry

end Broker

end PubSub
