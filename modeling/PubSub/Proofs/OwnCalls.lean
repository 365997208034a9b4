import PubSub.Proofs.Bindings
import PubSub.Proofs.Offering
import PubSub.Proofs.SameView
/-!
# Calls that a client makes

What a call does to a session and what it answers depend on nothing that the client of the session cannot see:
made on two brokers that look the same to it, a call leaves them looking the same and answers the same
(`SameView.perform`, `SameView.answer`). Of the stored records a session looks at those of its bucket only.
-/

namespace PubSub

/-! ## Reading one bucket -/

theorem Bucket.read_congr {α : Type} {b : Bucket} {k k' : Keyspace} (h : b.contents k' = b.contents k)
    (value : Binary.Reader α) (seq : UInt64) : b.read k' value seq = b.read k value seq := by
  have hget : b.get? k' seq = b.get? k seq := by rw [← b.get?_contents, ← b.get?_contents, h]
  unfold read
  rw [hget]

namespace DurableQueue

variable {q : DurableQueue} {k k' : Keyspace}

theorem firstStored_congr {b : Bucket} (h : b.contents k' = b.contents k) (pending : List UInt64) :
    firstStored b k' (fun _ => none) pending = firstStored b k (fun _ => none) pending := by
  induction pending with
  | nil => rfl
  | cons seq rest ih => simp only [firstStored, b.read_congr h, ih]

theorem new_congr {b : Bucket} (h : b.contents k' = b.contents k) (window : Nat) : new b window k' = new b window k := by
  have hsequences : b.sequences k' = b.sequences k := by rw [b.sequences_eq, b.sequences_eq, h]
  unfold new
  rw [hsequences]

theorem pop_congr (h : q.bucket.contents k' = q.bucket.contents k) : q.pop k' = q.pop k := by
  unfold pop
  rw [firstStored_congr h]

theorem close_congr (h : q.bucket.contents k' = q.bucket.contents k) (clean : Bool) :
    (q.close k' clean).1 = (q.close k clean).1 ∧
      q.bucket.contents (q.close k' clean).2.1 = q.bucket.contents (q.close k clean).2.1 := by
  unfold close
  split
  · exact ⟨rfl, h⟩
  · split
    · exact ⟨rfl, (q.bucket.contents_clear k').trans (q.bucket.contents_clear k).symm⟩
    · exact ⟨rfl, h⟩

end DurableQueue

namespace Mail

variable {m : Mail} {k k' : Keyspace}

theorem next_congr (h : m.durable.bucket.contents k' = m.durable.bucket.contents k) : m.next k' = m.next k := by
  unfold next
  rw [DurableQueue.pop_congr h]

theorem run_congr (h : m.durable.bucket.contents k' = m.durable.bucket.contents k) (j : Job) :
    (m.run k' j).1 = (m.run k j).1 ∧
      m.durable.bucket.contents (m.run k' j).2 = m.durable.bucket.contents (m.run k j).2 := by
  cases j with
  | store msg =>
    cases hc : m.durable.closed with
    | true => rw [run_store_closed hc, run_store_closed hc]; exact ⟨rfl, h⟩
    | false =>
      rw [run_store_open hc, run_store_open hc]
      exact ⟨rfl, by rw [Bucket.contents_put, Bucket.contents_put, h]⟩
  | next => exact ⟨congrArg Prod.snd (next_congr h), h⟩
  | acknowledge id =>
    cases ha : m.acks.remove id with
    | error e => rw [run_acknowledge_error ha, run_acknowledge_error ha]; exact ⟨rfl, h⟩
    | ok found =>
      rw [run_acknowledge_ok ha, run_acknowledge_ok ha]
      exact ⟨rfl, by rw [Bucket.contents_delete, Bucket.contents_delete, h]⟩
  | requeue => exact ⟨rfl, h⟩
  | close clean =>
    obtain ⟨hqueue, hrecords⟩ := DurableQueue.close_congr h clean
    refine ⟨?_, hrecords⟩
    show ({ m with durable := (m.durable.close k' clean).1 } : Mail) = { m with durable := (m.durable.close k clean).1 }
    rw [hqueue]

/-- What is done with the mail, if anything. -/
def runs (m : Mail) (k : Keyspace) : Option Job → Mail × Keyspace
  | none => (m, k)
  | some j => m.run k j

theorem runs_bucket (m : Mail) (k : Keyspace) (j : Option Job) : (m.runs k j).1.durable.bucket = m.durable.bucket := by
  cases j with
  | none => rfl
  | some j => exact (m.run_setup k j).1

theorem runs_congr (h : m.durable.bucket.contents k' = m.durable.bucket.contents k) (j : Option Job) :
    (m.runs k' j).1 = (m.runs k j).1 ∧
      m.durable.bucket.contents (m.runs k' j).2 = m.durable.bucket.contents (m.runs k j).2 := by
  cases j with
  | none => exact ⟨rfl, h⟩
  | some j => exact run_congr h j

end Mail

/-! ## What waits for a best-effort delivery -/

namespace BestEffortQueue

theorem anonymous_offered (q : BestEffortQueue) (e : Event) : (q.offered e).anonymous = q.anonymous.offered e.anonymous := by
  have hlength : q.anonymous.waiting.length = q.waiting.length := List.length_map _
  unfold offered
  rw [show q.anonymous.closed = q.closed from rfl, show q.anonymous.capacity = q.capacity from rfl, hlength]
  split
  · rfl
  · simp only [anonymous, List.map_append, List.map_cons, List.map_nil]

theorem anonymous_pop (q : BestEffortQueue) : q.pop.2.anonymous = q.anonymous.pop.2 ∧
    q.pop.1.map (·.2) = q.anonymous.pop.1.map (·.2) := by
  obtain ⟨name, capacity, waiting, counter, closed⟩ := q
  cases waiting <;> exact ⟨rfl, rfl⟩

theorem anonymous_close (q : BestEffortQueue) : q.close.2.anonymous = q.anonymous.close.2 := by
  unfold close
  rw [show q.anonymous.closed = q.closed from rfl]
  split <;> rfl

end BestEffortQueue

namespace Session

variable {s s' : Session}

/-- Where an event comes from makes no difference to what a client sees of a session it was offered to. -/
theorem seen_offered (h : s'.seen = s.seen) {e e' : Event} (he : e'.message = e.message) :
    (s'.offered e').seen = (s.offered e).seen := by
  have hseen (s : Session) (e : Event) : (s.offered e).seen = s.seen.offered e.anonymous := by
    unfold offered
    rw [show s.seen.lane? e.anonymous.message = s.lane? e.message from rfl]
    split
    · rfl
    · show ({ s with bestEffort := (s.bestEffort.offered e).anonymous } : Session) = _
      rw [BestEffortQueue.anonymous_offered]
      rfl
    · rw [show s.seen.durable = s.durable from rfl]
      split <;> rfl
  have hanonymous : e'.anonymous = e.anonymous := congrArg (Event.mk _) he
  rw [hseen, hseen, h, hanonymous]

/-- What waits after a call. -/
def backlog (s : Session) : Call → BestEffortQueue
  | .push m => (s.offered ⟨.published 0, m⟩).bestEffort
  | .nextBestEffort => s.bestEffort.pop.2
  | .close => s.bestEffort.close.2
  | _ => s.bestEffort

theorem backlog_congr (h : s'.seen = s.seen) (c : Call) : (s'.backlog c).anonymous = (s.backlog c).anonymous := by
  have hqueue : s'.bestEffort.anonymous = s.bestEffort.anonymous := congrArg Session.bestEffort h
  cases c with
  | push m => exact congrArg Session.bestEffort (seen_offered h rfl)
  | nextBestEffort =>
    show s'.bestEffort.pop.2.anonymous = s.bestEffort.pop.2.anonymous
    rw [s'.bestEffort.anonymous_pop.1, s.bestEffort.anonymous_pop.1, hqueue]
  | close =>
    show s'.bestEffort.close.2.anonymous = s.bestEffort.close.2.anonymous
    rw [s'.bestEffort.anonymous_close, s.bestEffort.anonymous_close, hqueue]
  | _ => exact hqueue

end Session

namespace Broker

variable {a b b' b'' : Broker} {q r : SessionRef} {s s' : Session} {id : String}

/-- No best-effort queue has changed. -/
def SameBacklog (b b' : Broker) : Prop := b'.sessions.map Session.bestEffort = b.sessions.map Session.bestEffort

namespace SameBacklog

theorem refl (b : Broker) : SameBacklog b b := rfl

theorem trans (h : SameBacklog b b') (h' : SameBacklog b' b'') : SameBacklog b b'' := Eq.trans h' h

theorem setSession (hs : b.session? r = some s) (h : s'.bestEffort = s.bestEffort) :
    SameBacklog b (b.setSession r s') := map_setSession hs h

theorem session? (h : SameBacklog b b') (r : SessionRef) :
    (b'.session? r).map Session.bestEffort = (b.session? r).map Session.bestEffort := by
  have hr : (b'.sessions.map Session.bestEffort)[r]? = (b.sessions.map Session.bestEffort)[r]? := by rw [h]
  rw [List.getElem?_map, List.getElem?_map] at hr
  exact hr

end SameBacklog

/-- No best-effort queue has changed, and nothing about any event. -/
structure Idle (b b' : Broker) : Prop where
  backlog : SameBacklog b b'
  events : b'.events = b.events

namespace Idle

theorem refl (b : Broker) : Idle b b := ⟨.refl b, rfl⟩

theorem trans (h : Idle b b') (h' : Idle b' b'') : Idle b b'' := ⟨h.backlog.trans h'.backlog, h'.events.trans h.events⟩

theorem setSession (hs : b.session? r = some s) (h : s'.bestEffort = s.bestEffort) : Idle b (b.setSession r s') :=
  ⟨.setSession hs h, rfl⟩

theorem report (b : Broker) (ns : List Notice) : Idle b (b.report ns) := ⟨rfl, rfl⟩

theorem persistSession (b : Broker) (r : SessionRef) : Idle b (b.persistSession r) := by
  unfold Broker.persistSession
  split <;> exact ⟨rfl, rfl⟩

theorem accept (b : Broker) (r : SessionRef) (subs : List Subscription) : Idle b (b.accept r subs) := by
  unfold Broker.accept
  split
  · exact refl b
  · next s hs => exact ⟨map_setSession hs rfl, rfl⟩

theorem registerAll (b : Broker) (r : SessionRef) : Idle b (b.registerAll r) := by
  unfold Broker.registerAll
  split
  · exact refl b
  · next s hs => exact ⟨map_setSession hs rfl, rfl⟩

theorem forgetAll (b : Broker) (r : SessionRef) (filters : List String) : Idle b (b.forgetAll r filters) := by
  have hforget (filters : List String) (s : Session) : (filters.foldl Session.forget s).bestEffort = s.bestEffort := by
    induction filters generalizing s with
    | nil => rfl
    | cons f filters ih => exact ih (s.forget f)
  unfold Broker.forgetAll
  split
  · exact refl b
  · next s hs => exact ⟨map_setSession hs (hforget filters s), rfl⟩

theorem unbindAll (b : Broker) (r : SessionRef) : Idle b (b.unbindAll r) := by
  unfold Broker.unbindAll
  split <;> exact ⟨rfl, rfl⟩

theorem subscribe (b : Broker) (r : SessionRef) (subs : List Subscription) (authorize : Option Authorize) :
    Idle b (b.subscribe r subs authorize).2 := by
  have hbound : Idle b ((b.accept r subs).registerAll r) := (accept b r subs).trans (registerAll _ r)
  rcases subscribe_cases b r subs authorize with ⟨heq, -⟩ | ⟨-, -, heq | ⟨ns, denied, heq⟩⟩ <;> rw [heq]
  · exact refl b
  · exact hbound.trans (persistSession _ r)
  · exact ((hbound.trans (report _ ns)).trans (forgetAll _ r denied)).trans (persistSession _ r)

theorem unsubscribe (b : Broker) (r : SessionRef) (filters : List String) : Idle b (b.unsubscribe r filters) := by
  unfold Broker.unsubscribe
  split
  · exact refl b
  · exact (forgetAll b r _).trans (persistSession _ r)

theorem update (b : Broker) (r : SessionRef) (info : Info) : Idle b (b.update r info) := by
  unfold Broker.update
  split
  · exact refl b
  · next hs =>
    refine (setSession hs ?_).trans (persistSession _ r)
    rfl

theorem cleanWill (b : Broker) (r : SessionRef) : Idle b (b.cleanWill r) := by
  unfold Broker.cleanWill
  split
  · exact refl b
  · next hs =>
    refine (setSession hs ?_).trans (persistSession _ r)
    rfl

theorem nextGuaranteed (b : Broker) (r : SessionRef) : Idle b (b.nextGuaranteed r).2 := by
  unfold Broker.nextGuaranteed
  split
  · exact refl b
  · next s hs =>
    have hset (acks : AckCache) (counter : Counter) (ns : List Notice) : Idle b ((b.report ns).setSession r
        { s with durable := (s.durable.pop b.store.queue).2.1, acks, counter }) :=
      ⟨map_setSession (b := b.report ns) hs rfl, rfl⟩
    dsimp only
    split
    · split
      · exact hset _ _ _
      · exact (hset _ _ _).trans (report _ _)
    · exact hset _ _ _

theorem acknowledge (b : Broker) (r : SessionRef) (id : UInt64) : Idle b (b.acknowledge r id) := by
  unfold Broker.acknowledge
  split
  · exact refl b
  · next s hs =>
    split
    · exact report b _
    · exact ⟨map_setSession hs rfl, rfl⟩

theorem requeue (b : Broker) (r : SessionRef) : Idle b (b.requeue r) := by
  unfold Broker.requeue
  split
  · exact refl b
  · next s hs => exact ⟨map_setSession hs rfl, rfl⟩

end Idle

/-- What waits for a session after a call. -/
theorem perform_backlog (hs : b.session? r = some s) (c : Call) :
    ∃ s', (b.perform r c).session? r = some s' ∧ s'.bestEffort.anonymous = (s.backlog c).anonymous := by
  have hidle {b' : Broker} (h : Idle b b') :
      ∃ s', b'.session? r = some s' ∧ s'.bestEffort.anonymous = s.bestEffort.anonymous := by
    have hr := h.backlog.session? r
    rw [hs] at hr
    obtain ⟨s', hs', heq⟩ := Option.map_eq_some_iff.1 hr
    exact ⟨s', hs', congrArg BestEffortQueue.anonymous heq⟩
  cases c with
  | push m =>
    obtain ⟨-, e, he, hs'⟩ := push_eq hs m
    exact ⟨_, hs', congrArg Session.bestEffort (Session.seen_offered rfl he)⟩
  | subscribe subs authorize => exact hidle (.subscribe b r subs authorize)
  | unsubscribe filters => exact hidle (.unsubscribe b r filters)
  | update info => exact hidle (.update b r info)
  | cleanWill => exact hidle (.cleanWill b r)
  | nextBestEffort =>
    simp only [perform, nextBestEffort, hs, Session.backlog]
    cases hpop : s.bestEffort.pop with
    | mk found queue =>
      cases found with
      | none =>
        refine ⟨s, hs, ?_⟩
        unfold BestEffortQueue.pop at hpop
        split at hpop <;> cases hpop
        rfl
      | some found => exact ⟨_, session?_setSession_self hs, rfl⟩
  | nextGuaranteed => exact hidle (.nextGuaranteed b r)
  | acknowledge id => exact hidle (.acknowledge b r id)
  | requeue => exact hidle (.requeue b r)
  | close => exact ⟨_, (closeSession_eq hs).1, rfl⟩

/-- What a call makes of its session and of the stored records. -/
theorem perform_session (hs : b.session? r = some s) (c : Call) :
    ∃ s', (b.perform r c).session? r = some s' ∧ s'.interest = s.interest.after c ∧
      (s'.mail, (b.perform r c).store.queue) = s.mail.runs b.store.queue (s.job? c) ∧
      s'.bestEffort.anonymous = (s.backlog c).anonymous := by
  obtain ⟨s', hs', hinterest⟩ := (perform_wants b r c).session? hs
  obtain ⟨t, ht, hwaiting⟩ := perform_backlog hs c
  obtain rfl := Option.some.inj (hs'.symm.trans ht)
  refine ⟨s', hs', hinterest, ?_, hwaiting⟩
  obtain ⟨hdone, hidle⟩ := perform_spec hs c
  cases hj : s.job? c with
  | none =>
    obtain ⟨t, ht, hmail⟩ := (hidle hj).session? hs
    obtain rfl := Option.some.inj (hs'.symm.trans ht)
    rw [hmail, (hidle hj).records]
    rfl
  | some j =>
    obtain ⟨t, ht, hmail⟩ := (hdone j hj).mail s hs
    obtain rfl := Option.some.inj (hs'.symm.trans ht)
    exact hmail

/-! ## The same call on two brokers -/

/-- A broker as it comes about by requests: sound, and with bindings of registered sessions only. -/
structure Coherent (b : Broker) : Prop where
  sound : Sound b
  tied : Tied b

/-- What is bound after a call: what was bound and what it binds, but for what it unbinds. -/
theorem Coherent.isBound_perform (hb : Coherent b) (hr : b.registry.get? s.info.id = some r) (hs : b.session? r = some s)
    (c : Call) (f : String) : (b.perform r c).exchange.isBound f s.info.id = true ↔
      (b.exchange.isBound f s.info.id = true ∨ f ∈ s.interest.binds c) ∧ f ∉ s.interest.unbinds c := by
  -- Whatever is bound under the id is bound to the session registered under it.
  have hsession : ∀ x ∈ b.exchange.bindings, x.id = s.info.id → x.session = r := fun x hx hid =>
    Option.some.inj ((hid ▸ hb.tied.registered hx).symm.trans hr)
  rw [perform_exchange hs, Exchange.isBound_iff, Exchange.isBound_iff]
  simp only [Exchange.mem_unbindAll, Exchange.mem_bindAll]
  constructor
  · rintro ⟨x, ⟨⟨hx, -⟩ | ⟨hbinds, hid, hxr⟩, hno⟩, rfl, hid⟩
    · exact ⟨.inl ⟨x, hx, rfl, hid⟩, fun hf => hno ⟨hf, hid, hsession x hx hid⟩⟩
    · exact ⟨.inr hbinds, fun hf => hno ⟨hf, hid, hxr⟩⟩
  · rintro ⟨hf, hno⟩
    by_cases hbinds : f ∈ s.interest.binds c
    · exact ⟨⟨f, s.info.id, r⟩, ⟨.inr ⟨hbinds, rfl, rfl⟩, fun hunbinds => hno hunbinds.1⟩, rfl, rfl⟩
    · obtain ⟨x, hx, rfl, hid⟩ := hf.resolve_right hbinds
      exact ⟨x, ⟨.inl ⟨hx, fun he => hbinds he.1⟩, fun hunbinds => hno hunbinds.1⟩, rfl, hid⟩

/-- The list of what is asked about is what is held after subscribing. -/
theorem subscribe_answer (hs : b.session? r = some s) (subs : List Subscription) (authorize : Option Authorize) :
    (b.subscribe r subs authorize).1 = match subs, authorize with
      | [], _ | _, none => []
      | sub :: subs, some _ => (s.interest.accept (sub :: subs)).info.subscriptions.keys.map (.subscribe, ·) := by
  cases subs with
  | nil => rfl
  | cons sub subs =>
    cases authorize with
    | none => simp only [subscribe, hs]
    | some allowed =>
      obtain ⟨s', hs', heq⟩ := ((Wants.accept b r (sub :: subs)).trans (.registerAll _ r)).session? hs
      have hkeys : s'.info.subscriptions.keys = (s.interest.accept (sub :: subs)).info.subscriptions.keys :=
        congrArg (·.info.subscriptions.keys) heq
      simp only [subscribe, hs, hs', Option.map_some, Option.getD_some, hkeys]

theorem nextBestEffort_answer (hs : b.session? r = some s) :
    (b.nextBestEffort r).1 = s.bestEffort.pop.1.map (·.2) := by
  unfold nextBestEffort
  rw [hs]
  dsimp only
  split
  · next heq => rw [heq]; rfl
  · next heq => rw [heq]; rfl

namespace SameView

/-- Two brokers with the same session of a client, as far as the client can see. -/
theorem bucket (h : SameView id a b) (ha : Sound a) (hs : a.session? q = some s) (hid : s.info.id = id) :
    s.durable.bucket.contents b.store.queue = s.durable.bucket.contents a.store.queue :=
  h.records s.durable.bucket ((ha.named hs).trans hid)

theorem perform (h : SameView id a b) (ha : Coherent a) (hb : Coherent b) (hq : a.registry.get? id = some q)
    (hr : b.registry.get? id = some r) (c : Call) : SameView id (a.perform q c) (b.perform r c) := by
  obtain ⟨r', s, t, hr', hs, ht, rfl, hseen⟩ := h.registered ha.sound hq
  obtain rfl := Option.some.inj (hr.symm.trans hr')
  have hinterest : t.interest = s.interest := Session.interest_eq_of_seen hseen
  have hid : t.info.id = s.info.id := Interest.id_eq hinterest
  have hmail : t.mail = s.mail := Session.mail_eq_of_seen hseen
  have hjob : t.job? c = s.job? c := by
    show t.seen.job? c = s.seen.job? c
    rw [hseen]
  obtain ⟨hrunmail, hrunrecords⟩ := Mail.runs_congr (m := s.mail) (h.bucket ha.sound hs rfl) (s.job? c)
  obtain ⟨s', hs', hsinterest, hsrun, hswaiting⟩ := perform_session hs c
  obtain ⟨t', ht', htinterest, htrun, htwaiting⟩ := perform_session ht c
  rw [hmail, hjob] at htrun
  constructor
  · rw [settings_perform, settings_perform, h.settings]
  · rw [client?_of ((congrArg (OrderedMap.get? · _) (registry_perform a q c)).trans hq) hs',
      client?_of ((congrArg (OrderedMap.get? · _) (registry_perform b r c)).trans hr) ht', Option.map_some, Option.map_some]
    refine congrArg some (Session.seen_eq ?_ ?_ ?_)
    · rw [htinterest, hsinterest, hinterest]
    · exact (congrArg Prod.fst htrun).trans (hrunmail.trans (congrArg Prod.fst hsrun).symm)
    · rw [htwaiting, hswaiting, Session.backlog_congr hseen]
  · rw [perform_records hs, perform_records ht, hinterest]
    split
    · rw [show s.info.id = (s.interest.after c).info.id from (s.interest.after_id c).symm,
        SessionRecords.get?_written_self, SessionRecords.get?_written_self]
    · exact h.record
  · intro bucket hbucket
    obtain rfl := s.durable.bucket.eq_of_name (hbucket.trans (ha.sound.named hs).symm)
    have hsrecords : (a.perform q c).store.queue = (s.mail.runs a.store.queue (s.job? c)).2 := congrArg Prod.snd hsrun
    have htrecords : (b.perform r c).store.queue = (s.mail.runs b.store.queue (s.job? c)).2 := congrArg Prod.snd htrun
    rw [hsrecords, htrecords]
    exact hrunrecords
  · intro f
    have hbound := hb.isBound_perform (hid ▸ hr) ht c f
    rw [hid, hinterest] at hbound
    rw [Bool.eq_iff_iff, hbound, ha.isBound_perform hq hs c f, h.bound]

theorem answer (h : SameView id a b) (ha : Sound a) (hq : a.registry.get? id = some q) (hr : b.registry.get? id = some r)
    (c : Call) : b.answer r c = a.answer q c := by
  obtain ⟨r', s, t, hr', hs, ht, rfl, hseen⟩ := h.registered ha hq
  obtain rfl := Option.some.inj (hr.symm.trans hr')
  cases c with
  | push m =>
    show Reply.pushed (b.push r m).1 = .pushed (a.push q m).1
    rw [(push_eq ht m).1, (push_eq hs m).1]
    show Reply.pushed (t.seen.answer m) = .pushed (s.seen.answer m)
    rw [hseen]
  | subscribe subs authorize =>
    show Reply.asked (b.subscribe r subs authorize).1 = .asked (a.subscribe q subs authorize).1
    rw [subscribe_answer ht, subscribe_answer hs, Session.interest_eq_of_seen hseen]
  | nextBestEffort =>
    have hqueue : t.bestEffort.anonymous = s.bestEffort.anonymous := congrArg Session.bestEffort hseen
    show Reply.delivered (.ok (b.nextBestEffort r).1) = .delivered (.ok (a.nextBestEffort q).1)
    rw [nextBestEffort_answer ht, nextBestEffort_answer hs, t.bestEffort.anonymous_pop.2, s.bestEffort.anonymous_pop.2, hqueue]
  | nextGuaranteed =>
    have hmail : t.mail = s.mail := Session.mail_eq_of_seen hseen
    show Reply.delivered (b.nextGuaranteed r).1 = .delivered (a.nextGuaranteed q).1
    rw [(nextGuaranteed_spec ht).1, (nextGuaranteed_spec hs).1, hmail, Mail.next_congr (h.bucket ha hs rfl)]
  | _ => rfl

end SameView

end Broker

end PubSub
