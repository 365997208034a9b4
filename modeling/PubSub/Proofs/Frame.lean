import PubSub.Broker.Lifecycle
import PubSub.Proofs.DurableQueue
/-!
# What an operation leaves alone

A session's state falls into what it delivers guaranteed messages from (`Session.mail`) and what it
wants (`Session.interest`). Subscribing and its kin leave the mail of every session and the queue
records as they are (`SameMail`). Delivering and its kin leave every interest, the exchange and the
session records as they are (`SameInterest`), and change no session and no bucket but the one they
are about (`Local`).
-/

namespace PubSub

/-- What a session delivers guaranteed messages from. -/
structure Mail where
  id : String
  durable : DurableQueue
  acks : AckCache
  counter : Counter

/-- What a session wants. -/
structure Interest where
  info : Info
  filters : Topic.Trie

def Session.mail (s : Session) : Mail := ⟨s.info.id, s.durable, s.acks, s.counter⟩

def Session.interest (s : Session) : Interest := ⟨s.info, s.filters⟩

theorem Mail.id_eq {s s' : Session} (h : s'.mail = s.mail) : s'.info.id = s.info.id := congrArg Mail.id h

theorem Interest.id_eq {s s' : Session} (h : s'.interest = s.interest) : s'.info.id = s.info.id :=
  congrArg (·.info.id) h

namespace Broker

variable {b b' b'' : Broker} {r r' : SessionRef} {s s' : Session}

/-! ## Sessions by number -/

theorem session?_setSession_self (h : b.session? r = some s) : (b.setSession r s').session? r = some s' := by
  obtain ⟨hlt, -⟩ := List.getElem?_eq_some_iff.1 h
  simp only [session?, setSession, List.getElem?_set_self hlt]

theorem setSession_self (h : b.session? r = some s) : b.setSession r s = b := by
  obtain ⟨hr, heq⟩ := List.getElem?_eq_some_iff.1 h
  rw [setSession, ← heq, List.set_getElem_self]

theorem session?_setSession_other (h : r' ≠ r) : (b.setSession r s').session? r' = b.session? r' := by
  simp only [session?, setSession, List.getElem?_set_ne h.symm]

/-- What a session was set to agree on with what it was has not changed anywhere. -/
theorem map_setSession {γ : Type} {f : Session → γ} (h : b.session? r = some s) (hf : f s' = f s) :
    (b.setSession r s').sessions.map f = b.sessions.map f := by
  apply List.ext_getElem?
  intro r'
  rw [List.getElem?_map, List.getElem?_map]
  by_cases hr : r' = r
  · subst hr
    have hs : b.sessions[r']? = some s := h
    have hs' : (b.setSession r' s').sessions[r']? = some s' := session?_setSession_self h
    rw [hs, hs', Option.map_some, Option.map_some, hf]
  · have hs : (b.setSession r s').sessions[r']? = b.sessions[r']? := session?_setSession_other hr
    rw [hs]

/-- Subscribing does nothing, or it takes the filters in, takes some out again and writes the record. -/
theorem subscribe_cases (b : Broker) (r : SessionRef) (subs : List Subscription) (authorize : Option Authorize) :
    (b.subscribe r subs authorize).2 = b ∧ (subs = [] ∨ b.session? r = none) ∨
    subs ≠ [] ∧ (b.session? r).isSome ∧
      ((b.subscribe r subs authorize).2 = ((b.accept r subs).registerAll r).persistSession r ∨
        ∃ ns denied, (b.subscribe r subs authorize).2
          = ((((b.accept r subs).registerAll r).report ns).forgetAll r denied).persistSession r) := by
  cases subs with
  | nil => exact .inl ⟨rfl, .inl rfl⟩
  | cons sub subs =>
    cases hs : b.session? r with
    | none => exact .inl ⟨by simp only [subscribe, hs], .inr rfl⟩
    | some s =>
      refine .inr ⟨List.cons_ne_nil sub subs, rfl, ?_⟩
      cases authorize with
      | none => exact .inl (by simp only [subscribe, hs])
      | some allowed => exact .inr ⟨_, _, by simp only [subscribe, hs]; rfl⟩

/-! ## The same mail -/

structure SameMail (b b' : Broker) : Prop where
  settings : b'.settings = b.settings
  registry : b'.registry = b.registry
  records : b'.store.queue = b.store.queue
  sessions : b'.sessions.map Session.mail = b.sessions.map Session.mail

namespace SameMail

theorem refl (b : Broker) : SameMail b b := ⟨rfl, rfl, rfl, rfl⟩

theorem trans (h : SameMail b b') (h' : SameMail b' b'') : SameMail b b'' :=
  ⟨h'.settings.trans h.settings, h'.registry.trans h.registry, h'.records.trans h.records,
    h'.sessions.trans h.sessions⟩

theorem mail (h : SameMail b b') (r : SessionRef) :
    (b'.session? r).map Session.mail = (b.session? r).map Session.mail := by
  have hr : (b'.sessions.map Session.mail)[r]? = (b.sessions.map Session.mail)[r]? := by rw [h.sessions]
  rw [List.getElem?_map, List.getElem?_map] at hr
  exact hr

theorem length_sessions (h : SameMail b b') : b'.sessions.length = b.sessions.length := by
  rw [← List.length_map Session.mail, h.sessions, List.length_map]

theorem session? (h : SameMail b b') (hs : b.session? r = some s) : ∃ s', b'.session? r = some s' ∧ s'.mail = s.mail := by
  have hr := h.mail r
  rw [hs] at hr
  exact Option.map_eq_some_iff.1 hr

theorem session?_back (h : SameMail b b') (hs : b'.session? r = some s') :
    ∃ s, b.session? r = some s ∧ s'.mail = s.mail := by
  have hr := h.mail r
  rw [hs] at hr
  obtain ⟨s, hs, heq⟩ := Option.map_eq_some_iff.1 hr.symm
  exact ⟨s, hs, heq.symm⟩

theorem setSession (h : b.session? r = some s) (hm : s'.mail = s.mail) : SameMail b (b.setSession r s') :=
  ⟨rfl, rfl, rfl, map_setSession h hm⟩

theorem report (b : Broker) (ns : List Notice) : SameMail b (b.report ns) := ⟨rfl, rfl, rfl, rfl⟩

theorem release (b : Broker) (e : Event) : SameMail b (b.release e) := ⟨rfl, rfl, rfl, rfl⟩

theorem exchange (b : Broker) (x : Exchange) : SameMail b { b with exchange := x } := ⟨rfl, rfl, rfl, rfl⟩

theorem persist (b : Broker) (info : Info) : SameMail b (b.persist info) := ⟨rfl, rfl, rfl, rfl⟩

theorem persistSession (b : Broker) (r : SessionRef) : SameMail b (b.persistSession r) := by
  unfold Broker.persistSession
  split
  · exact .refl b
  · exact .persist b _

theorem registerAll (b : Broker) (r : SessionRef) : SameMail b (b.registerAll r) := by
  unfold Broker.registerAll
  split
  · exact .refl b
  · next s h =>
    have hset : SameMail b (b.setSession r (s.register s.info.subscriptions.entries)) := setSession h rfl
    exact hset.trans (.exchange _ _)

theorem unbindAll (b : Broker) (r : SessionRef) : SameMail b (b.unbindAll r) := by
  unfold Broker.unbindAll
  split
  · exact .refl b
  · exact .exchange b _

theorem mail_foldl_forget (filters : List String) (s : Session) : (filters.foldl Session.forget s).mail = s.mail := by
  induction filters generalizing s with
  | nil => rfl
  | cons f filters ih => rw [List.foldl_cons, ih]; rfl

theorem forgetAll (b : Broker) (r : SessionRef) (filters : List String) : SameMail b (b.forgetAll r filters) := by
  unfold Broker.forgetAll
  split
  · exact .refl b
  · next s h => exact (setSession h (mail_foldl_forget filters s)).trans (.exchange _ _)

theorem accept (b : Broker) (r : SessionRef) (subs : List Subscription) : SameMail b (b.accept r subs) := by
  unfold Broker.accept
  split
  · exact .refl b
  · next s h =>
    refine .trans (setSession h ?_) (.report _ _)
    rfl

theorem subscribe (b : Broker) (r : SessionRef) (subs : List Subscription) (authorize : Option Authorize) :
    SameMail b (b.subscribe r subs authorize).2 := by
  have hbound : SameMail b ((b.accept r subs).registerAll r) := (accept b r subs).trans (registerAll _ r)
  rcases subscribe_cases b r subs authorize with ⟨heq, -⟩ | ⟨-, -, heq | ⟨ns, denied, heq⟩⟩ <;> rw [heq]
  · exact .refl b
  · exact hbound.trans (persistSession _ r)
  · exact ((hbound.trans (report _ _)).trans (forgetAll _ r _)).trans (persistSession _ r)

theorem unsubscribe (b : Broker) (r : SessionRef) (filters : List String) : SameMail b (b.unsubscribe r filters) := by
  unfold Broker.unsubscribe
  split
  · exact .refl b
  · exact (forgetAll b r _).trans (persistSession _ r)

theorem update (b : Broker) (r : SessionRef) (info : Info) : SameMail b (b.update r info) := by
  unfold Broker.update
  split
  · exact .refl b
  · next s h =>
    refine .trans (setSession h ?_) (persistSession _ r)
    rfl

theorem cleanWill (b : Broker) (r : SessionRef) : SameMail b (b.cleanWill r) := by
  unfold Broker.cleanWill
  split
  · exact .refl b
  · next s h =>
    refine .trans (setSession h ?_) (persistSession _ r)
    rfl

end SameMail

/-! ## The same interests -/

structure SameInterest (b b' : Broker) : Prop where
  settings : b'.settings = b.settings
  registry : b'.registry = b.registry
  exchange : b'.exchange = b.exchange
  records : b'.store.sessions = b.store.sessions
  sessions : b'.sessions.map Session.interest = b.sessions.map Session.interest

namespace SameInterest

theorem refl (b : Broker) : SameInterest b b := ⟨rfl, rfl, rfl, rfl, rfl⟩

theorem trans (h : SameInterest b b') (h' : SameInterest b' b'') : SameInterest b b'' :=
  ⟨h'.settings.trans h.settings, h'.registry.trans h.registry, h'.exchange.trans h.exchange,
    h'.records.trans h.records, h'.sessions.trans h.sessions⟩

theorem report (b : Broker) (ns : List Notice) : SameInterest b (b.report ns) := ⟨rfl, rfl, rfl, rfl, rfl⟩

theorem interest (h : SameInterest b b') (r : SessionRef) :
    (b'.session? r).map Session.interest = (b.session? r).map Session.interest := by
  have hr : (b'.sessions.map Session.interest)[r]? = (b.sessions.map Session.interest)[r]? := by rw [h.sessions]
  rw [List.getElem?_map, List.getElem?_map] at hr
  exact hr

theorem session? (h : SameInterest b b') (hs : b.session? r = some s) :
    ∃ s', b'.session? r = some s' ∧ s'.interest = s.interest := by
  have hr := h.interest r
  rw [hs] at hr
  exact Option.map_eq_some_iff.1 hr

theorem session?_back (h : SameInterest b b') (hs : b'.session? r = some s') :
    ∃ s, b.session? r = some s ∧ s'.interest = s.interest := by
  have hr := h.interest r
  rw [hs] at hr
  obtain ⟨s, hs, heq⟩ := Option.map_eq_some_iff.1 hr.symm
  exact ⟨s, hs, heq.symm⟩

end SameInterest

/-! ## Changes to one session -/

/-- At most what session `r` delivers from has changed, and the records of its bucket. -/
structure Local (r : SessionRef) (b b' : Broker) : Prop where
  interest : SameInterest b b'
  others : ∀ r', r' ≠ r → b'.session? r' = b.session? r'
  bucket : ∀ s s', b.session? r = some s → b'.session? r = some s' → s'.durable.bucket = s.durable.bucket
  closed : ∀ s s', b.session? r = some s → b'.session? r = some s' → s.durable.closed = true → s'.durable.closed = true
  records : ∀ c : Bucket, (∀ s, b.session? r = some s → c.name ≠ s.durable.bucket.name) →
    c.contents b'.store.queue = c.contents b.store.queue

namespace Local

theorem of_sessions (hi : SameInterest b b') (hs : b'.sessions = b.sessions) (hq : b'.store.queue = b.store.queue) :
    Local r b b' where
  interest := hi
  others r' _ := by simp only [Broker.session?, hs]
  bucket s s' h h' := by
    simp only [Broker.session?, hs] at h h'
    rw [h] at h'
    rw [Option.some.inj h']
  closed s s' h h' := by
    simp only [Broker.session?, hs] at h h'
    rw [h] at h'
    rw [Option.some.inj h']
    exact id
  records c _ := by rw [hq]

theorem refl (r : SessionRef) (b : Broker) : Local r b b := of_sessions (.refl b) rfl rfl

theorem report (b : Broker) (ns : List Notice) : Local r b (b.report ns) := of_sessions ⟨rfl, rfl, rfl, rfl, rfl⟩ rfl rfl

theorem release (b : Broker) (e : Event) : Local r b (b.release e) := of_sessions ⟨rfl, rfl, rfl, rfl, rfl⟩ rfl rfl

theorem events (b : Broker) (t : EventTable) : Local r b { b with events := t } :=
  of_sessions ⟨rfl, rfl, rfl, rfl, rfl⟩ rfl rfl

theorem trans (h : Local r b b') (h' : Local r b' b'') : Local r b b'' where
  interest := h.interest.trans h'.interest
  others r' hr := (h'.others r' hr).trans (h.others r' hr)
  bucket s s'' hs hs'' := by
    obtain ⟨s', hs', -⟩ := h.interest.session? hs
    rw [h'.bucket s' s'' hs' hs'', h.bucket s s' hs hs']
  closed s s'' hs hs'' hc := by
    obtain ⟨s', hs', -⟩ := h.interest.session? hs
    exact h'.closed s' s'' hs' hs'' (h.closed s s' hs hs' hc)
  records c hc := by
    refine (h'.records c fun s' hs' => ?_).trans (h.records c hc)
    obtain ⟨s, hs, -⟩ := h.interest.session?_back hs'
    rw [h.bucket s s' hs hs']
    exact hc s hs

/-- Each session after the change is one from before it, over the same bucket. -/
theorem session?_back {q : SessionRef} (h : Local r b b') (hs' : b'.session? q = some s') :
    ∃ s, b.session? q = some s ∧ s'.interest = s.interest ∧ s'.durable.bucket = s.durable.bucket ∧
      (s.durable.closed = true → s'.durable.closed = true) := by
  obtain ⟨s, hs, heq⟩ := h.interest.session?_back hs'
  by_cases hq : q = r
  · subst hq
    exact ⟨s, hs, heq, h.bucket s s' hs hs', h.closed s s' hs hs'⟩
  · rw [h.others q hq, hs] at hs'
    obtain rfl := Option.some.inj hs'
    exact ⟨s, hs, rfl, rfl, id⟩

/-- A session that takes over a durable queue over the same bucket, and what became of its records. -/
theorem setSession (h : b.session? r = some s) (hi : s'.interest = s.interest)
    (hb : s'.durable.bucket = s.durable.bucket) (hc : s.durable.closed = true → s'.durable.closed = true) :
    Local r b (b.setSession r s') where
  interest := ⟨rfl, rfl, rfl, rfl, map_setSession h hi⟩
  others r' hr := session?_setSession_other hr
  bucket t t' ht ht' := by
    rw [h] at ht
    rw [session?_setSession_self h] at ht'
    rw [← Option.some.inj ht, ← Option.some.inj ht', hb]
  closed t t' ht ht' := by
    rw [h] at ht
    rw [session?_setSession_self h] at ht'
    rw [← Option.some.inj ht, ← Option.some.inj ht']
    exact hc
  records c _ := rfl

theorem setQueueRecords (h : b.session? r = some s) {k : Keyspace}
    (hk : ∀ c : Bucket, c.name ≠ s.durable.bucket.name → c.contents k = c.contents b.store.queue) :
    Local r b (b.setQueueRecords k) where
  interest := ⟨rfl, rfl, rfl, rfl, rfl⟩
  others _ _ := rfl
  bucket t t' ht ht' := by
    have ht' : b.session? r = some t' := ht'
    rw [ht] at ht'
    rw [Option.some.inj ht']
  closed t t' ht ht' := by
    have ht' : b.session? r = some t' := ht'
    rw [ht] at ht'
    rw [Option.some.inj ht']
    exact id
  records c hc := hk c (hc s h)

theorem pushBestEffort (h : b.session? r = some s) (e : Event) : Local r b (b.pushBestEffort r s e).2 := by
  unfold Broker.pushBestEffort
  split
  · exact .refl r b
  · next outcome q _ =>
    have hset : Local r b (b.setSession r { s with bestEffort := q }) := setSession h rfl rfl id
    split
    · exact (hset.trans (report _ _)).trans (release _ e)
    · exact hset.trans (report _ _)

theorem pushDurable {answer : WriteAnswer} (h : b.session? r = some s) (e : Event) :
    Local r b (b.pushDurable r s e answer).2 := by
  unfold Broker.pushDurable
  cases hpush : s.durable.push b.store.queue e.message answer with
  | error err => exact .refl r b
  | ok stored =>
    obtain ⟨-, -, rfl⟩ := DurableQueue.push_eq_ok_iff.1 hpush
    have hset : Local r b (b.setSession r { s with
        durable := { s.durable with next := s.durable.next + 1, pending := s.durable.pending ++ [s.durable.next] } }) :=
      setSession h rfl rfl id
    refine (hset.trans (setQueueRecords (session?_setSession_self h) fun c hc => ?_)).trans (release _ e)
    exact Bucket.contents_put_other hc _ _ _

theorem offer {answer : WriteAnswer} (b : Broker) (r : SessionRef) (e : Event) : Local r b (b.offer r e answer).2 := by
  unfold Broker.offer
  split
  · exact .refl r b
  · next s h =>
    split
    · exact pushBestEffort h e
    · split
      · exact (report _ _).trans (release _ e)
      · split
        · exact pushDurable h e
        · exact pushBestEffort h e

theorem push (b : Broker) (r : SessionRef) (m : Message) : Local r b (b.push r m).2 :=
  (events b (b.events.publish m true).2).trans (offer _ r _)

theorem deliver (b : Broker) (target : Binding) (e : Event) : Local target.session b (b.deliver target e) := by
  have hoffer : Local target.session b (b.offer target.session e).2 := offer b target.session e
  unfold Broker.deliver
  split
  · next heq => rwa [heq] at hoffer
  · next heq =>
    rw [heq] at hoffer
    exact (hoffer.trans (report _ _)).trans (release _ e)

theorem nextBestEffort (b : Broker) (r : SessionRef) : Local r b (b.nextBestEffort r).2 := by
  unfold Broker.nextBestEffort
  split
  · exact .refl r b
  · next s h =>
    split
    · exact .refl r b
    · next e d q _ =>
      have hset : Local r b (b.setSession r { s with bestEffort := q }) := setSession h rfl rfl id
      exact hset.trans (release _ e)

theorem nextGuaranteed (b : Broker) (r : SessionRef) : Local r b (b.nextGuaranteed r).2 := by
  unfold Broker.nextGuaranteed
  split
  · exact .refl r b
  · next s h =>
    have hbucket := s.durable.pop_bucket b.store.queue
    have hclosed := s.durable.pop_closed b.store.queue
    have hset (acks : AckCache) (counter : Counter) (ns : List Notice) : Local r b ((b.report ns).setSession r
        { s with durable := (s.durable.pop b.store.queue).2.1, acks, counter }) :=
      (report b ns).trans (setSession h rfl hbucket fun hc => hclosed.trans hc)
    simp only
    split
    · split
      · exact hset _ _ _
      · exact (hset _ _ _).trans (report _ _)
    · exact hset _ _ _

theorem acknowledge (b : Broker) (r : SessionRef) (id : UInt64) : Local r b (b.acknowledge r id) := by
  unfold Broker.acknowledge
  split
  · exact .refl r b
  · next s h =>
    split
    · exact report b _
    · next seq acks _ =>
      have hbucket := s.durable.ack_bucket b.store.queue seq
      have hclosed := s.durable.ack_closed b.store.queue seq
      have hset : Local r b (b.setSession r { s with durable := (s.durable.ack b.store.queue seq).1, acks }) :=
        setSession h rfl hbucket fun hc => hclosed.trans hc
      have hrecords (c : Bucket) (hc : c.name ≠ s.durable.bucket.name) :
          c.contents (s.durable.ack b.store.queue seq).2 = c.contents b.store.queue := by
        rw [s.durable.ack_records]
        exact Bucket.contents_delete_other hc _ _
      exact hset.trans (setQueueRecords (session?_setSession_self h) fun c hc =>
        hrecords c fun he => hc (he.trans (congrArg _ hbucket.symm)))

theorem requeue (b : Broker) (r : SessionRef) : Local r b (b.requeue r) := by
  unfold Broker.requeue
  split
  · exact .refl r b
  · next s h =>
    have hset : Local r b (b.setSession r { s with durable := s.durable.requeue, acks := s.acks.clear.2 }) :=
      setSession h rfl rfl id
    exact hset.trans (report _ _)

theorem foldl_release (b : Broker) (es : List Event) : Local r b (es.foldl Broker.release b) := by
  induction es generalizing b with
  | nil => exact .refl r b
  | cons e es ih => exact (release b e).trans (ih _)

theorem closeSession (b : Broker) (r : SessionRef) : Local r b (b.closeSession r) := by
  unfold Broker.closeSession
  split
  · exact .refl r b
  · next s h =>
    have hbucket := s.durable.close_bucket b.store.queue s.info.clean
    have hset : Local r b (b.setSession r { s with
        bestEffort := s.bestEffort.close.2, durable := (s.durable.close b.store.queue s.info.clean).1 }) :=
      setSession h rfl hbucket fun _ => s.durable.close_closed _ _
    refine ((hset.trans (setQueueRecords (session?_setSession_self h) fun c hc => ?_)).trans (foldl_release _ _)).trans
      (report _ _)
    exact DurableQueue.contents_close_other (fun he => hc (he.trans (congrArg _ hbucket.symm))) _ _

end Local

/-! ## Ending a session -/

theorem foldl_release_eq (b : Broker) (es : List Event) : ∃ t, es.foldl release b = { b with events := t } := by
  induction es generalizing b with
  | nil => exact ⟨b.events, rfl⟩
  | cons e es ih => exact ih (b.release e)

theorem session?_unbindAll (b : Broker) (r r' : SessionRef) : (b.unbindAll r).session? r' = b.session? r' := by
  unfold unbindAll
  split <;> rfl

theorem session?_persistSession (b : Broker) (r r' : SessionRef) : (b.persistSession r).session? r' = b.session? r' := by
  unfold persistSession
  split <;> rfl

theorem session?_update (h : b.session? r = some s) (info : Info) :
    (b.update r info).session? r = some { s with info := { s.info with will := info.will, clean := info.clean } } := by
  unfold update
  rw [h]
  exact (session?_persistSession _ r r).trans (session?_setSession_self h)

/-- What closing leaves of a session and of the queue records. -/
theorem closeSession_eq (h : b.session? r = some s) :
    (b.closeSession r).session? r = some { s with
      bestEffort := s.bestEffort.close.2, durable := (s.durable.close b.store.queue s.info.clean).1 } ∧
    (b.closeSession r).store.queue = (s.durable.close b.store.queue s.info.clean).2.1 := by
  unfold closeSession
  rw [h]
  dsimp only
  obtain ⟨t, ht⟩ := foldl_release_eq ((b.setSession r { s with
      bestEffort := s.bestEffort.close.2,
      durable := (s.durable.close b.store.queue s.info.clean).1 }).setQueueRecords
        (s.durable.close b.store.queue s.info.clean).2.1) s.bestEffort.close.1
  rw [ht]
  exact ⟨session?_setSession_self h, rfl⟩

theorem closed_of_closeSession (h : (b.closeSession r).session? r = some s) : s.durable.closed = true := by
  obtain ⟨s₀, hs₀, -⟩ := (Local.closeSession b r).interest.session?_back h
  rw [(closeSession_eq hs₀).1] at h
  rw [← Option.some.inj h]
  exact s₀.durable.close_closed _ _

theorem registry_dismiss (b : Broker) (id : String) (r : SessionRef) :
    (b.dismiss id r).registry = b.registry.erase id := by
  show OrderedMap.erase (((b.unbindAll r).closeSession r).registry) id = _
  rw [(Local.closeSession (b.unbindAll r) r).interest.registry, (SameMail.unbindAll b r).registry]

theorem length_sessions_dismiss (b : Broker) (id : String) (r : SessionRef) :
    (b.dismiss id r).sessions.length = b.sessions.length := by
  have hunbound := (SameMail.unbindAll b r).length_sessions
  have hclosed := congrArg List.length (Local.closeSession (b.unbindAll r) r).interest.sessions
  rw [List.length_map, List.length_map] at hclosed
  exact hclosed.trans hunbound

theorem SameInterest.foldl_deliver (b : Broker) (copies : List (Binding × Event)) :
    SameInterest b (copies.foldl (fun b tc => b.deliver tc.1 tc.2) b) := by
  induction copies generalizing b with
  | nil => exact .refl b
  | cons c copies ih => exact (Local.deliver b c.1 c.2).interest.trans (ih _)

theorem SameInterest.route (b : Broker) (m : Message) : SameInterest b (b.route m).2 := by
  have hevents (t : EventTable) : SameInterest b { b with events := t } := ⟨rfl, rfl, rfl, rfl, rfl⟩
  exact (hevents _).trans (foldl_deliver _ _)

end Broker

end PubSub
