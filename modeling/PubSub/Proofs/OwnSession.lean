import PubSub.Proofs.CleanStart
import PubSub.Proofs.OwnCalls
/-!
# Coming, going and being routed to

A client that connects or disconnects, and a broker that routes a message or is closed, leave two brokers that
look the same to the client looking the same. Which session a broker numbers how, and who else is registered,
is of no account to it.
-/

namespace PubSub.Broker

variable {a b b' : Broker} {q r : SessionRef} {s t : Session} {info : Info} {id : String}

namespace Coherent

theorem report (hb : Coherent b) (ns : List Notice) : Coherent (b.report ns) :=
  ⟨hb.sound.report ns, Tied.enduring.report hb.tied ns⟩

theorem update (hb : Coherent b) (r : SessionRef) (info : Info) : Coherent (b.update r info) :=
  ⟨hb.sound.update r info, hb.tied.update hb.sound r info⟩

theorem dismiss (hb : Coherent b) (hr : b.registry.get? id = some r) : Coherent (b.dismiss id r) :=
  ⟨hb.sound.dismiss hr, hb.tied.dismiss hb.sound hr⟩

theorem cleared (hb : Coherent b) (info : Info) : Coherent (b.cleared info) :=
  ⟨hb.sound.cleared info, hb.tied.cleared hb.sound info⟩

theorem isBound_free (hb : Coherent b) (hfree : b.registry.get? id = none) (f : String) :
    b.exchange.isBound f id = false := by
  rw [← Bool.not_eq_true, Exchange.isBound_iff]
  rintro ⟨x, hx, -, hid⟩
  exact hb.tied.unbound hfree x hx hid

end Coherent

namespace SameView

theorem reports (h : SameView id a b) (ns ns' : List Notice) : SameView id (a.report ns) (b.report ns') :=
  ((report a ns).symm.trans h).trans (report b ns')

/-! ## Coming and going -/

theorem dismiss (h : SameView id a b) (ha : Coherent a) (hb : Coherent b) (hq : a.registry.get? id = some q)
    (hr : b.registry.get? id = some r) : SameView id (a.dismiss id q) (b.dismiss id r) := by
  obtain ⟨r', s, t, hr', hs, ht, hid, hseen⟩ := h.registered ha.sound hq
  obtain rfl := Option.some.inj (hr.symm.trans hr')
  have hdurable : t.durable = s.durable := congrArg Mail.durable (Session.mail_eq_of_seen hseen)
  have hclean : t.info.clean = s.info.clean := congrArg (·.info.clean) (Session.interest_eq_of_seen hseen)
  constructor
  · rw [settings_dismiss, settings_dismiss, h.settings]
  · rw [client?_free (get?_registry_dismiss a id q), client?_free (get?_registry_dismiss b id r)]
  · rw [records_dismiss, records_dismiss, h.record]
  · intro bucket hbucket
    obtain rfl := s.durable.bucket.eq_of_name (hbucket.trans ((ha.sound.named hs).trans hid).symm)
    rw [queue_dismiss ht, queue_dismiss hs, hdurable, hclean]
    exact (DurableQueue.close_congr (h.bucket ha.sound hs hid) s.info.clean).2
  · intro f
    rw [(ha.dismiss hq).isBound_free (get?_registry_dismiss a id q) f,
      (hb.dismiss hr).isBound_free (get?_registry_dismiss b id r) f]

theorem enrol (h : SameView info.id a b) : SameView info.id (a.enrol info).2 (b.enrol info).2 := by
  by_cases hu : usableName info.id = true
  · let bucket : Bucket := ⟨info.id, hu⟩
    obtain ⟨ns, heq⟩ := enrol_of_bucket a (show bucket.name = info.id from rfl)
    obtain ⟨ns', heq'⟩ := enrol_of_bucket b (show bucket.name = info.id from rfl)
    rw [heq, heq']
    refine reports ?_ ns ns'
    have hnew : b.newSession info bucket = a.newSession info bucket := by
      unfold newSession Session.new
      rw [h.settings, DurableQueue.new_congr (h.records bucket rfl)]
    constructor
    · exact h.settings
    · have hclient (b : Broker) : (b.enrolled info bucket).client? info.id = some (b.newSession info bucket) :=
        client?_of ((get?_registry_enrolled b info bucket info.id).trans (if_pos rfl)) session?_enrolled_new
      rw [hclient, hclient, hnew]
    · exact (SessionRecords.get?_written_self _ info).trans (SessionRecords.get?_written_self _ info).symm
    · exact h.records
    · exact h.bound
  · obtain ⟨e, ns, heq⟩ := enrol_of_unusable a hu
    obtain ⟨e', ns', heq'⟩ := enrol_of_unusable b hu
    rw [heq, heq']
    exact h.reports ns ns'

theorem update (h : SameView id a b) (ha : Coherent a) (hb : Coherent b) (hq : a.registry.get? id = some q)
    (hr : b.registry.get? id = some r) (info : Info) : SameView id (a.update q info) (b.update r info) :=
  h.perform ha hb hq hr (.update info)

theorem cleared (h : SameView info.id a b) (ha : Coherent a) (hb : Coherent b) :
    SameView info.id (a.cleared info) (b.cleared info) := by
  cases hq : a.registry.get? info.id with
  | none =>
    simp only [Broker.cleared, hq, h.free hb.sound hq]
    exact h
  | some q =>
    obtain ⟨r, -, -, hr, -⟩ := h.registered ha.sound hq
    simp only [Broker.cleared, hq, hr]
    have ha' := ha.report [.sessionDiscarded info.id]
    have hb' := hb.report [.sessionDiscarded info.id]
    refine dismiss ((h.reports _ _).update ha' hb' hq hr _) (ha'.update q _) (hb'.update r _) ?_ ?_
    · rw [(SameMail.update _ q _).registry]
      exact hq
    · rw [(SameMail.update _ r _).registry]
      exact hr

theorem connect (h : SameView info.id a b) (ha : Coherent a) (hb : Coherent b) :
    SameView info.id (a.connect info).2 (b.connect info).2 := by
  by_cases hfresh : a.registry.get? info.id = none ∨ info.clean = true
  · have hfresh' : b.registry.get? info.id = none ∨ info.clean = true := hfresh.imp_left (h.free hb.sound)
    rw [connect_fresh hfresh, connect_fresh hfresh']
    exact (h.cleared ha hb).enrol
  · obtain ⟨hq, hclean⟩ := not_or.1 hfresh
    obtain ⟨q, hq⟩ := Option.ne_none_iff_exists'.1 hq
    have hclean : info.clean = false := Bool.eq_false_iff.2 hclean
    obtain ⟨r, -, -, hr, -⟩ := h.registered ha.sound hq
    rw [connect_resumed hq hclean, connect_resumed hr hclean]
    exact (h.reports _ _).update (ha.report _) (hb.report _) hq hr info

theorem disconnect (h : SameView id a b) (ha : Coherent a) (hb : Coherent b) :
    SameView id (a.disconnect id) (b.disconnect id) := by
  unfold Broker.disconnect
  cases hq : a.registry.get? id with
  | none =>
    rw [h.free hb.sound hq]
    exact h
  | some q =>
    obtain ⟨r, s, t, hr, hs, ht, -, hseen⟩ := h.registered ha.sound hq
    have hclean : t.info.clean = s.info.clean := congrArg (·.info.clean) (Session.interest_eq_of_seen hseen)
    rw [hr]
    simp only [hs, ht, Option.map_some, hclean]
    split
    · exact (h.reports _ _).dismiss (ha.report _) (hb.report _) hq hr
    · exact h.perform ha hb hq hr .requeue

end SameView

/-! ## Closing -/

/-- What becomes of a client when the broker is closed. -/
def ended (b : Broker) (id : String) : Broker :=
  match b.registry.get? id with
  | none => b
  | some r => b.dismiss id r

/-- While a broker is being closed a client sees what it saw before as long as it is registered, and then what
the end of its own session leaves. -/
structure Closing (id : String) (b c : Broker) : Prop where
  tied : Tied c
  view : c.registry.get? id = b.registry.get? id ∧ SameView id b c ∨
    c.registry.get? id = none ∧ SameView id (b.ended id) c

theorem Closing.dismiss {c : Broker} {id' : String} (h : Closing id b c) (hb : Coherent b) (hc : Sound c)
    (hr : c.registry.get? id' = some r) : Closing id b (c.dismiss id' r) where
  tied := h.tied.dismiss hc hr
  view := by
    by_cases hid : id' = id
    · subst hid
      refine .inr ⟨get?_registry_dismiss c id' r, ?_⟩
      rcases h.view with ⟨hregistry, hview⟩ | ⟨hfree, -⟩
      · have hr' := hregistry.symm.trans hr
        rw [ended, hr']
        exact hview.dismiss hb ⟨hc, h.tied⟩ hr' hr
      · rw [hfree] at hr
        cases hr
    · have hother : SameView id c (c.dismiss id' r) := .dismiss_other hc hr hid
      have hregistry : (c.dismiss id' r).registry.get? id = c.registry.get? id := by
        rw [registry_dismiss, OrderedMap.get?_erase, if_neg (Ne.symm hid)]
      rw [hregistry]
      exact h.view.imp (And.imp_right (·.trans hother)) (And.imp_right (·.trans hother))

theorem ended_view (hb : Coherent b) (id : String) : SameView id (b.ended id) b.close := by
  have hclosing : Closing id b (b.registry.entries.foldl (fun b e => b.dismiss e.1 e.2) b) :=
    (hb.sound.dismissRegistered (I := Closing id b) (fun hc hI hr => hI.dismiss hb hc hr)
      ⟨hb.tied, .inl ⟨rfl, .refl id b⟩⟩).2
  have hnone : (b.registry.entries.foldl (fun b e => b.dismiss e.1 e.2) b).registry.get? id = none := b.registry_close id
  refine .trans ?_ (.report _ _)
  rcases hclosing.view with ⟨hregistry, hview⟩ | ⟨-, hview⟩
  · rwa [ended, ← hregistry, hnone]
  · exact hview

namespace SameView

theorem ended (h : SameView id a b) (ha : Coherent a) (hb : Coherent b) : SameView id (a.ended id) (b.ended id) := by
  unfold Broker.ended
  cases hq : a.registry.get? id with
  | none =>
    rw [h.free hb.sound hq]
    exact h
  | some q =>
    obtain ⟨r, -, -, hr, -⟩ := h.registered ha.sound hq
    rw [hr]
    exact h.dismiss ha hb hq hr

theorem close (h : SameView id a b) (ha : Coherent a) (hb : Coherent b) : SameView id a.close b.close :=
  ((ended_view ha id).symm.trans (h.ended ha hb)).trans (ended_view hb id)

end SameView

/-! ## Routing -/

/-- Whether a filter that covers a topic is bound for a client. -/
def Reaches (b : Broker) (id topic : String) : Prop :=
  ∃ f, b.exchange.isBound f id = true ∧ Topic.matchesFilter topic f = true

theorem reaches_iff {topic : String} : b.Reaches id topic ↔ ∃ x ∈ b.exchange.targets topic, x.id = id := by
  rw [exists_mem_targets]
  constructor
  · rintro ⟨f, hf, hmatch⟩
    obtain ⟨x, hx, rfl, hid⟩ := Exchange.isBound_iff.1 hf
    exact ⟨x, hx, hid, hmatch⟩
  · rintro ⟨x, hx, hid, hmatch⟩
    exact ⟨x.filter, Exchange.isBound_iff.2 ⟨x, hx, rfl, hid⟩, hmatch⟩

/-- A client with no filter for a message does not notice that it is routed. -/
theorem route_passed (hb : Coherent b) {m : Message} (hno : ¬ b.Reaches id m.topic) : SameView id b (b.route m).2 := by
  have hsame : SameInterest b (b.route m).2 := .route b m
  have hids : ∀ x ∈ b.exchange.targets m.topic, x.id ≠ id := fun x hx hid => hno (reaches_iff.2 ⟨x, hx, hid⟩)
  refine ⟨hsame.settings, ?_, by rw [hsame.records], fun bucket hbucket => ?_, fun f => by rw [hsame.exchange]⟩
  · cases hr : b.registry.get? id with
    | none => rw [client?_free hr, client?_free (by rw [hsame.registry, hr])]
    | some r =>
      obtain ⟨s, hs, hid⟩ := hb.sound.registered hr
      have hs' := (session?_route hb.sound hs m).1 fun x hx hxr =>
        hids x hx ((hb.sound.id_of_bound (mem_of_mem_targets hx) (hxr ▸ hs)).symm.trans hid)
      rw [client?_of hr hs, client?_of (by rw [hsame.registry, hr]) hs']
  · exact (contents_route hb.sound m bucket).1 fun x hx => hbucket ▸ hids x hx

/-- A client with a filter for a message is offered it. -/
theorem route_reached (hb : Coherent b) {m : Message} (hr : b.registry.get? id = some r) (hs : b.session? r = some s)
    (hyes : b.Reaches id m.topic) : (∃ e : Event, e.message = m ∧ (b.route m).2.client? id = some (s.offered e)) ∧
      ∀ bucket : Bucket, bucket.name = id → bucket.contents (b.route m).2.store.queue
        = if s.accepts m then (bucket.contents b.store.queue).insert s.durable.next (Binary.encodeMessage m)
          else bucket.contents b.store.queue := by
  obtain ⟨x, hx, hid⟩ := reaches_iff.1 hyes
  have hxr : x.session = r := Option.some.inj ((hid ▸ hb.tied.registered (mem_of_mem_targets hx)).symm.trans hr)
  obtain ⟨e, he, hs'⟩ := (session?_route hb.sound hs m).2 ⟨x, hx, hxr⟩
  have hr' : (b.route m).2.registry.get? id = some r := by rw [(SameInterest.route b m).registry, hr]
  exact ⟨⟨e, he, client?_of hr' hs'⟩, fun bucket hbucket =>
    (contents_route hb.sound m bucket).2 x hx (hid.trans hbucket.symm) s (hxr ▸ hs)⟩

theorem SameView.route (h : SameView id a b) (ha : Coherent a) (hb : Coherent b) (m : Message) :
    SameView id (a.route m).2 (b.route m).2 := by
  have hreaches : b.Reaches id m.topic ↔ a.Reaches id m.topic := by simp only [Reaches, h.bound]
  by_cases hyes : a.Reaches id m.topic
  · have hsame : SameInterest a (a.route m).2 := .route a m
    have hsame' : SameInterest b (b.route m).2 := .route b m
    cases hq : a.registry.get? id with
    | none =>
      obtain ⟨f, hf, -⟩ := hyes
      rw [ha.isBound_free hq] at hf
      cases hf
    | some q =>
      obtain ⟨r, s, t, hr, hs, ht, -, hseen⟩ := h.registered ha.sound hq
      have haccepts : t.accepts m = s.accepts m := by
        show t.seen.accepts m = s.seen.accepts m
        rw [hseen]
      have hdurable : t.durable = s.durable := congrArg Mail.durable (Session.mail_eq_of_seen hseen)
      obtain ⟨⟨e, he, hs'⟩, hrecords⟩ := route_reached ha hq hs hyes
      obtain ⟨⟨e', he', ht'⟩, hrecords'⟩ := route_reached hb hr ht (hreaches.2 hyes)
      constructor
      · rw [hsame.settings, hsame'.settings, h.settings]
      · rw [hs', ht', Option.map_some, Option.map_some, Session.seen_offered hseen (he'.trans he.symm)]
      · rw [hsame.records, hsame'.records, h.record]
      · intro bucket hbucket
        rw [hrecords bucket hbucket, hrecords' bucket hbucket, haccepts, hdurable, h.records bucket hbucket]
      · intro f
        rw [hsame.exchange, hsame'.exchange, h.bound]
  · exact ((route_passed ha hyes).symm.trans h).trans (route_passed hb (mt hreaches.1 hyes))

end PubSub.Broker
