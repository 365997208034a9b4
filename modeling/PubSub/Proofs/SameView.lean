import PubSub.Proofs.Clients
import PubSub.Proofs.Interests
import PubSub.Proofs.Requests
/-!
# What one client can see

Two brokers look the same to a client when it has the same session on both, but for where the events that wait
there came from, the same session record, the same records in its bucket, and the same filters bound
(`SameView`). What is done for other clients changes none of this.
-/

namespace PubSub

/-- An event of which only the message counts. -/
def Event.anonymous (e : Event) : Event := { e with id := .published 0 }

def BestEffortQueue.anonymous (q : BestEffortQueue) : BestEffortQueue :=
  { q with waiting := q.waiting.map Event.anonymous }

/-- A session as its client knows it. -/
def Session.seen (s : Session) : Session := { s with bestEffort := s.bestEffort.anonymous }

theorem Session.seen_eq {s s' : Session} (hinterest : s'.interest = s.interest) (hmail : s'.mail = s.mail)
    (hwaiting : s'.bestEffort.anonymous = s.bestEffort.anonymous) : s'.seen = s.seen := by
  obtain ⟨hinfo, hfilters⟩ := Interest.mk.inj hinterest
  obtain ⟨-, hdurable, hacks, hcounter⟩ := Mail.mk.inj hmail
  unfold seen
  rw [hwaiting, hinfo, hfilters, hdurable, hacks, hcounter]

theorem Session.interest_eq_of_seen {s s' : Session} (h : s'.seen = s.seen) : s'.interest = s.interest := by
  show s'.seen.interest = s.seen.interest
  rw [h]

theorem Session.mail_eq_of_seen {s s' : Session} (h : s'.seen = s.seen) : s'.mail = s.mail := by
  show s'.seen.mail = s.seen.mail
  rw [h]

theorem Exchange.isBound_iff {x : Exchange} {f id : String} :
    x.isBound f id = true ↔ ∃ y ∈ x.bindings, y.filter = f ∧ y.id = id := isSome_bound?

namespace Broker

variable {b b' b'' : Broker} {r : SessionRef} {s : Session} {info : Info} {id id' : String}

theorem Sound.client?_eq_none_iff (hb : Sound b) : b.client? id = none ↔ b.registry.get? id = none := by
  refine ⟨fun h => ?_, client?_free⟩
  cases hr : b.registry.get? id with
  | none => rfl
  | some r =>
    obtain ⟨s, hs, -⟩ := hb.registered hr
    rw [client?_of hr hs] at h
    cases h

/-- A client sees nothing that tells one broker from the other. -/
structure SameView (id : String) (b b' : Broker) : Prop where
  settings : b'.settings = b.settings
  session : (b'.client? id).map Session.seen = (b.client? id).map Session.seen
  record : OrderedMap.get? b'.store.sessions (Text.bytes id) = OrderedMap.get? b.store.sessions (Text.bytes id)
  records : ∀ bucket : Bucket, bucket.name = id → bucket.contents b'.store.queue = bucket.contents b.store.queue
  bound : ∀ f, b'.exchange.isBound f id = b.exchange.isBound f id

namespace SameView

theorem refl (id : String) (b : Broker) : SameView id b b := ⟨rfl, rfl, rfl, fun _ _ => rfl, fun _ => rfl⟩

theorem symm (h : SameView id b b') : SameView id b' b :=
  ⟨h.settings.symm, h.session.symm, h.record.symm, fun c hc => (h.records c hc).symm, fun f => (h.bound f).symm⟩

theorem trans (h : SameView id b b') (h' : SameView id b' b'') : SameView id b b'' :=
  ⟨h'.settings.trans h.settings, h'.session.trans h.session, h'.record.trans h.record,
    fun c hc => (h'.records c hc).trans (h.records c hc), fun f => (h'.bound f).trans (h.bound f)⟩

/-- A client that has a session on one broker has the same on the other. -/
theorem registered (h : SameView id b b') (hb : Sound b) (hr : b.registry.get? id = some r) :
    ∃ r' s s', b'.registry.get? id = some r' ∧ b.session? r = some s ∧ b'.session? r' = some s' ∧ s.info.id = id ∧
      s'.seen = s.seen := by
  obtain ⟨s, hs, hid⟩ := hb.registered hr
  have hsession := h.session
  rw [client?_of hr hs] at hsession
  obtain ⟨s', hs', hseen⟩ := Option.map_eq_some_iff.1 hsession
  obtain ⟨r', hr', hs'⟩ := client?_eq_some_iff.1 hs'
  exact ⟨r', s, s', hr', hs, hs', hid, hseen⟩

theorem free (h : SameView id b b') (hb : Sound b') (hfree : b.registry.get? id = none) : b'.registry.get? id = none := by
  have hsession := h.session
  rw [client?_free hfree] at hsession
  exact hb.client?_eq_none_iff.1 (Option.map_eq_none_iff.1 hsession)

/-! ## Changes for other clients -/

theorem report (b : Broker) (ns : List Notice) : SameView id b (b.report ns) :=
  ⟨rfl, rfl, rfl, fun _ _ => rfl, fun _ => rfl⟩

/-- What leaves a client's registration and mail alone has to look after the rest of its session only. -/
theorem of_sameFor (hb : Sound b) (hfor : SameFor id b b') (hsettings : b'.settings = b.settings)
    (hsession : ∀ q t, b.session? q = some t → t.info.id = id → b'.session? q = some t)
    (hrecord : OrderedMap.get? b'.store.sessions (Text.bytes id) = OrderedMap.get? b.store.sessions (Text.bytes id))
    (hbound : ∀ x : Binding, x.id = id → (x ∈ b'.exchange.bindings ↔ x ∈ b.exchange.bindings)) : SameView id b b' where
  settings := hsettings
  session := by
    cases hr : b.registry.get? id with
    | none => rw [client?_free hr, client?_free (hfor.registry.trans hr)]
    | some q =>
      obtain ⟨t, ht, hid⟩ := hb.registered hr
      rw [client?_of hr ht, client?_of (hfor.registry.trans hr) (hsession q t ht hid)]
  record := hrecord
  records := hfor.records
  bound f := by
    rw [Bool.eq_iff_iff, Exchange.isBound_iff, Exchange.isBound_iff]
    constructor
    · rintro ⟨x, hx, hf, hid⟩
      exact ⟨x, (hbound x hid).1 hx, hf, hid⟩
    · rintro ⟨x, hx, hf, hid⟩
      exact ⟨x, (hbound x hid).2 hx, hf, hid⟩

end SameView

theorem settings_perform (b : Broker) (r : SessionRef) (c : Call) : (b.perform r c).settings = b.settings := by
  cases h : b.session? r with
  | none => exact (perform_absent h c).settings
  | some s =>
    obtain ⟨hdone, hidle⟩ := perform_spec h c
    cases hj : s.job? c with
    | none => exact (hidle hj).settings
    | some j => exact (hdone j hj).frame.interest.settings

theorem settings_dismiss (b : Broker) (id : String) (r : SessionRef) : (b.dismiss id r).settings = b.settings :=
  (Local.closeSession (b.unbindAll r) r).interest.settings.trans (SameMail.unbindAll b r).settings

namespace SameView

theorem perform_other (hb : Sound b) (c : Call) (hs : b.session? r = some s) (hid : s.info.id ≠ id) :
    SameView id b (b.perform r c) := by
  have hother : ∀ t, b.session? r = some t → t.info.id ≠ id := fun t ht => by
    rwa [Option.some.inj (ht.symm.trans hs)]
  refine of_sameFor hb (.perform hb c hother) (settings_perform b r c) (fun q t ht htid => ?_) ?_ fun x hx => ?_
  · rw [(perform_wants b r c).others q fun hq => hother t (hq ▸ ht) htid]
    exact ht
  · rw [perform_records hs]
    split
    · exact SessionRecords.get?_written_other ((s.interest.after_id c).symm ▸ hid)
    · rfl
  · have hne : x.id ≠ s.info.id := fun he => hid (he.symm.trans hx)
    rw [perform_exchange hs, Exchange.mem_unbindAll, Exchange.mem_bindAll]
    simp [hne]

theorem dismiss_other (hb : Sound b) (hr : b.registry.get? id' = some r) (h : id' ≠ id) : SameView id b (b.dismiss id' r) := by
  obtain ⟨s, hs, hid⟩ := hb.registered hr
  refine of_sameFor hb (.dismiss hb hr h) (settings_dismiss b id' r) (fun q t ht htid => ?_) ?_ fun x hx => ?_
  · rw [(dismiss_wants b id' r).others q, ht]
    rintro rfl
    rw [hs] at ht
    obtain rfl := Option.some.inj ht
    exact h (hid.symm.trans htid)
  · rw [records_dismiss]
  · have hne : x.id ≠ s.info.id := fun he => h (hid.symm.trans (he.symm.trans hx))
    rw [exchange_dismiss hs, Exchange.mem_unbindAll]
    simp [hne]

theorem enrol_other (hb : Sound b) (h : info.id ≠ id) : SameView id b (b.enrol info).2 := by
  by_cases hu : usableName info.id = true
  · obtain ⟨bucket, ns, -, heq⟩ := enrol_of_usable b hu
    rw [heq]
    refine trans ?_ (report (b.enrolled info bucket) ns)
    exact of_sameFor hb (.enrolled h) rfl (fun q t ht _ => session?_enrolled.2 (.inl ht))
      (SessionRecords.get?_written_other h) fun _ _ => Iff.rfl
  · obtain ⟨e, ns, heq⟩ := enrol_of_unusable b hu
    rw [heq]
    exact report b ns

theorem update_other (hb : Sound b) (hr : b.registry.get? id' = some r) (h : id' ≠ id) (info : Info) :
    SameView id b (b.update r info) := by
  obtain ⟨s, hs, hid⟩ := hb.registered hr
  exact perform_other hb (.update info) hs (hid ▸ h)

theorem cleared_other (hb : Sound b) (h : info.id ≠ id) : SameView id b (b.cleared info) := by
  unfold cleared
  split
  · exact refl id b
  · next r hr =>
    have hb' := hb.report [.sessionDiscarded info.id]
    have hupdated := (report b [.sessionDiscarded info.id]).trans (update_other hb' hr h { info with will := none })
    refine hupdated.trans (dismiss_other (hb'.update r _) ?_ h)
    rw [(SameMail.update _ r _).registry]
    exact hr

theorem connect_other (hb : Sound b) (h : info.id ≠ id) : SameView id b (b.connect info).2 := by
  rcases connect_cases b info with ⟨-, heq⟩ | ⟨r, hr, -, heq⟩ <;> rw [heq]
  · exact (cleared_other hb h).trans (enrol_other (hb.cleared info) h)
  · exact (report b _).trans (update_other (hb.report _) hr h info)

theorem disconnect_other (hb : Sound b) (h : id' ≠ id) : SameView id b (b.disconnect id') := by
  unfold Broker.disconnect
  split
  · exact refl id b
  · next r hr =>
    split
    · exact (report b _).trans (dismiss_other (hb.report _) hr h)
    · obtain ⟨s, hs, hid⟩ := hb.registered hr
      exact perform_other hb .requeue hs (hid ▸ h)

end SameView

end Broker

end PubSub
