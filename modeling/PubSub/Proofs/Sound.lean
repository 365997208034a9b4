import PubSub.Proofs.Lifecycle
/-!
# What ties a broker together

In every state a broker can come to, by any calls on any sessions (`Run.sound`): each session has the
bucket of its id, the registry and the exchange name sessions of the ids they say, a session whose
durable queue is open is the one registered under its id, and every session record is one that was
written for the id it is kept under.
-/

namespace PubSub.Broker

variable {b b' : Broker} {r : SessionRef} {s : Session} {info : Info} {id : String}

structure Sound (b : Broker) : Prop where
  named : ∀ {r s}, b.session? r = some s → s.durable.bucket.name = s.info.id
  registered : ∀ {id r}, b.registry.get? id = some r → ∃ s, b.session? r = some s ∧ s.info.id = id
  opened : ∀ {r s}, b.session? r = some s → s.durable.closed = false → b.registry.get? s.info.id = some r
  bound : ∀ {x}, x ∈ b.exchange.bindings → ∃ s, b.session? x.session = some s ∧ s.info.id = x.id
  recorded : SessionRecords.Recorded b.store.sessions

theorem session?_enrolled {bucket : Bucket} : (b.enrolled info bucket).session? r = some s ↔
    b.session? r = some s ∨ r = b.sessions.length ∧ s = b.newSession info bucket := by
  show (b.sessions ++ [b.newSession info bucket])[r]? = some s ↔ b.sessions[r]? = some s ∨ _
  rw [List.getElem?_append]
  split
  · next hlt => exact ⟨.inl, fun h => h.resolve_right fun he => absurd he.1 (Nat.ne_of_lt hlt)⟩
  · next hge =>
    rw [List.getElem?_singleton, List.getElem?_eq_none (Nat.le_of_not_lt hge)]
    have hge : b.sessions.length ≤ r := Nat.le_of_not_lt hge
    by_cases hr : r = b.sessions.length
    · rw [if_pos (by rw [hr, Nat.sub_self])]
      simp [hr, eq_comm]
    · rw [if_neg (Nat.sub_ne_zero_of_lt (Nat.lt_of_le_of_ne hge (Ne.symm hr)))]
      simp [hr]

theorem session?_enrolled_new {bucket : Bucket} :
    (b.enrolled info bucket).session? b.sessions.length = some (b.newSession info bucket) :=
  session?_enrolled.2 (.inr ⟨rfl, rfl⟩)

theorem session?_ne_length (hs : b.session? r = some s) : r ≠ b.sessions.length :=
  Nat.ne_of_lt (List.getElem?_eq_some_iff.1 hs).1

theorem get?_registry_enrolled (b : Broker) (info : Info) (bucket : Bucket) (id : String) :
    (b.enrolled info bucket).registry.get? id
      = if id = info.id then some b.sessions.length else b.registry.get? id :=
  OrderedMap.get?_insert _ _ _ _

theorem get?_registry_dismiss (b : Broker) (id : String) (r : SessionRef) : (b.dismiss id r).registry.get? id = none := by
  rw [registry_dismiss, OrderedMap.get?_erase, if_pos rfl]

theorem get?_registry_cleared (b : Broker) (info : Info) : (b.cleared info).registry.get? info.id = none := by
  unfold cleared
  split
  · next hr => exact hr
  · exact get?_registry_dismiss _ _ _

theorem length_sessions_cleared (b : Broker) (info : Info) : (b.cleared info).sessions.length = b.sessions.length := by
  unfold cleared
  split
  · rfl
  · exact (length_sessions_dismiss _ _ _).trans (SameMail.update _ _ _).length_sessions

theorem registry_enrol (h : usableName info.id = true) :
    (b.enrol info).2.registry = b.registry.insert info.id b.sessions.length := by
  obtain ⟨bucket, ns, -, heq⟩ := enrol_of_usable b h
  rw [heq]
  rfl

theorem registry_restored (hu : usableName info.id = true) (id : String) :
    ((b.enrol info).2.registerAll b.sessions.length).registry.get? id
      = if id = info.id then some b.sessions.length else b.registry.get? id := by
  rw [(SameMail.registerAll _ _).registry, registry_enrol hu, OrderedMap.get?_insert]

namespace Sound

theorem usable (h : Sound b) (hs : b.session? r = some s) : usableName s.info.id = true :=
  h.named hs ▸ s.durable.bucket.usable

/-- Only the session registered under its id has an open queue. -/
theorem closed (h : Sound b) (hs : b.session? r = some s) (hfree : b.registry.get? s.info.id ≠ some r) :
    s.durable.closed = true := by
  rw [← Bool.not_eq_false]
  exact fun hopen => hfree (h.opened hs hopen)

theorem id_of_registered (h : Sound b) (hr : b.registry.get? id = some r) (hs : b.session? r = some s) :
    s.info.id = id := by
  obtain ⟨t, ht, hid⟩ := h.registered hr
  obtain rfl := Option.some.inj (hs.symm.trans ht)
  exact hid

theorem id_of_bound (h : Sound b) {x : Binding} (hx : x ∈ b.exchange.bindings) (hs : b.session? x.session = some s) :
    s.info.id = x.id := by
  obtain ⟨t, ht, hid⟩ := h.bound hx
  obtain rfl := Option.some.inj (hs.symm.trans ht)
  exact hid

theorem of_registered (h : Sound b) (hr : b.Registered r) (hs : b.session? r = some s) :
    b.registry.get? s.info.id = some r := by
  obtain ⟨id, hr⟩ := hr
  rw [h.id_of_registered hr hs]
  exact hr

/-- What changes no mail has to look after the exchange and the session records only. -/
theorem of_sameMail (h : Sound b) (hm : SameMail b b')
    (hbound : ∀ x ∈ b'.exchange.bindings, ∃ s, b.session? x.session = some s ∧ s.info.id = x.id)
    (hrecorded : SessionRecords.Recorded b'.store.sessions) : Sound b' where
  named hs' := by
    obtain ⟨s, hs, heq⟩ := hm.session?_back hs'
    obtain ⟨hid, hdurable, -, -⟩ := Mail.mk.inj heq
    rw [hid, hdurable]
    exact h.named hs
  registered hr := by
    rw [hm.registry] at hr
    obtain ⟨s, hs, rfl⟩ := h.registered hr
    obtain ⟨s', hs', heq⟩ := hm.session? hs
    exact ⟨s', hs', congrArg Mail.id heq⟩
  opened hs' hopen := by
    obtain ⟨s, hs, heq⟩ := hm.session?_back hs'
    obtain ⟨hid, hdurable, -, -⟩ := Mail.mk.inj heq
    rw [hdurable] at hopen
    rw [hm.registry, hid]
    exact h.opened hs hopen
  bound hx := by
    obtain ⟨s, hs, hid⟩ := hbound _ hx
    obtain ⟨s', hs', heq⟩ := hm.session? hs
    exact ⟨s', hs', (congrArg Mail.id heq).trans hid⟩
  recorded := hrecorded

theorem of_local (h : Sound b) (hl : Local r b b') : Sound b' where
  named hs' := by
    obtain ⟨s, hs, heq, hbucket, -⟩ := hl.session?_back hs'
    rw [hbucket, h.named hs, Interest.id_eq heq]
  registered hr := by
    rw [hl.interest.registry] at hr
    obtain ⟨s, hs, rfl⟩ := h.registered hr
    obtain ⟨s', hs', heq⟩ := hl.interest.session? hs
    exact ⟨s', hs', Interest.id_eq heq⟩
  opened {r s'} hs' hopen := by
    obtain ⟨s, hs, heq, -, hclosed⟩ := hl.session?_back hs'
    have hopen' : s.durable.closed = false := by
      rw [← Bool.not_eq_true]
      intro hc
      rw [hclosed hc] at hopen
      cases hopen
    rw [hl.interest.registry, Interest.id_eq heq]
    exact h.opened hs hopen'
  bound hx := by
    rw [hl.interest.exchange] at hx
    obtain ⟨s, hs, hid⟩ := h.bound hx
    obtain ⟨s', hs', heq⟩ := hl.interest.session? hs
    exact ⟨s', hs', (Interest.id_eq heq).trans hid⟩
  recorded := hl.interest.records ▸ h.recorded

/-! ## Calls on a session -/

theorem report (h : Sound b) (ns : List Notice) : Sound (b.report ns) :=
  h.of_local (Local.report (r := 0) b ns)

theorem persist (h : Sound b) (hu : usableName info.id = true) : Sound (b.persist info) := by
  refine h.of_sameMail (.persist b info) (fun x hx => h.bound hx) ?_
  unfold Broker.persist
  dsimp only
  split
  · exact h.recorded.remove info.id
  · exact h.recorded.save hu

theorem persistSession (h : Sound b) (r : SessionRef) : Sound (b.persistSession r) := by
  unfold Broker.persistSession
  split
  · exact h
  · next s hs => exact h.persist (h.usable hs)

theorem registerAll (h : Sound b) (r : SessionRef) : Sound (b.registerAll r) := by
  refine h.of_sameMail (.registerAll b r) (fun x hx => ?_) ?_ <;> unfold Broker.registerAll at *
  · split at hx
    · exact h.bound hx
    · next s hs =>
      rcases Exchange.mem_bindAll.1 hx with ⟨hx, -⟩ | ⟨-, hid, hr⟩
      · exact h.bound hx
      · exact ⟨s, hr ▸ hs, hid.symm⟩
  · split <;> exact h.recorded

theorem unbindAll (h : Sound b) (r : SessionRef) : Sound (b.unbindAll r) := by
  refine h.of_sameMail (.unbindAll b r) (fun x hx => ?_) ?_ <;> unfold Broker.unbindAll at *
  · split at hx
    · exact h.bound hx
    · exact h.bound (Exchange.mem_unbindAll.1 hx).1
  · split <;> exact h.recorded

theorem forgetAll (h : Sound b) (r : SessionRef) (filters : List String) : Sound (b.forgetAll r filters) := by
  refine h.of_sameMail (.forgetAll b r filters) (fun x hx => ?_) ?_ <;> unfold Broker.forgetAll at *
  · split at hx
    · exact h.bound hx
    · exact h.bound (Exchange.mem_unbindAll.1 hx).1
  · split <;> exact h.recorded

theorem accept (h : Sound b) (r : SessionRef) (subs : List Subscription) : Sound (b.accept r subs) := by
  refine h.of_sameMail (.accept b r subs) (fun x hx => ?_) ?_ <;> unfold Broker.accept at *
  · split at hx <;> exact h.bound hx
  · split <;> exact h.recorded

theorem subscribe (h : Sound b) (r : SessionRef) (subs : List Subscription) (authorize : Option Authorize) :
    Sound (b.subscribe r subs authorize).2 := by
  have hheld := (h.accept r subs).registerAll r
  rcases subscribe_cases b r subs authorize with ⟨heq, -⟩ | ⟨-, -, heq | ⟨ns, denied, heq⟩⟩ <;> rw [heq]
  · exact h
  · exact hheld.persistSession r
  · exact ((hheld.report ns).forgetAll r denied).persistSession r

theorem unsubscribe (h : Sound b) (r : SessionRef) (filters : List String) : Sound (b.unsubscribe r filters) := by
  unfold Broker.unsubscribe
  split
  · exact h
  · exact (h.forgetAll r _).persistSession r

/-- A session whose information changes but for the id. -/
theorem setInfo (h : Sound b) (hs : b.session? r = some s) (info : Info) (hid : info.id = s.info.id) :
    Sound (b.setSession r { s with info }) :=
  h.of_sameMail (.setSession hs (by simp only [Session.mail, hid])) (fun _ hx => h.bound hx) h.recorded

theorem update (h : Sound b) (r : SessionRef) (info : Info) : Sound (b.update r info) := by
  unfold Broker.update
  split
  · exact h
  · next s hs => exact (h.setInfo hs { s.info with will := info.will, clean := info.clean } rfl).persistSession r

theorem cleanWill (h : Sound b) (r : SessionRef) : Sound (b.cleanWill r) := by
  unfold Broker.cleanWill
  split
  · exact h
  · next s hs => exact (h.setInfo hs { s.info with will := none } rfl).persistSession r

theorem perform (h : Sound b) (r : SessionRef) (c : Call) : Sound (b.perform r c) := by
  cases c with
  | push m => exact h.of_local (.push b r m)
  | subscribe subs authorize => exact h.subscribe r subs authorize
  | unsubscribe filters => exact h.unsubscribe r filters
  | update info => exact h.update r info
  | cleanWill => exact h.cleanWill r
  | nextBestEffort => exact h.of_local (.nextBestEffort b r)
  | nextGuaranteed => exact h.of_local (.nextGuaranteed b r)
  | acknowledge id => exact h.of_local (.acknowledge b r id)
  | requeue => exact h.of_local (.requeue b r)
  | close => exact h.of_local (.closeSession b r)

theorem route (h : Sound b) (m : Message) : Sound (b.route m).2 := by
  have hfold (copies : List (Binding × Event)) (b : Broker) (h : Sound b) :
      Sound (copies.foldl (fun b tc => b.deliver tc.1 tc.2) b) := by
    induction copies generalizing b with
    | nil => exact h
    | cons c copies ih => exact ih _ (h.of_local (.deliver b c.1 c.2))
  exact hfold _ _ (h.of_local (r := 0) (.events b _))

/-! ## Coming and going -/

theorem enrolled {bucket : Bucket} (h : Sound b) (hb : bucket.name = info.id) (hfree : b.registry.get? info.id = none) :
    Sound (b.enrolled info bucket) where
  named hs := by
    rcases session?_enrolled.1 hs with hs | ⟨-, rfl⟩
    · exact h.named hs
    · exact hb
  registered {id r} hr := by
    have hget : (b.registry.insert info.id b.sessions.length).get? id = some r := hr
    rw [OrderedMap.get?_insert] at hget
    split at hget
    · next hid =>
      obtain rfl := Option.some.inj hget
      exact ⟨_, session?_enrolled_new, hid.symm⟩
    · obtain ⟨s, hs, hid⟩ := h.registered hget
      exact ⟨s, session?_enrolled.2 (.inl hs), hid⟩
  opened {r s} hs hopen := by
    show (b.registry.insert info.id b.sessions.length).get? s.info.id = some r
    rw [OrderedMap.get?_insert]
    rcases session?_enrolled.1 hs with hs | ⟨rfl, rfl⟩
    · -- The id is free, so no open queue is of that id.
      have hreg := h.opened hs hopen
      rw [if_neg (fun he => by rw [he, hfree] at hreg; cases hreg)]
      exact hreg
    · exact if_pos rfl
  bound hx := by
    obtain ⟨s, hs, hid⟩ := h.bound hx
    exact ⟨s, session?_enrolled.2 (.inl hs), hid⟩
  recorded := by
    show SessionRecords.Recorded (if info.clean then SessionRecords.remove b.store.sessions info.id
      else SessionRecords.save b.store.sessions info.id info)
    split
    · exact h.recorded.remove info.id
    · exact h.recorded.save (hb ▸ bucket.usable)

theorem enrol (h : Sound b) (hfree : b.registry.get? info.id = none) : Sound (b.enrol info).2 := by
  by_cases hu : usableName info.id = true
  · obtain ⟨bucket, ns, hb, heq⟩ := enrol_of_usable b hu
    rw [heq]
    exact (h.enrolled hb hfree).report ns
  · obtain ⟨e, ns, heq⟩ := enrol_of_unusable b hu
    rw [heq]
    exact h.report ns

/-- The id of a session that is closed can be freed. -/
theorem unregister (h : Sound b) (hr : b.registry.get? id = some r)
    (hclosed : ∀ s, b.session? r = some s → s.durable.closed = true) : Sound (b.unregister id) where
  named hs := h.named hs
  registered {id' r'} hr' := by
    have hget : (b.registry.erase id).get? id' = some r' := hr'
    rw [OrderedMap.get?_erase] at hget
    split at hget
    · cases hget
    · exact h.registered hget
  opened {r' s} hs hopen := by
    have hreg := h.opened hs hopen
    show (b.registry.erase id).get? s.info.id = some r'
    rw [OrderedMap.get?_erase]
    split
    · next hid =>
      -- The session registered under the id is closed, so the open one is of another id.
      rw [hid, hr] at hreg
      obtain rfl := Option.some.inj hreg
      rw [hclosed s hs] at hopen
      cases hopen
    · exact hreg
  bound hx := h.bound hx
  recorded := h.recorded

theorem dismiss (h : Sound b) (hr : b.registry.get? id = some r) : Sound (b.dismiss id r) := by
  have hunbound := h.unbindAll r
  have hclose := Local.closeSession (b.unbindAll r) r
  refine (hunbound.of_local hclose).unregister (r := r) ?_ fun s hs => ?_
  · rw [hclose.interest.registry, (SameMail.unbindAll b r).registry, hr]
  · exact closed_of_closeSession hs

theorem cleared (h : Sound b) (info : Info) : Sound (b.cleared info) := by
  unfold Broker.cleared
  split
  · exact h
  · next r hr =>
    refine ((h.report _).update r { info with will := none }).dismiss ?_
    rw [(SameMail.update _ r _).registry]
    exact hr

theorem connect (h : Sound b) (info : Info) : Sound (b.connect info).2 := by
  rcases connect_cases b info with ⟨-, heq⟩ | ⟨r, -, -, heq⟩ <;> rw [heq]
  · exact (h.cleared info).enrol (get?_registry_cleared b info)
  · exact (h.report _).update r info

theorem disconnect (h : Sound b) (id : String) : Sound (b.disconnect id) := by
  unfold Broker.disconnect
  split
  · exact h
  · next r hr =>
    split
    · exact (h.report _).dismiss hr
    · exact h.of_local (.requeue b r)

/-- What every dismissal of a registered session keeps is kept when all are dismissed. -/
theorem dismissAll {I : Broker → Prop}
    (hdismiss : ∀ {b id r}, Sound b → I b → b.registry.get? id = some r → I (b.dismiss id r))
    (h : Sound b) (hI : I b) (es : List (String × SessionRef)) (hes : ∀ e ∈ es, b.registry.get? e.1 = some e.2)
    (hids : es.Pairwise (fun e f => e.1 ≠ f.1)) :
    Sound (es.foldl (fun b e => b.dismiss e.1 e.2) b) ∧ I (es.foldl (fun b e => b.dismiss e.1 e.2) b) := by
  induction es generalizing b with
  | nil => exact ⟨h, hI⟩
  | cons e es ih =>
    obtain ⟨hne, hids⟩ := List.pairwise_cons.1 hids
    have hr := hes e List.mem_cons_self
    refine ih (h.dismiss hr) (hdismiss h hI hr) (fun f hf => ?_) hids
    rw [registry_dismiss, OrderedMap.get?_erase, if_neg (Ne.symm (hne f hf))]
    exact hes f (List.mem_cons_of_mem e hf)

theorem dismissRegistered {I : Broker → Prop}
    (hdismiss : ∀ {b id r}, Sound b → I b → b.registry.get? id = some r → I (b.dismiss id r)) (h : Sound b) (hI : I b) :
    Sound (b.registry.entries.foldl (fun b e => b.dismiss e.1 e.2) b) ∧
      I (b.registry.entries.foldl (fun b e => b.dismiss e.1 e.2) b) := by
  refine h.dismissAll hdismiss hI b.registry.entries (fun e he => ?_) ?_
  · exact OrderedMap.get?_eq_some_iff.2 he
  · exact b.registry.ascending.imp fun hlt he => absurd (he ▸ hlt) (KeyOrder.irrefl _)

theorem close (h : Sound b) : Sound b.close :=
  (h.dismissRegistered (I := fun _ => True) (fun _ _ _ => trivial) trivial).1.report _

theorem opening {settings : Settings} {store : Store} {events : EventTable} (h : SessionRecords.Recorded store.sessions) :
    Sound (opening settings store events) where
  named hs := by cases hs
  registered hr := by cases hr
  opened hs := by cases hs
  bound hx := by cases hx
  recorded := h

/-- Opening enrols each session recorded under an id that is free, on a broker that is sound. -/
theorem openOn_induction {I : List Info → Broker → Prop} {settings : Settings} {store : Store} {events : EventTable}
    (hreport : ∀ done b ns, I done b → I done (b.report ns))
    (hstep : ∀ done b info, Sound b → I done b → info ∈ (SessionRecords.loadAll store.sessions).1 →
      usableName info.id = true → b.registry.get? info.id = none →
      I (done ++ [info]) ((b.enrol info).2.registerAll b.sessions.length))
    (hflaw : settings.flaw = none) (h : SessionRecords.Recorded store.sessions)
    (hfirst : I [] (Broker.opening settings store events)) :
    Sound (openOn settings (.database store) events).2 ∧
      I (SessionRecords.loadAll store.sessions).1 (openOn settings (.database store) events).2 := by
  obtain ⟨-, hinfos, hids⟩ := SessionRecords.loadAll_of_recorded h
  have hall (done : List Info) (b : Broker) (info : Info) (rest : List Info)
      (hload : (SessionRecords.loadAll store.sessions).1 = done ++ info :: rest)
      (hI : (Sound b ∧ I done b) ∧ ∀ id, (b.registry.get? id).isSome → ∃ d ∈ done, d.id = id)
      (hu : usableName info.id = true) :
      (Sound ((b.enrol info).2.registerAll b.sessions.length) ∧
        I (done ++ [info]) ((b.enrol info).2.registerAll b.sessions.length)) ∧
      ∀ id, (((b.enrol info).2.registerAll b.sessions.length).registry.get? id).isSome →
        ∃ d ∈ done ++ [info], d.id = id := by
    obtain ⟨⟨hb, hi⟩, hdone⟩ := hI
    rw [hload] at hids
    have hfree : b.registry.get? info.id = none := by
      apply Option.not_isSome_iff_eq_none.1
      intro hsome
      obtain ⟨d, hd, hid⟩ := hdone _ hsome
      exact (List.pairwise_append.1 hids).2.2 d hd info List.mem_cons_self hid
    have hinfo : info ∈ (SessionRecords.loadAll store.sessions).1 :=
      hload ▸ List.mem_append_right done List.mem_cons_self
    refine ⟨⟨(hb.enrol hfree).registerAll _, hstep done b info hb hi hinfo hu hfree⟩, fun id hid => ?_⟩
    rw [registry_restored hu] at hid
    split at hid
    · next he => exact ⟨info, List.mem_append_right done List.mem_cons_self, he.symm⟩
    · obtain ⟨d, hd, he⟩ := hdone id hid
      exact ⟨d, List.mem_append_left _ hd, he⟩
  exact (Broker.openOn_induction (fun _ _ ns hI => ⟨⟨hI.1.1.report ns, hreport _ _ ns hI.1.2⟩, hI.2⟩) hall hflaw
    (fun i hi => (hinfos i hi).2) ⟨⟨opening h, hfirst⟩, fun id hid => by cases hid⟩).1

theorem openOn {settings : Settings} {store : Store} {events : EventTable} (hflaw : settings.flaw = none)
    (h : SessionRecords.Recorded store.sessions) : Sound (openOn settings (.database store) events).2 :=
  (openOn_induction (I := fun _ _ => True) (fun _ _ _ hI => hI) (fun _ _ _ _ hI _ _ _ => hI) hflaw h trivial).1

theorem reopen (h : Sound b) {settings : Settings} (hflaw : settings.flaw = none) (orderly : Bool) :
    Sound (b.reopen settings orderly).2 := by
  obtain ⟨events, heq⟩ := reopen_eq b settings orderly
  rw [heq]
  refine openOn hflaw ?_
  split
  · exact h.close.recorded
  · exact h.recorded

end Sound

/-! ## Invariants of coming and going -/

/-- An invariant of what sessions are known to want, that is kept when registered ones are dismissed. -/
structure Enduring (I : Broker → Prop) : Prop where
  same : ∀ {b b'}, I b → SameInterest b b' → I b'
  dismiss : ∀ {b id r}, Sound b → I b → b.registry.get? id = some r → I (b.dismiss id r)

namespace Enduring

variable {I : Broker → Prop}

theorem report (hI : Enduring I) (h : I b) (ns : List Notice) : I (b.report ns) :=
  hI.same h (.report b ns)

theorem cleared (hI : Enduring I) (hb : Sound b) (h : I b) (info : Info)
    (hupdate : ∀ {b r}, Sound b → I b → b.registry.get? info.id = some r → I (b.update r { info with will := none })) :
    I (b.cleared info) := by
  unfold Broker.cleared
  split
  · exact h
  · next r hr =>
    have hupdated := hupdate (hb.report [.sessionDiscarded info.id]) (hI.report h _) hr
    refine hI.dismiss ((hb.report _).update r _) hupdated ?_
    rw [(SameMail.update _ r _).registry]
    exact hr

theorem disconnect (hI : Enduring I) (hb : Sound b) (h : I b) (id : String) : I (b.disconnect id) := by
  unfold Broker.disconnect
  split
  · exact h
  · next r hr =>
    split
    · exact hI.dismiss (hb.report _) (hI.report h _) hr
    · exact hI.same h (Local.requeue b r).interest

theorem close (hI : Enduring I) (hb : Sound b) (h : I b) : I b.close :=
  hI.report (hb.dismissRegistered hI.dismiss h).2 _

end Enduring

namespace Sound

/-! ## Runs -/

theorem step (h : Sound b) {op : Op} (hop : op.Configured) : Sound (b.step op) := by
  cases op with
  | connect info => exact h.connect info
  | disconnect id => exact h.disconnect id
  | route m => exact h.route m
  | call r c => exact h.perform r c
  | close => exact h.close
  | reopen settings orderly => exact h.reopen hop orderly

theorem start {settings : Settings} (hflaw : settings.flaw = none) : Sound (start settings) :=
  openOn hflaw SessionRecords.recorded_empty

end Sound

theorem Run.sound {allowed : Broker → Op → Prop} {settings : Settings} {ops : List Op}
    (h : Run allowed (Broker.start settings) ops b) (hflaw : settings.flaw = none)
    (hop : ∀ b op, allowed b op → op.Configured) : Sound b :=
  h.invariant Sound (.start hflaw) fun b op hb ha => hb.step (hop b op ha)

end PubSub.Broker
