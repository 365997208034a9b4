import PubSub.Proofs.CleanStart
import PubSub.Proofs.Opening
import PubSub.Proofs.OwnCalls
/-!
# Whether the session a client gets works

Nothing opens a queue again once it is closed, and connecting does not ask whether the queues of the session it
resumes are. So a client gets a session that takes in and hands out messages (`Working`) unless its session was
closed by a call while it was registered; then it gets that session back, and both its queues refuse
(`connected_works`).
-/

namespace PubSub

/-- A queue says that it is closed just when it is. -/
theorem DurableQueue.pop_closed_iff {q : DurableQueue} {k : Keyspace} {name : String} :
    (q.pop k).1 = .error (.closed name) ↔ q.closed = true ∧ name = q.bucket.name := by
  have hp := q.popped k
  generalize q.pop k = x at hp
  cases hp with
  | closed h => simp [closedError, h, eq_comm]
  | full hopen | drained hopen | delivered hopen | unreadable hopen => simp [hopen]

theorem BestEffortQueue.close_close (q : BestEffortQueue) : q.close.2.closed = true ∧ q.close.2.name = q.name := by
  unfold close
  split
  · next h => exact ⟨h, rfl⟩
  · exact ⟨rfl, rfl⟩

/-- A session goes by one id throughout, and both of its queues are closed or neither is. -/
structure Session.Known (id : String) (closed : Bool) (s : Session) : Prop where
  info : s.info.id = id
  bucket : s.durable.bucket.name = id
  name : s.bestEffort.name = id
  bestEffort : s.bestEffort.closed = closed
  durable : s.durable.closed = closed

namespace Session.Known

variable {s s' : Session} {id : String} {closed : Bool}

theorem new {info : Info} {bucket : Bucket} (hb : bucket.name = info.id) (maxBestEffort maxGuaranteed : Nat)
    (k : Keyspace) : (Session.new info bucket maxBestEffort maxGuaranteed k).Known info.id false :=
  ⟨rfl, hb, rfl, rfl, rfl⟩

theorem offered (h : s.Known id closed) (e : Event) : (s.offered e).Known id closed := by
  unfold Session.offered
  split
  · exact h
  · unfold BestEffortQueue.offered
    split
    · exact h
    · exact ⟨h.info, h.bucket, h.name, h.bestEffort, h.durable⟩
  · split
    · exact h
    · exact ⟨h.info, h.bucket, h.name, h.bestEffort, h.durable⟩

/-- Only closing closes, whatever else a call makes of a session. -/
theorem called (h : s.Known id closed) {c : Call} {k k' : Keyspace} (hinterest : s'.interest = s.interest.after c)
    (hmail : (s'.mail, k') = s.mail.runs k (s.job? c)) (hbacklog : s'.bestEffort.anonymous = (s.backlog c).anonymous)
    (hc : c ≠ .close) : s'.Known id closed := by
  have hid : s'.info.id = id := (congrArg (·.info.id) hinterest).trans ((s.interest.after_id c).trans h.info)
  have hqueue : s'.bestEffort.name = id ∧ s'.bestEffort.closed = closed := by
    rw [show s'.bestEffort.name = (s.backlog c).name from (congrArg BestEffortQueue.name hbacklog :),
      show s'.bestEffort.closed = (s.backlog c).closed from (congrArg BestEffortQueue.closed hbacklog :)]
    cases c with
    | push m => exact ⟨(h.offered _).name, (h.offered _).bestEffort⟩
    | nextBestEffort =>
      show s.bestEffort.pop.2.name = id ∧ s.bestEffort.pop.2.closed = closed
      unfold BestEffortQueue.pop
      split <;> exact ⟨h.name, h.bestEffort⟩
    | close => exact absurd rfl hc
    | _ => exact ⟨h.name, h.bestEffort⟩
  have hdurable : s'.durable.bucket.name = id ∧ s'.durable.closed = closed := by
    have hmail : s'.mail = (s.mail.runs k (s.job? c)).1 := congrArg Prod.fst hmail
    rw [show s'.durable = (s.mail.runs k (s.job? c)).1.durable from congrArg Mail.durable hmail]
    cases hj : s.job? c with
    | none => exact ⟨h.bucket, h.durable⟩
    | some j =>
      have hclose (clean : Bool) : j ≠ .close clean := by
        rintro rfl
        cases c with
        | close => exact hc rfl
        | push m =>
          rw [Session.job?] at hj
          split at hj <;> cases hj
        | _ => cases hj
      show (s.mail.run k j).1.durable.bucket.name = id ∧ (s.mail.run k j).1.durable.closed = closed
      rw [(Mail.run_setup _ _ _).1, Mail.run_closed _ _ hclose]
      exact ⟨h.bucket, h.durable⟩
  exact ⟨hid, hdurable.1, hqueue.1, hqueue.2, hdurable.2⟩

theorem close (h : s.Known id closed) (k : Keyspace) (clean : Bool) :
    ({ s with bestEffort := s.bestEffort.close.2, durable := (s.durable.close k clean).1 } : Session).Known id true where
  info := h.info
  bucket := (congrArg Bucket.name (s.durable.close_bucket k clean)).trans h.bucket
  name := s.bestEffort.close_close.2.trans h.name
  bestEffort := s.bestEffort.close_close.1
  durable := s.durable.close_closed k clean

end Session.Known

namespace Broker

variable {b b' : Broker} {q r : SessionRef} {s : Session} {info : Info} {id : String} {closed : SessionRef → Prop}

/-! ## What a session answers -/

/-- The session takes in what is pushed on it, and hands out what it has. -/
structure Working (b : Broker) (r : SessionRef) (s : Session) : Prop where
  bestEffort : ∀ m : Message, m.qos.isGuaranteed = false → (b.push r m).1 = .ok ()
  guaranteed : ∀ (m : Message) (q : QoS), m.qos.isGuaranteed = true → s.matchQoS m.topic = some q → q.isGuaranteed = true →
    (b.push r m).1 = .ok () ∧ (b.push r m).2.session? r = some { s with durable := s.durable.stored } ∧
      s.durable.bucket.get? (b.push r m).2.store.queue s.durable.next = some (Binary.encodeMessage m)
  next : ∀ name, (b.nextGuaranteed r).1 ≠ .error (.closed name)

/-- The session takes in nothing and hands out nothing guaranteed, for its queues are closed. -/
structure Refusing (b : Broker) (r : SessionRef) (s : Session) : Prop where
  bestEffort : ∀ m : Message, m.qos.isGuaranteed = false → (b.push r m).1 = .error (.closed s.info.id)
  guaranteed : ∀ (m : Message) (q : QoS), m.qos.isGuaranteed = true → s.matchQoS m.topic = some q → q.isGuaranteed = true →
    (b.push r m).1 = .error (.closed s.info.id)
  next : (b.nextGuaranteed r).1 = .error (.closed s.info.id)

theorem working_of_open (hs : b.session? r = some s) (h : s.Known id false) : Working b r s where
  bestEffort m hm := by
    have hlane : s.lane? m = some .bestEffort := if_neg (by rw [hm]; exact Bool.false_ne_true)
    rw [(push_eq hs m).1, Session.answer, hlane]
    exact if_neg (by rw [h.bestEffort]; exact Bool.false_ne_true)
  guaranteed m q hm hmatch hq := by
    have hlane : s.lane? m = some .durable := by rw [Session.lane?, if_pos hm, hmatch, Option.map_some, if_pos hq]
    have hopen : ¬ s.durable.closed = true := by rw [h.durable]; exact Bool.false_ne_true
    have haccepts : s.accepts m = true := by rw [s.accepts_eq, hlane, h.durable]; rfl
    obtain ⟨hanswer, e, rfl, hs'⟩ := push_eq hs m
    refine ⟨?_, ?_, ?_⟩
    · rw [hanswer, Session.answer, hlane]
      exact if_neg hopen
    · rw [hs', Session.offered, hlane]
      exact congrArg some (if_neg hopen)
    · obtain ⟨s', -, -, hrun, -⟩ := perform_session hs (.push e.message)
      rw [show s.job? (.push e.message) = some (.store e.message) from if_pos haccepts] at hrun
      have hrecords : (b.push r e.message).2.store.queue = (s.mail.run b.store.queue (.store e.message)).2 :=
        congrArg Prod.snd hrun
      rw [hrecords, Mail.run_store_open h.durable, ← Bucket.get?_contents]
      show ((s.durable.bucket.contents (s.durable.bucket.put _ _ _)).get? _) = _
      rw [Bucket.contents_put, OrderedMap.get?_insert]
      exact if_pos rfl
  next name hanswer := by
    rw [(nextGuaranteed_spec hs).1, Mail.next_eq_iff (fun d h => by cases h), DurableQueue.pop_closed_iff] at hanswer
    exact Bool.false_ne_true (h.durable.symm.trans hanswer.1)

theorem refusing_of_closed (hs : b.session? r = some s) (h : s.Known id true) : Refusing b r s where
  bestEffort m hm := by
    have hlane : s.lane? m = some .bestEffort := if_neg (by rw [hm]; exact Bool.false_ne_true)
    rw [(push_eq hs m).1, Session.answer, hlane, h.info, ← h.name]
    exact if_pos h.bestEffort
  guaranteed m q hm hmatch hq := by
    have hlane : s.lane? m = some .durable := by rw [Session.lane?, if_pos hm, hmatch, Option.map_some, if_pos hq]
    rw [(push_eq hs m).1, Session.answer, hlane, h.info, ← h.bucket]
    exact if_pos h.durable
  next := by
    rw [(nextGuaranteed_spec hs).1, Mail.next_eq_iff (fun d h => by cases h), DurableQueue.pop_closed_iff]
    exact ⟨h.durable, h.info.trans h.bucket.symm⟩

/-! ## Along a run -/

/-- Each registered session goes by its id, and its queues are closed just when it was closed by a call. -/
structure ShutByCall (closed : SessionRef → Prop) (b : Broker) : Prop where
  registered : ∀ {id r}, b.registry.get? id = some r → ∃ s c, b.session? r = some s ∧ s.Known id c ∧ (c = true ↔ closed r)
  made : ∀ {r}, closed r → ∃ s id c, b.session? r = some s ∧ s.Known id c

namespace ShutByCall

/-- What leaves the registry alone has to look after single sessions only. -/
theorem same (h : ShutByCall closed b) (hregistry : b'.registry = b.registry)
    (hkept : ∀ r s id c, b.session? r = some s → s.Known id c → ∃ s', b'.session? r = some s' ∧ s'.Known id c) :
    ShutByCall closed b' where
  registered hr := by
    rw [hregistry] at hr
    obtain ⟨s, c, hs, hknown, hc⟩ := h.registered hr
    obtain ⟨s', hs', hknown'⟩ := hkept _ s _ c hs hknown
    exact ⟨s', c, hs', hknown', hc⟩
  made hr := by
    obtain ⟨s, id, c, hs, hknown⟩ := h.made hr
    obtain ⟨s', hs', hknown'⟩ := hkept _ s id c hs hknown
    exact ⟨s', id, c, hs', hknown'⟩

theorem report (h : ShutByCall closed b) (ns : List Notice) : ShutByCall closed (b.report ns) :=
  h.same rfl fun _ s _ _ hs hknown => ⟨s, hs, hknown⟩

/-- A call that is not to close leaves all queues open that are. -/
theorem call (h : ShutByCall closed b) (q : SessionRef) {c : Call} (hc : c ≠ .close) : ShutByCall closed (b.perform q c) := by
  refine h.same (registry_perform b q c) fun r s id d hs hknown => ?_
  by_cases hr : r = q
  · subst hr
    obtain ⟨s', hs', hinterest, hmail, hbacklog⟩ := perform_session hs c
    exact ⟨s', hs', hknown.called hinterest hmail hbacklog hc⟩
  · exact ⟨s, ((perform_wants b q c).others r hr).trans hs, hknown⟩

/-- Closing a session closes it and no other. -/
theorem close (h : ShutByCall closed b) (hq : b.Registered q) :
    ShutByCall (fun r => closed r ∨ r = q) (b.perform q .close) := by
  obtain ⟨idq, hq⟩ := hq
  obtain ⟨t, d, ht, htknown, -⟩ := h.registered hq
  have hclosed := (closeSession_eq ht).1
  have htclosed := htknown.close b.store.queue t.info.clean
  have hother {r : SessionRef} (hr : r ≠ q) : (b.perform q .close).session? r = b.session? r :=
    (perform_wants b q .close).others r hr
  constructor
  · intro id r hr
    rw [registry_perform] at hr
    by_cases hrq : r = q
    · subst hrq
      obtain ⟨s, c, hs, hknown, -⟩ := h.registered hr
      obtain rfl := Option.some.inj (ht.symm.trans hs)
      obtain rfl : idq = id := htknown.info.symm.trans hknown.info
      exact ⟨_, true, hclosed, htclosed, iff_of_true rfl (.inr rfl)⟩
    · obtain ⟨s, c, hs, hknown, hc⟩ := h.registered hr
      exact ⟨s, c, (hother hrq).trans hs, hknown, hc.trans (or_iff_left hrq).symm⟩
  · intro r hr
    by_cases hrq : r = q
    · subst hrq
      exact ⟨_, idq, true, hclosed, htclosed⟩
    · obtain ⟨s, id, c, hs, hknown⟩ := h.made (hr.resolve_right hrq)
      exact ⟨s, id, c, (hother hrq).trans hs, hknown⟩

theorem route (h : ShutByCall closed b) (m : Message) : ShutByCall closed (b.route m).2 := by
  have hdeliver {b : Broker} (target : Binding) (e : Event) {r : SessionRef} {s : Session} {id : String} {c : Bool}
      (hs : b.session? r = some s) (hknown : s.Known id c) :
      ∃ s', (b.deliver target e).session? r = some s' ∧ s'.Known id c := by
    by_cases hr : r = target.session
    · subst hr
      exact ⟨_, (deliver_eq hs e).1, hknown.offered e⟩
    · exact ⟨s, ((Local.deliver b target e).others r hr).trans hs, hknown⟩
  have hfold (copies : List (Binding × Event)) (b : Broker) {r : SessionRef} {s : Session} {id : String} {c : Bool}
      (hs : b.session? r = some s) (hknown : s.Known id c) :
      ∃ s', (copies.foldl (fun b tc => b.deliver tc.1 tc.2) b).session? r = some s' ∧ s'.Known id c := by
    induction copies generalizing b s with
    | nil => exact ⟨s, hs, hknown⟩
    | cons x copies ih =>
      obtain ⟨s', hs', hknown'⟩ := hdeliver x.1 x.2 hs hknown
      exact ih _ hs' hknown'
  exact h.same (SameInterest.route b m).registry fun r s id c hs hknown => hfold _ _ hs hknown

/-- A registered session that is dismissed is that of no id any more. -/
theorem dismiss (h : ShutByCall closed b) (hq : b.registry.get? id = some q) : ShutByCall closed (b.dismiss id q) := by
  obtain ⟨t, d, ht, htknown, -⟩ := h.registered hq
  have hclosed : (b.dismiss id q).session? q = _ := (closeSession_eq ((session?_unbindAll b q q).trans ht)).1
  have hother {r : SessionRef} (hr : r ≠ q) : (b.dismiss id q).session? r = b.session? r := (dismiss_wants b id q).others r hr
  constructor
  · intro id' r hr
    rw [registry_dismiss, OrderedMap.get?_erase] at hr
    split at hr
    · cases hr
    · next hne =>
      obtain ⟨s, c, hs, hknown, hc⟩ := h.registered hr
      refine ⟨s, c, (hother ?_).trans hs, hknown, hc⟩
      rintro rfl
      obtain rfl := Option.some.inj (ht.symm.trans hs)
      exact hne (hknown.info.symm.trans htknown.info)
  · intro r hr
    by_cases hrq : r = q
    · subst hrq
      exact ⟨_, id, true, hclosed, htknown.close _ _⟩
    · obtain ⟨s, id', c, hs, hknown⟩ := h.made hr
      exact ⟨s, id', c, (hother hrq).trans hs, hknown⟩

theorem enrol (h : ShutByCall closed b) (info : Info) : ShutByCall closed (b.enrol info).2 := by
  by_cases hu : usableName info.id = true
  · obtain ⟨bucket, ns, hb, heq⟩ := enrol_of_usable b hu
    rw [heq]
    refine .report (b := b.enrolled info bucket) ⟨fun {id r} hr => ?_, fun hr => ?_⟩ ns
    · rw [get?_registry_enrolled] at hr
      split at hr
      · next hid =>
        obtain rfl := Option.some.inj hr
        refine ⟨_, false, session?_enrolled_new, hid ▸ .new hb _ _ _, iff_of_false Bool.false_ne_true fun hc => ?_⟩
        obtain ⟨s, -, -, hs, -⟩ := h.made hc
        exact session?_ne_length hs rfl
      · obtain ⟨s, c, hs, hknown, hc⟩ := h.registered hr
        exact ⟨s, c, session?_enrolled.2 (.inl hs), hknown, hc⟩
    · obtain ⟨s, id, c, hs, hknown⟩ := h.made hr
      exact ⟨s, id, c, session?_enrolled.2 (.inl hs), hknown⟩
  · obtain ⟨e, ns, heq⟩ := enrol_of_unusable b hu
    rw [heq]
    exact h.report ns

theorem cleared (h : ShutByCall closed b) (info : Info) : ShutByCall closed (b.cleared info) := by
  unfold Broker.cleared
  split
  · exact h
  · next r hr =>
    have hupdated := (h.report [.sessionDiscarded info.id]).call r (c := .update { info with will := none }) nofun
    refine hupdated.dismiss ?_
    rw [registry_perform]
    exact hr

theorem connect (h : ShutByCall closed b) (info : Info) : ShutByCall closed (b.connect info).2 := by
  rcases connect_cases b info with ⟨-, heq⟩ | ⟨r, -, -, heq⟩ <;> rw [heq]
  · exact (h.cleared info).enrol info
  · exact (h.report [.sessionResumed info.id]).call r (c := .update info) nofun

theorem disconnect (h : ShutByCall closed b) (id : String) : ShutByCall closed (b.disconnect id) := by
  unfold Broker.disconnect
  split
  · exact h
  · next r hr =>
    split
    · exact (h.report _).dismiss hr
    · exact h.call r (c := .requeue) nofun

theorem step (h : ShutByCall closed b) {op : Op} (hop : Living b op) :
    ShutByCall (fun r => closed r ∨ op = .call r .close) (b.step op) := by
  have hquiet {b' : Broker} (h : ShutByCall closed b') (hno : ∀ r, op ≠ .call r .close) :
      ShutByCall (fun r => closed r ∨ op = .call r .close) b' := by
    have heq : (fun r => closed r ∨ op = .call r .close) = closed := funext fun r => propext (or_iff_left (hno r))
    rw [heq]
    exact h
  cases op with
  | connect info => exact hquiet (h.connect info) nofun
  | disconnect id => exact hquiet (h.disconnect id) nofun
  | route m => exact hquiet (h.route m) nofun
  | call q c =>
    by_cases hc : c = .close
    · subst hc
      have heq : (fun r => closed r ∨ Op.call q .close = .call r .close) = fun r => closed r ∨ r = q :=
        funext fun r => propext (or_congr_right ⟨fun he => by cases he; rfl, fun he => by rw [he]⟩)
      rw [heq]
      exact h.close hop
    · exact hquiet (h.call q hc) fun r he => hc (by cases he; rfl)
  | close => exact absurd hop id
  | reopen settings orderly => exact absurd hop id

/-- Every session is open when a broker was just opened, whatever was stored. -/
theorem opened {settings : Settings} {store : Store} {events : EventTable}
    (h : openOn settings (.database store) events = (.ok (), b)) : ShutByCall (fun _ => False) b := by
  have hflaw := flaw_of_openOn (congrArg Prod.fst h)
  have husable := (openOn_ok_iff hflaw).1 (congrArg Prod.fst h)
  have hback := reinstated_openOn hflaw husable events
  rw [h] at hback
  refine ⟨fun {id r} hr => ?_, fun hr => hr.elim⟩
  obtain ⟨info, hinfo, rfl⟩ := hback.only (Option.isSome_iff_exists.2 ⟨r, hr⟩)
  obtain ⟨r', hr', hs⟩ := hback.back info hinfo ⟨info.id, husable info hinfo⟩ rfl
  obtain rfl := Option.some.inj (hr.symm.trans hr')
  exact ⟨_, false, hs, ⟨rfl, rfl, rfl, rfl, rfl⟩, iff_of_false Bool.false_ne_true id⟩

end ShutByCall

theorem Run.shutByCall {first : Broker} {ops : List Op} (h : Run Living first ops b)
    (hfirst : ShutByCall (fun _ => False) first) : ShutByCall (fun r => .call r .close ∈ ops) b := by
  induction h with
  | nil =>
    have heq : (fun r => Op.call r .close ∈ []) = fun _ => False := funext fun r => propext (List.mem_nil_iff _)
    rw [heq]
    exact hfirst
  | @step ops b op _ hop ih =>
    have heq : (fun r => Op.call r .close ∈ ops ++ [op]) = fun r => .call r .close ∈ ops ∨ op = .call r .close :=
      funext fun r => propext (by rw [List.mem_append, List.mem_singleton, eq_comm])
    rw [heq]
    exact ih.step hop

/-- A client that connects under an id that is a name for a bucket gets a session. It works if no call has closed
it; otherwise the client was connected before, did not ask for a clean start, and gets the closed session back. -/
theorem connected_works {settings : Settings} {store : Store} {events : EventTable} {first : Broker} {ops : List Op}
    (hopen : openOn settings (.database store) events = (.ok (), first)) (hrun : Run Living first ops b)
    (info : Info) (hu : usableName info.id = true) :
    ∃ r s, (b.connect info).1 = .ok r ∧ (b.connect info).2.registry.get? info.id = some r ∧
      (b.connect info).2.session? r = some s ∧ s.info.id = info.id ∧
      (Op.call r .close ∉ ops → Working (b.connect info).2 r s) ∧
      (Op.call r .close ∈ ops → Refusing (b.connect info).2 r s ∧ info.clean = false ∧
        b.registry.get? info.id = some r) := by
  have hb := hrun.shutByCall (.opened hopen)
  have hafter := hb.connect info
  have hfinish {r : SessionRef} (hr : (b.connect info).2.registry.get? info.id = some r) :
      ∃ s, (b.connect info).2.session? r = some s ∧ s.info.id = info.id ∧
        (Op.call r .close ∉ ops → Working (b.connect info).2 r s) ∧
        (Op.call r .close ∈ ops → Refusing (b.connect info).2 r s) := by
    obtain ⟨s, c, hs, hknown, hc⟩ := hafter.registered hr
    refine ⟨s, hs, hknown.info, fun hno => ?_, fun hclosed => ?_⟩
    · obtain rfl : c = false := Bool.eq_false_iff.2 fun h => hno (hc.1 h)
      exact working_of_open hs hknown
    · obtain rfl := hc.2 hclosed
      exact refusing_of_closed hs hknown
  rcases connect_cases b info with ⟨-, heq⟩ | ⟨r, hr, hclean, heq⟩
  · obtain ⟨bucket, ns, hbucket, henrol⟩ := enrol_of_usable (b.cleared info) hu
    have hregistered : (b.connect info).2.registry.get? info.id = some (b.cleared info).sessions.length := by
      rw [heq, henrol]
      exact (get?_registry_enrolled _ info bucket info.id).trans (if_pos rfl)
    obtain ⟨s, hs, hid, hworks, -⟩ := hfinish hregistered
    refine ⟨_, s, by rw [heq, henrol], hregistered, hs, hid, hworks, fun hclosed => ?_⟩
    -- The session is new, and no call was on one that was not there.
    obtain ⟨t, -, -, ht, -⟩ := (hb.cleared info).made hclosed
    exact absurd rfl (session?_ne_length ht)
  · have hregistered : (b.connect info).2.registry.get? info.id = some r := by
      rw [heq, (SameMail.update _ r info).registry]
      exact hr
    obtain ⟨s, hs, hid, hworks, hrefuses⟩ := hfinish hregistered
    exact ⟨r, s, by rw [heq], hregistered, hs, hid, hworks, fun hclosed => ⟨hrefuses hclosed, hclean, hr⟩⟩

/-- A client whose session is closed while it is away connects again, and nothing reaches it. -/
theorem resumed_closed :
    let ops : List Op := [.connect { id := "c1" }, .call 0 .close]
    let b := ops.foldl step (start {})
    ∃ s, (b.connect { id := "c1" }).1 = .ok 0 ∧ Refusing (b.connect { id := "c1" }).2 0 s ∧
      ((b.connect { id := "c1" }).2.push 0 { topic := "t" }).1 = .error (.closed "c1") := by
  intro ops b
  have hrun : Run Living (start {}) ops b := by
    show Run Living (start {}) (([] ++ [Op.connect { id := "c1" }]) ++ [.call 0 .close]) _
    exact .step (.step .nil trivial) ⟨"c1", by decide +kernel⟩
  have hopen : openOn {} (.database {}) {} = (.ok (), start {}) := Prod.ext ((openOn_ok_iff rfl).2 nofun) rfl
  obtain ⟨r, s, hr, -, -, hid, -, hclosed⟩ := connected_works hopen hrun { id := "c1" } (by decide)
  have hzero : (b.connect { id := "c1" }).1 = .ok 0 := by decide +kernel
  obtain rfl := Except.ok.inj (hr.symm.trans hzero)
  have hrefusing := (hclosed (.tail _ (.head _))).1
  refine ⟨s, hzero, hrefusing, ?_⟩
  rw [hrefusing.bestEffort { topic := "t" } rfl, hid]

end Broker

end PubSub
