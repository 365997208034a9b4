import PubSub.Proofs.Bindings
import PubSub.Proofs.Clients
import PubSub.Proofs.Matching
/-!
# Starting afresh

A client that asks for a clean start gets a session that has nothing waiting but what its bucket still
holds (`clean_start`). Closing a session that is not clean leaves its records behind and its queue closed,
so that making it clean and closing it again deletes nothing. Without that the bucket is empty: all
records are under an open queue (`Purged`), and the clean start closes that.
-/

namespace PubSub

/-- A queue that was just opened has nothing to hand out if and only if its bucket is empty. -/
theorem DurableQueue.pop_new (bucket : Bucket) (window : Nat) (k : Keyspace) :
    ((new bucket window k).pop k).1 = .ok none ↔ bucket.sequences k = [] := by
  have hp := (new bucket window k).popped k
  generalize (new bucket window k).pop k = x at hp
  have hsome {gone rest : List UInt64} {s : UInt64} (hpending : bucket.sequences k = gone ++ s :: rest) :
      bucket.sequences k ≠ [] := by
    rw [hpending]
    exact List.append_ne_nil_of_right_ne_nil gone (List.cons_ne_nil s rest)
  cases hp with
  | closed hclosed => cases hclosed
  | full hopen hfull =>
    -- There is room for one delivery at least, and nothing is out.
    exact absurd (Nat.le_trans (Nat.le_max_right window 1) hfull) (Nat.not_succ_le_zero 0)
  | drained hopen hroom hgone =>
    exact iff_of_true rfl (List.eq_nil_iff_forall_not_mem.2 fun s hs => Bucket.read_ne_none hs _ (hgone s hs))
  | delivered hopen hroom hpending | unreadable hopen hroom hpending => exact iff_of_false nofun (hsome hpending)

/-- What is answered where nothing is handed out is the queue's own answer. -/
theorem Mail.next_eq_iff {m : Mail} {k : Keyspace} {x : Except QueueError (Option Delivery)}
    (hx : ∀ d, x ≠ .ok (some d)) : (m.next k).1 = x ↔ (m.durable.pop k).1 = x := by
  unfold next
  split
  · next d _ _ hpop =>
    rw [hpop]
    exact iff_of_false (hx _ ·.symm) (hx d ·.symm)
  · next other durable ns _ hpop => rw [hpop]

theorem Topic.Trie.maxQoS_empty (topic : String) : ({} : Trie).maxQoS topic = none := by
  refine QoS.highest_eq_none_iff.2 (List.eq_nil_iff_forall_not_mem.2 ?_)
  intro q hq
  obtain ⟨p, hp, -⟩ := Trie.mem_matching.1 hq
  rw [show ({} : Trie).root.get? p = none from Node.get?_empty p] at hp
  cases hp

namespace Broker

variable {b b' : Broker} {bucket : Bucket} {r : SessionRef} {s : Session} {info : Info} {settings : Settings} {op : Op}

/-- The client has a session with an open queue. -/
def Opened (bucket : Bucket) (b : Broker) : Prop :=
  ∃ r s, b.session? r = some s ∧ s.info.id = bucket.name ∧ s.durable.closed = false

/-- The session is one of the client with a closed queue. -/
def Shut (bucket : Bucket) (b : Broker) (r : SessionRef) : Prop :=
  ∃ s, b.session? r = some s ∧ s.info.id = bucket.name ∧ s.durable.closed = true

/-- What is recorded for the client is under an open queue. -/
def Purged (bucket : Bucket) (b : Broker) : Prop := Opened bucket b ∨ bucket.contents b.store.queue = .empty

/-- Clients come and go, messages are routed, and registered sessions are called. -/
def Living (b : Broker) : Op → Prop
  | .connect _ | .disconnect _ | .route _ => True
  | .call r _ => b.Registered r
  | .close | .reopen _ _ => False

/-- A session of the client is closed by a call only when it is clean. -/
def Tidy (bucket : Bucket) (b : Broker) (op : Op) : Prop :=
  Living b op ∧ ∀ r s, op = .call r .close → b.session? r = some s → s.info.id = bucket.name → s.info.clean = true

theorem Living.configured (h : Living b op) : op.Configured := by
  cases op with
  | reopen settings orderly => exact absurd h id
  | _ => trivial

theorem Living.orderly (h : Living b op) : Orderly b op := by
  refine ⟨h.configured, ?_⟩
  rintro r c rfl -
  exact h

/-! ## Records under an open queue -/

namespace Shut

theorem same (h : Shut bucket b r) (hs : SameFor bucket.name b b') : Shut bucket b' r := by
  obtain ⟨s, hr, hid, hclosed⟩ := h
  obtain ⟨s', hs', heq⟩ := hs.mail hr hid
  obtain ⟨hid', hdurable, -, -⟩ := Mail.mk.inj heq
  exact ⟨s', hs', hid'.trans hid, hdurable ▸ hclosed⟩

/-- No act opens a queue again. -/
theorem effect {a : Act} (h : Shut bucket b r) (he : Effect bucket.name b a b') : Shut bucket b' r := by
  obtain ⟨s, hs, hid, hclosed⟩ := h
  cases a with
  | job q j =>
    obtain ⟨-, -, hdoes⟩ := he
    obtain ⟨s', hs', heq⟩ := hdoes.frame.interest.session? hs
    refine ⟨s', hs', (Interest.id_eq heq).trans hid, ?_⟩
    by_cases hr : r = q
    · subst hr
      exact hdoes.frame.closed s s' hs hs' hclosed
    · rw [hdoes.frame.others r hr, hs] at hs'
      exact Option.some.inj hs' ▸ hclosed
  | free =>
    obtain rfl := he
    exact ⟨s, hs, hid, hclosed⟩
  | enrol q info =>
    obtain ⟨-, -, -, -, c, -, rfl⟩ := he
    exact ⟨s, session?_enrolled.2 (.inl hs), hid, hclosed⟩

end Shut

namespace Purged

theorem same (h : Purged bucket b) (hs : SameFor bucket.name b b') : Purged bucket b' := by
  rcases h with ⟨r, s, hr, hid, hopen⟩ | hempty
  · obtain ⟨s', hs', heq⟩ := hs.mail hr hid
    obtain ⟨hid', hdurable, -, -⟩ := Mail.mk.inj heq
    exact .inl ⟨r, s', hs', hid'.trans hid, hdurable ▸ hopen⟩
  · exact .inr ((hs.records bucket rfl).trans hempty)

/-- Only a queue that is open and closed as that of a session that is not clean leaves records behind. -/
theorem job {j : Job} (h : Purged bucket b) (he : Effect bucket.name b (.job r j) b')
    (hj : j = .close false → Shut bucket b r) : Purged bucket b' := by
  obtain ⟨hb, ⟨s, hs, hid⟩, hdoes⟩ := he
  obtain ⟨s', hs', hrun⟩ := hdoes.mail s hs
  have hmail : s'.mail = (s.mail.run b.store.queue j).1 := congrArg Prod.fst hrun
  have hqueue : b'.store.queue = (s.mail.run b.store.queue j).2 := congrArg Prod.snd hrun
  have hbucket : s.mail.durable.bucket = bucket := bucket.eq_of_name ((hb.named hs).trans hid)
  have hid' : s'.info.id = bucket.name := by
    obtain ⟨s₀, hs₀, heq⟩ := hdoes.frame.interest.session? hs
    obtain rfl := Option.some.inj (hs'.symm.trans hs₀)
    exact (Interest.id_eq heq).trans hid
  have hrecords := s.mail.run_records b.store.queue j
  rw [← hqueue, hbucket] at hrecords
  cases hc : s.mail.durable.closed with
  | false =>
    by_cases hclose : ∀ clean, j ≠ .close clean
    · have hopen : s'.mail.durable.closed = false := by rw [hmail, Mail.run_closed _ _ hclose, hc]
      exact .inl ⟨r, s', hs', hid', hopen⟩
    · -- An open queue that is closed clean has its records deleted.
      obtain ⟨clean, hclose⟩ := Classical.not_forall.1 hclose
      obtain rfl := Classical.not_not.1 hclose
      cases clean with
      | false =>
        obtain ⟨t, ht, -, hclosed⟩ := hj rfl
        obtain rfl := Option.some.inj (hs.symm.trans ht)
        exact absurd (hclosed.symm.trans hc) nofun
      | true =>
        right
        rw [hqueue, show (s.mail.run b.store.queue (.close true)).2 = _ from DurableQueue.close_records hc _, hbucket]
        exact bucket.contents_clear _
  | true =>
    -- A closed queue takes nothing in, and what it may still delete only leaves less.
    rw [hc] at hrecords
    rcases h with ⟨q, t, ht, htid, hopen⟩ | hempty
    · have hq : q ≠ r := by
        rintro rfl
        obtain rfl := Option.some.inj (hs.symm.trans ht)
        exact absurd (hc.symm.trans hopen) nofun
      exact .inl ⟨q, t, (hdoes.frame.others q hq).trans ht, htid, hopen⟩
    · right
      rcases hrecords with heq | ⟨_, -, hopen, -⟩ | ⟨id, seq, acks, -, -, heq⟩ | ⟨-, hopen, -⟩
      · rw [heq, hempty]
      · cases hopen
      · rw [heq, Bucket.contents_delete, hempty]
        rfl
      · cases hopen

theorem enrolled {c : Bucket} (b : Broker) (hid : info.id = bucket.name) : Purged bucket (b.enrolled info c) :=
  .inl ⟨b.sessions.length, b.newSession info c, session?_enrolled_new, hid, rfl⟩

theorem acts {xs : List Act} (h : Purged bucket b) (hx : Acts bucket.name b xs b')
    (hno : ∀ r, .job r (.close false) ∈ xs → Shut bucket b r) : Purged bucket b' := by
  induction hx with
  | same hs => exact h.same hs
  | @act _ b₁ b₂ _ a xs hs he _ ih =>
    have hrest : Purged bucket b₂ → Purged bucket _ := fun h =>
      ih h fun r hr => ((hno r (List.mem_cons_of_mem a hr)).same hs).effect he
    cases a with
    | job r j =>
      refine hrest ((h.same hs).job he ?_)
      rintro rfl
      exact (hno r List.mem_cons_self).same hs
    | free =>
      obtain rfl := he
      have hfreed : Purged bucket b₁ := h.same hs
      exact hrest hfreed
    | enrol r info =>
      obtain ⟨-, -, -, hid, c, -, rfl⟩ := he
      exact hrest (enrolled b₁ hid)

end Purged

/-- A queue is closed and its records are left only by a call on a session that is not clean, or when the
broker is closed. -/
theorem unclean_of_mem_acts {id : String} (h : .job r (.close false) ∈ b.acts id op) :
    ∃ s, b.session? r = some s ∧ s.info.clean = false ∧
      (op = .call r .close ∧ s.info.id = id ∨ op = .close ∧ b.registry.get? id = some r) := by
  generalize hj : Job.close false = j at h
  cases asks_of_mem_acts h with
  | @call s c _ hs hid hjob =>
    subst hj
    cases c with
    | close => exact ⟨s, hs, Job.close.inj (Option.some.inj hjob), .inl ⟨rfl, hid⟩⟩
    | push m =>
      simp only [Session.job?] at hjob
      split at hjob <;> cases hjob
    | _ => cases hjob
  | @close s hr hs => exact ⟨s, hs, (Job.close.inj hj).symm, .inr ⟨rfl, hr⟩⟩
  | route | stay | leave => cases hj

/-- What a tidy operation means to a client never leaves records behind. -/
theorem Tidy.acts (h : Tidy bucket b op) (r : SessionRef) : .job r (.close false) ∉ b.acts bucket.name op := by
  intro hmem
  obtain ⟨s, hs, hunclean, ⟨hop, hid⟩ | ⟨rfl, -⟩⟩ := unclean_of_mem_acts hmem
  · exact absurd ((h.2 r s hop hs hid).symm.trans hunclean) nofun
  · exact h.1

/-! ## Runs -/

theorem Run.purged {ops : List Op} (h : Run (Tidy bucket) (start settings) ops b) (hflaw : settings.flaw = none) :
    Purged bucket b := by
  induction h with
  | nil =>
    right
    rw [(restored_start hflaw).queue]
    rfl
  | @step ops b op hrun hop ih =>
    have hb : Sound b := hrun.sound hflaw fun _ _ h => h.1.configured
    have hreopen : ∀ settings orderly, op ≠ .reopen settings orderly := by
      rintro settings orderly rfl
      exact hop.1
    exact ih.acts (acts_step hb bucket.usable hreopen) fun r hr => absurd hr (hop.acts r)

/-! ## Clearing -/

theorem queue_dismiss (hs : b.session? r = some s) (id : String) :
    (b.dismiss id r).store.queue = (s.durable.close b.store.queue s.info.clean).2.1 := by
  have hs' : (b.unbindAll r).session? r = some s := (session?_unbindAll b r r).trans hs
  have hqueue := (closeSession_eq hs').2
  rw [store_unbindAll] at hqueue
  exact hqueue

/-- The session of a client that is cleared is closed as a clean one. -/
theorem queue_cleared (hr : b.registry.get? info.id = some r) (hs : b.session? r = some s) (hclean : info.clean = true) :
    (b.cleared info).store.queue = (s.durable.close b.store.queue true).2.1 := by
  have hs' := session?_update (b := b.report [.sessionDiscarded info.id]) hs { info with will := none }
  unfold cleared
  rw [hr]
  refine (queue_dismiss hs' info.id).trans ?_
  rw [(SameMail.update _ r _).records]
  show (s.durable.close b.store.queue info.clean).2.1 = _
  rw [hclean]

/-- Clearing empties the bucket under an open queue and leaves any other as it is. -/
theorem contents_cleared (hb : Sound b) (hid : info.id = bucket.name) (hclean : info.clean = true) :
    (Opened bucket b → bucket.contents (b.cleared info).store.queue = .empty) ∧
      (¬ Opened bucket b → (b.cleared info).store.queue = b.store.queue) := by
  constructor
  · rintro ⟨r, s, hs, hsid, hopen⟩
    have hr : b.registry.get? info.id = some r := by
      rw [hid, ← hsid]
      exact hb.opened hs hopen
    have hbucket : s.durable.bucket = bucket := bucket.eq_of_name ((hb.named hs).trans hsid)
    rw [queue_cleared hr hs hclean, DurableQueue.close_records hopen, hbucket]
    exact bucket.contents_clear _
  · intro hno
    cases hr : b.registry.get? info.id with
    | none =>
      unfold cleared
      rw [hr]
    | some r =>
      obtain ⟨s, hs, hsid⟩ := hb.registered hr
      have hclosed : s.durable.closed = true := by
        rw [← Bool.not_eq_false]
        exact fun hopen => hno ⟨r, s, hs, hsid.trans hid, hopen⟩
      rw [queue_cleared hr hs hclean]
      simp [DurableQueue.close, hclosed]

/-! ## A clean start -/

theorem nextBestEffort_none (hs : b.session? r = some s) (h : s.bestEffort.waiting = []) :
    (b.nextBestEffort r).1 = none := by
  unfold nextBestEffort BestEffortQueue.pop
  simp only [hs, h]

/-- A clean start makes a session on a broker that is cleared for it. -/
theorem connect_clean (hid : info.id = bucket.name) (hclean : info.clean = true) :
    ∃ ns, b.connect info = (.ok b.sessions.length, ((b.cleared info).enrolled info bucket).report ns) := by
  obtain ⟨ns, heq⟩ := enrol_of_bucket (b.cleared info) hid.symm
  rw [length_sessions_cleared] at heq
  exact ⟨ns, (connect_fresh (.inr hclean)).trans heq⟩

theorem sequences_connect_clean (hb : Sound b) (hid : info.id = bucket.name) (hclean : info.clean = true) :
    bucket.sequences (b.connect info).2.store.queue = [] ↔ Opened bucket b ∨ bucket.sequences b.store.queue = [] := by
  obtain ⟨hopened, hclosed⟩ := contents_cleared hb hid hclean
  rw [connect_fresh (.inr hclean), queue_enrol]
  by_cases ho : Opened bucket b
  · rw [Bucket.sequences_eq, hopened ho]
    exact ⟨fun _ => .inl ho, fun _ => rfl⟩
  · rw [hclosed ho]
    exact ⟨.inr, fun h => h.resolve_left ho⟩

/-- A clean start gives a client the session registered under its id, with no filters, no bindings, no
record and no best-effort message. It has nothing at all to hand out if and only if its bucket is empty,
which it is if there was an open queue to be closed clean or no record in the first place: always, if no
session of the client was closed by a call while it was not clean. -/
theorem clean_start (bucket : Bucket) {ops : List Op} (h : Run Living (start settings) ops b)
    (hflaw : settings.flaw = none)
    (hid : info.id = bucket.name) (hclean : info.clean = true) :
    let r := b.sessions.length
    let b' := (b.connect info).2
    ((b.connect info).1 = .ok r ∧ b'.registry.get? info.id = some r ∧
      (∃ s, b'.session? r = some s ∧ ∀ topic, s.matchQoS topic = none) ∧
      (∀ x ∈ b'.exchange.bindings, x.id ≠ info.id) ∧
      SessionRecords.get b'.store.sessions info.id = .ok none ∧ (b'.nextBestEffort r).1 = none) ∧
    ((b'.nextGuaranteed r).1 = .ok none ↔ bucket.sequences b'.store.queue = []) ∧
    (bucket.sequences b'.store.queue = [] ↔ Opened bucket b ∨ bucket.sequences b.store.queue = []) ∧
    (Run (Tidy bucket) (start settings) ops b → bucket.sequences b'.store.queue = []) := by
  intro r b'
  have hb : Sound b := h.sound hflaw fun _ _ h => h.configured
  obtain ⟨ns, heq⟩ := connect_clean (b := b) hid hclean
  have hafter : b' = ((b.cleared info).enrolled info bucket).report ns := congrArg Prod.snd heq
  have hsession : b'.session? r = some ((b.cleared info).newSession info bucket) := by
    rw [hafter]
    exact session?_enrolled.2 (.inr ⟨(length_sessions_cleared b info).symm, rfl⟩)
  have hregistered : b'.registry.get? info.id = some r := by
    rw [hafter]
    show ((b.cleared info).registry.insert info.id (b.cleared info).sessions.length).get? info.id = some r
    rw [OrderedMap.get?_insert, if_pos rfl, length_sessions_cleared]
  have hunbound : ∀ x ∈ b'.exchange.bindings, x.id ≠ info.id := by
    rw [hafter]
    exact (((h.mono fun _ _ hop => hop.orderly).tied hflaw).cleared hb info).unbound (get?_registry_cleared b info)
  have hunrecorded : SessionRecords.get b'.store.sessions info.id = .ok none := by
    rw [hafter]
    show SessionRecords.get (SessionRecords.written (b.cleared info).store.sessions info) info.id = .ok none
    rw [SessionRecords.get_written_self, if_pos hclean]
  have hempty := sequences_connect_clean hb hid hclean
  refine ⟨⟨congrArg Prod.fst heq, hregistered, ⟨_, hsession, Topic.Trie.maxQoS_empty⟩, hunbound, hunrecorded,
    nextBestEffort_none hsession rfl⟩, ?_, hempty, fun htidy => ?_⟩
  · -- The queue of the new session was opened over the very records that are there now.
    rw [(nextGuaranteed_spec hsession).1, Mail.next_eq_iff (x := .ok none) nofun, hafter]
    exact DurableQueue.pop_new bucket _ _
  · refine hempty.2 ((htidy.purged hflaw).imp_right fun hnone => ?_)
    rw [Bucket.sequences_eq, hnone]
    rfl

/-- A session that is closed before its client asks for a clean start leaves its message behind. -/
theorem left_by_closed_session :
    let m : Message := { topic := "t", payload := [7], qos := .atLeastOnce }
    let bucket : Bucket := ⟨"a", by decide⟩
    let ops : List Op := [.connect { id := "a" }, .call 0 (.subscribe [⟨"t", .atLeastOnce⟩] none), .call 0 (.push m),
      .call 0 .close]
    let b := ops.foldl step (start {})
    let info : Info := { id := "a", clean := true }
    (b.connect info).1 = .ok 1 ∧ bucket.sequences (b.connect info).2.store.queue = [1] ∧
      ((b.connect info).2.nextGuaranteed 1).1 ≠ .ok none := by
  intro m bucket ops b info
  have hrun : Run Living (start {}) ops b := by
    show Run Living (start {}) ((([] ++ [Op.connect { id := "a" }])
      ++ [.call 0 (.subscribe [⟨"t", .atLeastOnce⟩] none)]) ++ [.call 0 (.push m)] ++ [.call 0 .close]) _
    refine .step (.step (.step (.step .nil trivial) ?_) ?_) ?_ <;> exact ⟨"a", by decide +kernel⟩
  have hid : info.id = bucket.name := rfl
  obtain ⟨⟨hr, -⟩, hnext, -⟩ := clean_start bucket hrun rfl hid rfl
  rw [show b.sessions.length = 1 by decide +kernel] at hr hnext
  have hstale : bucket.sequences (b.connect info).2.store.queue = [1] := by decide +kernel
  refine ⟨hr, hstale, fun hnone => ?_⟩
  rw [hnext.1 hnone] at hstale
  cases hstale

end Broker

end PubSub
