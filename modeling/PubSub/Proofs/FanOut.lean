import PubSub.Proofs.NextNumber
import PubSub.Proofs.Offering
import PubSub.Proofs.Restart
/-!
# Routing from end to end

A message that is routed goes to the registered sessions that hold a filter for its topic, once to each and to
the queue that their own filters ask for (`Receives`); nothing else changes, and nobody ignores it (`fan_out`).
The exchange finds these sessions by what is bound and each session finds the queue by its own trie, and both
go by the filters that are held.
-/

namespace PubSub

open Topic

namespace Session

/-- Whether a session holds a filter that covers a topic. -/
def wants (s : Session) (topic : String) : Bool := s.info.subscriptions.keys.any (matchesFilter topic)

/-- The strongest service among the filters held that cover a topic. -/
def service (s : Session) (topic : String) : Option QoS :=
  QoS.highest ((s.info.subscriptions.entries.filter fun e => matchesFilter topic e.1).map (·.2))

/-- Whether a session is guaranteed a message: it is sent so, and a filter that covers its topic asks for it. -/
def guaranteed (s : Session) (m : Message) : Bool :=
  m.qos.isGuaranteed && ((s.service m.topic).map QoS.isGuaranteed).getD false

variable {s : Session} {m : Message} {topic : String}

theorem wants_iff : s.wants topic = true ↔ ∃ f ∈ s.info.subscriptions.keys, matchesFilter topic f = true := List.any_eq_true

theorem isSome_service (h : s.wants topic = true) : (s.service topic).isSome := by
  obtain ⟨f, hf, hmatch⟩ := wants_iff.1 h
  obtain ⟨q, hq⟩ := Option.isSome_iff_exists.1 (OrderedMap.mem_keys_iff.1 hf)
  rw [Option.isSome_iff_ne_none, service, Ne, QoS.highest_eq_none_iff]
  have hmem : q ∈ (s.info.subscriptions.entries.filter fun e => matchesFilter topic e.1).map (·.2) :=
    List.mem_map.2 ⟨(f, q), List.mem_filter.2 ⟨OrderedMap.get?_eq_some_iff.1 hq, hmatch⟩, rfl⟩
  exact List.ne_nil_of_mem hmem

/-- A session whose trie has what it holds puts a message it wants into the queue that its filters ask for. -/
theorem lane?_eq (hmatch : s.matchQoS m.topic = s.service m.topic) (hwants : s.wants m.topic = true) :
    s.lane? m = some (if s.guaranteed m then .durable else .bestEffort) := by
  obtain ⟨q, hq⟩ := Option.isSome_iff_exists.1 (isSome_service hwants)
  unfold lane? guaranteed
  rw [hmatch, hq]
  cases m.qos.isGuaranteed <;> rfl

end Session

/-- What a message makes of a session that wants it, and of the records of its bucket. -/
inductive Receives (m : Message) (s : Session) (c : OrderedMap UInt64 Bytes) : Session → OrderedMap UInt64 Bytes → Prop
  | stored : s.guaranteed m = true → s.durable.closed = false →
      Receives m s c { s with durable := s.durable.stored } (c.insert s.durable.next (Binary.encodeMessage m))
  | queued {e : Event} : s.guaranteed m = false → s.bestEffort.closed = false →
      s.bestEffort.waiting.length < s.bestEffort.capacity → e.message = m →
      Receives m s c { s with bestEffort := { s.bestEffort with waiting := s.bestEffort.waiting ++ [e] } } c
  | dropped : s.guaranteed m = false → s.bestEffort.closed = false →
      s.bestEffort.capacity ≤ s.bestEffort.waiting.length → Receives m s c s c
  | refused : (if s.guaranteed m then s.durable.closed else s.bestEffort.closed) = true → Receives m s c s c

theorem Receives.of_offered {s : Session} {e : Event} (hmatch : s.matchQoS e.message.topic = s.service e.message.topic)
    (hwants : s.wants e.message.topic = true) (c : OrderedMap UInt64 Bytes) :
    Receives e.message s c (s.offered e)
      (if s.accepts e.message then c.insert s.durable.next (Binary.encodeMessage e.message) else c) := by
  have hlane := Session.lane?_eq hmatch hwants
  rw [Session.accepts_eq, Session.offered, hlane]
  by_cases hg : s.guaranteed e.message = true
  · rw [if_pos hg, decide_eq_true rfl, Bool.true_and]
    by_cases hclosed : s.durable.closed = true
    · rw [hclosed]
      exact .refused (by rw [if_pos hg, hclosed])
    · rw [Bool.not_eq_true] at hclosed
      rw [hclosed]
      exact .stored hg hclosed
  · have hno : s.guaranteed e.message = false := Bool.eq_false_iff.2 hg
    have hother : ¬ some Lane.bestEffort = some Lane.durable := by decide
    rw [if_neg hg, decide_eq_false hother, Bool.false_and, if_neg Bool.false_ne_true]
    dsimp only [BestEffortQueue.offered]
    by_cases hclosed : s.bestEffort.closed = true
    · rw [if_pos (.inl hclosed)]
      exact .refused (by rw [if_neg hg, hclosed])
    · have hopen : s.bestEffort.closed = false := Bool.eq_false_iff.2 hclosed
      by_cases hfull : s.bestEffort.capacity ≤ s.bestEffort.waiting.length
      · rw [if_pos (.inr hfull)]
        exact .dropped hno hopen hfull
      · rw [if_neg (not_or.2 ⟨hclosed, hfull⟩)]
        exact .queued hno hopen (Nat.lt_of_not_le hfull) rfl

namespace Broker

variable {allowed : Broker → Op → Prop} {first b : Broker} {ops : List Op} {settings : Settings}

/-- Clients come without subscriptions of their own, registered sessions alone are called, filters alone are
taken out, and messages fit in memory. -/
def Serving (b : Broker) (op : Op) : Prop := Valid b op ∧ Plain b op ∧ op.Fits

/-- When no client comes with subscriptions of its own, no session is dormant. -/
theorem Run.awake (h : Run allowed first ops b) (hplain : ∀ b op, allowed b op → Plain b op) :
    dormantAfter first ops = fun _ => false := by
  induction h with
  | nil => rfl
  | @step ops b op hrun hop ih =>
    have hstep : dormantAfter first (ops ++ [op]) = b.dormancy (dormantAfter first ops) op := hrun.along_step _ _ _
    rw [hstep, ih]
    cases op with
    | connect info =>
      funext r
      show (if r = b.sessions.length then !info.subscriptions.isEmpty else false) = false
      rw [(hplain _ _ hop).2 info rfl]
      exact ite_self _
    | _ => rfl

/-- The registered sessions that want a message of a topic, by client id. -/
def interested (b : Broker) (topic : String) : List (String × SessionRef) :=
  b.registry.entries.filter fun e => ((b.session? e.2).map (·.wants topic)).getD false

theorem mem_interested {topic id : String} {r : SessionRef} : (id, r) ∈ b.interested topic ↔
    b.registry.get? id = some r ∧ ∃ s, b.session? r = some s ∧ s.wants topic = true := by
  rw [interested, List.mem_filter, ← OrderedMap.get?_eq_some_iff]
  cases b.session? r <;> simp

/-- A message that is routed is received by every registered session that holds a filter for its topic, and
that is how many the answer says. No other session and no other bucket changes, nor what anybody holds, and
nobody ignores it. The number a message is stored under is new unless numbers have run out. -/
theorem fan_out (h : Run Serving (start settings) ops b) (hflaw : settings.flaw = none) (m : Message) :
    let b' := (b.route m).2
    (b.route m).1 = (b.interested m.topic).length ∧
    (∀ id r s, b.registry.get? id = some r → b.session? r = some s → s.wants m.topic = true →
      ∀ bucket : Bucket, bucket.name = id → ∃ s', b'.session? r = some s' ∧
        Receives m s (bucket.contents b.store.queue) s' (bucket.contents b'.store.queue) ∧
        (s.durable.closed = false → ops.countP Op.takesNumber + 3 < 2 ^ 64 →
          (bucket.contents b.store.queue).get? s.durable.next = none)) ∧
    (∀ r s, b.session? r = some s → (∀ id, b.registry.get? id = some r → s.wants m.topic = false) →
      b'.session? r = some s) ∧
    (∀ bucket : Bucket, (∀ r s, b.registry.get? bucket.name = some r → b.session? r = some s →
        s.wants m.topic = false) →
      bucket.contents b'.store.queue = bucket.contents b.store.queue) ∧
    SameInterest b b' ∧
    ∃ ns, b'.journal = b.journal ++ ns ∧ ∀ n ∈ ns, n.ignores = false := by
  intro b'
  have hb : Sound b := h.sound hflaw fun _ _ hop => hop.1.1.1
  have htied : Tied b := (h.mono fun _ _ hop => ⟨hop.1.1.1, fun r c hcall _ => hop.1.1.2 r c hcall⟩).tied hflaw
  have hsettled : Settled (fun _ => false) b := by
    rw [← h.awake fun _ _ hop => hop.2.1]
    exact ((h.mono fun _ _ hop => hop.1).settled hflaw).1
  have hmatch {id : String} {r : SessionRef} {s : Session} (hr : b.registry.get? id = some r) (hs : b.session? r = some s) :
      s.matchQoS m.topic = s.service m.topic := hsettled.matchQoS hr hs m.topic
  have hrouted {id : String} {r : SessionRef} {s : Session} (hr : b.registry.get? id = some r) (hs : b.session? r = some s) :
      (∃ x ∈ b.exchange.targets m.topic, x.id = id) ↔ s.wants m.topic = true := by
    rw [hsettled.routed htied hr hs, Session.wants_iff, and_iff_right rfl]
  -- Each target is the session registered under its id, and wants the message.
  have htarget : ∀ x ∈ b.exchange.targets m.topic, b.registry.get? x.id = some x.session ∧
      ∃ s, b.session? x.session = some s ∧ s.wants m.topic = true := by
    intro x hx
    have hr := htied.registered (mem_of_mem_targets hx)
    obtain ⟨s, hs, -⟩ := hb.registered hr
    exact ⟨hr, s, hs, (hrouted hr hs).1 ⟨x, hx, rfl⟩⟩
  refine ⟨?_, fun id r s hr hs hwants bucket hbucket => ?_, fun r s hs hother => ?_, fun bucket hother => ?_,
    .route b m, ?_⟩
  · have hids : ((b.exchange.targets m.topic).map (·.id)).Perm ((b.interested m.topic).map (·.1)) := by
      have hnodup : ((b.interested m.topic).map (·.1)).Nodup :=
        OrderedMap.nodup_of_ascending id (List.pairwise_map.2 (b.registry.ascending.filter _))
      refine (List.perm_ext_iff_of_nodup (List.pairwise_map.2 (targets_ids b.exchange m.topic)) hnodup).2 fun id => ?_
      rw [List.mem_map, List.mem_map]
      constructor
      · rintro ⟨x, hx, rfl⟩
        exact ⟨(x.id, x.session), mem_interested.2 (htarget x hx), rfl⟩
      · rintro ⟨⟨id, r⟩, he, rfl⟩
        obtain ⟨hr, s, hs, hwants⟩ := mem_interested.1 he
        exact (hrouted hr hs).2 hwants
    have hlength := hids.length_eq
    rw [List.length_map, List.length_map] at hlength
    exact hlength
  · obtain ⟨x, hx, hxid⟩ := (hrouted hr hs).2 hwants
    have hxr : x.session = r := Option.some.inj ((htarget x hx).1.symm.trans (hxid ▸ hr))
    obtain ⟨e, rfl, hoffered⟩ := (session?_route hb hs m).2 ⟨x, hx, hxr⟩
    have hcontents := (contents_route hb e.message bucket).2 x hx (hxid.trans hbucket.symm) s (hxr ▸ hs)
    refine ⟨s.offered e, hoffered, ?_, fun hopen hn => ?_⟩
    · rw [hcontents]
      exact .of_offered (hmatch hr hs) hwants _
    · have hahead := (h.ahead hflaw (fun _ _ hop => ⟨hop.1.1.1, hop.2.2⟩) hn bucket).lower hs
        ((hb.id_of_registered hr hs).trans hbucket.symm) hopen
      cases hget : (bucket.contents b.store.queue).get? s.durable.next with
      | none => rfl
      | some v => exact absurd (hahead _ (OrderedMap.get?_eq_some_iff.1 hget)) (UInt64.lt_irrefl _)
  · refine (session?_route hb hs m).1 fun x hx hxr => ?_
    obtain ⟨hr, t, ht, hwants⟩ := htarget x hx
    obtain rfl := Option.some.inj (hs.symm.trans (hxr ▸ ht))
    rw [hother x.id (hxr ▸ hr)] at hwants
    cases hwants
  · refine (contents_route hb m bucket).1 fun x hx hxid => ?_
    obtain ⟨hr, t, ht, hwants⟩ := htarget x hx
    rw [hother x.session t (hxid ▸ hr) ht] at hwants
    cases hwants
  · obtain ⟨t, copies, heq, htargets, hmessage⟩ := route_eq b m
    have hlanes : ∀ c ∈ copies, ∃ s, ({ b with events := t } : Broker).session? c.1.session = some s ∧
        (s.lane? c.2.message).isSome := by
      intro c hc
      obtain ⟨hr, s, hs, hwants⟩ := htarget c.1 (htargets ▸ List.mem_map.2 ⟨c, hc, rfl⟩)
      refine ⟨s, hs, ?_⟩
      rw [hmessage c hc, Session.lane?_eq (hmatch hr hs) hwants]
      rfl
    rw [show b' = _ from heq]
    exact journal_foldl_deliver hlanes

/-- One of three clients is guaranteed a message, by one of two filters that cover its topic; another gets it
without, and the third holds no filter for it. -/
theorem fan_out_to_two :
    let m : Message := { topic := "t", payload := [7], qos := .atLeastOnce }
    let ops : List Op := [.connect { id := "a" }, .connect { id := "b" }, .connect { id := "c" },
      .call 0 (.subscribe [⟨"t", .atLeastOnce⟩, ⟨"#", .atMostOnce⟩] none), .call 1 (.subscribe [⟨"+", .atMostOnce⟩] none),
      .call 2 (.subscribe [⟨"u", .exactlyOnce⟩] none)]
    let b := ops.foldl step (start {})
    let b' := (b.route m).2
    (b.route m).1 = 2 ∧
      ((⟨"a", by decide⟩ : Bucket).contents b'.store.queue).entries = [(1, Binary.encodeMessage m)] ∧
      (∃ s, b'.session? 1 = some s ∧ s.bestEffort.waiting.map (·.message) = [m] ∧ s.durable.pending = []) ∧
      b'.session? 2 = b.session? 2 := by
  intro m ops b b'
  have hsubscribe {b : Broker} {r : SessionRef} (id : String) (hr : b.registry.get? id = some r) (sub : List Subscription) :
      Serving b (.call r (.subscribe sub none)) := by
    refine ⟨⟨⟨trivial, ?_⟩, nofun, nofun⟩, ⟨trivial, nofun⟩, trivial⟩
    rintro _ _ ⟨⟩
    exact ⟨id, hr⟩
  have hconnect {b : Broker} (id : String) : Serving b (.connect { id }) := by
    refine ⟨⟨⟨trivial, nofun⟩, ?_, nofun⟩, ⟨trivial, ?_⟩, trivial⟩
    · rintro _ ⟨⟩ f q hf
      cases hf
    · rintro _ ⟨⟩
      rfl
  have hrun : Run Serving (start {}) ops b := by
    refine .step (.step (.step (.step (.step (.step .nil (hconnect "a")) (hconnect "b")) (hconnect "c")) ?_) ?_) ?_
    · exact hsubscribe "a" (by decide +kernel) _
    · exact hsubscribe "b" (by decide +kernel) _
    · exact hsubscribe "c" (by decide +kernel) _
  obtain ⟨hcount, hreceived, hother, -⟩ := fan_out hrun rfl m
  have hsession (r : SessionRef) (h : (b.session? r).isSome) : b.session? r = some ((b.session? r).get h) :=
    (Option.some_get h).symm
  refine ⟨hcount.trans (by decide +kernel), ?_, ?_, ?_⟩
  · obtain ⟨s', -, hreceives, -⟩ := hreceived "a" 0 _ (by decide +kernel) (hsession 0 (by decide +kernel))
      (by decide +kernel) ⟨"a", by decide⟩ rfl
    generalize (⟨"a", by decide⟩ : Bucket).contents (b.route m).2.store.queue = c at hreceives ⊢
    cases hreceives with
    | stored => decide +kernel
    | queued hno => exact absurd hno (by decide +kernel)
    | dropped hno => exact absurd hno (by decide +kernel)
    | refused hclosed => exact absurd hclosed (by decide +kernel)
  · obtain ⟨s', hs', hreceives, -⟩ := hreceived "b" 1 _ (by decide +kernel) (hsession 1 (by decide +kernel))
      (by decide +kernel) ⟨"b", by decide⟩ rfl
    have hnothing : ((b.session? 1).get (by decide +kernel)).bestEffort.waiting = [] ∧
        ((b.session? 1).get (by decide +kernel)).durable.pending = [] := by decide +kernel
    refine ⟨s', hs', ?_⟩
    generalize (⟨"b", by decide⟩ : Bucket).contents (b.route m).2.store.queue = c at hreceives
    cases hreceives with
    | stored hg => exact absurd hg (by decide +kernel)
    | queued _ _ _ he =>
      refine ⟨?_, hnothing.2⟩
      rw [List.map_append, hnothing.1, List.map_cons, he]
      rfl
    | dropped _ _ hfull => exact absurd hfull (by decide +kernel)
    | refused hclosed => exact absurd hclosed (by decide +kernel)
  · have hs := hsession 2 (by decide +kernel)
    rw [hs]
    exact hother 2 _ hs fun id _ => by decide +kernel

end Broker

end PubSub
