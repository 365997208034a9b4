import PubSub.Proofs.Clients
/-!
# What offering an event does to a session

An event offered to a session is for one of its two queues or for none (`Session.lane?`), and what becomes of
the session depends on nothing but the session and the event (`offer_eq`). Routing offers each target a copy
of its own, so a session that is no target stays as it is (`session?_route`, `contents_route`).
-/

namespace PubSub

/-- The queue with one more message stored. -/
def DurableQueue.stored (q : DurableQueue) : DurableQueue :=
  { q with next := q.next + 1, pending := q.pending ++ [q.next] }

/-- The queue after an event was pushed that it may have dropped or refused. -/
def BestEffortQueue.offered (q : BestEffortQueue) (e : Event) : BestEffortQueue :=
  if q.closed ∨ q.capacity ≤ q.waiting.length then q else { q with waiting := q.waiting ++ [e] }

/-- The queues of a session. -/
inductive Lane where
  | bestEffort
  | durable
  deriving DecidableEq, Repr

/-- Whether a notice says that no filter wanted a message. -/
def Notice.ignores : Notice → Bool
  | .noSubscription _ _ => true
  | _ => false

namespace Session

/-- The queue that a message is for. -/
def lane? (s : Session) (m : Message) : Option Lane :=
  if m.qos.isGuaranteed then (s.matchQoS m.topic).map fun q => if q.isGuaranteed then .durable else .bestEffort
  else some .bestEffort

/-- A session after an event was offered to it. -/
def offered (s : Session) (e : Event) : Session :=
  match s.lane? e.message with
  | none => s
  | some .bestEffort => { s with bestEffort := s.bestEffort.offered e }
  | some .durable => if s.durable.closed then s else { s with durable := s.durable.stored }

/-- What is answered to a message that is offered. -/
def answer (s : Session) (m : Message) : Except QueueError Unit :=
  match s.lane? m with
  | none => .ok ()
  | some .bestEffort => if s.bestEffort.closed then .error (.closed s.bestEffort.name) else .ok ()
  | some .durable => if s.durable.closed then .error s.durable.closedError else .ok ()

theorem accepts_eq (s : Session) (m : Message) :
    s.accepts m = (decide (s.lane? m = some .durable) && !s.durable.closed) := by
  unfold accepts lane?
  cases m.qos.isGuaranteed with
  | false => rfl
  | true =>
    cases s.matchQoS m.topic with
    | none => rfl
    | some q => cases hq : q.isGuaranteed <;> simp [hq]

theorem lane?_congr {s s' : Session} (h : s'.interest = s.interest) (m : Message) : s'.lane? m = s.lane? m := by
  unfold lane? matchQoS
  rw [show s'.filters = s.filters from congrArg Interest.filters h]

end Session

namespace Broker

variable {b : Broker} {r : SessionRef} {s : Session} {bucket : Bucket}

/-! ## Offering -/

/-- A change that answers so, makes of a session what an event makes of it, and reports. -/
structure Offers (r : SessionRef) (s : Session) (e : Event) (b : Broker) (x : Except QueueError Unit × Broker) : Prop where
  answer : x.1 = s.answer e.message
  session : x.2.session? r = some (s.offered e)
  journal : ∃ ns, x.2.journal = b.journal ++ ns ∧ ((s.lane? e.message).isSome → ∀ n ∈ ns, n.ignores = false)

theorem pushBestEffort_eq (h : b.session? r = some s) {e : Event} (hlane : s.lane? e.message = some .bestEffort) :
    Offers r s e b (b.pushBestEffort r s e) := by
  have hset (q : BestEffortQueue) : (b.setSession r { s with bestEffort := q }).session? r
      = some { s with bestEffort := q } := session?_setSession_self h
  have hoffered : s.offered e = { s with bestEffort := s.bestEffort.offered e } := by
    unfold Session.offered
    rw [hlane]
  have hanswer : s.answer e.message = if s.bestEffort.closed then .error (.closed s.bestEffort.name) else .ok () := by
    unfold Session.answer
    rw [hlane]
  rw [pushBestEffort, BestEffortQueue.push]
  unfold BestEffortQueue.offered at hoffered
  by_cases hclosed : s.bestEffort.closed = true
  · rw [if_pos (.inl hclosed)] at hoffered
    rw [if_pos hclosed] at hanswer ⊢
    exact ⟨hanswer.symm, h.trans (congrArg some hoffered.symm), [], (List.append_nil _).symm, fun _ => List.forall_mem_nil _⟩
  · rw [if_neg hclosed] at hanswer ⊢
    by_cases hroom : s.bestEffort.waiting.length < s.bestEffort.capacity
    · rw [if_neg (not_or.2 ⟨hclosed, Nat.not_le.2 hroom⟩)] at hoffered
      rw [if_pos hroom]
      exact ⟨hanswer.symm, (hset _).trans (congrArg some hoffered.symm), _, rfl, fun _ => List.forall_mem_nil _⟩
    · rw [if_pos (.inr (Nat.le_of_not_lt hroom))] at hoffered
      rw [if_neg hroom]
      refine ⟨hanswer.symm, (hset _).trans (congrArg some hoffered.symm), _, rfl, fun _ n hn => ?_⟩
      rw [List.mem_singleton.1 hn]
      rfl

theorem pushDurable_eq (h : b.session? r = some s) {e : Event} (hlane : s.lane? e.message = some .durable) :
    Offers r s e b (b.pushDurable r s e) := by
  have hoffered : s.offered e = if s.durable.closed then s else { s with durable := s.durable.stored } := by
    unfold Session.offered
    rw [hlane]
  have hanswer : s.answer e.message = if s.durable.closed then .error s.durable.closedError else .ok () := by
    unfold Session.answer
    rw [hlane]
  unfold pushDurable
  by_cases hclosed : s.durable.closed = true
  · rw [if_pos hclosed] at hoffered hanswer
    rw [DurableQueue.push_closed hclosed]
    exact ⟨hanswer.symm, h.trans (congrArg some hoffered.symm), [], (List.append_nil _).symm, fun _ => List.forall_mem_nil _⟩
  · rw [if_neg hclosed] at hoffered hanswer
    rw [DurableQueue.push_open (Bool.eq_false_iff.2 hclosed)]
    exact ⟨hanswer.symm, (session?_setSession_self h).trans (congrArg some hoffered.symm), [], (List.append_nil _).symm,
      fun _ => List.forall_mem_nil _⟩

theorem offer_eq (h : b.session? r = some s) (e : Event) : Offers r s e b (b.offer r e) := by
  unfold offer
  rw [h]
  dsimp only
  by_cases hg : e.message.qos.isGuaranteed = true
  · rw [if_neg (not_not_intro hg)]
    cases hmatch : s.matchQoS e.message.topic with
    | none =>
      have hlane : s.lane? e.message = none := by rw [Session.lane?, if_pos hg, hmatch]; rfl
      refine ⟨?_, ?_, _, rfl, fun hsome => ?_⟩
      · rw [Session.answer, hlane]
      · rw [Session.offered, hlane]
        exact h
      · rw [hlane] at hsome
        cases hsome
    | some q =>
      have hlane : s.lane? e.message = some (if q.isGuaranteed then .durable else .bestEffort) := by
        rw [Session.lane?, if_pos hg, hmatch]
        rfl
      dsimp only
      by_cases hq : q.isGuaranteed = true
      · rw [if_pos hq] at hlane ⊢
        exact pushDurable_eq h hlane
      · rw [if_neg hq] at hlane ⊢
        exact pushBestEffort_eq h hlane
  · rw [if_pos hg]
    exact pushBestEffort_eq h (if_neg hg)

theorem push_eq (h : b.session? r = some s) (m : Message) : (b.push r m).1 = s.answer m ∧
    ∃ e : Event, e.message = m ∧ (b.push r m).2.session? r = some (s.offered e) := by
  have hs : ({ b with events := (b.events.publish m true).2 } : Broker).session? r = some s := h
  have hoffers := offer_eq hs (b.events.publish m true).1
  exact ⟨hoffers.answer, _, rfl, hoffers.session⟩

/-! ## Routing -/

theorem deliver_eq {target : Binding} (h : b.session? target.session = some s) (e : Event) :
    (b.deliver target e).session? target.session = some (s.offered e) ∧
      ∃ ns, (b.deliver target e).journal = b.journal ++ ns ∧
        ((s.lane? e.message).isSome → ∀ n ∈ ns, n.ignores = false) := by
  obtain ⟨-, hsession, ns, hjournal, hns⟩ := offer_eq h e
  unfold deliver
  split
  · next heq =>
    rw [heq] at hsession hjournal
    exact ⟨hsession, ns, hjournal, hns⟩
  · next err b' heq =>
    rw [heq] at hsession hjournal
    have hreported : (b'.report [.notDelivered target.id e.message.topic err]).journal
        = b.journal ++ (ns ++ [.notDelivered target.id e.message.topic err]) := by
      rw [← List.append_assoc, ← hjournal]
      rfl
    refine ⟨hsession, _, hreported, fun hlane n hn => ?_⟩
    rcases List.mem_append.1 hn with hn | hn
    · exact hns hlane n hn
    · rw [List.mem_singleton.1 hn]
      rfl

variable {copies : List (Binding × Event)}

/-- A session gets its own copy, and no other changes it. -/
theorem session?_foldl_deliver (hcopies : copies.Pairwise fun c d => c.1.session ≠ d.1.session)
    (hs : b.session? r = some s) : (copies.foldl (fun b c => b.deliver c.1 c.2) b).session? r
      = some (((copies.find? (·.1.session = r)).map fun c => s.offered c.2).getD s) := by
  induction copies generalizing b s with
  | nil => exact hs
  | cons c copies ih =>
    obtain ⟨hne, hcopies⟩ := List.pairwise_cons.1 hcopies
    rw [List.foldl_cons, List.find?_cons]
    by_cases hc : c.1.session = r
    · subst hc
      have hnone : copies.find? (·.1.session = c.1.session) = none := by
        simp only [List.find?_eq_none, decide_eq_true_eq]
        exact fun d hd => Ne.symm (hne d hd)
      rw [ih hcopies (deliver_eq hs c.2).1, hnone, decide_eq_true rfl]
      rfl
    · rw [ih hcopies (((Local.deliver b c.1 c.2).others r (Ne.symm hc)).trans hs), decide_eq_false hc]

/-- Nobody ignores a message for which everybody has a queue. -/
theorem journal_foldl_deliver (hcopies : ∀ c ∈ copies, ∃ s, b.session? c.1.session = some s ∧
    (s.lane? c.2.message).isSome) : ∃ ns, (copies.foldl (fun b c => b.deliver c.1 c.2) b).journal = b.journal ++ ns ∧
      ∀ n ∈ ns, n.ignores = false := by
  induction copies generalizing b with
  | nil => exact ⟨[], (List.append_nil _).symm, List.forall_mem_nil _⟩
  | cons c copies ih =>
    obtain ⟨s, hs, hlane⟩ := hcopies c List.mem_cons_self
    obtain ⟨-, ns, hjournal, hns⟩ := deliver_eq hs c.2
    obtain ⟨ns', hjournal', hns'⟩ := ih (b := b.deliver c.1 c.2) fun d hd => by
      obtain ⟨t, ht, htlane⟩ := hcopies d (List.mem_cons_of_mem c hd)
      obtain ⟨t', ht', heq⟩ := (Local.deliver b c.1 c.2).interest.session? ht
      exact ⟨t', ht', Session.lane?_congr heq d.2.message ▸ htlane⟩
    refine ⟨ns ++ ns', ?_, fun n hn => ?_⟩
    · rw [List.foldl_cons, hjournal', hjournal, List.append_assoc]
    · rcases List.mem_append.1 hn with hn | hn
      · exact hns hlane n hn
      · exact hns' n hn

/-- Routing gives each target a copy of the event that it publishes. -/
theorem route_copies (b : Broker) (m : Message) : ∃ (t : EventTable) (copies : List (Binding × Event)),
    (b.route m).2 = copies.foldl (fun b c => b.deliver c.1 c.2) { b with events := t } ∧
      copies.map (·.1) = b.exchange.targets m.topic ∧
      ∀ c ∈ copies, ∃ place, c.2 = ⟨.copy (.published b.events.published) 0 place, m⟩ := by
  obtain ⟨hlength, -⟩ := split_publish b.events m true (b.exchange.targets m.topic).length
  refine ⟨_, (b.exchange.targets m.topic).zip
    ((b.events.publish m true).2.split (b.events.publish m true).1.id (b.exchange.targets m.topic).length).1,
    rfl, List.map_fst_zip (Nat.le_of_eq hlength.symm), fun c hc => ?_⟩
  have hcopy := (List.of_mem_zip hc).2
  rw [EventTable.copies_publish] at hcopy
  obtain ⟨place, -, heq⟩ := EventTable.mem_copies.1 hcopy
  exact ⟨place, heq⟩

theorem route_eq (b : Broker) (m : Message) : ∃ (t : EventTable) (copies : List (Binding × Event)),
    (b.route m).2 = copies.foldl (fun b c => b.deliver c.1 c.2) { b with events := t } ∧
      copies.map (·.1) = b.exchange.targets m.topic ∧ ∀ c ∈ copies, c.2.message = m := by
  obtain ⟨t, copies, heq, htargets, hcopies⟩ := route_copies b m
  refine ⟨t, copies, heq, htargets, fun c hc => ?_⟩
  obtain ⟨place, hplace⟩ := hcopies c hc
  rw [hplace]

theorem targets_sessions (hb : Sound b) (topic : String) :
    (b.exchange.targets topic).Pairwise fun x y => x.session ≠ y.session := by
  refine (targets_ids b.exchange topic).imp_of_mem fun {x y} hx hy hne heq => hne ?_
  obtain ⟨s, hs, hid⟩ := hb.bound (mem_of_mem_targets hx)
  rw [← hid]
  exact hb.id_of_bound (mem_of_mem_targets hy) (heq ▸ hs)

/-- A target is offered a copy, and any other session stays as it is. -/
theorem session?_route_copy (hb : Sound b) (hs : b.session? r = some s) (m : Message) :
    ((∀ x ∈ b.exchange.targets m.topic, x.session ≠ r) → (b.route m).2.session? r = some s) ∧
    ((∃ x ∈ b.exchange.targets m.topic, x.session = r) → ∃ place,
      (b.route m).2.session? r = some (s.offered ⟨.copy (.published b.events.published) 0 place, m⟩)) := by
  obtain ⟨t, copies, heq, htargets, hcopies⟩ := route_copies b m
  have hsessions := targets_sessions hb m.topic
  rw [← htargets, List.pairwise_map] at hsessions
  have hs' : ({ b with events := t } : Broker).session? r = some s := hs
  rw [heq, session?_foldl_deliver hsessions hs', ← htargets]
  constructor
  · intro hno
    have hnone : copies.find? (·.1.session = r) = none := by
      simp only [List.find?_eq_none, decide_eq_true_eq]
      exact fun c hc => hno c.1 (List.mem_map.2 ⟨c, hc, rfl⟩)
    rw [hnone]
    rfl
  · rintro ⟨x, hx, hxr⟩
    obtain ⟨c, hc, rfl⟩ := List.mem_map.1 hx
    have hsome : (copies.find? (·.1.session = r)).isSome := List.find?_isSome.2 ⟨c, hc, decide_eq_true hxr⟩
    obtain ⟨d, hd⟩ := Option.isSome_iff_exists.1 hsome
    obtain ⟨place, hplace⟩ := hcopies d (List.mem_of_find?_eq_some hd)
    rw [hd, Option.map_some, Option.getD_some, hplace]
    exact ⟨place, rfl⟩

theorem session?_route (hb : Sound b) (hs : b.session? r = some s) (m : Message) :
    ((∀ x ∈ b.exchange.targets m.topic, x.session ≠ r) → (b.route m).2.session? r = some s) ∧
    ((∃ x ∈ b.exchange.targets m.topic, x.session = r) →
      ∃ e : Event, e.message = m ∧ (b.route m).2.session? r = some (s.offered e)) := by
  obtain ⟨hother, htarget⟩ := session?_route_copy hb hs m
  refine ⟨hother, fun hx => ?_⟩
  obtain ⟨place, hplace⟩ := htarget hx
  exact ⟨_, rfl, hplace⟩

/-- Storing a message puts a record into the session's bucket, when the session accepts it. -/
theorem contents_storeActs {b' : Broker} {m : Message} (h : Acts bucket.name b (b.storeActs r m) b')
    (hs : b.session? r = some s) (hid : s.info.id = bucket.name) : bucket.contents b'.store.queue
      = if s.accepts m then (bucket.contents b.store.queue).insert s.durable.next (Binary.encodeMessage m)
        else bucket.contents b.store.queue := by
  unfold storeActs at h
  rw [hs] at h
  dsimp only at h
  by_cases ha : s.accepts m = true
  · rw [if_pos ha] at h ⊢
    cases h with
    | act hsame he hrest =>
      cases hrest with
      | same hlast =>
        obtain ⟨hb₁, -, hdoes⟩ := he
        obtain ⟨s₁, hs₁, hmail⟩ := hsame.mail hs hid
        obtain ⟨s₂, -, hrun⟩ := hdoes.mail s₁ hs₁
        have hopen : s.mail.durable.closed = false := by
          rw [Session.accepts_eq, Bool.and_eq_true, Bool.not_eq_true'] at ha
          exact ha.2
        have hbucket : s.durable.bucket = bucket :=
          (congrArg (·.durable.bucket) hmail).symm.trans
            (bucket.eq_of_name ((hb₁.named hs₁).trans ((Mail.id_eq hmail).trans hid)))
        rw [hmail, Mail.run_store_open hopen] at hrun
        have hqueue := congrArg Prod.snd hrun
        dsimp only at hqueue
        rw [hlast.records bucket rfl, hqueue, show s.mail.durable.bucket = bucket from hbucket, Bucket.contents_put,
          hsame.records bucket rfl]
        rfl
  · rw [if_neg ha] at h ⊢
    cases h with
    | same hsame => exact hsame.records bucket rfl

/-- Routing puts a record into the bucket of each target that accepts the message, and into no other. -/
theorem contents_route (hb : Sound b) (m : Message) (bucket : Bucket) :
    ((∀ x ∈ b.exchange.targets m.topic, x.id ≠ bucket.name) →
      bucket.contents (b.route m).2.store.queue = bucket.contents b.store.queue) ∧
    (∀ x ∈ b.exchange.targets m.topic, x.id = bucket.name → ∀ s, b.session? x.session = some s →
      bucket.contents (b.route m).2.store.queue
        = if s.accepts m then (bucket.contents b.store.queue).insert s.durable.next (Binary.encodeMessage m)
          else bucket.contents b.store.queue) := by
  have hacts : Acts bucket.name b (b.acts bucket.name (.route m)) (b.route m).2 := acts_route hb m
  unfold acts at hacts
  dsimp only at hacts
  constructor
  · intro hno
    have hnone : (b.exchange.targets m.topic).find? (·.id = bucket.name) = none := by
      simp only [List.find?_eq_none, decide_eq_true_eq]
      exact hno
    rw [hnone] at hacts
    cases hacts with
    | same hsame => exact hsame.records bucket rfl
  · intro x hx hid s hs
    have hsome : ((b.exchange.targets m.topic).find? (·.id = bucket.name)).isSome :=
      List.find?_isSome.2 ⟨x, hx, decide_eq_true hid⟩
    obtain ⟨y, hy⟩ := Option.isSome_iff_exists.1 hsome
    have hyid : y.id = bucket.name := by simpa using List.find?_some hy
    -- Targets are of different clients, so the one found is this one.
    have hsymm : Std.Symm fun y z : Binding => y.id ≠ z.id := ⟨fun _ _ => Ne.symm⟩
    obtain rfl : y = x := by
      by_cases hyx : y = x
      · exact hyx
      · exact absurd (hyid.trans hid.symm)
          ((targets_ids b.exchange m.topic).forall (List.mem_of_find?_eq_some hy) hx hyx)
    rw [hy] at hacts
    exact contents_storeActs hacts hs ((hb.id_of_bound (mem_of_mem_targets hx) hs).trans hid)

end Broker

end PubSub
