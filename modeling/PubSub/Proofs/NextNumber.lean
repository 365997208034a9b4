import PubSub.Proofs.Numbers
/-!
# The next number is new

As long as numbers do not run out, the number that an open session gives the next message is above those of
all records of its client (`Ahead`), so storing the message adds a record and replaces none.
-/

namespace PubSub

/-- Only storing takes a number. -/
theorem Mail.run_next (m : Mail) (k : Keyspace) (j : Job) : (m.run k j).1.durable.next = m.durable.next ∨
    ∃ msg, j = .store msg ∧ m.durable.closed = false ∧ (m.run k j).1.durable.next = m.durable.next + 1 := by
  cases j with
  | store msg =>
    cases hc : m.durable.closed with
    | true => exact .inl (by rw [run_store_closed hc])
    | false => exact .inr ⟨msg, rfl, rfl, by rw [run_store_open hc]⟩
  | next => exact .inl (by rw [run_next_durable, DurableQueue.pop_next])
  | acknowledge id =>
    cases ha : m.acks.remove id with
    | error e => exact .inl (by rw [run_acknowledge_error ha])
    | ok found => exact .inl (by rw [run_acknowledge_ok ha, DurableQueue.ack_next])
  | requeue => exact .inl rfl
  | close clean => exact .inl (m.durable.close_next k clean)

namespace Broker

variable {bucket : Bucket} {b b' : Broker} {n : Nat} {r : SessionRef} {s : Session} {info : Info} {settings : Settings}
  {op : Op}

/-- Every record of the bucket has a lower number than the next of its open session. -/
structure Ahead (bucket : Bucket) (b : Broker) : Prop where
  lower : ∀ {r s}, b.session? r = some s → s.info.id = bucket.name → s.durable.closed = false →
    ∀ e ∈ (bucket.contents b.store.queue).entries, e.1 < s.durable.next

namespace Ahead

theorem same (h : Ahead bucket b) (hs : SameFor bucket.name b b') : Ahead bucket b' where
  lower {r s'} hs' hid hopen e he := by
    obtain ⟨s, hs₀, heq⟩ := hs.back hs' hid
    obtain ⟨hid', hdurable, -, -⟩ := Mail.mk.inj heq
    rw [hdurable] at hopen ⊢
    rw [hs.records bucket rfl] at he
    exact h.lower hs₀ (hid'.symm.trans hid) hopen e he

theorem job {j : Job} (h : Ahead bucket b) (hnum : Numbered bucket n b) (hn : n + 3 < 2 ^ 64)
    (hj : Effect bucket.name b (.job r j) b') : Ahead bucket b' := by
  obtain ⟨hb, ⟨s, hs, hid⟩, hdoes⟩ := hj
  obtain ⟨s', hs', hrun⟩ := hdoes.mail s hs
  have hmail : s'.mail = (s.mail.run b.store.queue j).1 := congrArg Prod.fst hrun
  have hqueue : b'.store.queue = (s.mail.run b.store.queue j).2 := congrArg Prod.snd hrun
  have hbucket : s.mail.durable.bucket = bucket := bucket.eq_of_name ((hb.named hs).trans hid)
  constructor
  intro q t' ht' htid hopen e he
  obtain ⟨t, ht, heq, -, hclosed⟩ := hdoes.frame.session?_back ht'
  have hid' : t.info.id = bucket.name := (Interest.id_eq heq).symm.trans htid
  have hopen' : t.durable.closed = false := by
    rw [← Bool.not_eq_true]
    intro hc
    rw [hclosed hc] at hopen
    cases hopen
  rw [hqueue, ← hbucket] at he
  have hrecord := s.mail.mem_contents_run b.store.queue j he
  rw [hbucket] at hrecord
  by_cases hq : q = r
  · subst hq
    obtain rfl := Option.some.inj (hs'.symm.trans ht')
    obtain rfl := Option.some.inj (hs.symm.trans ht)
    have hlt : s.durable.next < s.durable.next + 1 := lt_add_one (hnum.room hn hs hid hopen').1
    rw [show s'.durable.next = (s.mail.run b.store.queue j).1.durable.next from congrArg (·.durable.next) hmail]
    rcases hrecord with he | ⟨msg, rfl, hstore, rfl⟩
    · have hlower := h.lower hs hid hopen' e he
      rcases s.mail.run_next b.store.queue j with hnext | ⟨-, -, -, hnext⟩ <;> rw [hnext]
      · exact hlower
      · exact UInt64.lt_trans hlower hlt
    · rw [Mail.run_store_open hstore]
      exact hlt
  · -- Only one session of the client is open, so the job on another stores nothing.
    rw [hdoes.frame.others q hq] at ht'
    obtain rfl := Option.some.inj (ht.symm.trans ht')
    rcases hrecord with he | ⟨-, -, hstore, -⟩
    · exact h.lower ht hid' hopen' e he
    · have hr := hb.opened hs hstore
      rw [hid, ← hid', hb.opened ht hopen'] at hr
      exact absurd (Option.some.inj hr) hq

theorem enrolled {c : Bucket} (h : Ahead bucket b) (hb : Sound b) (hnum : Numbered bucket n b) (hn : n + 3 < 2 ^ 64)
    (hfree : b.registry.get? bucket.name = none) (hc : c.name = bucket.name) : Ahead bucket (b.enrolled info c) where
  lower {r s} hs hid hopen e he := by
    rcases session?_enrolled.1 hs with hs | ⟨-, rfl⟩
    · have hr := hb.opened hs hopen
      rw [hid, hfree] at hr
      cases hr
    · obtain rfl := bucket.eq_of_name hc
      refine DurableQueue.lt_next_new (fun t ht => ?_) b.settings.maxGuaranteed e.1 ?_
      · rw [Bucket.sequences_eq] at ht
        obtain ⟨d, hd, rfl⟩ := List.mem_map.1 ht
        have := (hnum.records d hd).1
        omega
      · rw [Bucket.sequences_eq]
        exact List.mem_map.2 ⟨e, he, rfl⟩

theorem acts {xs : List Act} (h : Ahead bucket b) (hnum : Numbered bucket n b) (hx : Acts bucket.name b xs b')
    (hfit : ∀ a ∈ xs, a.Fits) (hn : n + xs.countP Act.takesNumber + 3 < 2 ^ 64) : Ahead bucket b' := by
  induction hx generalizing n with
  | same hs => exact h.same hs
  | @act _ b₁ b₂ _ a xs hs he _ ih =>
    have hone : Numbered bucket (n + [a].countP Act.takesNumber) b₂ := by
      refine hnum.acts (.act hs he (.same (.refl _ b₂))) fun c hc => ?_
      rw [List.mem_singleton.1 hc]
      exact hfit a List.mem_cons_self
    have hcount : (a :: xs).countP Act.takesNumber = [a].countP Act.takesNumber + xs.countP Act.takesNumber := by
      rw [← List.countP_append]
      rfl
    have hrest := fun h => ih h hone (fun c hc => hfit c (List.mem_cons_of_mem a hc)) (by omega)
    cases a with
    | job r j => exact hrest ((h.same hs).job (hnum.same hs) (by omega) he)
    | free =>
      obtain rfl := he
      exact hrest ⟨(h.same hs).lower⟩
    | enrol r info =>
      obtain ⟨hb, hfree, -, -, c, hc, rfl⟩ := he
      exact hrest ((h.same hs).enrolled hb (hnum.same hs) (by omega) hfree hc)

/-! ## Runs -/

theorem restored (h : Ahead bucket b) (hnum : Numbered bucket n b) (hb : Sound b) (hn : n + 3 < 2 ^ 64)
    (hu : usableName info.id = true) (hfree : b.registry.get? info.id = none) :
    Ahead bucket ((b.enrol info).2.registerAll b.sessions.length) := by
  refine Ahead.same ?_ (.of_sameMail (.registerAll _ _))
  by_cases hid : info.id = bucket.name
  · have hacts := acts_enrol hb hu hfree
    rw [hid] at hacts
    refine h.acts hnum hacts (fun a ha => ?_) hn
    rw [List.mem_singleton.1 ha]
    trivial
  · exact h.same (.enrol hid)

theorem openOn {store : Store} {events : EventTable} (hflaw : settings.flaw = none) (hn : n + 3 < 2 ^ 64)
    (hrecorded : SessionRecords.Recorded store.sessions)
    (h : ∀ e ∈ (bucket.contents store.queue).entries,
      e.1.toNat ≤ n ∧ ∃ m : Message, m.Fits ∧ e.2 = Binary.encodeMessage m) :
    Ahead bucket (openOn settings (.database store) events).2 := by
  refine (Sound.openOn_induction (I := fun _ b => Numbered bucket n b ∧ Ahead bucket b)
    (fun _ _ ns hI => ⟨hI.1.same (.report _ ns), hI.2.same (.report _ ns)⟩) (fun _ _ _ hb hI _ hu hfree => ?_) hflaw
    hrecorded ⟨⟨h, nofun⟩, ⟨nofun⟩⟩).2.2
  exact ⟨hI.1.restored hb hu hfree, hI.2.restored hI.1 hb hn hu hfree⟩

theorem step (h : Ahead bucket b) (hnum : Numbered bucket n b) (hb : Sound b) (hop : op.Configured) (hfit : op.Fits)
    (hn : n + (if op.takesNumber then 1 else 0) + 3 < 2 ^ 64) : Ahead bucket (b.step op) := by
  have hacts {op : Op} (hfit : op.Fits) (hn : n + (if op.takesNumber then 1 else 0) + 3 < 2 ^ 64)
      (hne : ∀ settings orderly, op ≠ .reopen settings orderly) : Ahead bucket (b.step op) := by
    refine h.acts hnum (acts_step hb bucket.usable hne) (fits_acts hfit bucket.name) ?_
    have hcount := countP_acts b bucket.name op
    omega
  cases op with
  | reopen settings orderly =>
    obtain ⟨events, heq⟩ := reopen_eq b settings orderly
    show Ahead bucket (b.reopen settings orderly).2
    rw [heq]
    cases orderly with
    | false => exact openOn hop hn hb.recorded hnum.records
    | true =>
      have hclosed : Numbered bucket n b.close := hnum.step hb (show Op.Configured .close from trivial) trivial
      exact openOn hop hn hb.close.recorded hclosed.records
  | _ => exact hacts hfit hn nofun

end Ahead

/-- In a run that does not take too many numbers, the next number of every open session is new. -/
theorem Run.ahead {allowed : Broker → Op → Prop} {ops : List Op} (h : Run allowed (Broker.start settings) ops b)
    (hflaw : settings.flaw = none) (hop : ∀ b op, allowed b op → op.Configured ∧ op.Fits)
    (hn : ops.countP Op.takesNumber + 3 < 2 ^ 64) (bucket : Bucket) : Ahead bucket b := by
  induction h with
  | nil => exact Ahead.openOn hflaw hn SessionRecords.recorded_empty nofun
  | @step ops b op hrun hallowed ih =>
    rw [List.countP_append, List.countP_singleton] at hn
    obtain ⟨hconfigured, hfit⟩ := hop b op hallowed
    exact (ih (by omega)).step (hrun.numbered hflaw hop bucket) (hrun.sound hflaw fun b op ha => (hop b op ha).1)
      hconfigured hfit hn

end Broker

end PubSub
