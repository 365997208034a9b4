import PubSub.Proofs.Clients
import PubSub.Proofs.Ledger
/-!
# Numbers run up slowly

A sequence number is taken for a message that is stored and a delivery number for one that is handed
out, so after `n` operations that do either, no number of a client is far above `n` (`Numbered`). Every
record under its name is one the broker wrote for a message.
-/

namespace PubSub

/-! ## Numbers of a mail -/

namespace Mail

variable (m : Mail) (k : Keyspace) (j : Job)

theorem run_next_le : (m.run k j).1.durable.next.toNat ≤ m.durable.next.toNat + if j.takesNumber then 1 else 0 := by
  cases j with
  | store msg =>
    cases hc : m.durable.closed with
    | true => rw [run_store_closed hc]; exact Nat.le_add_right _ _
    | false => rw [run_store_open hc]; exact toNat_add_one_le _
  | next => rw [run_next_durable, DurableQueue.pop_next]; exact Nat.le_add_right _ _
  | acknowledge id =>
    cases ha : m.acks.remove id with
    | error e => rw [run_acknowledge_error ha]; exact Nat.le_add_right _ _
    | ok found =>
      rw [run_acknowledge_ok ha]
      exact Nat.le_of_eq (congrArg UInt64.toNat (m.durable.ack_next k found.1))
  | requeue => exact Nat.le_refl _
  | close clean => exact Nat.le_of_eq (congrArg UInt64.toNat (m.durable.close_next k clean))

theorem run_counter_le : (m.run k j).1.counter.next.toNat ≤ m.counter.next.toNat + if j.takesNumber then 1 else 0 := by
  cases j with
  | store msg =>
    cases hc : m.durable.closed with
    | true => rw [run_store_closed hc]; exact Nat.le_add_right _ _
    | false => rw [run_store_open hc]; exact Nat.le_add_right _ _
  | next =>
    rcases m.run_next_counter k with h | h <;> rw [h]
    · exact Nat.le_add_right _ _
    · exact toNat_add_one_le _
  | acknowledge id =>
    cases ha : m.acks.remove id with
    | error e => rw [run_acknowledge_error ha]; exact Nat.le_add_right _ _
    | ok found => rw [run_acknowledge_ok ha]; exact Nat.le_refl _
  | requeue => exact Nat.le_refl _
  | close clean => exact Nat.le_refl _

/-- A record after a job was there before, or holds the message just stored. -/
theorem mem_contents_run {e : UInt64 × Bytes} (h : e ∈ (m.durable.bucket.contents (m.run k j).2).entries) :
    e ∈ (m.durable.bucket.contents k).entries ∨
      ∃ msg, j = .store msg ∧ m.durable.closed = false ∧ e = (m.durable.next, Binary.encodeMessage msg) := by
  rcases m.run_records k j with heq | ⟨msg, hj, hopen, heq⟩ | ⟨id, seq, acks, -, -, heq⟩ | ⟨-, -, heq⟩ <;> rw [heq] at h
  · exact .inl h
  · rw [Bucket.contents_put] at h
    rcases OrderedMap.mem_insertEntry h with h | h
    · exact .inr ⟨msg, hj, hopen, h⟩
    · exact .inl h
  · rw [Bucket.contents_delete, OrderedMap.entries_erase] at h
    exact .inl (List.mem_filter.1 h).1
  · rw [Bucket.contents_clear] at h
    cases h

end Mail

/-! ## Numbers of a client -/

/-- Whether an operation may take a sequence number or a delivery number. -/
def Op.takesNumber : Op → Bool
  | .route _ | .call _ (.push _) | .call _ .nextGuaranteed => true
  | _ => false

/-- Only messages that can be in memory are pushed. -/
def Call.Fits : Call → Prop
  | .push m => m.Fits
  | _ => True

instance : (c : Call) → Decidable c.Fits
  | .push m => inferInstanceAs (Decidable m.Fits)
  | .subscribe _ _ | .unsubscribe _ | .update _ | .cleanWill | .nextBestEffort | .nextGuaranteed | .acknowledge _
  | .requeue | .close => isTrue trivial

/-- Only messages that can be in memory are published. -/
def Op.Fits : Op → Prop
  | .route m => m.Fits
  | .call _ c => c.Fits
  | _ => True

instance : (op : Op) → Decidable op.Fits
  | .route m => inferInstanceAs (Decidable m.Fits)
  | .call _ c => inferInstanceAs (Decidable c.Fits)
  | .connect _ | .disconnect _ | .close | .reopen _ _ => isTrue trivial

def Act.takesNumber : Act → Bool
  | .job _ j => j.takesNumber
  | _ => false

/-- Only messages that can be in memory are stored. -/
def Act.Fits : Act → Prop
  | .job _ (.store m) => m.Fits
  | _ => True

namespace Broker

variable {bucket : Bucket} {b b' : Broker} {n : Nat} {r : SessionRef} {s : Session} {info : Info} {settings : Settings}

/-- Anything may be done, with usable settings and messages that can be in memory. -/
def Lively (_ : Broker) (op : Op) : Prop := op.Configured ∧ op.Fits

theorem countP_storeActs (b : Broker) (r : SessionRef) (m : Message) : (b.storeActs r m).countP Act.takesNumber ≤ 1 := by
  unfold storeActs
  split
  · exact Nat.zero_le _
  · split
    · exact Nat.le_refl _
    · exact Nat.zero_le _

theorem countP_dismissActs (b : Broker) (r : SessionRef) : (b.dismissActs r).countP Act.takesNumber = 0 := by
  unfold dismissActs
  split <;> rfl

theorem countP_acts (b : Broker) (id : String) (op : Op) :
    (b.acts id op).countP Act.takesNumber ≤ if op.takesNumber then 1 else 0 := by
  cases op with
  | connect info =>
    unfold acts
    dsimp only
    split
    · split
      · exact Nat.le_refl _
      · split <;> exact Nat.le_refl _
    · exact Nat.le_refl _
  | disconnect id' =>
    unfold acts
    dsimp only
    split
    · split
      · exact Nat.le_refl _
      · split
        · exact Nat.le_of_eq (countP_dismissActs _ _)
        · exact Nat.le_refl _
    · exact Nat.le_refl _
  | route m =>
    unfold acts
    dsimp only
    split
    · exact Nat.zero_le _
    · exact countP_storeActs _ _ _
  | call r c =>
    unfold acts
    dsimp only
    split
    · exact Nat.zero_le _
    · split
      · cases c with
        | push m =>
          unfold Session.job?
          dsimp only
          split
          · exact Nat.le_refl _
          · exact Nat.zero_le _
        | _ => exact Nat.le_refl _
      · exact Nat.zero_le _
  | close =>
    unfold acts
    dsimp only
    split
    · exact Nat.le_refl _
    · exact Nat.le_of_eq (countP_dismissActs _ _)
  | reopen settings orderly => exact Nat.zero_le _

theorem fits_dismissActs (b : Broker) (r : SessionRef) : ∀ a ∈ b.dismissActs r, a.Fits := by
  unfold dismissActs
  split
  · exact nofun
  · intro a ha
    simp only [List.mem_cons, List.not_mem_nil, or_false] at ha
    rcases ha with rfl | rfl <;> trivial

theorem fits_job {c : Call} {j : Job} (h : c.Fits) (hj : s.job? c = some j) : (Act.job r j).Fits := by
  cases c with
  | push m =>
    unfold Session.job? at hj
    dsimp only at hj
    split at hj
    · cases hj
      exact h
    · cases hj
  | nextGuaranteed | acknowledge id | requeue | close =>
    cases hj
    trivial
  | _ => cases hj

theorem fits_acts {op : Op} (h : op.Fits) (id : String) : ∀ a ∈ b.acts id op, a.Fits := by
  intro a ha
  cases a with
  | job r j =>
    cases asks_of_mem_acts ha with
    | route => exact h
    | call _ _ hj => exact fits_job h hj
    | stay | leave | close => trivial
  | free | enrol => trivial

structure Numbered (bucket : Bucket) (n : Nat) (b : Broker) : Prop where
  records : ∀ e ∈ (bucket.contents b.store.queue).entries,
    e.1.toNat ≤ n ∧ ∃ m : Message, m.Fits ∧ e.2 = Binary.encodeMessage m
  sessions : ∀ {r s}, b.session? r = some s → s.info.id = bucket.name → s.durable.closed = false →
    s.durable.next.toNat ≤ n + 1 ∧ s.counter.next.toNat ≤ n + 2

namespace Numbered

theorem same (h : Numbered bucket n b) (hs : SameFor bucket.name b b') : Numbered bucket n b' where
  records := by
    rw [hs.records bucket rfl]
    exact h.records
  sessions hs' hid hopen := by
    obtain ⟨s, hs, heq⟩ := hs.back hs' hid
    obtain ⟨hid', hdurable, -, hcounter⟩ := Mail.mk.inj heq
    rw [hdurable] at hopen ⊢
    rw [hcounter]
    exact h.sessions hs (hid'.symm.trans hid) hopen

theorem mono {n' : Nat} (h : Numbered bucket n b) (hn : n ≤ n') : Numbered bucket n' b where
  records e he := ⟨Nat.le_trans (h.records e he).1 hn, (h.records e he).2⟩
  sessions hs hid hopen := by
    obtain ⟨hnext, hcounter⟩ := h.sessions hs hid hopen
    exact ⟨by omega, by omega⟩

theorem job {j : Job} (h : Numbered bucket n b) (hj : Effect bucket.name b (.job r j) b') (hfit : (Act.job r j).Fits) :
    Numbered bucket (n + if j.takesNumber then 1 else 0) b' := by
  obtain ⟨hb, ⟨s, hs, hid⟩, hdoes⟩ := hj
  obtain ⟨s', hs', hrun⟩ := hdoes.mail s hs
  have hmail : s'.mail = (s.mail.run b.store.queue j).1 := congrArg Prod.fst hrun
  have hqueue : b'.store.queue = (s.mail.run b.store.queue j).2 := congrArg Prod.snd hrun
  have hbucket : s.durable.bucket = bucket := bucket.eq_of_name ((hb.named hs).trans hid)
  constructor
  · intro e he
    rw [hqueue, ← hbucket] at he
    rcases s.mail.mem_contents_run b.store.queue j he with he | ⟨msg, rfl, hopen, rfl⟩
    · obtain ⟨hle, hm⟩ := h.records e (hbucket ▸ he)
      exact ⟨Nat.le_trans hle (Nat.le_add_right _ _), hm⟩
    · exact ⟨(h.sessions hs hid hopen).1, msg, hfit, rfl⟩
  · intro q t' ht' htid hopen
    obtain ⟨t, ht, heq, -, hclosed⟩ := hdoes.frame.session?_back ht'
    -- An open queue was open before the job, which takes one number of each kind at most.
    by_cases hq : q = r
    · subst hq
      obtain rfl := Option.some.inj (hs'.symm.trans ht')
      have hopen' : s.durable.closed = false := by
        rw [← Bool.not_eq_true]
        intro hc
        obtain rfl := Option.some.inj (hs.symm.trans ht)
        rw [hclosed hc] at hopen
        cases hopen
      obtain ⟨hnext, hcounter⟩ := h.sessions hs hid hopen'
      have hnext' := s.mail.run_next_le b.store.queue j
      have hcounter' := s.mail.run_counter_le b.store.queue j
      rw [← hmail] at hnext' hcounter'
      have hn : s'.durable.next.toNat ≤ s.durable.next.toNat + if j.takesNumber then 1 else 0 := hnext'
      have hc : s'.counter.next.toNat ≤ s.counter.next.toNat + if j.takesNumber then 1 else 0 := hcounter'
      exact ⟨by omega, by omega⟩
    · rw [hdoes.frame.others q hq] at ht'
      obtain ⟨hnext, hcounter⟩ := h.sessions ht' htid hopen
      exact ⟨by omega, by omega⟩

theorem enrolled (h : Numbered bucket n b) {c : Bucket} (hc : c.name = bucket.name) :
    Numbered bucket n (b.enrolled info c) where
  records := h.records
  sessions {r s} hs hid hopen := by
    rcases session?_enrolled.1 hs with hs | ⟨-, rfl⟩
    · exact h.sessions hs hid hopen
    · obtain rfl := bucket.eq_of_name hc
      refine ⟨DurableQueue.toNat_next_new_le (fun t ht => ?_) _, Nat.le_add_left 2 n⟩
      rw [Bucket.sequences_eq] at ht
      obtain ⟨e, he, rfl⟩ := List.mem_map.1 ht
      exact (h.records e he).1

theorem acts {xs : List Act} (h : Numbered bucket n b) (hx : Acts bucket.name b xs b') (hfit : ∀ a ∈ xs, a.Fits) :
    Numbered bucket (n + xs.countP Act.takesNumber) b' := by
  induction hx generalizing n with
  | same hs => exact h.same hs
  | @act _ b₁ b₂ _ a xs hs he _ ih =>
    have hrest := fun {n} (h : Numbered bucket n b₂) => ih h fun c hc => hfit c (List.mem_cons_of_mem a hc)
    have hfirst := hfit a List.mem_cons_self
    rw [List.countP_cons, Nat.add_comm (xs.countP _), ← Nat.add_assoc]
    cases a with
    | job r j => exact hrest ((h.same hs).job he hfirst)
    | free =>
      obtain rfl := he
      exact hrest ⟨(h.same hs).records, (h.same hs).sessions⟩
    | enrol r info =>
      obtain ⟨-, -, -, -, c, hc, rfl⟩ := he
      exact hrest ((h.same hs).enrolled hc)

/-- There are numbers left as long as few were taken. -/
theorem room (h : Numbered bucket n b) (hn : n + 3 < 2 ^ 64) (hs : b.session? r = some s) (hid : s.info.id = bucket.name)
    (hopen : s.durable.closed = false) : s.mail.Room := by
  obtain ⟨hnext, hcounter⟩ := h.sessions hs hid hopen
  have hnext' : s.mail.durable.next.toNat ≤ n + 1 := hnext
  have hcounter' : s.mail.counter.next.toNat ≤ n + 2 := hcounter
  exact ⟨by omega, by omega⟩

theorem length_le_of_ascending {xs : List UInt64} {k : Nat} (h : xs.Pairwise (· < ·)) (hk : k ≤ n + 1)
    (hxs : ∀ x ∈ xs, k ≤ x.toNat ∧ x.toNat ≤ n) : xs.length + k ≤ n + 1 := by
  induction xs generalizing k with
  | nil => rw [List.length_nil]; omega
  | cons x xs ih =>
    obtain ⟨hfirst, hrest⟩ := List.pairwise_cons.1 h
    obtain ⟨hkx, hxn⟩ := hxs x List.mem_cons_self
    have hlater := ih (k := x.toNat + 1) hrest (by omega) fun y hy =>
      ⟨UInt64.lt_iff_toNat_lt.1 (hfirst y hy), (hxs y (List.mem_cons_of_mem x hy)).2⟩
    rw [List.length_cons]
    omega

/-- There are no more records than numbers. -/
theorem length_records (h : Numbered bucket n b) : (bucket.contents b.store.queue).entries.length ≤ n + 1 := by
  have hkeys := length_le_of_ascending (k := 0) (n := n) (OrderedMap.keys_ascending (bucket.contents b.store.queue))
    (Nat.zero_le _) fun x hx => by
      obtain ⟨e, he, rfl⟩ := List.mem_map.1 hx
      exact ⟨Nat.zero_le _, (h.records e he).1⟩
  rwa [OrderedMap.keys, List.length_map] at hkeys

/-! ## Runs -/

theorem restored (h : Numbered bucket n b) (hb : Sound b) (hu : usableName info.id = true)
    (hfree : b.registry.get? info.id = none) : Numbered bucket n ((b.enrol info).2.registerAll b.sessions.length) := by
  refine Numbered.same ?_ (.of_sameMail (.registerAll _ _))
  by_cases hid : info.id = bucket.name
  · have hacts := acts_enrol hb hu hfree
    rw [hid] at hacts
    refine h.acts hacts fun a ha => ?_
    rw [List.mem_singleton.1 ha]
    trivial
  · exact h.same (.enrol hid)

theorem openOn {store : Store} {events : EventTable} (hflaw : settings.flaw = none)
    (hrecorded : SessionRecords.Recorded store.sessions)
    (h : ∀ e ∈ (bucket.contents store.queue).entries,
      e.1.toNat ≤ n ∧ ∃ m : Message, m.Fits ∧ e.2 = Binary.encodeMessage m) :
    Numbered bucket n (openOn settings (.database store) events).2 :=
  (Sound.openOn_induction (I := fun _ b => Numbered bucket n b) (fun _ _ ns hI => hI.same (.report _ ns))
    (fun _ _ _ hb hI _ hu hfree => hI.restored hb hu hfree) hflaw hrecorded ⟨h, nofun⟩).2

theorem step (h : Numbered bucket n b) (hb : Sound b) {op : Op} (hop : op.Configured) (hfit : op.Fits) :
    Numbered bucket (n + if op.takesNumber then 1 else 0) (b.step op) := by
  have hacts {op : Op} (hfit : op.Fits) (hne : ∀ settings orderly, op ≠ .reopen settings orderly) :
      Numbered bucket (n + if op.takesNumber then 1 else 0) (b.step op) :=
    (h.acts (acts_step hb bucket.usable hne) (fits_acts hfit bucket.name)).mono
      (Nat.add_le_add_left (countP_acts b bucket.name op) n)
  cases op with
  | reopen settings orderly =>
    obtain ⟨events, heq⟩ := reopen_eq b settings orderly
    show Numbered bucket n (b.reopen settings orderly).2
    rw [heq]
    cases orderly with
    | false => exact openOn hop hb.recorded h.records
    | true =>
      have hclosed : Numbered bucket n b.close := hacts (show Op.Fits .close from trivial) nofun
      exact openOn hop hb.close.recorded hclosed.records
  | _ => exact hacts hfit nofun

end Numbered

/-- In every run of usable settings and messages no number goes beyond how many were taken. -/
theorem Run.numbered {allowed : Broker → Op → Prop} {ops : List Op} (h : Run allowed (Broker.start settings) ops b)
    (hflaw : settings.flaw = none) (hop : ∀ b op, allowed b op → op.Configured ∧ op.Fits) (bucket : Bucket) :
    Numbered bucket (ops.countP Op.takesNumber) b := by
  induction h with
  | nil => exact Numbered.openOn (n := 0) hflaw SessionRecords.recorded_empty nofun
  | @step ops b op hrun hallowed ih =>
    rw [List.countP_append, List.countP_singleton]
    obtain ⟨hconfigured, hfit⟩ := hop b op hallowed
    exact ih.step (hrun.sound hflaw fun b op ha => (hop b op ha).1) hconfigured hfit

end Broker

end PubSub
