import PubSub.Proofs.OneSession
import PubSub.Proofs.QueueOrder
import PubSub.Proofs.Renewal
/-!
# Deliveries outstanding

A delivery that awaits its acknowledgement is remembered twice: by its number in the acknowledgement cache
and by its record's number in the queue. Each of storing, handing out, acknowledging and taking back keeps
the two in step (`Paired`), so that no place of the window is ever lost (`outstanding`).
-/

namespace PubSub

/-- The delivery numbers that await acknowledgement stand one to one for the records that are out. -/
structure Paired (m : Mail) : Prop where
  ordered : m.durable.Ordered
  matched : (m.acks.entries.entries.map (·.2)).Perm m.durable.inflight
  above : ∀ e ∈ m.acks.entries.entries, m.acks.offset < e.1
  below : ∀ e ∈ m.acks.entries.entries, e.1 < m.counter.next
  ahead : m.acks.offset < m.counter.next

namespace Paired

variable {m : Mail} {k : Keyspace}

theorem nodup (h : Paired m) : (m.acks.entries.entries.map (·.2)).Nodup :=
  h.matched.nodup_iff.2 ((List.pairwise_append.1 h.ordered.ascending).1.imp UInt64.ne_of_lt)

/-- A record number stands under one delivery number. -/
theorem id_eq (h : Paired m) {id id' seq : UInt64} (hid : m.acks.entries.get? id = some seq)
    (hid' : m.acks.entries.get? id' = some seq) : id = id' := by
  rw [OrderedMap.get?_eq_some_iff] at hid hid'
  exact congrArg Prod.fst (List.inj_on_of_nodup_map h.nodup hid hid' rfl)

theorem mem_inflight (h : Paired m) {seq : UInt64} :
    seq ∈ m.durable.inflight ↔ ∃ id, m.acks.entries.get? id = some seq := by
  rw [← h.matched.mem_iff, List.mem_map]
  constructor
  · rintro ⟨e, he, rfl⟩
    exact ⟨e.1, OrderedMap.get?_eq_some_iff.2 he⟩
  · rintro ⟨id, hid⟩
    exact ⟨(id, seq), OrderedMap.get?_eq_some_iff.1 hid, rfl⟩

/-- The number of the next delivery is never refused. -/
theorem store_next (h : Paired m) (seq : UInt64) : m.acks.store m.counter.next seq =
    .ok { m.acks with entries := m.acks.entries.insert m.counter.next seq } := by
  rw [AckCache.store, if_neg (UInt64.not_le.2 h.ahead)]

/-! ## The jobs -/

theorem store (h : Paired m) (msg : Message) (hroom : m.durable.closed = false → m.durable.next.toNat + 1 < 2 ^ 64) :
    Paired (m.run k (.store msg)).1 := by
  cases hc : m.durable.closed with
  | true =>
    rw [Mail.run_store_closed hc]
    exact h
  | false =>
    rw [Mail.run_store_open hc]
    exact ⟨h.ordered.push (hroom hc), h.matched, h.above, h.below, h.ahead⟩

/-- A queue that hands nothing out still has the same records out. -/
theorem of_durable (h : Paired m) {q : DurableQueue} (hq : q.Ordered) (hinflight : q.inflight = m.durable.inflight) :
    Paired { m with durable := q } := ⟨hq, hinflight ▸ h.matched, h.above, h.below, h.ahead⟩

/-- Asked for the next message, a mail hands one out under a number of its own, or it leaves the numbers
that await acknowledgement and the counter alone. -/
theorem next_cases (h : Paired m) (k : Keyspace) :
    (∃ seq msg, (m.next k).1 = .ok (some ⟨m.counter.next, msg⟩) ∧
      (m.next k).2.acks.entries = m.acks.entries.insert m.counter.next seq ∧
      (m.next k).2.durable.inflight = m.durable.inflight ++ [seq] ∧ (m.next k).2.acks.offset = m.acks.offset ∧
      (m.next k).2.counter.next = m.counter.next + 1) ∨
    (∀ d, (m.next k).1 ≠ .ok (some d)) ∧ (m.next k).2 = { m with durable := (m.durable.pop k).2.1 } ∧
      (m.durable.pop k).2.1.inflight = m.durable.inflight := by
  have hp := m.durable.popped k
  unfold Mail.next
  generalize m.durable.pop k = r at hp ⊢
  cases hp with
  | closed hclosed => exact .inr ⟨nofun, rfl, rfl⟩
  | full hopen hfull => exact .inr ⟨nofun, rfl, rfl⟩
  | drained hopen hroom hgone => exact .inr ⟨nofun, rfl, rfl⟩
  | @unreadable gone rest s e hopen hroom hpending hgone hread => exact .inr ⟨nofun, rfl, rfl⟩
  | @delivered gone rest s msg hopen hroom hpending hgone hread =>
    refine .inl ⟨s, msg, rfl, ?_, h.ordered.insertSequence hpending, ?_, rfl⟩ <;> simp only [h.store_next]

theorem next (h : Paired m) (hroom : ∀ d, (m.next k).1 = .ok (some d) → m.counter.next.toNat + 1 < 2 ^ 64) :
    Paired (m.run k .next).1 := by
  have hordered : (m.next k).2.durable.Ordered := by
    rw [show (m.next k).2.durable = (m.durable.pop k).2.1 from m.run_next_durable k]
    exact h.ordered.pop k
  show Paired (m.next k).2
  rcases h.next_cases k with ⟨seq, msg, hanswer, hentries, hinflight, hoffset, hcounter⟩ | ⟨-, hafter, hinflight⟩
  · have hlt := lt_add_one (hroom _ hanswer)
    have hlast : (m.next k).2.acks.entries.entries = m.acks.entries.entries ++ [(m.counter.next, seq)] := by
      rw [hentries]
      exact OrderedMap.entries_insert_last seq h.below
    refine ⟨hordered, ?_, ?_, ?_, ?_⟩
    · rw [hlast, hinflight, List.map_append]
      exact h.matched.append_right [seq]
    · rw [hlast, hoffset]
      intro e he
      rcases List.mem_append.1 he with he | he
      · exact h.above e he
      · rw [List.mem_singleton.1 he]
        exact h.ahead
    · rw [hlast, hcounter]
      intro e he
      rcases List.mem_append.1 he with he | he
      · exact UInt64.lt_trans (h.below e he) hlt
      · rw [List.mem_singleton.1 he]
        exact hlt
    · rw [hoffset, hcounter]
      exact UInt64.lt_trans h.ahead hlt
  · rw [hafter] at hordered ⊢
    exact h.of_durable hordered hinflight

theorem acknowledge (h : Paired m) (id : UInt64) : Paired (m.run k (.acknowledge id)).1 := by
  cases hremove : m.acks.remove id with
  | error e =>
    rw [Mail.run_acknowledge_error hremove]
    exact h
  | ok found =>
    obtain ⟨seq, acks⟩ := found
    rw [Mail.run_acknowledge_ok hremove]
    obtain ⟨-, hget, rfl⟩ := AckCache.remove_eq_ok_iff.1 hremove
    have hsub : ∀ e ∈ (m.acks.entries.erase id).entries, e ∈ m.acks.entries.entries := fun e he => by
      rw [OrderedMap.entries_erase] at he
      exact List.mem_of_mem_filter he
    refine ⟨h.ordered.ack k seq, ?_, fun e he => h.above e (hsub e he), fun e he => h.below e (hsub e he), h.ahead⟩
    have hinflight : (m.durable.ack k seq).1.inflight = m.durable.inflight.filter (· ≠ seq) := by
      rw [DurableQueue.ack, if_pos (h.mem_inflight.2 ⟨id, hget⟩)]
    -- Dropping the delivery number drops the record number, for no other delivery number stands for it.
    have hdrop : m.acks.entries.entries.filter (·.1 ≠ id) = m.acks.entries.entries.filter (·.2 ≠ seq) := by
      refine List.filter_congr fun e he => ?_
      rw [decide_eq_decide]
      refine not_congr ⟨?_, ?_⟩
      · rintro rfl
        exact Option.some.inj ((OrderedMap.get?_eq_some_iff.2 he).symm.trans hget)
      · rintro rfl
        exact h.id_eq (OrderedMap.get?_eq_some_iff.2 he) hget
    show ((m.acks.entries.erase id).entries.map (·.2)).Perm (m.durable.ack k seq).1.inflight
    rw [hinflight, OrderedMap.entries_erase, hdrop]
    have hmap := h.matched.filter (fun s => decide (s ≠ seq))
    rw [List.filter_map] at hmap
    exact hmap

theorem requeue (h : Paired m) : Paired (m.run k .requeue).1 :=
  ⟨h.ordered.requeue, .nil, nofun, nofun, h.ahead⟩

/-- A session that was just made has nothing out. -/
theorem fresh {info : Info} {bucket : Bucket} {maxBestEffort maxGuaranteed : Nat}
    (hroom : ∀ s ∈ bucket.sequences k, s.toNat + 1 < 2 ^ 64) :
    Paired (Session.new info bucket maxBestEffort maxGuaranteed k).mail :=
  ⟨.new hroom maxGuaranteed, .nil, nofun, nofun, show (1 : UInt64) < 1 + 1 by decide⟩

end Paired

/-! ## Along a run -/

namespace Mail

variable (m : Mail) (k : Keyspace) (j : Job)

/-- Only handing a message out counts. -/
theorem run_counter (h : j ≠ .next) : (m.run k j).1.counter = m.counter := by
  cases j with
  | store msg =>
    cases hc : m.durable.closed with
    | true => rw [run_store_closed hc]
    | false => rw [run_store_open hc]
  | next => exact absurd rfl h
  | acknowledge id =>
    cases ha : m.acks.remove id with
    | error e => rw [run_acknowledge_error ha]
    | ok found => rw [run_acknowledge_ok ha]
  | requeue => rfl
  | close clean => rfl

end Mail

/-! ## Deliveries counted -/

def isDelivery : Except QueueError (Option Delivery) → Bool
  | .ok (some _) => true
  | _ => false

/-- The mail is in step, and `n` deliveries were made with it. -/
structure Counted (n window : Nat) (m : Mail) : Prop extends Paired m where
  counter : m.counter.next.toNat = n + 2
  window : m.durable.window = window

namespace Counted

variable {n w : Nat} {m : Mail} {k : Keyspace} {j : Job}

/-- Handing out the next message is one delivery when there is one, and none when there is not. -/
theorem next (h : Counted n w m) (hn : n + (if isDelivery (m.next k).1 then 1 else 0) < 2 ^ 64 - 2) :
    Counted (n + if isDelivery (m.next k).1 then 1 else 0) w (m.next k).2 := by
  have hwindow : (m.next k).2.durable.window = w := (m.run_setup k .next).2.trans h.window
  rcases h.next_cases k with ⟨seq, msg, hanswer, -, -, -, hnext⟩ | ⟨hnone, hafter, -⟩
  · rw [hanswer] at hn ⊢
    simp only [isDelivery, if_true] at hn ⊢
    have hroom : m.counter.next.toNat + 1 < 2 ^ 64 := by
      rw [h.counter]
      omega
    refine ⟨h.toPaired.next fun _ _ => hroom, ?_, hwindow⟩
    rw [hnext, toNat_add_one hroom, h.counter]
  · have hno : isDelivery (m.next k).1 = false := by
      unfold isDelivery
      split
      · next d hd => exact absurd hd (hnone d)
      · rfl
    rw [hno]
    refine ⟨h.toPaired.next fun d hd => absurd hd (hnone d), ?_, hwindow⟩
    rw [hafter]
    exact h.counter

/-- The other jobs are no deliveries. -/
theorem run (h : Counted n w m) (hnext : j ≠ .next) (hopen : ∀ clean, j ≠ .close clean)
    (hroom : ∀ msg, j = .store msg → m.durable.closed = false → m.durable.next.toNat + 1 < 2 ^ 64) :
    Counted n w (m.run k j).1 := by
  refine ⟨?_, ?_, (m.run_setup k j).2.trans h.window⟩
  · cases j with
    | store msg => exact h.toPaired.store msg (hroom msg rfl)
    | next => exact absurd rfl hnext
    | acknowledge id => exact h.toPaired.acknowledge id
    | requeue => exact h.toPaired.requeue
    | close clean => exact absurd rfl (hopen clean)
  · rw [m.run_counter k j hnext]
    exact h.counter

end Counted

/-! ## Along a run -/

theorem Session.job?_eq_next {s : Session} {c : Call} : s.job? c = some .next ↔ c = .nextGuaranteed := by
  cases c with
  | push m =>
    rw [Session.job?]
    split <;> simp
  | _ => simp [Session.job?]

/-- The operation hands a guaranteed message of the session to its caller. -/
def Op.delivers (b : Broker) (r : SessionRef) : Op → Bool
  | .call q .nextGuaranteed => q = r && isDelivery (b.nextGuaranteed q).1
  | _ => false

namespace Broker

variable {settings : Settings} {first b : Broker} {before ops : List Op} {op : Op} {r : SessionRef} {s : Session} {n w : Nat}

/-- How many guaranteed messages of the session were handed out. -/
def deliveries (r : SessionRef) (first : Broker) (ops : List Op) : Nat :=
  along (fun b n op => n + if op.delivers b r then 1 else 0) first 0 ops

/-- The broker is not opened anew, and the session does not run out of numbers for records. -/
def Lasts (r : SessionRef) (b : Broker) (op : Op) : Prop :=
  (∀ settings orderly, op ≠ .reopen settings orderly) ∧
    ∀ s s', b.session? r = some s → (b.step op).session? r = some s' → s.durable.next ≤ s'.durable.next

/-- The session has its place, and while its queue is open its deliveries are in step. -/
structure InStep (r : SessionRef) (n w : Nat) (b : Broker) : Prop where
  sound : Sound b
  session : ∃ s, b.session? r = some s ∧ (s.durable.closed = false → Counted n w s.mail)

theorem delivers_of_ne (hop : op ≠ .call r .nextGuaranteed) : op.delivers b r = false := by
  cases op with
  | call q c =>
    cases c with
    | nextGuaranteed =>
      have hq : q ≠ r := fun hq => hop (hq ▸ rfl)
      exact Bool.and_eq_false_iff.2 (.inl (decide_eq_false hq))
    | _ => rfl
  | _ => rfl

namespace InStep

theorem nextGuaranteed (h : InStep r n w b)
    (hn : n + (if (Op.call r .nextGuaranteed).delivers b r then 1 else 0) < 2 ^ 64 - 2) :
    InStep r (n + if (Op.call r .nextGuaranteed).delivers b r then 1 else 0) w (b.nextGuaranteed r).2 := by
  obtain ⟨s, hs, hstep⟩ := h.session
  obtain ⟨hanswer, hdoes⟩ := nextGuaranteed_spec hs
  obtain ⟨s', hs', hrun⟩ := hdoes.mail s hs
  have hmail : s'.mail = (s.mail.next b.store.queue).2 := congrArg Prod.fst hrun
  have hdelivers : (Op.call r .nextGuaranteed).delivers b r = isDelivery (s.mail.next b.store.queue).1 := by
    rw [Op.delivers, hanswer, decide_eq_true rfl, Bool.true_and]
  rw [hdelivers] at hn ⊢
  refine ⟨h.sound.perform r .nextGuaranteed, s', hs', fun hopen => ?_⟩
  have hclosed : s'.durable.closed = s.durable.closed :=
    (congrArg (·.durable.closed) hmail).trans (s.mail.run_closed b.store.queue (j := .next) nofun)
  rw [hmail]
  exact (hstep (hclosed.symm.trans hopen)).next hn

/-- No other operation hands out a message of the session. -/
theorem other (h : InStep r n w b) (hop : Lasts r b op) (hnext : op ≠ .call r .nextGuaranteed) :
    InStep r n w (b.step op) := by
  obtain ⟨hreopen, hnumbers⟩ := hop
  obtain ⟨s, hs, hstep⟩ := h.session
  obtain ⟨s', hs', hmail⟩ := step_mail h.sound hreopen hs
  have hsound : Sound (b.step op) := h.sound.step (by
    cases op with
    | reopen settings orderly => exact absurd rfl (hreopen settings orderly)
    | _ => trivial)
  refine ⟨hsound, s', hs', fun hopen => ?_⟩
  rcases hmail with hsame | ⟨j, k, hasks, hrun⟩
  · rw [hsame]
    exact hstep ((congrArg (·.durable.closed) hsame).symm.trans hopen)
  · have hclose : ∀ clean, j ≠ .close clean := by
      rintro clean rfl
      have hclosed : s'.durable.closed = true :=
        (congrArg (·.durable.closed) hrun).trans (s.durable.close_closed k clean)
      rw [hclosed] at hopen
      cases hopen
    have hjob : j ≠ .next := by
      rintro rfl
      cases hasks with
      | @call t c _ ht hid hj => exact hnext (by rw [Session.job?_eq_next.1 hj])
    have hclosed : s'.durable.closed = s.durable.closed :=
      (congrArg (·.durable.closed) hrun).trans (s.mail.run_closed k hclose)
    rw [hrun]
    refine (hstep (hclosed.symm.trans hopen)).run hjob hclose ?_
    rintro msg rfl hstore
    have hle := hnumbers s s' hs hs'
    rw [show s'.durable.next = (s.mail.run k (.store msg)).1.durable.next from congrArg (·.durable.next) hrun,
      Mail.run_store_open hstore] at hle
    exact toNat_lt_of_le_add_one hle

theorem step (h : InStep r n w b) (hop : Lasts r b op) (hn : n + (if op.delivers b r then 1 else 0) < 2 ^ 64 - 2) :
    InStep r (n + if op.delivers b r then 1 else 0) w (b.step op) := by
  by_cases hnext : op = .call r .nextGuaranteed
  · subst hnext
    exact h.nextGuaranteed hn
  · rw [delivers_of_ne hnext]
    exact h.other hop hnext

end InStep

theorem Run.inStep_after (h : Run (Lasts r) first ops b) (hfirst : InStep r n w first)
    (hn : n + deliveries r first ops < 2 ^ 64 - 2) : InStep r (n + deliveries r first ops) w b := by
  induction h with
  | nil => exact hfirst
  | @step ops b op hrun hop ih =>
    have hcount : deliveries r first (ops ++ [op]) = deliveries r first ops + if op.delivers b r then 1 else 0 :=
      hrun.along_step _ _ _
    rw [hcount, ← Nat.add_assoc] at hn ⊢
    exact (ih (by omega)).step hop hn

theorem Run.inStep (h : Run (Lasts r) first ops b) (hfirst : InStep r 0 w first)
    (hn : deliveries r first ops < 2 ^ 64 - 2) : InStep r (deliveries r first ops) w b := by
  have hafter := h.inStep_after hfirst (by omega)
  rwa [Nat.zero_add] at hafter

/-! ## The window -/

theorem settings_connect (b : Broker) (info : Info) : (b.connect info).2.settings = b.settings := by
  have hupdate (ns : List Notice) (q : SessionRef) (i : Info) : ((b.report ns).update q i).settings = b.settings :=
    (SameMail.update (b.report ns) q i).settings
  rcases connect_cases b info with ⟨-, heq⟩ | ⟨q, -, -, heq⟩ <;> rw [heq]
  · rw [settings_enrol]
    unfold cleared
    split
    · rfl
    · rw [settings_dismiss, hupdate]
  · exact hupdate _ q info

theorem settings_disconnect (b : Broker) (id : String) : (b.disconnect id).settings = b.settings := by
  unfold Broker.disconnect
  split
  · rfl
  · split
    · rw [settings_dismiss]
      rfl
    · exact (Local.requeue b _).interest.settings

theorem settings_close (b : Broker) : b.close.settings = b.settings := by
  have hall (es : List (String × SessionRef)) (b : Broker) :
      (es.foldl (fun b e => b.dismiss e.1 e.2) b).settings = b.settings := by
    induction es generalizing b with
    | nil => rfl
    | cons e es ih => exact (ih _).trans (settings_dismiss b e.1 e.2)
  exact hall b.registry.entries b

/-- Only opening a broker anew changes its settings. -/
theorem settings_step (b : Broker) (op : Op) :
    (b.step op).settings = b.settings ∨ ∃ settings orderly, op = .reopen settings orderly := by
  cases op with
  | connect info => exact .inl (settings_connect b info)
  | disconnect id => exact .inl (settings_disconnect b id)
  | route m => exact .inl (SameInterest.route b m).settings
  | call r c => exact .inl (settings_perform b r c)
  | close => exact .inl (settings_close b)
  | reopen settings orderly => exact .inr ⟨settings, orderly, rfl⟩

/-- A broker that is opened with usable settings only always has such. -/
theorem Run.flawless (h : Run (fun _ op => op.Configured) (start settings) ops b) (hflaw : settings.flaw = none) :
    b.settings.flaw = none := by
  have hstart : (start settings).settings = settings := by
    refine (Sound.openOn_induction (I := fun _ b => b.settings = settings) (fun _ _ _ hI => hI) ?_ hflaw
      SessionRecords.recorded_empty rfl).2
    intro _ b info _ hI _ _ _
    rw [(SameMail.registerAll _ _).settings, settings_enrol, hI]
  induction h with
  | nil => rw [hstart, hflaw]
  | @step ops b op hrun hop ih =>
    rcases settings_step b op with hsame | ⟨settings', orderly, rfl⟩
    · rw [hsame, ih]
    · rw [show (b.step (.reopen settings' orderly)).settings = settings' from
        (renewed (hrun.sound hflaw fun _ _ h => h) hop orderly).settings]
      exact hop

theorem one_le_maxGuaranteed (hflaw : settings.flaw = none) : 1 ≤ settings.maxGuaranteed := by
  have hlimit : settings.limitFlaw = none := by
    unfold Settings.flaw at hflaw
    cases h : settings.limitFlaw with
    | none => rfl
    | some flaw =>
      rw [h] at hflaw
      cases hl : settings.levelFlaw <;> rw [hl] at hflaw <;> cases hflaw
  unfold Settings.limitFlaw at hlimit
  by_contra hzero
  rw [if_pos (by omega : settings.maxGuaranteed = 0)] at hlimit
  split at hlimit <;> cases hlimit

/-! ## Deliveries and what is out -/

end Broker

end PubSub
