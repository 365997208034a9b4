import PubSub.Proofs.Alone
/-!
# What an acknowledgement does

An acknowledgement names a delivery by its number. The cache turns that into the number of a record, which the
queue would delete whether it was ever handed out or not. In a session that is alone with its bucket the cache
knows just the deliveries that await acknowledgement, so it is the record of one of these that goes, or none
(`acknowledged_alone`). In any session, in what order and how often deliveries are acknowledged makes no
difference (`acknowledge_all_congr`).
-/

namespace PubSub

/-! ## In any order -/

section
variable {α β : Type} {f : β → α → β} {xs ys : List α} {x : α}

theorem foldl_absorb (hcomm : ∀ b x y, f (f b x) y = f (f b y) x) (hidem : ∀ b x, f (f b x) x = f b x) (hx : x ∈ xs)
    (b : β) : xs.foldl f (f b x) = xs.foldl f b := by
  induction xs generalizing b with
  | nil => cases hx
  | cons y xs ih =>
    rw [List.foldl_cons, List.foldl_cons]
    rcases List.mem_cons.1 hx with rfl | hx
    · rw [hidem]
    · rw [hcomm, ih hx]

theorem foldl_foldl_of_subset (hcomm : ∀ b x y, f (f b x) y = f (f b y) x) (hidem : ∀ b x, f (f b x) x = f b x)
    (h : ∀ x ∈ xs, x ∈ ys) (b : β) : ys.foldl f (xs.foldl f b) = ys.foldl f b := by
  induction xs generalizing b with
  | nil => rfl
  | cons x xs ih =>
    rw [List.foldl_cons, ih fun y hy => h y (List.mem_cons_of_mem x hy),
      foldl_absorb hcomm hidem (h x List.mem_cons_self)]

/-- What may be done in any order, and is done when it was done once, depends on what is done only. -/
theorem foldl_eq_of_mem_iff (hcomm : ∀ b x y, f (f b x) y = f (f b y) x) (hidem : ∀ b x, f (f b x) x = f b x)
    (h : ∀ x, x ∈ xs ↔ x ∈ ys) (b : β) : xs.foldl f b = ys.foldl f b :=
  calc xs.foldl f b
    _ = xs.foldl f (ys.foldl f b) := (foldl_foldl_of_subset hcomm hidem (fun x => (h x).2) b).symm
    _ = (ys ++ xs).foldl f b := List.foldl_append.symm
    _ = (xs ++ ys).foldl f b := List.perm_append_comm.foldl_eq' (fun x _ y _ b => hcomm b x y) b
    _ = ys.foldl f (xs.foldl f b) := List.foldl_append
    _ = ys.foldl f b := foldl_foldl_of_subset hcomm hidem (fun x => (h x).1) b

end

theorem OrderedMap.erase_comm {α β : Type} [LT α] [DecidableEq α] [DecidableLT α] [KeyOrder α] (m : OrderedMap α β)
    (j k : α) : (m.erase j).erase k = (m.erase k).erase j := by
  apply OrderedMap.ext_get?
  intro x
  simp only [OrderedMap.get?_erase]
  split <;> split <;> rfl

namespace DurableQueue

/-- Two acknowledgements may be made in either order. -/
theorem ack_comm (q : DurableQueue) (k k₁ k₂ : Keyspace) (s t : UInt64) :
    ((q.ack k s).1.ack k₁ t).1 = ((q.ack k t).1.ack k₂ s).1 := by
  by_cases hst : s = t
  · rw [hst]
    rfl
  · have hmem {x y : UInt64} (hne : x ≠ y) : x ∈ q.inflight.filter (· ≠ y) ↔ x ∈ q.inflight := by
      simp [hne]
    have hfilter (xs : List UInt64) : (xs.filter (· ≠ s)).filter (· ≠ t) = (xs.filter (· ≠ t)).filter (· ≠ s) := by
      rw [List.filter_filter, List.filter_filter]
      exact List.filter_congr fun x _ => Bool.and_comm _ _
    simp only [DurableQueue.ack]
    by_cases hs : s ∈ q.inflight <;> by_cases ht : t ∈ q.inflight <;>
      simp only [hs, ht, hmem hst, hmem (Ne.symm hst), if_true, if_false, hfilter]

end DurableQueue

namespace AckCache

variable {c : AckCache} {id id' : UInt64}

/-- A number is removed once. -/
theorem remove_erase_self (c : AckCache) (id : UInt64) :
    ∃ e, ({ c with entries := c.entries.erase id } : AckCache).remove id = .error e := by
  cases h : ({ c with entries := c.entries.erase id } : AckCache).remove id with
  | error e => exact ⟨e, rfl⟩
  | ok found =>
    have hget := (remove_eq_ok_iff.1 h).2.1
    rw [show ({ c with entries := c.entries.erase id } : AckCache).entries = c.entries.erase id from rfl,
      OrderedMap.get?_erase, if_pos rfl] at hget
    cases hget

/-- A number is found as before when another was removed. -/
theorem remove_erase_other (hne : id ≠ id') (c : AckCache) :
    ({ c with entries := c.entries.erase id' } : AckCache).remove id
      = (c.remove id).map fun found => (found.1, { c with entries := (c.entries.erase id').erase id }) := by
  have hget : (c.entries.erase id').get? id = c.entries.get? id := by rw [OrderedMap.get?_erase, if_neg hne]
  simp only [remove, hget]
  split
  · rfl
  · cases c.entries.get? id <;> rfl

end AckCache

/-- The session and the records after an acknowledgement. -/
def Session.acknowledged (s : Session) (k : Keyspace) (id : UInt64) : Session × Keyspace :=
  match s.acks.remove id with
  | .error _ => (s, k)
  | .ok (seq, acks) => ({ s with durable := (s.durable.ack k seq).1, acks }, s.durable.bucket.delete k seq)

namespace Session

variable {s : Session} {k : Keyspace} {id seq : UInt64} {acks : AckCache}

theorem acknowledged_of_ok (h : s.acks.remove id = .ok (seq, acks)) : s.acknowledged k id
    = ({ s with durable := (s.durable.ack k seq).1, acks }, s.durable.bucket.delete k seq) := by
  rw [acknowledged, h]

theorem acknowledged_of_error {e : AckError} (h : s.acks.remove id = .error e) : s.acknowledged k id = (s, k) := by
  rw [acknowledged, h]

theorem acknowledged_twice (s : Session) (k : Keyspace) (id : UInt64) :
    (s.acknowledged k id).1.acknowledged (s.acknowledged k id).2 id = s.acknowledged k id := by
  cases h : s.acks.remove id with
  | error e => rw [acknowledged_of_error h, acknowledged_of_error h]
  | ok found =>
    rw [acknowledged_of_ok h]
    obtain ⟨-, -, hacks⟩ := AckCache.remove_eq_ok_iff.1 h
    obtain ⟨e, he⟩ := s.acks.remove_erase_self id
    exact acknowledged_of_error (by rw [hacks, he])

theorem acknowledged_comm (s : Session) (k : Keyspace) (id id' : UInt64) :
    (s.acknowledged k id).1.acknowledged (s.acknowledged k id).2 id'
      = (s.acknowledged k id').1.acknowledged (s.acknowledged k id').2 id := by
  by_cases hne : id = id'
  · rw [hne]
  · have hafter {id id' seq : UInt64} {acks : AckCache} (hne : id ≠ id') (h : s.acks.remove id' = .ok (seq, acks)) :
        acks.remove id
          = (s.acks.remove id).map fun found => (found.1, { s.acks with entries := (s.acks.entries.erase id').erase id }) := by
      rw [(AckCache.remove_eq_ok_iff.1 h).2.2, AckCache.remove_erase_other hne]
    cases h : s.acks.remove id with
    | error e =>
      rw [acknowledged_of_error h]
      cases h' : s.acks.remove id' with
      | error e' => rw [acknowledged_of_error h', acknowledged_of_error h]
      | ok found' =>
        rw [acknowledged_of_ok h']
        refine (acknowledged_of_error (e := e) ?_).symm
        rw [hafter hne h', h]
        rfl
    | ok found =>
      rw [acknowledged_of_ok h]
      cases h' : s.acks.remove id' with
      | error e' =>
        rw [acknowledged_of_error h', acknowledged_of_ok h]
        refine acknowledged_of_error (e := e') ?_
        rw [hafter (Ne.symm hne) h, h']
        rfl
      | ok found' =>
        have hid : found'.2.remove id = _ := hafter hne h'
        have hid' : found.2.remove id' = _ := hafter (Ne.symm hne) h
        rw [h] at hid
        rw [h'] at hid'
        have hleft := acknowledged_of_ok (s := { s with durable := (s.durable.ack k found.1).1, acks := found.2 })
          (k := s.durable.bucket.delete k found.1) hid'
        have hright := acknowledged_of_ok (s := { s with durable := (s.durable.ack k found'.1).1, acks := found'.2 })
          (k := s.durable.bucket.delete k found'.1) hid
        have hrecords : s.durable.bucket.delete (s.durable.bucket.delete k found.1) found'.1
            = s.durable.bucket.delete (s.durable.bucket.delete k found'.1) found.1 := OrderedMap.erase_comm k _ _
        rw [acknowledged_of_ok h', hleft, hright]
        dsimp only
        rw [s.durable.ack_comm k _ _ found.1 found'.1, s.durable.ack_bucket, s.durable.ack_bucket, hrecords,
          OrderedMap.erase_comm]

end Session

namespace Broker

variable {b : Broker} {r : SessionRef} {s : Session} {id id' seq : UInt64} {acks : AckCache} {e : AckError}

theorem acknowledge_of_ok (hs : b.session? r = some s) (h : s.acks.remove id = .ok (seq, acks)) : b.acknowledge r id
    = (b.setSession r { s with durable := (s.durable.ack b.store.queue seq).1, acks }).setQueueRecords
        (s.durable.bucket.delete b.store.queue seq) := by
  simp only [acknowledge, hs, h, s.durable.ack_records]

theorem acknowledge_of_error (hs : b.session? r = some s) (h : s.acks.remove id = .error e) :
    b.acknowledge r id = b.report [.ackRefused s.id e] := by
  simp only [acknowledge, hs, h]

theorem acknowledge_absent (hs : b.session? r = none) (id : UInt64) : b.acknowledge r id = b := by
  rw [acknowledge, hs]

/-- The broker without what it reported. -/
def silent (b : Broker) : Broker := { b with journal := [] }

/-- The broker with another state of a session and other records. -/
def placed (b : Broker) (r : SessionRef) (x : Session × Keyspace) : Broker := (b.setSession r x.1).setQueueRecords x.2

theorem placed_self (hs : b.session? r = some s) : b.placed r (s, b.store.queue) = b := by
  rw [placed, setSession_self hs]
  rfl

theorem placed_placed (b : Broker) (r : SessionRef) (x y : Session × Keyspace) :
    (b.placed r x).placed r y = b.placed r y := by
  simp only [placed, setSession, setQueueRecords, List.set_set]

theorem silent_acknowledge (hs : b.session? r = some s) (id : UInt64) :
    (b.acknowledge r id).silent = (b.placed r (s.acknowledged b.store.queue id)).silent := by
  cases h : s.acks.remove id with
  | error e =>
    rw [acknowledge_of_error hs h, s.acknowledged_of_error h, placed_self hs]
    rfl
  | ok found =>
    rw [acknowledge_of_ok hs h, s.acknowledged_of_ok h]
    rfl

/-- Acknowledging depends on nothing that was reported. -/
theorem silent_acknowledge_silent (b : Broker) (r : SessionRef) (id : UInt64) :
    (b.silent.acknowledge r id).silent = (b.acknowledge r id).silent := by
  cases hs : b.session? r with
  | none =>
    have hs' : b.silent.session? r = none := hs
    rw [acknowledge_absent hs, acknowledge_absent hs']
    rfl
  | some s =>
    have hs' : b.silent.session? r = some s := hs
    rw [silent_acknowledge hs, silent_acknowledge hs']
    rfl

/-- Two acknowledgements are two of the session. -/
theorem silent_acknowledge_acknowledge (hs : b.session? r = some s) (id id' : UInt64) :
    ((b.acknowledge r id).acknowledge r id').silent = (b.placed r
      ((s.acknowledged b.store.queue id).1.acknowledged (s.acknowledged b.store.queue id).2 id')).silent := by
  have hs' : (b.placed r (s.acknowledged b.store.queue id)).session? r = some (s.acknowledged b.store.queue id).1 :=
    session?_setSession_self hs
  rw [← silent_acknowledge_silent, silent_acknowledge hs, silent_acknowledge_silent, silent_acknowledge hs', placed_placed]
  rfl

theorem acknowledge_twice (b : Broker) (r : SessionRef) (id : UInt64) :
    ((b.acknowledge r id).acknowledge r id).silent = (b.acknowledge r id).silent := by
  cases hs : b.session? r with
  | none => rw [acknowledge_absent hs, acknowledge_absent hs]
  | some s => rw [silent_acknowledge_acknowledge hs, s.acknowledged_twice, silent_acknowledge hs]

theorem acknowledge_comm (b : Broker) (r : SessionRef) (id id' : UInt64) :
    ((b.acknowledge r id).acknowledge r id').silent = ((b.acknowledge r id').acknowledge r id).silent := by
  cases hs : b.session? r with
  | none =>
    rw [acknowledge_absent hs, acknowledge_absent hs, acknowledge_absent hs]
  | some s => rw [silent_acknowledge_acknowledge hs, s.acknowledged_comm, silent_acknowledge_acknowledge hs]

/-- In what order and how often deliveries are acknowledged makes no difference, in any session. -/
theorem acknowledge_all_congr (b : Broker) (r : SessionRef) {ids ids' : List UInt64} (h : ∀ id, id ∈ ids ↔ id ∈ ids') :
    (ids.foldl (·.acknowledge r ·) b).silent = (ids'.foldl (·.acknowledge r ·) b).silent := by
  have hsilent (ids : List UInt64) (b : Broker) : (ids.foldl (·.acknowledge r ·) b).silent
      = ids.foldl (fun b id => (b.acknowledge r id).silent) b.silent := by
    induction ids generalizing b with
    | nil => rfl
    | cons id ids ih => rw [List.foldl_cons, List.foldl_cons, ih, silent_acknowledge_silent]
  rw [hsilent, hsilent]
  refine foldl_eq_of_mem_iff (fun b id id' => ?_) (fun b id => ?_) h _
  · rw [silent_acknowledge_silent, silent_acknowledge_silent, acknowledge_comm]
  · rw [silent_acknowledge_silent, acknowledge_twice]

deriving instance DecidableEq for Stored

/-! ## What awaits acknowledgement -/

/-- What a session hands out when it is asked next, if anything: the number of the delivery and the record it
comes from. -/
def upcoming (b : Broker) (r : SessionRef) : Option (UInt64 × Stored) :=
  match b.session? r with
  | none => none
  | some s =>
    match (b.nextGuaranteed r).1, (s.durable.pop b.store.queue).1 with
    | .ok (some d), .ok (some record) => some (d.id, ⟨record.id, record.message⟩)
    | _, _ => none

/-- The deliveries of a session that await acknowledgement after an operation: those handed out since they were
last taken back, and not acknowledged. -/
def awaits (b : Broker) (r : SessionRef) (out : List (UInt64 × Stored)) : Op → List (UInt64 × Stored)
  | .call q .nextGuaranteed => if q = r then out ++ (b.upcoming r).toList else out
  | .call q (.acknowledge id) => if q = r then out.filter (·.1 ≠ id) else out
  | .call q .requeue => if q = r then [] else out
  | .disconnect id => if b.registry.get? id = some r then [] else out
  | _ => out

/-- The deliveries of a session that await acknowledgement after some operations. -/
def awaiting (r : SessionRef) (first : Broker) (ops : List Op) : List (UInt64 × Stored) :=
  along (fun b out op => b.awaits r out op) first [] ops

end Broker

/-- What a mail hands out next, if anything. -/
def Mail.upcoming (m : Mail) (k : Keyspace) : Option (UInt64 × Stored) :=
  match (m.next k).1, (m.durable.pop k).1 with
  | .ok (some d), .ok (some record) => some (d.id, ⟨record.id, record.message⟩)
  | _, _ => none

theorem Mail.upcoming_eq_none {m : Mail} {k : Keyspace} (h : ∀ d, (m.next k).1 ≠ .ok (some d)) : m.upcoming k = none := by
  unfold upcoming
  split
  · next d record hd _ => exact absurd hd (h d)
  · rfl

/-- What awaits acknowledgement after a job. -/
def Mail.awaits (m : Mail) (k : Keyspace) (out : List (UInt64 × Stored)) : Option Job → List (UInt64 × Stored)
  | some .next => out ++ (m.upcoming k).toList
  | some (.acknowledge id) => out.filter (·.1 ≠ id)
  | some .requeue => []
  | _ => out

/-- What awaits acknowledgement is what a mail has out. -/
theorem Mirrors.awaits {m : Mail} {k : Keyspace} {out : List (UInt64 × Stored)} {waiting : List Stored}
    (h : Mirrors (m.durable.bucket.contents k) m out waiting) {j : Option Job} (hspare : ∀ i, j = some i → m.Spare k i)
    (hfit : ∀ msg, j = some (.store msg) → msg.Fits) (hopen : ∀ clean, j ≠ some (.close clean)) :
    ∃ waiting, Mirrors ((m.runs k j).1.durable.bucket.contents (m.runs k j).2) (m.runs k j).1 (m.awaits k out j) waiting := by
  cases j with
  | none => exact ⟨waiting, h⟩
  | some j =>
    cases j with
    | store msg => exact ⟨_, h.store (hfit msg rfl) (hspare _ rfl)⟩
    | acknowledge id => exact ⟨waiting, h.acknowledge id⟩
    | requeue => exact ⟨_, h.requeue⟩
    | close clean => exact absurd rfl (hopen clean)
    | next =>
      rw [Mail.awaits]
      show ∃ waiting, Mirrors ((m.next k).2.durable.bucket.contents k) (m.next k).2 _ waiting
      rcases h.next_cases (hspare _ rfl) with hnone | ⟨s, rest, rfl, hpop, hnext, hafter⟩
      · rw [Mail.upcoming_eq_none (by rw [hnone]; nofun), hnone, Option.toList_none, List.append_nil]
        exact ⟨waiting, h⟩
      · rw [Mail.upcoming, hnext, hpop]
        exact ⟨rest, hafter⟩

namespace Broker

variable {first b : Broker} {r : SessionRef} {s s' : Session} {ops : List Op} {op : Op} {out : List (UInt64 × Stored)}
  {bucket : Bucket} {id : UInt64}

theorem upcoming_eq (hs : b.session? r = some s) : b.upcoming r = s.mail.upcoming b.store.queue := by
  rw [upcoming, hs]
  dsimp only
  rw [(nextGuaranteed_spec hs).1]
  rfl

/-- What an operation does to what awaits acknowledgement is what the job does that it asks. -/
theorem Served.awaits (h : Served r b op s s') (out : List (UInt64 × Stored)) :
    b.awaits r out op = s.mail.awaits b.store.queue out (b.asked r s op) := by
  cases op with
  | connect info => rw [h.asked_connect]; rfl
  | disconnect id =>
    rw [h.asked_disconnect, Broker.awaits]
    by_cases hid : id = s.info.id
    · rw [hid, if_pos h.registered, if_pos rfl]
      rfl
    · rw [if_neg fun hr => hid (h.sound.id_of_registered hr h.session).symm, if_neg hid]
      rfl
  | route m =>
    rw [asked]
    split
    · rfl
    · split <;> rfl
  | call q c =>
    rw [asked]
    by_cases hq : q = r
    · subst hq
      rw [if_pos rfl]
      cases c with
      | push m =>
        rw [Session.job?]
        split <;> rfl
      | nextGuaranteed =>
        rw [Broker.awaits, if_pos rfl, upcoming_eq h.session]
        rfl
      | acknowledge id =>
        rw [Broker.awaits, if_pos rfl]
        rfl
      | requeue =>
        rw [Broker.awaits, if_pos rfl]
        rfl
      | _ => rfl
    · rw [if_neg hq]
      cases c with
      | nextGuaranteed | acknowledge | requeue =>
        rw [Broker.awaits, if_neg hq]
        rfl
      | _ => rfl
  | close => exact absurd rfl (h.stays s.info.clean)
  | reopen settings orderly => rfl

/-- The mail of an open session has out what awaits acknowledgement. -/
theorem Run.awaiting (h : Run (Alone r) first ops b) (hmade : Made first r bucket)
    (hn : deliveries r first ops < 2 ^ 64 - 2) (hs : b.session? r = some s) (hopen : s.durable.closed = false) :
    ∃ waiting, Mirrors (s.durable.bucket.contents b.store.queue) s.mail (awaiting r first ops) waiting := by
  obtain ⟨waiting, -, hfirst⟩ := hmade.mirrors
  refine h.alone (fun _ _ hop => hop) (I := fun c m out => ∃ waiting, Mirrors c m out waiting) hmade.inStep (by omega)
    (fun t ht _ => ⟨waiting, hfirst t ht⟩) ?_ hs hopen
  intro b op s s' out _ hserved hout
  obtain ⟨waiting, hm⟩ := hout
  rw [hserved.awaits]
  exact hm.awaits hserved.spare hserved.fits hserved.stays

/-- An open session that alone touched its bucket since it was made, and any delivery number. If a delivery
under that number awaits acknowledgement, acknowledging it deletes the record of its message, forgets the number
and gives back one place of the window; all else is as before. If none does, nothing changes. So no record
changes but that of a delivery under that number, and the state after acknowledging any numbers depends neither
on their order nor on how often each is acknowledged. -/
theorem acknowledged_alone (hmade : Made first r bucket) (hrun : Run (Alone r) first ops b)
    (hdeliveries : deliveries r first ops < 2 ^ 64 - 2) (hs : b.session? r = some s) (hopen : s.durable.closed = false) :
    (∀ id record, (id, record) ∈ awaiting r first ops →
      bucket.read b.store.queue Binary.readMessage record.seq = .ok (some record.message) ∧
      s.acks.entries.get? id = some record.seq ∧
      b.acknowledge r id = (b.setSession r { s with
        durable := { s.durable with inflight := s.durable.inflight.filter (· ≠ record.seq) }
        acks := { s.acks with entries := s.acks.entries.erase id } }).setQueueRecords
          (bucket.delete b.store.queue record.seq) ∧
      (s.durable.inflight.filter (· ≠ record.seq)).length + 1 = s.durable.inflight.length) ∧
    (∀ id, (∀ record, (id, record) ∉ awaiting r first ops) → ∃ ns, b.acknowledge r id = b.report ns) ∧
    (∀ id (c : Bucket) seq, c.get? (b.acknowledge r id).store.queue seq ≠ c.get? b.store.queue seq →
      ∃ record, (id, record) ∈ awaiting r first ops ∧ c = bucket ∧ seq = record.seq) ∧
    (∀ ids ids' : List UInt64, (∀ id, id ∈ ids ↔ id ∈ ids') →
      (ids.foldl (·.acknowledge r ·) b).silent = (ids'.foldl (·.acknowledge r ·) b).silent) := by
  obtain rfl := hrun.bucket_eq hmade hdeliveries hs hopen
  obtain ⟨waiting, hm⟩ := hrun.awaiting hmade hdeliveries hs hopen
  have hgone (id : UInt64) (hid : ∀ record, (id, record) ∉ awaiting r first ops) :
      ∃ ns, b.acknowledge r id = b.report ns := by
    have hout : ∀ o ∈ awaiting r first ops, o.1 ≠ id := fun o ho hoid => hid o.2 (by rw [← hoid]; exact ho)
    obtain ⟨e, he⟩ := hm.remove_of_notMem hout
    exact ⟨_, acknowledge_of_error hs he⟩
  have hinflight {id : UInt64} {record : Stored} (hmem : (id, record) ∈ awaiting r first ops) :
      record.seq ∈ s.durable.inflight := by
    rw [show s.durable.inflight = _ from hm.inflight]
    exact List.mem_map.2 ⟨_, hmem, rfl⟩
  have hfound (id : UInt64) (record : Stored) (hmem : (id, record) ∈ awaiting r first ops) :
      b.acknowledge r id = (b.setSession r { s with
        durable := { s.durable with inflight := s.durable.inflight.filter (· ≠ record.seq) }
        acks := { s.acks with entries := s.acks.entries.erase id } }).setQueueRecords
          (s.durable.bucket.delete b.store.queue record.seq) := by
    rw [acknowledge_of_ok hs (hm.remove_of_mem hmem), DurableQueue.ack, if_pos (hinflight hmem)]
    rfl
  refine ⟨fun id record hmem => ⟨?_, ?_, hfound id record hmem, ?_⟩, hgone, fun id c seq hne => ?_,
    fun ids ids' h => acknowledge_all_congr b r h⟩
  · refine Mirrors.read_of_mem ?_ (hm.legible record (List.mem_append_left _ (List.mem_map.2 ⟨_, hmem, rfl⟩)))
    rw [hm.records]
    exact List.mem_map.2 ⟨record, List.mem_append_left _ (List.mem_map.2 ⟨_, hmem, rfl⟩), rfl⟩
  · exact (AckCache.remove_eq_ok_iff.1 (hm.remove_of_mem hmem)).2.1
  · have hnodup : s.durable.inflight.Nodup := by
      have hasc := List.pairwise_map.2 (List.pairwise_append.1 hm.ascending).1
      rw [List.map_map] at hasc
      exact (show s.durable.inflight = _ from hm.inflight) ▸ hasc.imp UInt64.ne_of_lt
    have hfilter : s.durable.inflight.filter (· ≠ record.seq) = s.durable.inflight.erase record.seq := by
      rw [hnodup.erase_eq_filter]
      exact List.filter_congr fun x _ => by rw [Bool.eq_iff_iff]; simp
    have hpos := List.length_pos_of_mem (hinflight hmem)
    rw [hfilter, List.length_erase_of_mem (hinflight hmem)]
    omega
  · by_cases hid : ∃ record, (id, record) ∈ awaiting r first ops
    · obtain ⟨record, hmem⟩ := hid
      refine ⟨record, hmem, ?_⟩
      rw [hfound id record hmem, ← Bucket.get?_contents, ← Bucket.get?_contents] at hne
      have hc : c = s.durable.bucket := by
        by_contra hc
        exact hne (congrArg (OrderedMap.get? · seq)
          (Bucket.contents_delete_other (fun hname => hc (Bucket.eq_of_name _ hname)) b.store.queue record.seq))
      refine ⟨hc, by_contra fun hseq => hne ?_⟩
      rw [hc]
      show ((s.durable.bucket.contents (s.durable.bucket.delete b.store.queue record.seq)).get? seq) = _
      rw [Bucket.contents_delete, OrderedMap.get?_erase, if_neg hseq]
    · obtain ⟨ns, heq⟩ := hgone id fun record hmem => hid ⟨record, hmem⟩
      rw [heq] at hne
      exact absurd rfl hne

/-- A window of two, three messages: the first is acknowledged, and the second handed out again under another
number. That number strikes its record, its old number strikes none, and the third message still waits. -/
theorem acknowledged_after_redelivery :
    let m (n : UInt8) : Message := { topic := "t", payload := [n], qos := .atLeastOnce }
    let first := (start { maxGuaranteed := 2 }).step (.connect { id := "c" })
    let ops : List Op := [.call 0 (.subscribe [⟨"t", .atLeastOnce⟩] none), .route (m 1), .call 0 (.push (m 2)), .route (m 3),
      .call 0 .nextGuaranteed, .call 0 .nextGuaranteed, .call 0 (.acknowledge 2), .disconnect "c", .call 0 .nextGuaranteed]
    let b := ops.foldl step first
    let bucket : Bucket := ⟨"c", by decide⟩
    awaiting 0 first ops = [(4, ⟨2, m 2⟩)] ∧ bucket.sequences b.store.queue = [2, 3] ∧
      bucket.sequences (b.acknowledge 0 4).store.queue = [3] ∧
      bucket.read b.store.queue Binary.readMessage 2 = .ok (some (m 2)) ∧
      (∃ ns, b.acknowledge 0 3 = b.report ns) ∧
      ([4, 3, 4].foldl (·.acknowledge 0 ·) b).silent = ([3, 4].foldl (·.acknowledge 0 ·) b).silent := by
  intro m first ops b bucket
  have hmade : Made first 0 bucket :=
    .of_connect (b := start { maxGuaranteed := 2 }) ⟨{ maxGuaranteed := 2 }, [], by decide, .nil⟩ (by decide +kernel) rfl
      (by rw [show bucket.sequences (start { maxGuaranteed := 2 }).store.queue = [] by decide +kernel]; nofun)
  have hrun : Run (Alone 0) first ops b := run_of_permits (by decide +kernel)
  have hawaiting : awaiting 0 first ops = [(4, ⟨2, m 2⟩)] := by decide +kernel
  let s := (b.session? 0).get (by decide +kernel)
  have hs : b.session? 0 = some s := (Option.some_get _).symm
  obtain ⟨hfound, hgone, -, hany⟩ := acknowledged_alone hmade hrun (by decide +kernel) hs (by decide +kernel)
  obtain ⟨hread, -, -, -⟩ := hfound 4 ⟨2, m 2⟩ (by rw [hawaiting]; exact List.mem_cons_self)
  refine ⟨hawaiting, by decide +kernel, by decide +kernel, hread, hgone 3 fun record hmem => ?_, hany _ _ fun id => ?_⟩
  · rw [hawaiting] at hmem
    simp at hmem
  · exact List.mem_cons.trans (or_iff_right_of_imp fun h => by rw [h]; decide)

end Broker

end PubSub
