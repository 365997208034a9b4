import PubSub.Proofs.Jobs
/-!
# The ledger of a client

What has become of each guaranteed message a client's queue took: it waits, it is out under a delivery
number, or it is settled by an acknowledgement of that number. The ledger knows nothing of sequence
numbers, records or caches. `Agrees.run` shows that a session's mail does: whatever is asked of it, the
records of its bucket, its pending and in-flight sequence numbers and its acknowledgement cache hold just
what the ledger has not settled, in the order in which it was taken.
-/

namespace PubSub

/-- What has become of a message. -/
inductive Fate where
  | waiting
  | out (id : UInt64)
  | settled
  deriving DecidableEq

/-- Every message taken, oldest first. -/
abbrev Ledger := List (Message × Fate)

namespace Ledger

def accept (l : Ledger) (m : Message) : Ledger := l ++ [(m, .waiting)]

/-- The oldest waiting message equal to the one delivered goes out. -/
def deliver (d : Delivery) : Ledger → Ledger
  | [] => []
  | e :: l => if e = (d.message, .waiting) then (d.message, .out d.id) :: l else e :: deliver d l

/-- Settles the message that is out under a number, if there is one. -/
def acknowledge (l : Ledger) (id : UInt64) : Ledger :=
  l.map fun e => if e.2 = .out id then (e.1, .settled) else e

/-- What is out waits again. -/
def recover (l : Ledger) : Ledger := l.map fun e => if e.2 = .settled then e else (e.1, .waiting)

/-- The entries that are not settled. -/
def live (l : Ledger) : Ledger := l.filter (·.2 ≠ .settled)

/-- The messages that are not settled, in the order in which they were taken. -/
def owed (l : Ledger) : List Message := l.live.map (·.1)

theorem live_accept (l : Ledger) (m : Message) : (l.accept m).live = l.live ++ [(m, .waiting)] := by
  simp [live, accept]

theorem live_cons (e : Message × Fate) (l : Ledger) :
    live (e :: l) = if e.2 = .settled then l.live else e :: l.live := by
  by_cases h : e.2 = .settled <;> simp [live, h]

theorem live_acknowledge (l : Ledger) (id : UInt64) : (l.acknowledge id).live = l.live.filter (·.2 ≠ .out id) := by
  induction l with
  | nil => rfl
  | cons e l ih =>
    have hcons : acknowledge (e :: l) id = (if e.2 = .out id then (e.1, .settled) else e) :: acknowledge l id := rfl
    rw [hcons, live_cons, live_cons, ih]
    by_cases hf : e.2 = .out id
    · simp [hf]
    · by_cases hs : e.2 = .settled <;> simp [hf, hs]

theorem live_recover (l : Ledger) : l.recover.live = l.live.map fun e => (e.1, .waiting) := by
  induction l with
  | nil => rfl
  | cons e l ih =>
    have hcons : recover (e :: l) = (if e.2 = .settled then e else (e.1, .waiting)) :: recover l := rfl
    rw [hcons, live_cons, live_cons, ih]
    by_cases hs : e.2 = .settled <;> simp [hs]

theorem owed_recover (l : Ledger) : l.recover.owed = l.owed := by
  rw [owed, live_recover, List.map_map]
  rfl

/-- A delivery takes the first of the live entries that waits. -/
theorem live_deliver {l : Ledger} {d : Delivery} {before after : Ledger} (hbefore : ∀ e ∈ before, e.2 ≠ .waiting)
    (h : l.live = before ++ (d.message, .waiting) :: after) :
    (deliver d l).live = before ++ (d.message, .out d.id) :: after := by
  induction l generalizing before with
  | nil => simp [live] at h
  | cons e l ih =>
    rw [live_cons] at h
    rw [deliver]
    by_cases hs : e.2 = .settled
    · rw [if_pos hs] at h
      rw [if_neg (fun he => by simp [he] at hs), live_cons, if_pos hs]
      exact ih hbefore h
    · -- A live entry is either one of those before or the first that waits.
      rw [if_neg hs] at h
      cases before with
      | nil =>
        obtain ⟨heq, rfl⟩ := List.cons.inj h
        rw [if_pos heq, live_cons, if_neg (by simp)]
        rfl
      | cons e' before =>
        obtain ⟨rfl, hrest⟩ := List.cons.inj h
        have hne : e.2 ≠ .waiting := hbefore e List.mem_cons_self
        rw [if_neg (fun he => by simp [he] at hne), live_cons, if_neg hs,
          ih (fun e he => hbefore e (List.mem_cons_of_mem _ he)) hrest]
        rfl

end Ledger

/-! ## What the mail holds -/

/-- A message with the number it is stored under. -/
structure Stored where
  seq : UInt64
  message : Message

/-- The mail holds just these messages: those that are out, with their delivery numbers, before those that wait. -/
structure Mirrors (c : OrderedMap UInt64 Bytes) (m : Mail) (out : List (UInt64 × Stored)) (waiting : List Stored) :
    Prop where
  opened : m.durable.closed = false
  window : 1 ≤ m.durable.window
  records : c.entries = (out.map (·.2) ++ waiting).map fun s => (s.seq, Binary.encodeMessage s.message)
  legible : ∀ s ∈ out.map (·.2) ++ waiting, s.message.Fits
  inflight : m.durable.inflight = out.map (·.2.seq)
  pending : m.durable.pending = waiting.map (·.seq)
  acks : m.acks.entries.entries = out.map fun o => (o.1, o.2.seq)
  next : ∀ s ∈ out.map (·.2) ++ waiting, s.seq < m.durable.next
  ids : ∀ o ∈ out, o.1 < m.counter.next
  offset : ∀ o ∈ out, m.acks.offset < o.1
  ahead : m.acks.offset < m.counter.next

/-- The ledger entries of messages that are out and of messages that wait. -/
def Ledger.entriesOf (out : List (UInt64 × Stored)) (waiting : List Stored) : Ledger :=
  out.map (fun o => (o.2.message, .out o.1)) ++ waiting.map fun s => (s.message, .waiting)

/-- The mail and the records of its bucket hold what the ledger says. -/
def Agrees (c : OrderedMap UInt64 Bytes) (m : Mail) (l : Ledger) : Prop :=
  ∃ out waiting, Mirrors c m out waiting ∧ l.live = Ledger.entriesOf out waiting

/-- There are numbers left for another message and another delivery. -/
def Mail.Room (m : Mail) : Prop := m.durable.next.toNat + 1 < 2 ^ 64 ∧ m.counter.next.toNat + 1 < 2 ^ 64

/-- There is a number left for what a job stores or hands out. -/
def Mail.Spare (m : Mail) (k : Keyspace) : Job → Prop
  | .store _ => m.durable.next.toNat + 1 < 2 ^ 64
  | .next => (∃ d, (m.next k).1 = .ok (some d)) → m.counter.next.toNat + 1 < 2 ^ 64
  | _ => True

theorem Mail.Spare.of_room {m : Mail} {k : Keyspace} {j : Job} (h : j.takesNumber = true → m.Room) : m.Spare k j := by
  cases j with
  | store msg => exact (h rfl).1
  | next => exact fun _ => (h rfl).2
  | acknowledge | requeue | close => trivial

namespace Mirrors

variable {k : Keyspace} {m : Mail} {out : List (UInt64 × Stored)} {waiting : List Stored}

/-- The sequence numbers of what is held ascend. -/
theorem ascending {c : OrderedMap UInt64 Bytes} (h : Mirrors c m out waiting) :
    (out.map (·.2) ++ waiting).Pairwise (fun s t => s.seq < t.seq) := by
  have hasc := c.ascending
  rw [h.records, List.pairwise_map] at hasc
  exact hasc

/-! ## Taking a message -/

theorem store (h : Mirrors (m.durable.bucket.contents k) m out waiting) {msg : Message} (hfit : msg.Fits)
    (hroom : m.durable.next.toNat + 1 < 2 ^ 64) :
    Mirrors ((m.run k (.store msg)).1.durable.bucket.contents (m.run k (.store msg)).2) (m.run k (.store msg)).1 out
      (waiting ++ [⟨m.durable.next, msg⟩]) := by
  have hafter := lt_add_one hroom
  -- The counter is past all that is held, and has room to go one further.
  have hnext : ∀ s ∈ out.map (·.2) ++ (waiting ++ [⟨m.durable.next, msg⟩]), s.seq < m.durable.next + 1 := by
    intro s hs
    rw [← List.append_assoc] at hs
    rcases List.mem_append.1 hs with hs | hs
    · exact UInt64.lt_trans (h.next s hs) hafter
    · rw [List.mem_singleton.1 hs]
      exact hafter
  rw [Mail.run_store_open h.opened]
  refine ⟨h.opened, h.window, ?_, ?_, h.inflight, ?_, h.acks, hnext, h.ids, h.offset, h.ahead⟩
  · rw [Bucket.contents_put, OrderedMap.entries_insert_last, h.records]
    · simp
    · intro e he
      rw [h.records] at he
      obtain ⟨s, hs, rfl⟩ := List.mem_map.1 he
      exact h.next s hs
  · intro s hs
    rw [← List.append_assoc] at hs
    rcases List.mem_append.1 hs with hs | hs
    · exact h.legible s hs
    · rw [List.mem_singleton.1 hs]
      exact hfit
  · simp [h.pending]

/-! ## Handing one out -/

theorem read_of_mem {b : Bucket} {s : Stored} (h : (s.seq, Binary.encodeMessage s.message) ∈ (b.contents k).entries)
    (hfit : s.message.Fits) : b.read k Binary.readMessage s.seq = .ok (some s.message) := by
  have hget : b.get? k s.seq = some (Binary.encodeMessage s.message) := by
    rw [← Bucket.get?_contents]
    exact OrderedMap.get?_eq_some_iff.2 h
  rw [Bucket.read, hget]
  simp only [Binary.decode_encodeMessage hfit]

/-- While the window is full nothing is handed out. -/
theorem next_full (h : Mirrors (m.durable.bucket.contents k) m out waiting) (hfull : m.durable.window ≤ out.length) :
    m.next k = (.ok none, m) := by
  have hpop := DurableQueue.pop_full (k := k) h.opened (by rw [h.inflight, List.length_map]; exact hfull)
  rw [Mail.next, hpop]

/-- Nothing is handed out when nothing waits. -/
theorem next_nil (h : Mirrors (m.durable.bucket.contents k) m out []) : m.next k = (.ok none, m) := by
  by_cases hfull : m.durable.window ≤ out.length
  · exact h.next_full hfull
  · have hpop := DurableQueue.pop_nil (k := k) h.opened (by rw [h.inflight, List.length_map]; omega) h.pending
    rw [Mail.next, hpop]

/-- The queue hands out the first message that waits. -/
theorem pop_cons {s : Stored} (h : Mirrors (m.durable.bucket.contents k) m out (s :: waiting))
    (hfull : ¬ m.durable.window ≤ out.length) : m.durable.pop k = (.ok (some ⟨s.seq, s.message⟩),
      { m.durable with pending := waiting.map (·.seq), inflight := out.map (·.2.seq) ++ [s.seq] }, []) := by
  have hs : s ∈ out.map (·.2) ++ s :: waiting := List.mem_append_right _ List.mem_cons_self
  have hread : m.durable.bucket.read k Binary.readMessage s.seq = .ok (some s.message) := by
    refine read_of_mem ?_ (h.legible s hs)
    rw [h.records]
    exact List.mem_map.2 ⟨s, hs, rfl⟩
  -- What is out was stored before what waits, so its place among the numbers that are out is the last.
  have hinsert : DurableQueue.insertSequence s.seq m.durable.inflight = out.map (·.2.seq) ++ [s.seq] := by
    rw [h.inflight]
    refine DurableQueue.insertSequence_last fun x hx => ?_
    obtain ⟨o, ho, rfl⟩ := List.mem_map.1 hx
    exact (List.pairwise_append.1 h.ascending).2.2 o.2 (List.mem_map.2 ⟨o, ho, rfl⟩) s List.mem_cons_self
  rw [DurableQueue.pop_cons h.opened (by rw [h.inflight, List.length_map]; omega) h.pending hread, hinsert]

/-- It goes out under the counter's number. -/
theorem next_cons {s : Stored} (h : Mirrors (m.durable.bucket.contents k) m out (s :: waiting))
    (hfull : ¬ m.durable.window ≤ out.length) : (m.next k).1 = .ok (some ⟨m.counter.next, s.message⟩) := by
  rw [Mail.next, h.pop_cons hfull]

theorem after_next {s : Stored} (h : Mirrors (m.durable.bucket.contents k) m out (s :: waiting))
    (hroom : m.counter.next.toNat + 1 < 2 ^ 64) (hfull : ¬ m.durable.window ≤ out.length) :
    Mirrors ((m.next k).2.durable.bucket.contents k) (m.next k).2 (out ++ [(m.counter.next, s)]) waiting := by
  have hall : (out ++ [(m.counter.next, s)]).map (·.2) ++ waiting = out.map (·.2) ++ s :: waiting := by simp
  -- The counter is always past the offset, so its number is never refused.
  have hacks : m.acks.store m.counter.next s.seq
      = .ok { m.acks with entries := m.acks.entries.insert m.counter.next s.seq } := by
    rw [AckCache.store, if_neg (UInt64.not_le.2 h.ahead)]
  have hafter := lt_add_one hroom
  simp only [Mail.next, h.pop_cons hfull, hacks]
  refine ⟨h.opened, h.window, ?_, ?_, by simp, rfl, ?_, ?_, ?_, ?_, UInt64.lt_trans h.ahead hafter⟩
  · rw [hall]
    exact h.records
  · rw [hall]
    exact h.legible
  · rw [OrderedMap.entries_insert_last, h.acks, List.map_append]
    · rfl
    · intro e he
      rw [h.acks] at he
      obtain ⟨o, ho, rfl⟩ := List.mem_map.1 he
      exact h.ids o ho
  · rw [hall]
    exact h.next
  · intro o ho
    rcases List.mem_append.1 ho with ho | ho
    · exact UInt64.lt_trans (h.ids o ho) hafter
    · rw [List.mem_singleton.1 ho]
      exact hafter
  · intro o ho
    rcases List.mem_append.1 ho with ho | ho
    · exact h.offset o ho
    · rw [List.mem_singleton.1 ho]
      exact h.ahead

/-- What is asked for next: the first message that waits, if the window is not full. -/
theorem next_answer (h : Mirrors (m.durable.bucket.contents k) m out waiting) : (m.next k).1 = .ok
    (if out.length < m.durable.window then waiting.head?.map fun s => ⟨m.counter.next, s.message⟩ else none) := by
  by_cases hfull : m.durable.window ≤ out.length
  · rw [h.next_full hfull, if_neg (Nat.not_lt.2 hfull)]
  · rw [if_pos (Nat.not_le.1 hfull)]
    cases waiting with
    | nil => rw [h.next_nil]; rfl
    | cons s waiting => exact h.next_cons hfull

/-- Nothing is handed out and all is as before, or the first message that waits goes out. -/
theorem next_cases (h : Mirrors (m.durable.bucket.contents k) m out waiting) (hspare : m.Spare k .next) :
    m.next k = (.ok none, m) ∨ ∃ s rest, waiting = s :: rest ∧ (m.durable.pop k).1 = .ok (some ⟨s.seq, s.message⟩) ∧
      (m.next k).1 = .ok (some ⟨m.counter.next, s.message⟩) ∧
      Mirrors ((m.next k).2.durable.bucket.contents k) (m.next k).2 (out ++ [(m.counter.next, s)]) rest := by
  by_cases hfull : m.durable.window ≤ out.length
  · exact .inl (h.next_full hfull)
  · cases waiting with
    | nil => exact .inl h.next_nil
    | cons s rest =>
      have hnext := h.next_cons hfull
      exact .inr ⟨s, rest, rfl, by rw [h.pop_cons hfull], hnext, h.after_next (hspare ⟨_, hnext⟩) hfull⟩

/-! ## Acknowledging -/

theorem remove_of_mem {c : OrderedMap UInt64 Bytes} (h : Mirrors c m out waiting) {o : UInt64 × Stored} (ho : o ∈ out) :
    m.acks.remove o.1 = .ok (o.2.seq, { m.acks with entries := m.acks.entries.erase o.1 }) := by
  have hget : m.acks.entries.get? o.1 = some o.2.seq := by
    rw [OrderedMap.get?_eq_some_iff, h.acks]
    exact List.mem_map.2 ⟨o, ho, rfl⟩
  exact AckCache.remove_eq_ok_iff.2 ⟨h.offset o ho, hget, rfl⟩

theorem remove_of_notMem {c : OrderedMap UInt64 Bytes} (h : Mirrors c m out waiting) {id : UInt64}
    (hid : ∀ o ∈ out, o.1 ≠ id) :
    ∃ e, m.acks.remove id = .error e := by
  cases hremove : m.acks.remove id with
  | error e => exact ⟨e, rfl⟩
  | ok found =>
    obtain ⟨-, hget, -⟩ := AckCache.remove_eq_ok_iff.1 hremove
    rw [OrderedMap.get?_eq_some_iff, h.acks] at hget
    obtain ⟨o, ho, heq⟩ := List.mem_map.1 hget
    exact absurd (congrArg Prod.fst heq) (hid o ho)

theorem eq_or_of_pairwise {α : Type} {R : α → α → Prop} {xs : List α} (h : xs.Pairwise R) {x y : α}
    (hx : x ∈ xs) (hy : y ∈ xs) : x = y ∨ R x y ∨ R y x := by
  induction xs with
  | nil => cases hx
  | cons z xs ih =>
    obtain ⟨hz, hxs⟩ := List.pairwise_cons.1 h
    rcases List.mem_cons.1 hx with rfl | hx'
    · exact (List.mem_cons.1 hy).imp Eq.symm fun hy' => .inl (hz y hy')
    · rcases List.mem_cons.1 hy with rfl | hy'
      · exact .inr (.inr (hz x hx'))
      · exact ih hxs hx' hy'

/-- Delivery numbers and sequence numbers of what is out tell it apart alike. -/
theorem seq_eq_iff {c : OrderedMap UInt64 Bytes} (h : Mirrors c m out waiting) {o o' : UInt64 × Stored}
    (ho : o ∈ out) (ho' : o' ∈ out) : o'.2.seq = o.2.seq ↔ o'.1 = o.1 := by
  have hids := m.acks.entries.ascending
  rw [h.acks, List.pairwise_map] at hids
  have hseqs := List.pairwise_map.1 (List.pairwise_append.1 h.ascending).1
  rcases eq_or_of_pairwise (hids.and hseqs) ho' ho with rfl | ⟨hid, hseq⟩ | ⟨hid, hseq⟩
  · exact ⟨fun _ => rfl, fun _ => rfl⟩
  · exact ⟨fun he => absurd he (UInt64.ne_of_lt hseq), fun he => absurd he (UInt64.ne_of_lt hid)⟩
  · exact ⟨fun he => absurd he.symm (UInt64.ne_of_lt hseq), fun he => absurd he.symm (UInt64.ne_of_lt hid)⟩

theorem acknowledge (h : Mirrors (m.durable.bucket.contents k) m out waiting) (id : UInt64) :
    Mirrors ((m.run k (.acknowledge id)).1.durable.bucket.contents (m.run k (.acknowledge id)).2)
      (m.run k (.acknowledge id)).1 (out.filter (·.1 ≠ id)) waiting := by
  by_cases hid : ∃ o ∈ out, o.1 = id
  · obtain ⟨o, ho, rfl⟩ := hid
    have hinflight : o.2.seq ∈ m.durable.inflight := by
      rw [h.inflight]
      exact List.mem_map.2 ⟨o, ho, rfl⟩
    have hack : m.durable.ack k o.2.seq = ({ m.durable with
        inflight := m.durable.inflight.filter (· ≠ o.2.seq) }, m.durable.bucket.delete k o.2.seq) := by
      rw [DurableQueue.ack, if_pos hinflight]
    -- Dropping by sequence number is dropping by delivery number.
    have hdrop : out.filter (fun x => decide (x.2.seq ≠ o.2.seq)) = out.filter (fun x => decide (x.1 ≠ o.1)) := by
      refine List.filter_congr fun x hx => ?_
      rw [decide_eq_decide]
      exact not_congr (h.seq_eq_iff ho hx)
    -- Nothing that waits is stored under the number of what is out.
    have hwaiting : waiting.filter (fun s => decide (s.seq ≠ o.2.seq)) = waiting := by
      refine List.filter_eq_self.2 fun s hs => ?_
      have hlt := (List.pairwise_append.1 h.ascending).2.2 o.2 (List.mem_map.2 ⟨o, ho, rfl⟩) s hs
      exact decide_eq_true (Ne.symm (UInt64.ne_of_lt hlt))
    have hsub : ∀ s ∈ (out.filter (·.1 ≠ o.1)).map (·.2) ++ waiting, s ∈ out.map (·.2) ++ waiting := by
      intro s hs
      rcases List.mem_append.1 hs with hs | hs
      · obtain ⟨x, hx, rfl⟩ := List.mem_map.1 hs
        exact List.mem_append_left _ (List.mem_map.2 ⟨x, (List.mem_filter.1 hx).1, rfl⟩)
      · exact List.mem_append_right _ hs
    simp only [Mail.run, h.remove_of_mem ho, hack]
    refine ⟨h.opened, h.window, ?_, fun s hs => h.legible s (hsub s hs), ?_, h.pending, ?_, fun s hs => h.next s (hsub s hs),
      fun x hx => h.ids x (List.mem_filter.1 hx).1, fun x hx => h.offset x (List.mem_filter.1 hx).1, h.ahead⟩
    · rw [Bucket.contents_delete, OrderedMap.entries_erase, h.records, List.filter_map, List.filter_append,
        List.filter_map]
      show ((out.filter fun x => decide (x.2.seq ≠ o.2.seq)).map (·.2)
        ++ waiting.filter fun s => decide (s.seq ≠ o.2.seq)).map _ = _
      rw [hdrop, hwaiting]
    · show m.durable.inflight.filter (· ≠ o.2.seq) = _
      rw [h.inflight, List.filter_map]
      exact congrArg (List.map _) hdrop
    · show (m.acks.entries.erase o.1).entries = _
      rw [OrderedMap.entries_erase, h.acks, List.filter_map]
      rfl
  · have hall : out.filter (·.1 ≠ id) = out :=
      List.filter_eq_self.2 fun o ho => decide_eq_true fun he => hid ⟨o, ho, he⟩
    obtain ⟨e, he⟩ := h.remove_of_notMem fun o ho hoid => hid ⟨o, ho, hoid⟩
    rw [hall]
    simp only [Mail.run, he]
    exact h

/-- What is out is before what waits, so taking it back keeps the order. -/
theorem requeue (h : Mirrors (m.durable.bucket.contents k) m out waiting) :
    Mirrors ((m.run k .requeue).1.durable.bucket.contents k) (m.run k .requeue).1 [] (out.map (·.2) ++ waiting) where
  opened := h.opened
  window := h.window
  records := h.records
  legible := h.legible
  inflight := rfl
  pending := by
    show m.durable.inflight ++ m.durable.pending = _
    rw [h.inflight, h.pending, List.map_append, List.map_map]
    rfl
  acks := rfl
  next := h.next
  ids o ho := absurd ho List.not_mem_nil
  offset o ho := absurd ho List.not_mem_nil
  ahead := h.ahead

/-! ## A fresh session -/

/-- A session made over a bucket holds all its records as waiting. -/
theorem fresh (info : Info) (bucket : Bucket) (maxBestEffort maxGuaranteed : Nat) (k : Keyspace)
    (hrecords : (bucket.contents k).entries = waiting.map fun s => (s.seq, Binary.encodeMessage s.message))
    (hfit : ∀ s ∈ waiting, s.message.Fits) (hroom : ∀ s ∈ waiting, s.seq.toNat + 1 < 2 ^ 64) :
    Mirrors (bucket.contents k) (Session.new info bucket maxBestEffort maxGuaranteed k).mail [] waiting := by
  have hpending : bucket.sequences k = waiting.map (·.seq) := by
    rw [Bucket.sequences_eq, OrderedMap.keys, hrecords, List.map_map]
    rfl
  refine ⟨rfl, Nat.le_max_right _ _, hrecords, hfit, rfl, hpending, rfl, ?_, fun o ho => absurd ho List.not_mem_nil,
    fun o ho => absurd ho List.not_mem_nil, show (1 : UInt64) < 1 + 1 by decide⟩
  -- The next number is one past the last record, so the last record must not have the last number.
  have hlast : ∀ t ∈ bucket.sequences k, t.toNat + 1 < 2 ^ 64 := by
    rw [hpending]
    exact List.forall_mem_map.2 hroom
  intro s hs
  exact DurableQueue.lt_next_new hlast maxGuaranteed s.seq (hpending ▸ List.mem_map.2 ⟨s, hs, rfl⟩)

end Mirrors

/-! ## The ledger is right -/

namespace Ledger

/-- The ledger after a job was done with a mail. -/
def afterJob (l : Ledger) (m : Mail) (k : Keyspace) : Job → Ledger
  | .store msg => l.accept msg
  | .next =>
    match (m.next k).1 with
    | .ok (some d) => l.deliver d
    | _ => l
  | .acknowledge id => l.acknowledge id
  | .requeue => l.recover
  | .close _ => l.recover

variable {l : Ledger} {out : List (UInt64 × Stored)} {waiting : List Stored}

theorem owed_of_live (h : l.live = entriesOf out waiting) : l.owed = (out.map (·.2) ++ waiting).map (·.message) := by
  simp [owed, h, entriesOf, Function.comp_def]

/-- Nothing is out when all is taken back. -/
theorem none_out (h : l.recover.live = entriesOf out waiting) :
    out = [] := by
  cases out with
  | nil => rfl
  | cons o out =>
    rw [live_recover] at h
    have hhead : (o.2.message, Fate.out o.1) ∈ l.live.map fun e => (e.1, Fate.waiting) := by
      rw [h]
      exact List.mem_cons_self
    obtain ⟨e, -, he⟩ := List.mem_map.1 hhead
    cases congrArg Prod.snd he

end Ledger

/-- What a job makes of an open mail, the ledger makes of itself. -/
theorem Agrees.run {k : Keyspace} {m : Mail} {l : Ledger} (h : Agrees (m.durable.bucket.contents k) m l) {j : Job}
    (hfit : ∀ msg, j = .store msg → msg.Fits) (hroom : m.Spare k j) (hopen : ∀ clean, j ≠ .close clean) :
    Agrees ((m.run k j).1.durable.bucket.contents (m.run k j).2) (m.run k j).1 (l.afterJob m k j) := by
  obtain ⟨out, waiting, hm, hl⟩ := h
  cases j with
  | store msg =>
    refine ⟨out, waiting ++ [⟨m.durable.next, msg⟩], hm.store (hfit msg rfl) hroom, ?_⟩
    simp [Ledger.afterJob, Ledger.live_accept, hl, Ledger.entriesOf]
  | next =>
    have hrun : m.run k .next = ((m.next k).2, k) := rfl
    rw [hrun, Ledger.afterJob]
    -- The ledger moves only where something is handed out.
    rcases hm.next_cases hroom with hnone | ⟨s, rest, rfl, -, hresult, hafter⟩
    · rw [hnone]
      exact ⟨out, waiting, hm, hl⟩
    · rw [hresult]
      refine ⟨_, _, hafter, ?_⟩
      have hout : ∀ e ∈ out.map (fun o : UInt64 × Stored => (o.2.message, Fate.out o.1)), e.2 ≠ .waiting := by
        intro e he
        obtain ⟨o, -, rfl⟩ := List.mem_map.1 he
        exact nofun
      rw [Ledger.live_deliver hout hl]
      simp [Ledger.entriesOf]
  | acknowledge id =>
    refine ⟨_, _, hm.acknowledge id, ?_⟩
    rw [Ledger.afterJob, Ledger.live_acknowledge, hl, Ledger.entriesOf, List.filter_append, List.filter_map,
      List.filter_map, Ledger.entriesOf]
    have hout : out.filter ((fun e : Message × Fate => decide (e.2 ≠ .out id)) ∘ fun o => (o.2.message, .out o.1))
        = out.filter (·.1 ≠ id) := by
      refine List.filter_congr fun o _ => ?_
      simp
    have hwaiting : waiting.filter ((fun e : Message × Fate => decide (e.2 ≠ .out id)) ∘ fun s => (s.message, .waiting))
        = waiting := List.filter_eq_self.2 fun s _ => by simp
    rw [hout, hwaiting]
  | requeue =>
    refine ⟨_, _, hm.requeue, ?_⟩
    rw [Ledger.afterJob, Ledger.live_recover, hl]
    simp [Ledger.entriesOf, Function.comp_def]
  | close clean => exact absurd rfl (hopen clean)

end PubSub
