import PubSub.Proofs.Bucket
import PubSub.Queue.Durable
/-!
# What a durable queue does

Storing a message succeeds or fails as the store answers (`push_eq_ok_iff`, `push_eq_error_iff`). Asking a queue
for the next message has five outcomes (`Popped`), from which everything else about `pop` follows; the other calls
are short enough to be read off.
-/

namespace PubSub

theorem toNat_add_one {n : UInt64} (h : n.toNat + 1 < 2 ^ 64) : (n + 1).toNat = n.toNat + 1 := by
  rw [UInt64.toNat_add]
  exact Nat.mod_eq_of_lt h

theorem lt_add_one {n : UInt64} (h : n.toNat + 1 < 2 ^ 64) : n < n + 1 := by
  rw [UInt64.lt_iff_toNat_lt, toNat_add_one h]
  exact Nat.lt_succ_self _

/-- Only the last number is not below the one after it. -/
theorem toNat_lt_of_le_add_one {n : UInt64} (h : n ≤ n + 1) : n.toNat + 1 < 2 ^ 64 := by
  rw [UInt64.le_iff_toNat_le, UInt64.toNat_add] at h
  have hone : (1 : UInt64).toNat = 1 := rfl
  have hlt := n.toNat_lt
  omega

theorem toNat_add_one_le (n : UInt64) : (n + 1).toNat ≤ n.toNat + 1 := by
  rw [UInt64.toNat_add]
  exact Nat.mod_le _ _

namespace DurableQueue

variable (q : DurableQueue) (k : Keyspace)

/-! ## Storing -/

section
variable {q k} {m : Message} {answer : WriteAnswer}

/-- A message is stored when the queue is open and the store writes its record. -/
theorem push_eq_ok_iff {stored : DurableQueue × Keyspace} : q.push k m answer = .ok stored ↔
    q.closed = false ∧ answer.failure? = none ∧ stored =
      ({ q with next := q.next + 1, pending := q.pending ++ [q.next] },
        q.bucket.put k q.next (Binary.encodeMessage m)) := by
  unfold push
  cases q.closed <;> cases answer.failure? <;> simp [eq_comm]

theorem push_eq_error_iff {err : QueueError} : q.push k m answer = .error err ↔
    q.closed = true ∧ err = q.closedError ∨ q.closed = false ∧ ∃ e, answer.failure? = some e ∧ err = .store e := by
  unfold push
  cases q.closed <;> cases answer.failure? <;> simp [eq_comm]

theorem push_open (h : q.closed = false) (m : Message) : q.push k m = .ok
    ({ q with next := q.next + 1, pending := q.pending ++ [q.next] }, q.bucket.put k q.next (Binary.encodeMessage m)) :=
  push_eq_ok_iff.2 ⟨h, rfl, rfl⟩

theorem push_closed (h : q.closed = true) (m : Message) (answer : WriteAnswer) :
    q.push k m answer = .error q.closedError := push_eq_error_iff.2 (.inl ⟨h, rfl⟩)

end

/-! ## Asking for the next message -/

/-- The numbers passed over have no records, and the search ends at the first that has one or that the store
refuses to read. -/
theorem firstStored_cases (b : Bucket) (refused : UInt64 → Option String) (pending : List UInt64) :
    ((∀ s ∈ pending, b.read k Binary.readMessage s (refused s) = .ok none) ∧
      firstStored b k refused pending = (none, [], pending)) ∨
    ∃ gone s rest, pending = gone ++ s :: rest ∧ (∀ g ∈ gone, b.read k Binary.readMessage g (refused g) = .ok none) ∧
      ((∃ m, b.read k Binary.readMessage s (refused s) = .ok (some m) ∧
          firstStored b k refused pending = (some (s, .ok m), rest, gone)) ∨
       (∃ e, b.read k Binary.readMessage s (refused s) = .error e ∧
          firstStored b k refused pending = (some (s, .error e), s :: rest, gone))) := by
  induction pending with
  | nil => exact .inl ⟨nofun, rfl⟩
  | cons x xs ih =>
    rw [firstStored]
    split
    · next hread =>
      rcases ih with ⟨hgone, hfound⟩ | ⟨gone, s, rest, hxs, hgone, hstop⟩
      · exact .inl ⟨List.forall_mem_cons.2 ⟨hread, hgone⟩, by rw [hfound]⟩
      · refine .inr ⟨x :: gone, s, rest, by rw [hxs]; rfl, List.forall_mem_cons.2 ⟨hread, hgone⟩, ?_⟩
        rcases hstop with ⟨m, hm, hfound⟩ | ⟨e, he, hfound⟩
        · exact .inl ⟨m, hm, by rw [hfound]⟩
        · exact .inr ⟨e, he, by rw [hfound]⟩
    · next m hread => exact .inr ⟨[], x, xs, rfl, nofun, .inl ⟨m, hread, rfl⟩⟩
    · next e hread => exact .inr ⟨[], x, xs, rfl, nofun, .inr ⟨e, hread, rfl⟩⟩

/-- What becomes of a queue that is asked for its next message while the store refuses to read some records,
with the answer and the notices. -/
inductive Popped (refused : UInt64 → Option String) :
    Except QueueError (Option Delivery) × DurableQueue × List Notice → Prop
  | closed (h : q.closed = true) : Popped refused (.error q.closedError, q, [])
  | full (hopen : q.closed = false) (hfull : q.window ≤ q.inflight.length) : Popped refused (.ok none, q, [])
  /-- No pending number has a record. -/
  | drained (hopen : q.closed = false) (hroom : q.inflight.length < q.window)
      (hgone : ∀ s ∈ q.pending, q.bucket.read k Binary.readMessage s (refused s) = .ok none) :
      Popped refused (.ok none, { q with pending := [] }, q.pending.map (.recordVanished q.bucket.name))
  | delivered {gone rest : List UInt64} {s : UInt64} {m : Message} (hopen : q.closed = false)
      (hroom : q.inflight.length < q.window) (hpending : q.pending = gone ++ s :: rest)
      (hgone : ∀ g ∈ gone, q.bucket.read k Binary.readMessage g (refused g) = .ok none)
      (hread : q.bucket.read k Binary.readMessage s (refused s) = .ok (some m)) :
      Popped refused (.ok (some ⟨s, m⟩), { q with pending := rest, inflight := insertSequence s q.inflight },
        gone.map (.recordVanished q.bucket.name))
  /-- A record that cannot be read is not passed over. -/
  | unreadable {gone rest : List UInt64} {s : UInt64} {e : StoreError} (hopen : q.closed = false)
      (hroom : q.inflight.length < q.window) (hpending : q.pending = gone ++ s :: rest)
      (hgone : ∀ g ∈ gone, q.bucket.read k Binary.readMessage g (refused g) = .ok none)
      (hread : q.bucket.read k Binary.readMessage s (refused s) = .error e) :
      Popped refused (.error (.store e), { q with pending := s :: rest }, gone.map (.recordVanished q.bucket.name))

theorem popped_refused (refused : UInt64 → Option String) : Popped q k refused (q.pop k refused) := by
  unfold pop
  split
  · next h => exact .closed h
  · next hopen =>
    have hopen := Bool.not_eq_true _ ▸ hopen
    split
    · next hfull => exact .full hopen hfull
    · next hroom =>
      have hroom := Nat.not_le.1 hroom
      rcases firstStored_cases k q.bucket refused q.pending with ⟨hgone, hfound⟩ | ⟨gone, s, rest, hpending, hgone, hstop⟩
      · rw [hfound]
        exact .drained hopen hroom hgone
      · rcases hstop with ⟨m, hread, hfound⟩ | ⟨e, hread, hfound⟩ <;> rw [hfound]
        · exact .delivered hopen hroom hpending hgone hread
        · exact .unreadable hopen hroom hpending hgone hread

theorem popped : Popped q k (fun _ => none) (q.pop k) := q.popped_refused k _

/-- A pop moves numbers about and changes nothing else. -/
theorem pop_moves : ∃ pending inflight, (q.pop k).2.1 = { q with pending, inflight } := by
  have h := q.popped k
  generalize q.pop k = r at h ⊢
  cases h <;> exact ⟨_, _, rfl⟩

theorem pop_bucket : (q.pop k).2.1.bucket = q.bucket := by
  obtain ⟨pending, inflight, h⟩ := q.pop_moves k
  rw [h]

theorem pop_closed : (q.pop k).2.1.closed = q.closed := by
  obtain ⟨pending, inflight, h⟩ := q.pop_moves k
  rw [h]

theorem pop_next : (q.pop k).2.1.next = q.next := by
  obtain ⟨pending, inflight, h⟩ := q.pop_moves k
  rw [h]

theorem pop_window : (q.pop k).2.1.window = q.window := by
  obtain ⟨pending, inflight, h⟩ := q.pop_moves k
  rw [h]

theorem read_of_pop {q : DurableQueue} {k : Keyspace} {d : Delivery} (hd : (q.pop k).1 = .ok (some d)) :
    q.bucket.read k Binary.readMessage d.id = .ok (some d.message) := by
  have h := q.popped k
  generalize q.pop k = r at h hd
  cases h with
  | delivered _ _ _ _ hread =>
    obtain rfl := Option.some.inj (Except.ok.inj hd)
    exact hread
  | _ => cases hd

section
variable {q k} {s : UInt64} {rest : List UInt64}

theorem pop_full (hopen : q.closed = false) (hfull : q.window ≤ q.inflight.length) : q.pop k = (.ok none, q, []) := by
  rw [pop, if_neg (by rw [hopen]; exact Bool.false_ne_true), if_pos hfull]

theorem pop_nil (hopen : q.closed = false) (hroom : q.inflight.length < q.window) (hpending : q.pending = []) :
    q.pop k = (.ok none, q, []) := by
  rw [pop, if_neg (by rw [hopen]; exact Bool.false_ne_true), if_neg (Nat.not_le.2 hroom), hpending]
  simp only [firstStored, List.map_nil]
  rw [← hpending]

theorem pop_cons {m : Message} (hopen : q.closed = false) (hroom : q.inflight.length < q.window)
    (hpending : q.pending = s :: rest) (hread : q.bucket.read k Binary.readMessage s = .ok (some m)) :
    q.pop k = (.ok (some ⟨s, m⟩), { q with pending := rest, inflight := insertSequence s q.inflight }, []) := by
  rw [pop, if_neg (by rw [hopen]; exact Bool.false_ne_true), if_neg (Nat.not_le.2 hroom), hpending]
  simp only [firstStored, hread, List.map_nil]

theorem pop_cons_unreadable {e : StoreError} (hopen : q.closed = false) (hroom : q.inflight.length < q.window)
    (hpending : q.pending = s :: rest) (hread : q.bucket.read k Binary.readMessage s = .error e) :
    q.pop k = (.error (.store e), q, []) := by
  rw [pop, if_neg (by rw [hopen]; exact Bool.false_ne_true), if_neg (Nat.not_le.2 hroom), hpending]
  simp only [firstStored, hread, List.map_nil]
  rw [← hpending]

end

/-! ## Acknowledging and closing -/

theorem ack_moves (seq : UInt64) : ∃ pending inflight, (q.ack k seq).1 = { q with pending, inflight } := by
  unfold ack
  split <;> exact ⟨_, _, rfl⟩

theorem ack_bucket (seq : UInt64) : (q.ack k seq).1.bucket = q.bucket := by
  obtain ⟨pending, inflight, h⟩ := q.ack_moves k seq
  rw [h]

theorem ack_closed (seq : UInt64) : (q.ack k seq).1.closed = q.closed := by
  obtain ⟨pending, inflight, h⟩ := q.ack_moves k seq
  rw [h]

theorem ack_next (seq : UInt64) : (q.ack k seq).1.next = q.next := by
  obtain ⟨pending, inflight, h⟩ := q.ack_moves k seq
  rw [h]

theorem ack_window (seq : UInt64) : (q.ack k seq).1.window = q.window := by
  obtain ⟨pending, inflight, h⟩ := q.ack_moves k seq
  rw [h]

theorem ack_records (seq : UInt64) : (q.ack k seq).2 = q.bucket.delete k seq := by
  unfold ack
  split <;> rfl

theorem close_bucket (clean : Bool) : (q.close k clean).1.bucket = q.bucket := by
  unfold close
  split
  · rfl
  · split <;> rfl

theorem close_window (clean : Bool) : (q.close k clean).1.window = q.window := by
  unfold close
  split
  · rfl
  · split <;> rfl

theorem close_next (clean : Bool) : (q.close k clean).1.next = q.next := by
  unfold close
  split
  · rfl
  · split <;> rfl

theorem close_closed (clean : Bool) : (q.close k clean).1.closed = true := by
  unfold close
  split
  · assumption
  · split <;> rfl

theorem close_records {q : DurableQueue} (h : q.closed = false) (k : Keyspace) : (q.close k true).2.1 = (q.bucket.clear k).2 := by
  simp [close, h]

theorem contents_close_other {c : Bucket} {q : DurableQueue} (h : c.name ≠ q.bucket.name) (k : Keyspace) (clean : Bool) :
    c.contents (q.close k clean).2.1 = c.contents k := by
  unfold close
  split
  · rfl
  · split
    · exact Bucket.contents_clear_other h k
    · rfl

/-! ## Numbers in order -/

theorem insertSequence_last {s : UInt64} {xs : List UInt64} (h : ∀ x ∈ xs, x < s) :
    insertSequence s xs = xs ++ [s] := by
  induction xs with
  | nil => rfl
  | cons x xs ih =>
    have hx := h x List.mem_cons_self
    rw [insertSequence, if_neg (UInt64.lt_asymm hx), if_neg (Ne.symm (UInt64.ne_of_lt hx)),
      ih fun y hy => h y (List.mem_cons_of_mem x hy)]
    rfl

/-- The first number of a queue is one past the last of its bucket, unless that is the last there is. -/
theorem lt_next_new {bucket : Bucket} {k : Keyspace} (hroom : ∀ s ∈ bucket.sequences k, s.toNat + 1 < 2 ^ 64)
    (window : Nat) : ∀ s ∈ bucket.sequences k, s < (new bucket window k).next := by
  intro s hs
  show s < ((bucket.sequences k).getLast?.map (· + 1)).getD 1
  have hascending := bucket.sequences_ascending k
  rcases List.eq_nil_or_concat (bucket.sequences k) with hnil | ⟨init, last, hlast⟩
  · rw [hnil] at hs
    cases hs
  · rw [List.concat_eq_append] at hlast
    have hlt : last < last + 1 := lt_add_one (hroom last (hlast ▸ List.mem_append_right _ List.mem_cons_self))
    rw [hlast] at hs hascending ⊢
    rw [List.getLast?_concat]
    rcases List.mem_append.1 hs with hinit | hend
    · exact UInt64.lt_trans ((List.pairwise_append.1 hascending).2.2 s hinit last List.mem_cons_self) hlt
    · rw [List.mem_singleton.1 hend]
      exact hlt

theorem toNat_next_new_le {bucket : Bucket} {k : Keyspace} {n : Nat} (h : ∀ s ∈ bucket.sequences k, s.toNat ≤ n)
    (window : Nat) : (new bucket window k).next.toNat ≤ n + 1 := by
  show (((bucket.sequences k).getLast?.map (· + 1)).getD 1).toNat ≤ n + 1
  cases hlast : (bucket.sequences k).getLast? with
  | none => exact Nat.le_add_left 1 n
  | some last =>
    exact Nat.le_trans (toNat_add_one_le last) (Nat.succ_le_succ (h last (List.mem_of_getLast? hlast)))

end DurableQueue

end PubSub
