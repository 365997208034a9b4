import PubSub.Broker.Delivery
import PubSub.Proofs.QueueOrder
/-!
# Records changed behind the queue's back

A queue remembers numbers, and looks for the record of a number only when it comes to hand it out. By then
others may have deleted, replaced or spoiled records, and the store may refuse to read them. `pop_over_any_records`
says what a queue does then, whatever it remembers and whatever is stored: it passes over numbers whose records are
gone, and over no others.
-/

namespace PubSub

/-- Handing out writes nothing. -/
theorem Broker.store_nextGuaranteed (b : Broker) (r : SessionRef) : (b.nextGuaranteed r).2.store = b.store := by
  unfold nextGuaranteed
  split
  · rfl
  · dsimp only
    split
    · split <;> rfl
    · rfl

namespace DurableQueue

variable {q : DurableQueue} {k : Keyspace} {refused : UInt64 → Option String}

/-! ## What is out -/

theorem mem_insertSequence {s t : UInt64} {xs : List UInt64} : t ∈ insertSequence s xs ↔ t = s ∨ t ∈ xs := by
  induction xs with
  | nil => simp [insertSequence]
  | cons x xs ih =>
    rw [insertSequence]
    split
    · exact List.mem_cons
    · split
      · next heq => simp [heq]
      · rw [List.mem_cons, ih, List.mem_cons, or_left_comm]

theorem ascending_insertSequence (s : UInt64) {xs : List UInt64} (h : xs.Pairwise (· < ·)) :
    (insertSequence s xs).Pairwise (· < ·) := by
  induction xs with
  | nil => exact List.pairwise_singleton _ _
  | cons x xs ih =>
    obtain ⟨hx, hxs⟩ := List.pairwise_cons.1 h
    rw [insertSequence]
    split
    · next hs => exact List.pairwise_cons.2 ⟨List.forall_mem_cons.2 ⟨hs, fun y hy => UInt64.lt_trans hs (hx y hy)⟩, h⟩
    · split
      · exact h
      · next hs hne =>
        refine List.pairwise_cons.2 ⟨fun y hy => ?_, ih hxs⟩
        rcases mem_insertSequence.1 hy with rfl | hy
        · exact UInt64.lt_of_le_of_ne (UInt64.not_lt.1 hs) (Ne.symm hne)
        · exact hx y hy

/-! ## What is passed over -/

/-- The pending numbers without those at the front that the store looks for in vain. -/
def remaining (q : DurableQueue) (k : Keyspace) (refused : UInt64 → Option String) : List UInt64 :=
  q.pending.dropWhile fun s => (refused s).isNone && (q.bucket.get? k s).isNone

/-- A number is passed over when the store looks for its record and there is none. -/
theorem passed_iff {bucket : Bucket} {s : UInt64} {refusal : Option String} :
    bucket.read k Binary.readMessage s refusal = .ok none ↔ refusal = none ∧ bucket.get? k s = none := by
  cases refusal with
  | none => exact Bucket.read_eq_none_iff.trans (and_iff_right rfl).symm
  | some reason => exact iff_of_false nofun nofun

theorem remaining_of_gone (hgone : ∀ s ∈ q.pending, q.bucket.read k Binary.readMessage s (refused s) = .ok none) :
    q.remaining k refused = [] :=
  List.dropWhile_eq_nil_iff.2 fun s hs => by simpa using passed_iff.1 (hgone s hs)

theorem remaining_of_stop {gone rest : List UInt64} {s : UInt64} (hpending : q.pending = gone ++ s :: rest)
    (hgone : ∀ g ∈ gone, q.bucket.read k Binary.readMessage g (refused g) = .ok none)
    (hstop : q.bucket.read k Binary.readMessage s (refused s) ≠ .ok none) : q.remaining k refused = s :: rest := by
  rw [remaining, hpending, List.dropWhile_append_of_pos fun g hg => by simpa using passed_iff.1 (hgone g hg),
    List.dropWhile_cons_of_neg]
  exact fun hpassed => hstop (passed_iff.2 (by simpa using hpassed))

/-- What reading a record comes to that is there. -/
theorem read_of_get? {bucket : Bucket} {s : UInt64} {record : Bytes} (h : bucket.get? k s = some record) :
    bucket.read k Binary.readMessage s = match Binary.decode Binary.readMessage record with
      | .ok m => .ok (some m)
      | .error f => .error (.notDecoded (Bucket.faultText f)) := by
  simp only [Bucket.read, h]
  cases Binary.decode Binary.readMessage record <;> rfl

/-- A number that is looked for and not passed over has a record. -/
theorem get?_of_read {bucket : Bucket} {s : UInt64} (h : bucket.read k Binary.readMessage s ≠ .ok none) :
    ∃ record, bucket.get? k s = some record :=
  Option.ne_none_iff_exists'.1 fun hnone => h (Bucket.read_eq_none_iff.2 hnone)

/-- An open queue that has room, asked with nothing remaining. -/
theorem pop_of_remaining_nil (hopen : q.closed = false) (hroom : q.inflight.length < q.window)
    (hremaining : q.remaining k refused = []) :
    (q.pop k refused).1 = .ok none ∧ (q.pop k refused).2.1 = { q with pending := [] } := by
  have hp := q.popped_refused k refused
  generalize q.pop k refused = x at hp ⊢
  cases hp with
  | closed hclosed => cases hopen.symm.trans hclosed
  | full _ hfull => exact absurd hroom (Nat.not_lt.2 hfull)
  | drained => exact ⟨rfl, rfl⟩
  | delivered _ _ hpending hgone hread | unreadable _ _ hpending hgone hread =>
    rw [remaining_of_stop hpending hgone (by rw [hread]; simp)] at hremaining
    cases hremaining

/-- An open queue that has room answers what reading the first of the remaining comes to. -/
theorem pop_of_remaining_cons {s : UInt64} {rest : List UInt64} (hopen : q.closed = false)
    (hroom : q.inflight.length < q.window) (hremaining : q.remaining k refused = s :: rest) :
    (∃ m, q.bucket.read k Binary.readMessage s (refused s) = .ok (some m) ∧
      (q.pop k refused).1 = .ok (some ⟨s, m⟩) ∧
      (q.pop k refused).2.1 = { q with pending := rest, inflight := insertSequence s q.inflight }) ∨
    (∃ e, q.bucket.read k Binary.readMessage s (refused s) = .error e ∧
      (q.pop k refused).1 = .error (.store e) ∧ (q.pop k refused).2.1 = { q with pending := s :: rest }) := by
  have hp := q.popped_refused k refused
  generalize q.pop k refused = x at hp ⊢
  cases hp with
  | closed hclosed => cases hopen.symm.trans hclosed
  | full _ hfull => exact absurd hroom (Nat.not_lt.2 hfull)
  | drained _ _ hgone =>
    rw [remaining_of_gone hgone] at hremaining
    cases hremaining
  | @delivered gone rest' s' m _ _ hpending hgone hread =>
    rw [remaining_of_stop hpending hgone (by rw [hread]; simp)] at hremaining
    obtain ⟨rfl, rfl⟩ := List.cons.inj hremaining
    exact .inl ⟨m, hread, rfl, rfl⟩
  | @unreadable gone rest' s' e _ _ hpending hgone hread =>
    rw [remaining_of_stop hpending hgone (by rw [hread]; simp)] at hremaining
    obtain ⟨rfl, rfl⟩ := List.cons.inj hremaining
    exact .inr ⟨e, hread, rfl, rfl⟩

/-- The store refuses to read the first of the remaining. -/
theorem pop_of_refused {s : UInt64} {rest : List UInt64} {reason : String} (hopen : q.closed = false)
    (hroom : q.inflight.length < q.window) (hremaining : q.remaining k refused = s :: rest)
    (hrefused : refused s = some reason) :
    (q.pop k refused).1 = .error (.store (.notRead reason)) ∧ (q.pop k refused).2.1 = { q with pending := s :: rest } := by
  have hstop := pop_of_remaining_cons hopen hroom hremaining
  rw [hrefused] at hstop
  rcases hstop with ⟨m, hread, -⟩ | ⟨e, hread, hanswer, hqueue⟩
  · cases hread
  · obtain rfl := Except.error.inj hread
    exact ⟨hanswer, hqueue⟩

/-- The store looks for the first of the remaining and finds it. -/
theorem pop_of_found {s : UInt64} {rest : List UInt64} (hopen : q.closed = false)
    (hroom : q.inflight.length < q.window) (hremaining : q.remaining k refused = s :: rest) (hrefused : refused s = none) :
    ∃ record, q.bucket.get? k s = some record ∧
      match Binary.decode Binary.readMessage record with
      | .ok m => (q.pop k refused).1 = .ok (some ⟨s, m⟩) ∧
          (q.pop k refused).2.1 = { q with pending := rest, inflight := insertSequence s q.inflight }
      | .error f => (q.pop k refused).1 = .error (.store (.notDecoded (Bucket.faultText f))) ∧
          (q.pop k refused).2.1 = { q with pending := s :: rest } := by
  have hstop := pop_of_remaining_cons hopen hroom hremaining
  rw [hrefused] at hstop
  obtain ⟨record, hrecord⟩ : ∃ record, q.bucket.get? k s = some record := by
    rcases hstop with ⟨m, hread, -⟩ | ⟨e, hread, -⟩ <;> exact get?_of_read (by rw [hread]; simp)
  refine ⟨record, hrecord, ?_⟩
  rw [read_of_get? hrecord] at hstop
  cases hdecode : Binary.decode Binary.readMessage record with
  | ok m =>
    rw [hdecode] at hstop
    rcases hstop with ⟨m', hread, hanswer, hqueue⟩ | ⟨e, hread, -⟩
    · obtain rfl := Option.some.inj (Except.ok.inj hread)
      exact ⟨hanswer, hqueue⟩
    · cases hread
  | error f =>
    rw [hdecode] at hstop
    rcases hstop with ⟨m, hread, -⟩ | ⟨e, hread, hanswer, hqueue⟩
    · cases hread
    · obtain rfl := Except.error.inj hread
      exact ⟨hanswer, hqueue⟩

/-! ## Asking over and over -/

/-- Asks for the next message again and again, each time over the records there are by then. -/
def popEach (q : DurableQueue) : List Keyspace → List (Except QueueError (Option Delivery)) × DurableQueue
  | [] => ([], q)
  | k :: ks => ((q.pop k).1 :: ((q.pop k).2.1.popEach ks).1, ((q.pop k).2.1.popEach ks).2)

/-- A record that cannot be read holds up the queue until it is changed. -/
theorem popEach_unreadable {s : UInt64} {rest : List UInt64} {e : StoreError} (hopen : q.closed = false)
    (hroom : q.inflight.length < q.window) (hpending : q.pending = s :: rest) {ks : List Keyspace}
    (hread : ∀ k ∈ ks, q.bucket.read k Binary.readMessage s = .error e) :
    q.popEach ks = (ks.map fun _ => .error (.store e), q) := by
  induction ks with
  | nil => rfl
  | cons k ks ih =>
    rw [popEach, pop_cons_unreadable hopen hroom hpending (hread k List.mem_cons_self),
      ih fun k' hk' => hread k' (List.mem_cons_of_mem k hk')]
    rfl

/-- Every queue, over any records, any of which the store may refuse to read. A closed queue refuses and a full one
hands out nothing; neither changes. Any other goes to the first pending number that has a record or that the store
refuses to look for. If there is none, it hands out nothing and has nothing pending. If the record can be read, its
message is handed out under its number, which alone is out besides what was, and the numbers after it are pending.
If not, that is the answer, and all from that number on stay pending; as long as the record is the same, the answer
is the same however often it is asked for. No record is ever written, nor when a broker hands out. -/
theorem pop_over_any_records (q : DurableQueue) (k : Keyspace) (refused : UInt64 → Option String) :
    let x := q.pop k refused
    (q.closed = true → x.1 = .error q.closedError ∧ x.2.1 = q) ∧
    (q.closed = false → q.window ≤ q.inflight.length → x.1 = .ok none ∧ x.2.1 = q) ∧
    (q.closed = false → q.inflight.length < q.window →
      match q.remaining k refused with
      | [] => x.1 = .ok none ∧ x.2.1 = { q with pending := [] }
      | s :: rest => match refused s with
        | some reason => x.1 = .error (.store (.notRead reason)) ∧ x.2.1 = { q with pending := s :: rest }
        | none => ∃ record, q.bucket.get? k s = some record ∧
          match Binary.decode Binary.readMessage record with
          | .ok m => x.1 = .ok (some ⟨s, m⟩) ∧
              x.2.1 = { q with pending := rest, inflight := insertSequence s q.inflight } ∧
              (∀ t, t ∈ insertSequence s q.inflight ↔ t = s ∨ t ∈ q.inflight) ∧
              (q.inflight.Pairwise (· < ·) → (insertSequence s q.inflight).Pairwise (· < ·))
          | .error f => x.1 = .error (.store (.notDecoded (Bucket.faultText f))) ∧
              x.2.1 = { q with pending := s :: rest } ∧
              ∀ ks : List Keyspace, (∀ k' ∈ ks, q.bucket.get? k' s = some record) →
                x.2.1.popEach ks = (ks.map fun _ => x.1, x.2.1)) ∧
    (∀ (b : Broker) (r : SessionRef), (b.nextGuaranteed r).2.store = b.store) := by
  intro x
  refine ⟨fun hclosed => ?_, fun hopen hfull => ?_, fun hopen hroom => ?_, Broker.store_nextGuaranteed⟩
  · rw [show x = (.error q.closedError, q, []) from if_pos hclosed]
    exact ⟨rfl, rfl⟩
  · rw [show x = (.ok none, q, []) from (if_neg (by rw [hopen]; exact Bool.false_ne_true)).trans (if_pos hfull)]
    exact ⟨rfl, rfl⟩
  · cases hremaining : q.remaining k refused with
    | nil => exact pop_of_remaining_nil hopen hroom hremaining
    | cons s rest =>
      dsimp only
      cases hrefused : refused s with
      | some reason => exact pop_of_refused hopen hroom hremaining hrefused
      | none =>
        obtain ⟨record, hrecord, hfound⟩ := pop_of_found hopen hroom hremaining hrefused
        refine ⟨record, hrecord, ?_⟩
        cases hdecode : Binary.decode Binary.readMessage record with
        | ok m =>
          rw [hdecode] at hfound
          exact ⟨hfound.1, hfound.2, fun t => mem_insertSequence, ascending_insertSequence s⟩
        | error f =>
          rw [hdecode] at hfound
          refine ⟨hfound.1, hfound.2, fun ks hks => ?_⟩
          rw [show x.1 = _ from hfound.1, show x.2.1 = _ from hfound.2]
          exact popEach_unreadable (q := { q with pending := s :: rest }) hopen hroom rfl fun k' hk' => by
            rw [read_of_get? (hks k' hk'), hdecode]

/-- The first record is gone and the second spoiled, until that is deleted too. -/
example :
    let m : Message := { topic := "t", payload := [7], qos := .atLeastOnce }
    let bucket : Bucket := ⟨"c", by decide⟩
    let spoiled := bucket.put (bucket.put .empty 2 [255]) 3 (Binary.encodeMessage m)
    let q : DurableQueue := { bucket, window := 1, next := 4, pending := [1, 2, 3] }
    let error : QueueError := .store (.notDecoded "record ends too early")
    q.popEach [spoiled, spoiled, bucket.delete spoiled 2]
      = ([.error error, .error error, .ok (some ⟨3, m⟩)], { q with pending := [], inflight := [3] }) := by
  decide +kernel

end DurableQueue

end PubSub
