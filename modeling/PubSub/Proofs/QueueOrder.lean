import PubSub.Proofs.DurableQueue
/-!
# The order of a durable queue

What is out was stored before what is still pending, and the next number is above both (`Ordered`). No
check says so; every call keeps it, over whatever records there are. A queue that is alone with its bucket
holds exactly the numbers of its records (`Holds`), so nothing is ever stored over a record, and between
two requeues messages come out in the order in which they were pushed (`order_of_run`).
-/

namespace PubSub.DurableQueue

variable {q : DurableQueue} {k : Keyspace}

/-- Numbers ascend from what is out to what is pending to what is next, and the window is kept. -/
structure Ordered (q : DurableQueue) : Prop where
  ascending : (q.inflight ++ q.pending).Pairwise (· < ·)
  below : ∀ s ∈ q.inflight ++ q.pending, s < q.next
  window : q.inflight.length ≤ q.window

namespace Ordered

theorem inflight_lt_pending (h : q.Ordered) {s t : UInt64} (hs : s ∈ q.inflight) (ht : t ∈ q.pending) : s < t :=
  (List.pairwise_append.1 h.ascending).2.2 s hs t ht

/-- Of numbers in order some may be lost. -/
theorem sublist (h : q.Ordered) {inflight pending : List UInt64} (hi : inflight.Sublist q.inflight)
    (hp : pending.Sublist q.pending) : Ordered { q with inflight, pending } where
  ascending := h.ascending.sublist (hi.append hp)
  below s hs := h.below s ((hi.append hp).subset hs)
  window := hi.length_le.trans h.window

theorem new {bucket : Bucket} (hroom : ∀ s ∈ bucket.sequences k, s.toNat + 1 < 2 ^ 64) (window : Nat) :
    (DurableQueue.new bucket window k).Ordered where
  ascending := bucket.sequences_ascending k
  below := lt_next_new hroom window
  window := Nat.zero_le _

theorem push (h : q.Ordered) (hroom : q.next.toNat + 1 < 2 ^ 64) :
    Ordered { q with next := q.next + 1, pending := q.pending ++ [q.next] } where
  ascending := by
    rw [← List.append_assoc]
    refine List.pairwise_append.2 ⟨h.ascending, List.pairwise_singleton _ _, fun s hs t ht => ?_⟩
    rw [List.mem_singleton.1 ht]
    exact h.below s hs
  below s hs := by
    have hlt := lt_add_one hroom
    rw [← List.append_assoc] at hs
    rcases List.mem_append.1 hs with hs | hs
    · exact UInt64.lt_trans (h.below s hs) hlt
    · rw [List.mem_singleton.1 hs]
      exact hlt
  window := h.window

/-- The number handed out is above those that are out, so its place is the last. -/
theorem insertSequence (h : q.Ordered) {gone rest : List UInt64} {s : UInt64} (hpending : q.pending = gone ++ s :: rest) :
    DurableQueue.insertSequence s q.inflight = q.inflight ++ [s] :=
  insertSequence_last fun _ hx => h.inflight_lt_pending hx (hpending ▸ List.mem_append_right _ List.mem_cons_self)

theorem pop (h : q.Ordered) (k : Keyspace) : (q.pop k).2.1.Ordered := by
  have hp := q.popped k
  generalize q.pop k = r at hp ⊢
  cases hp with
  | closed hclosed => exact h
  | full hopen hfull => exact h
  | drained hopen hroom hgone => exact h.sublist (.refl _) (List.nil_sublist _)
  | @delivered gone rest s m hopen hroom hpending hgone hread =>
    -- Together they are as they were, less the numbers passed over.
    have hsub : ((q.inflight ++ [s]) ++ rest).Sublist (q.inflight ++ q.pending) := by
      rw [hpending, List.append_assoc]
      exact (List.Sublist.refl _).append (List.sublist_append_right gone (s :: rest))
    rw [h.insertSequence hpending]
    refine ⟨h.ascending.sublist hsub, fun t ht => h.below t (hsub.subset ht), ?_⟩
    rw [List.length_append]
    exact hroom
  | @unreadable gone rest s e hopen hroom hpending hgone hread =>
    refine h.sublist (.refl _) ?_
    rw [hpending]
    exact List.sublist_append_right gone (s :: rest)

theorem ack (h : q.Ordered) (k : Keyspace) (seq : UInt64) : (q.ack k seq).1.Ordered := by
  unfold DurableQueue.ack
  split
  · exact h.sublist List.filter_sublist (.refl _)
  · exact h.sublist (.refl _) List.filter_sublist

theorem requeue (h : q.Ordered) : q.requeue.Ordered := ⟨h.ascending, h.below, Nat.zero_le _⟩

/-- An acknowledgement takes the number out, wherever it is. -/
theorem ack_eq (h : q.Ordered) (k : Keyspace) (seq : UInt64) : (q.ack k seq).1 =
    { q with inflight := q.inflight.filter (· ≠ seq), pending := q.pending.filter (· ≠ seq) } := by
  unfold DurableQueue.ack
  split
  · next hseq =>
    have hpending : q.pending.filter (· ≠ seq) = q.pending := by
      refine List.filter_eq_self.2 fun t ht => decide_eq_true ?_
      exact (UInt64.ne_of_lt (h.inflight_lt_pending hseq ht)).symm
    rw [hpending]
  · next hseq =>
    have hinflight : q.inflight.filter (· ≠ seq) = q.inflight :=
      List.filter_eq_self.2 fun t ht => decide_eq_true fun heq => hseq (heq ▸ ht)
    rw [hinflight]

theorem numbers_ack (h : q.Ordered) (k : Keyspace) (seq : UInt64) :
    (q.ack k seq).1.inflight ++ (q.ack k seq).1.pending = (q.inflight ++ q.pending).filter (· ≠ seq) := by
  rw [h.ack_eq, List.filter_append]

end Ordered

/-! ## A queue alone with its bucket -/

/-- The queue is open and holds the numbers of all records of its bucket and no others. -/
structure Holds (q : DurableQueue) (k : Keyspace) : Prop extends Ordered q where
  opened : q.closed = false
  numbers : q.inflight ++ q.pending = q.bucket.sequences k

namespace Holds

theorem new {bucket : Bucket} (hroom : ∀ s ∈ bucket.sequences k, s.toNat + 1 < 2 ^ 64) (window : Nat) :
    (DurableQueue.new bucket window k).Holds k := ⟨.new hroom window, rfl, rfl⟩

/-- No record is stored under the next number. -/
theorem next_free (h : q.Holds k) : q.bucket.get? k q.next = none := by
  have hnext : q.next ∉ q.bucket.sequences k := fun hmem => by
    rw [← h.numbers] at hmem
    exact UInt64.lt_irrefl _ (h.below _ hmem)
  exact Option.not_isSome_iff_eq_none.1 fun hsome => hnext (Bucket.mem_sequences.2 hsome)

/-- Every number held has a record. -/
theorem read_ne_none (h : q.Holds k) {s : UInt64} (hs : s ∈ q.pending) :
    q.bucket.read k Binary.readMessage s ≠ .ok none := by
  have hmem : s ∈ q.bucket.sequences k := h.numbers ▸ List.mem_append_right _ hs
  exact Bucket.read_ne_none hmem _

theorem sequences_put (h : q.Holds k) (record : Bytes) :
    q.bucket.sequences (q.bucket.put k q.next record) = q.bucket.sequences k ++ [q.next] := by
  have hbelow : ∀ e ∈ (q.bucket.contents k).entries, e.1 < q.next := by
    intro e he
    refine h.below e.1 ?_
    rw [h.numbers, Bucket.sequences_eq]
    exact List.mem_map.2 ⟨e, he, rfl⟩
  rw [Bucket.sequences_eq, Bucket.contents_put, OrderedMap.keys, OrderedMap.entries_insert_last _ hbelow,
    List.map_append, Bucket.sequences_eq]
  rfl

theorem push (h : q.Holds k) (hroom : q.next.toNat + 1 < 2 ^ 64) (m : Message) :
    Holds { q with next := q.next + 1, pending := q.pending ++ [q.next] }
      (q.bucket.put k q.next (Binary.encodeMessage m)) := by
  refine ⟨h.toOrdered.push hroom, h.opened, ?_⟩
  rw [h.sequences_put, ← h.numbers, List.append_assoc]

/-- A push touches no record that is there. -/
theorem get?_push (h : q.Holds k) {m : Message} {q' : DurableQueue} {k' : Keyspace} (hpush : q.push k m = .ok (q', k'))
    {s : UInt64} {record : Bytes} (hrecord : q.bucket.get? k s = some record) : q.bucket.get? k' s = some record := by
  rw [push_open h.opened] at hpush
  obtain ⟨-, rfl⟩ := Prod.mk.inj (Except.ok.inj hpush)
  have hne : s ≠ q.next := by
    rintro rfl
    rw [h.next_free] at hrecord
    cases hrecord
  rw [← Bucket.get?_contents, Bucket.contents_put, OrderedMap.get?_insert, if_neg hne, Bucket.get?_contents]
  exact hrecord

/-- Nothing is passed over: a message is handed out from the front, or nothing changes. -/
theorem pop_cases (h : q.Holds k) :
    (∃ s rest m, q.pending = s :: rest ∧ (q.pop k).1 = .ok (some ⟨s, m⟩) ∧
      (q.pop k).2.1 = { q with pending := rest, inflight := q.inflight ++ [s] }) ∨
    (∀ d, (q.pop k).1 ≠ .ok (some d)) ∧ (q.pop k).2.1 = q := by
  have hp := q.popped k
  generalize q.pop k = r at hp ⊢
  have hnone : ∀ {gone : List UInt64}, (∀ g ∈ gone, q.bucket.read k Binary.readMessage g = .ok none) →
      (∀ g ∈ gone, g ∈ q.pending) → gone = [] := fun hgone hsub =>
    List.eq_nil_iff_forall_not_mem.2 fun g hg => h.read_ne_none (hsub g hg) (hgone g hg)
  cases hp with
  | closed hclosed => exact .inr ⟨nofun, rfl⟩
  | full hopen hfull => exact .inr ⟨nofun, rfl⟩
  | drained hopen hroom hgone =>
    refine .inr ⟨nofun, ?_⟩
    show { q with pending := [] } = q
    rw [← hnone hgone fun g hg => hg]
  | @delivered gone rest s m hopen hroom hpending hgone hread =>
    obtain rfl := hnone hgone fun g hg => hpending ▸ List.mem_append_left _ hg
    refine .inl ⟨s, rest, m, hpending, rfl, ?_⟩
    rw [h.insertSequence hpending]
  | @unreadable gone rest s e hopen hroom hpending hgone hread =>
    obtain rfl := hnone hgone fun g hg => hpending ▸ List.mem_append_left _ hg
    refine .inr ⟨nofun, ?_⟩
    show { q with pending := s :: rest } = q
    rw [show s :: rest = q.pending from hpending.symm]

theorem pop (h : q.Holds k) : (q.pop k).2.1.Holds k := by
  refine ⟨h.toOrdered.pop k, (q.pop_closed k).trans h.opened, ?_⟩
  rw [q.pop_bucket, ← h.numbers]
  rcases h.pop_cases with ⟨s, rest, m, hpending, -, hafter⟩ | ⟨-, hafter⟩ <;> rw [hafter]
  rw [hpending]
  exact List.append_assoc _ _ _

theorem ack (h : q.Holds k) (seq : UInt64) : (q.ack k seq).1.Holds (q.ack k seq).2 := by
  refine ⟨h.toOrdered.ack k seq, (q.ack_closed k seq).trans h.opened, ?_⟩
  rw [h.numbers_ack, h.numbers, q.ack_bucket, q.ack_records, Bucket.sequences_eq, Bucket.sequences_eq,
    Bucket.contents_delete, OrderedMap.keys, OrderedMap.keys, OrderedMap.entries_erase, List.filter_map]
  rfl

theorem requeue (h : q.Holds k) : q.requeue.Holds k := ⟨h.toOrdered.requeue, h.opened, h.numbers⟩

end Holds

/-! ## Calls one after the other -/

/-- What can be asked of a queue, short of closing it. -/
inductive Ask where
  | push (m : Message)
  | pop
  | ack (seq : UInt64)
  | requeue
  deriving DecidableEq

def Ask.isPush : Ask → Bool
  | .push _ => true
  | _ => false

/-- The queue and its records after a call. A push that is refused changes nothing. -/
def serve (q : DurableQueue) (k : Keyspace) : Ask → DurableQueue × Keyspace
  | .push m =>
    match q.push k m with
    | .ok after => after
    | .error _ => (q, k)
  | .pop => ((q.pop k).2.1, k)
  | .ack seq => q.ack k seq
  | .requeue => (q.requeue, k)

/-- The number a call hands out. -/
def handsOut (q : DurableQueue) (k : Keyspace) : Ask → Option UInt64
  | .pop =>
    match (q.pop k).1 with
    | .ok (some d) => some d.id
    | _ => none
  | _ => none

/-- The number a call stores a message under. -/
def takes (q : DurableQueue) (k : Keyspace) : Ask → Option UInt64
  | .push m =>
    match q.push k m with
    | .ok _ => some q.next
    | .error _ => none
  | _ => none

def serveAll : DurableQueue → Keyspace → List Ask → DurableQueue × Keyspace
  | q, k, [] => (q, k)
  | q, k, a :: asks => serveAll (q.serve k a).1 (q.serve k a).2 asks

/-- The numbers that calls come to, each in the state in which it is made. -/
def along (note : DurableQueue → Keyspace → Ask → Option UInt64) : DurableQueue → Keyspace → List Ask → List UInt64
  | _, _, [] => []
  | q, k, a :: asks => (note q k a).toList ++ along note (q.serve k a).1 (q.serve k a).2 asks

def handedOut : DurableQueue → Keyspace → List Ask → List UInt64 := along handsOut

def taken : DurableQueue → Keyspace → List Ask → List UInt64 := along takes

/-- All that is pending, or is still to be stored, is above a number. -/
structure Past (q : DurableQueue) (s : UInt64) : Prop where
  pending : ∀ t ∈ q.pending, s < t
  next : s < q.next

namespace Holds

variable {a : Ask} {asks : List Ask}

theorem serve_push (h : q.Holds k) (m : Message) : q.serve k (.push m) =
    ({ q with next := q.next + 1, pending := q.pending ++ [q.next] }, q.bucket.put k q.next (Binary.encodeMessage m)) := by
  rw [DurableQueue.serve, push_open h.opened]

theorem serve (h : q.Holds k) (hroom : a.isPush = true → q.next.toNat + 1 < 2 ^ 64) :
    (q.serve k a).1.Holds (q.serve k a).2 := by
  cases a with
  | push m =>
    rw [h.serve_push]
    exact h.push (hroom rfl) m
  | pop => exact h.pop
  | ack seq => exact h.ack seq
  | requeue => exact h.requeue

theorem serve_fixed (h : q.Holds k) (a : Ask) :
    (q.serve k a).1.bucket = q.bucket ∧ (q.serve k a).1.window = q.window := by
  cases a with
  | push m =>
    rw [h.serve_push]
    exact ⟨rfl, rfl⟩
  | pop => exact ⟨q.pop_bucket k, q.pop_window k⟩
  | ack seq => exact ⟨q.ack_bucket k seq, q.ack_window k seq⟩
  | requeue => exact ⟨rfl, rfl⟩

theorem next_serve_le (h : q.Holds k) (a : Ask) :
    (q.serve k a).1.next.toNat ≤ q.next.toNat + if a.isPush then 1 else 0 := by
  cases a with
  | push m =>
    rw [h.serve_push]
    exact toNat_add_one_le _
  | pop => exact Nat.le_of_eq (congrArg UInt64.toNat (q.pop_next k))
  | ack seq => exact Nat.le_of_eq (congrArg UInt64.toNat (q.ack_next k seq))
  | requeue => exact Nat.le_refl _

/-- There is room for the first call, and after it for the others. -/
theorem serve_cons (h : q.Holds k) (hroom : q.next.toNat + (a :: asks).countP Ask.isPush < 2 ^ 64) :
    (a.isPush = true → q.next.toNat + 1 < 2 ^ 64) ∧ (q.serve k a).1.Holds (q.serve k a).2 ∧
      (q.serve k a).1.next.toNat + asks.countP Ask.isPush < 2 ^ 64 := by
  have hnext := h.next_serve_le a
  rw [List.countP_cons] at hroom
  have hone : a.isPush = true → q.next.toNat + 1 < 2 ^ 64 := fun ha => by
    rw [if_pos ha] at hroom
    omega
  exact ⟨hone, h.serve hone, by omega⟩

theorem serveAll (h : q.Holds k) (hroom : q.next.toNat + asks.countP Ask.isPush < 2 ^ 64) :
    (q.serveAll k asks).1.Holds (q.serveAll k asks).2 ∧
      (q.serveAll k asks).1.bucket = q.bucket ∧ (q.serveAll k asks).1.window = q.window := by
  induction asks generalizing q k with
  | nil => exact ⟨h, rfl, rfl⟩
  | cons a asks ih =>
    obtain ⟨-, hserve, hrest⟩ := h.serve_cons hroom
    obtain ⟨hbucket, hwindow⟩ := h.serve_fixed a
    obtain ⟨hholds, hbucket', hwindow'⟩ := ih hserve hrest
    exact ⟨hholds, hbucket'.trans hbucket, hwindow'.trans hwindow⟩

/-- A run of calls is cut anywhere. -/
theorem serveAll_append (h : q.Holds k) {before between : List Ask}
    (hroom : q.next.toNat + (before ++ between).countP Ask.isPush < 2 ^ 64) :
    (q.serveAll k before).1.Holds (q.serveAll k before).2 ∧
      (q.serveAll k before).1.next.toNat + between.countP Ask.isPush < 2 ^ 64 := by
  induction before generalizing q k with
  | nil => exact ⟨h, hroom⟩
  | cons a before ih =>
    obtain ⟨-, hserve, hrest⟩ := h.serve_cons hroom
    exact ih hserve hrest

/-! ### What is handed out -/

theorem of_handsOut (h : q.Holds k) {s : UInt64} (hs : q.handsOut k a = some s) :
    ∃ rest, a = .pop ∧ q.pending = s :: rest ∧
      (q.pop k).2.1 = { q with pending := rest, inflight := q.inflight ++ [s] } := by
  cases a with
  | pop =>
    rw [handsOut] at hs
    rcases h.pop_cases with ⟨x, rest, m, hx, hanswer, hafter⟩ | ⟨hanswer, -⟩
    · rw [hanswer] at hs
      obtain rfl := Option.some.inj hs
      exact ⟨rest, rfl, hx, hafter⟩
    · split at hs
      · next d hd => exact absurd hd (hanswer d)
      · cases hs
  | push | ack | requeue => cases hs

theorem past_of_handsOut (h : q.Holds k) {s : UInt64} (hs : q.handsOut k a = some s) : (q.serve k a).1.Past s := by
  obtain ⟨rest, rfl, hpending, hafter⟩ := h.of_handsOut hs
  have hascending := (List.pairwise_append.1 h.ascending).2.1
  rw [hpending] at hascending
  show (q.pop k).2.1.Past s
  rw [hafter]
  exact ⟨(List.pairwise_cons.1 hascending).1, h.below s (List.mem_append_right _ (hpending ▸ List.mem_cons_self))⟩

theorem lt_of_handsOut (h : q.Holds k) {s t : UInt64} (hs : q.Past s) (ht : q.handsOut k a = some t) : s < t := by
  obtain ⟨rest, -, hpending, -⟩ := h.of_handsOut ht
  exact hs.pending t (hpending ▸ List.mem_cons_self)

theorem past_serve (h : q.Holds k) (hroom : a.isPush = true → q.next.toNat + 1 < 2 ^ 64) (ha : a ≠ .requeue)
    {s : UInt64} (hs : q.Past s) : (q.serve k a).1.Past s := by
  cases a with
  | push m =>
    rw [h.serve_push]
    refine ⟨fun t ht => ?_, UInt64.lt_trans hs.next (lt_add_one (hroom rfl))⟩
    rcases List.mem_append.1 ht with ht | ht
    · exact hs.pending t ht
    · rw [List.mem_singleton.1 ht]
      exact hs.next
  | pop =>
    show (q.pop k).2.1.Past s
    rcases h.pop_cases with ⟨x, rest, m, hx, -, hafter⟩ | ⟨-, hafter⟩ <;> rw [hafter]
    · exact ⟨fun t ht => hs.pending t (hx ▸ List.mem_cons_of_mem x ht), hs.next⟩
    · exact hs
  | ack seq =>
    show (q.ack k seq).1.Past s
    refine ⟨fun t ht => ?_, (q.ack_next k seq).symm ▸ hs.next⟩
    unfold DurableQueue.ack at ht
    split at ht
    · exact hs.pending t ht
    · exact hs.pending t (List.mem_of_mem_filter ht)
  | requeue => exact absurd rfl ha

/-- Until a requeue, only numbers are handed out that are above what all pending ones are above. -/
theorem lt_handedOut (h : q.Holds k) (hroom : q.next.toNat + asks.countP Ask.isPush < 2 ^ 64)
    (hasks : Ask.requeue ∉ asks) {s : UInt64} (hs : q.Past s) : ∀ t ∈ q.handedOut k asks, s < t := by
  induction asks generalizing q k with
  | nil => exact nofun
  | cons a asks ih =>
    obtain ⟨hone, hserve, hrest⟩ := h.serve_cons hroom
    obtain ⟨ha, hasks⟩ := not_or.1 (List.mem_cons.not.1 hasks)
    intro t ht
    rcases List.mem_append.1 ht with ht | ht
    · exact h.lt_of_handsOut hs (Option.mem_toList.1 ht)
    · exact ih hserve hrest hasks (h.past_serve hone (Ne.symm ha) hs) t ht

theorem handedOut_ascending (h : q.Holds k) (hroom : q.next.toNat + asks.countP Ask.isPush < 2 ^ 64)
    (hasks : Ask.requeue ∉ asks) : (q.handedOut k asks).Pairwise (· < ·) := by
  induction asks generalizing q k with
  | nil => exact .nil
  | cons a asks ih =>
    obtain ⟨-, hserve, hrest⟩ := h.serve_cons hroom
    obtain ⟨-, hasks⟩ := not_or.1 (List.mem_cons.not.1 hasks)
    refine List.pairwise_append.2 ⟨?_, ih hserve hrest hasks, fun s hs => ?_⟩
    · cases q.handsOut k a with
      | none => exact .nil
      | some s => exact List.pairwise_singleton _ _
    · exact hserve.lt_handedOut hrest hasks (h.past_of_handsOut (Option.mem_toList.1 hs))

/-! ### What is taken in -/

theorem takes_eq (h : q.Holds k) (a : Ask) : q.takes k a = if a.isPush then some q.next else none := by
  cases a with
  | push m => rw [takes, push_open h.opened]; rfl
  | pop | ack | requeue => rfl

/-- Each message is stored under a higher number than the one before. -/
theorem taken_ascending (h : q.Holds k) (hroom : q.next.toNat + asks.countP Ask.isPush < 2 ^ 64) :
    (q.taken k asks).Pairwise (· < ·) ∧ ∀ s ∈ q.taken k asks, q.next ≤ s := by
  induction asks generalizing q k with
  | nil => exact ⟨.nil, nofun⟩
  | cons a asks ih =>
    obtain ⟨hone, hserve, hrest⟩ := h.serve_cons hroom
    obtain ⟨hascending, hle⟩ := ih hserve hrest
    have htaken : q.taken k (a :: asks)
        = (q.takes k a).toList ++ (q.serve k a).1.taken (q.serve k a).2 asks := rfl
    rw [htaken, h.takes_eq]
    cases a with
    | push m =>
      rw [h.serve_push] at hascending hle ⊢
      have hlt := lt_add_one (hone rfl)
      refine ⟨List.pairwise_cons.2 ⟨fun s hs => UInt64.lt_of_lt_of_le hlt (hle s hs), hascending⟩, ?_⟩
      exact List.forall_mem_cons.2 ⟨UInt64.le_refl _, fun s hs => UInt64.le_of_lt (UInt64.lt_of_lt_of_le hlt (hle s hs))⟩
    | pop => exact ⟨hascending, fun s hs => q.pop_next k ▸ hle s hs⟩
    | ack seq => exact ⟨hascending, fun s hs => q.ack_next k seq ▸ hle s hs⟩
    | requeue => exact ⟨hascending, hle⟩

end Holds

/-- Whatever is pushed, handed out, acknowledged and requeued on a queue opened over a bucket: as long as
numbers stay below the last there is, the numbers pending ascend, what is out is below what is pending and
the next number above both, they are the numbers of the bucket's records, and no more are out than the
window allows. So between two requeues deliveries ascend, messages are stored under higher numbers than all
before, and no push touches a record. -/
theorem order_of_run (bucket : Bucket) (maxInflight : Nat) (k₀ : Keyspace) (asks : List Ask)
    (hstored : ∀ s ∈ bucket.sequences k₀, s.toNat + asks.countP Ask.isPush < 2 ^ 64 - 1)
    (hpushes : asks.countP Ask.isPush < 2 ^ 64 - 1) :
    let opened := DurableQueue.new bucket maxInflight k₀
    let q := (opened.serveAll k₀ asks).1
    let k := (opened.serveAll k₀ asks).2
    q.pending.Pairwise (· < ·) ∧ (∀ s ∈ q.inflight, ∀ t ∈ q.pending, s < t) ∧
    (∀ s ∈ q.inflight ++ q.pending, s < q.next) ∧
    (q.inflight ++ q.pending).Nodup ∧ (∀ s, s ∈ bucket.sequences k ↔ s ∈ q.inflight ∨ s ∈ q.pending) ∧
    q.inflight.length ≤ max maxInflight 1 ∧
    (∀ before between, asks = before ++ between → Ask.requeue ∉ between →
      let reached := opened.serveAll k₀ before
      (reached.1.handedOut reached.2 between).Pairwise (· < ·)) ∧
    (bucket.sequences k₀ ++ opened.taken k₀ asks).Pairwise (· < ·) ∧
    (∀ m q' k', q.push k m = .ok (q', k') →
      ∀ s record, bucket.get? k s = some record → bucket.get? k' s = some record) := by
  intro opened q k
  have hholds : opened.Holds k₀ := .new (fun s hs => by have := hstored s hs; omega) maxInflight
  -- Stored numbers and pushes together stay below the last number, so no push wraps the counter around.
  have hroom : opened.next.toNat + asks.countP Ask.isPush < 2 ^ 64 := by
    have hnext : opened.next.toNat ≤ (2 ^ 64 - 2 - asks.countP Ask.isPush) + 1 :=
      toNat_next_new_le (fun s hs => by have := hstored s hs; omega) maxInflight
    omega
  obtain ⟨hq, hbucket, hwindow⟩ : q.Holds k ∧ q.bucket = bucket ∧ q.window = max maxInflight 1 := hholds.serveAll hroom
  obtain ⟨-, hpending, hbetween⟩ := List.pairwise_append.1 hq.ascending
  refine ⟨hpending, hbetween, hq.below, hq.ascending.imp UInt64.ne_of_lt, fun s => ?_, hwindow ▸ hq.window, ?_, ?_, ?_⟩
  · rw [← hbucket, ← hq.numbers, List.mem_append]
  · rintro before between rfl hnone
    obtain ⟨hreached, hrest⟩ := hholds.serveAll_append hroom
    exact hreached.handedOut_ascending hrest hnone
  · obtain ⟨htaken, hle⟩ := hholds.taken_ascending hroom
    refine List.pairwise_append.2 ⟨bucket.sequences_ascending k₀, htaken, fun s hs t ht => ?_⟩
    exact UInt64.lt_of_lt_of_le (hholds.below s hs) (hle t ht)
  · intro m q' k' hpush s record hrecord
    rw [← hbucket] at hrecord ⊢
    exact hq.get?_push hpush hrecord

/-- A window of one over a record that can be read and one that cannot: the second holds up what was pushed
behind it until it is acknowledged unread. -/
theorem order_over_unreadable_record :
    let m : Message := { topic := "t", payload := [1], qos := .atLeastOnce }
    let bucket : Bucket := ⟨"c", by decide⟩
    let k₀ := bucket.put (bucket.put .empty 3 (Binary.encodeMessage m)) 7 [255]
    let asks : List Ask := [.push m, .pop, .ack 99, .requeue, .pop, .ack 3, .pop, .ack 7, .pop]
    bucket.sequences k₀ = [3, 7] ∧ (new bucket 0 k₀).handedOut k₀ asks = [3, 3, 8] ∧
      ((new bucket 0 k₀).serveAll k₀ asks).1.inflight = [8] ∧
      ((new bucket 0 k₀).serveAll k₀ asks).1.inflight.length ≤ max 0 1 ∧
      (bucket.sequences k₀ ++ (new bucket 0 k₀).taken k₀ asks).Pairwise (· < ·) := by
  intro m bucket k₀ asks
  have hsequences : bucket.sequences k₀ = [3, 7] := by decide +kernel
  have hstored : ∀ s ∈ bucket.sequences k₀, s.toNat + asks.countP Ask.isPush < 2 ^ 64 - 1 := by
    rw [hsequences]
    exact List.forall_mem_cons.2 ⟨by decide, List.forall_mem_singleton.2 (by decide)⟩
  obtain ⟨-, -, -, -, -, hwindow, -, htaken, -⟩ := order_of_run bucket 0 k₀ asks hstored (by decide)
  exact ⟨hsequences, by decide +kernel, by decide +kernel, hwindow, htaken⟩

end PubSub.DurableQueue
