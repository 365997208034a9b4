import PubSub.Proofs.QueueOrder
/-!
# Taken back or opened again

What was handed out is made available again in two ways: in memory, when the queue takes it back, and from the
records, when a queue is opened over the bucket anew. The second may store its next message under a lower
number than the first. Nobody who knows messages by their deliveries can tell the two apart
(`recovered_alike`): as long as their numbers stand one to one for the same records (`Alike`), they give the
same answers.
-/

namespace PubSub.DurableQueue

variable {q : DurableQueue} {k : Keyspace}

/-! ## Asking by deliveries -/

/-- What can be asked of a queue by someone who knows messages by their deliveries only. -/
inductive Turn where
  | push (m : Message)
  | pop
  | requeue
  /-- Acknowledges a delivery by its place among all that were made. -/
  | acknowledge (place : Nat)
  deriving DecidableEq

def Turn.isPush : Turn → Bool
  | .push _ => true
  | _ => false

/-- The call made on a queue that has handed out these numbers. There is none for a delivery that was not made. -/
def Turn.ask (handed : List UInt64) : Turn → Option Ask
  | .push m => some (.push m)
  | .pop => some .pop
  | .requeue => some .requeue
  | .acknowledge place => handed[place]?.map .ack

/-- A turn makes the same kind of call on both queues, or none on either. -/
theorem Turn.ask_pairs (t : Turn) (handed : List (UInt64 × UInt64)) :
    (t.ask (handed.map (·.1)) = none ∧ t.ask (handed.map (·.2)) = none) ∨
    ∃ a a', t.ask (handed.map (·.1)) = some a ∧ t.ask (handed.map (·.2)) = some a' ∧
      a.isPush = t.isPush ∧ a'.isPush = t.isPush := by
  cases t with
  | push m => exact .inr ⟨_, _, rfl, rfl, rfl, rfl⟩
  | pop => exact .inr ⟨_, _, rfl, rfl, rfl, rfl⟩
  | requeue => exact .inr ⟨_, _, rfl, rfl, rfl, rfl⟩
  | acknowledge place =>
    rw [Turn.ask, Turn.ask, List.getElem?_map, List.getElem?_map]
    cases handed[place]? with
    | none => exact .inl ⟨rfl, rfl⟩
    | some d => exact .inr ⟨_, _, rfl, rfl, rfl, rfl⟩

/-- What a call answers, but for the number of the record. -/
def reply (q : DurableQueue) (k : Keyspace) : Ask → Option (Except QueueError (Option Message))
  | .pop => some ((q.pop k).1.map (·.map (·.message)))
  | _ => none

/-- What is answered to turns, one after the other, by a queue that has handed out these numbers. -/
def replies : DurableQueue → Keyspace → List UInt64 → List Turn → List (Except QueueError (Option Message))
  | _, _, _, [] => []
  | q, k, handed, t :: turns =>
    match t.ask handed with
    | none => replies q k handed turns
    | some a => (q.reply k a).toList ++
        replies (q.serve k a).1 (q.serve k a).2 (handed ++ (q.handsOut k a).toList) turns

/-! ## Two queues that are alike -/

/-- Two queues that hold the same records in the same order under numbers of their own: pairs of numbers of
what is out and of what waits, and of all deliveries made. -/
structure Alike (out waiting handed : List (UInt64 × UInt64)) (q : DurableQueue) (k : Keyspace) (q' : DurableQueue)
    (k' : Keyspace) : Prop where
  left : q.Holds k
  right : q'.Holds k'
  window : q'.window = q.window
  inflight : q.inflight = out.map (·.1) ∧ q'.inflight = out.map (·.2)
  pending : q.pending = waiting.map (·.1) ∧ q'.pending = waiting.map (·.2)
  records : ∀ p ∈ out ++ waiting, q'.bucket.get? k' p.2 = q.bucket.get? k p.1
  /-- The two numbers of a delivery tell the same record apart from all others. -/
  told : ∀ d ∈ handed, ∀ p ∈ out ++ waiting, p.1 = d.1 ↔ p.2 = d.2
  past : ∀ d ∈ handed, d.1 < q.next ∧ d.2 < q'.next

namespace Alike

variable {out waiting handed : List (UInt64 × UInt64)} {q' : DurableQueue} {k' : Keyspace}

theorem numbers (h : Alike out waiting handed q k q' k') :
    q.inflight ++ q.pending = (out ++ waiting).map (·.1) ∧ q'.inflight ++ q'.pending = (out ++ waiting).map (·.2) := by
  rw [h.inflight.1, h.inflight.2, h.pending.1, h.pending.2, List.map_append, List.map_append]
  exact ⟨rfl, rfl⟩

theorem below (h : Alike out waiting handed q k q' k') {p : UInt64 × UInt64} (hp : p ∈ out ++ waiting) :
    p.1 < q.next ∧ p.2 < q'.next :=
  ⟨h.left.below p.1 (h.numbers.1 ▸ List.mem_map.2 ⟨p, hp, rfl⟩),
    h.right.below p.2 (h.numbers.2 ▸ List.mem_map.2 ⟨p, hp, rfl⟩)⟩

/-- Either number of a pair determines the other. -/
theorem pair_eq (h : Alike out waiting handed q k q' k') {p r : UInt64 × UInt64} (hp : p ∈ out ++ waiting)
    (hr : r ∈ out ++ waiting) : p.1 = r.1 ↔ p.2 = r.2 := by
  have hleft := h.numbers.1 ▸ h.left.ascending.imp UInt64.ne_of_lt
  have hright := h.numbers.2 ▸ h.right.ascending.imp UInt64.ne_of_lt
  exact ⟨fun heq => congrArg Prod.snd (List.inj_on_of_nodup_map hleft hp hr heq),
    fun heq => congrArg Prod.fst (List.inj_on_of_nodup_map hright hp hr heq)⟩

theorem push (h : Alike out waiting handed q k q' k') (m : Message) (hroom : q.next.toNat + 1 < 2 ^ 64)
    (hroom' : q'.next.toNat + 1 < 2 ^ 64) :
    Alike out (waiting ++ [(q.next, q'.next)]) handed (q.serve k (.push m)).1 (q.serve k (.push m)).2
      (q'.serve k' (.push m)).1 (q'.serve k' (.push m)).2 := by
  have hleft := h.left.serve (a := .push m) fun _ => hroom
  have hright := h.right.serve (a := .push m) fun _ => hroom'
  rw [h.left.serve_push] at hleft ⊢
  rw [h.right.serve_push] at hright ⊢
  refine ⟨hleft, hright, h.window, h.inflight, ?_, ?_, ?_, ?_⟩
  · rw [h.pending.1, h.pending.2, List.map_append, List.map_append]
    exact ⟨rfl, rfl⟩
  · intro p hp
    show q'.bucket.get? (q'.bucket.put k' q'.next _) p.2 = q.bucket.get? (q.bucket.put k q.next _) p.1
    rw [← Bucket.get?_contents, ← Bucket.get?_contents, Bucket.contents_put, Bucket.contents_put, OrderedMap.get?_insert,
      OrderedMap.get?_insert]
    rw [← List.append_assoc] at hp
    rcases List.mem_append.1 hp with hp | hp
    · obtain ⟨hlt, hlt'⟩ := h.below hp
      rw [if_neg (UInt64.ne_of_lt hlt), if_neg (UInt64.ne_of_lt hlt'), Bucket.get?_contents, Bucket.get?_contents]
      exact h.records p hp
    · rw [List.mem_singleton.1 hp, if_pos rfl, if_pos rfl]
  · intro d hd p hp
    rw [← List.append_assoc] at hp
    rcases List.mem_append.1 hp with hp | hp
    · exact h.told d hd p hp
    · -- No delivery was made yet of what is stored now.
      obtain ⟨hlt, hlt'⟩ := h.past d hd
      rw [List.mem_singleton.1 hp]
      exact iff_of_false (UInt64.ne_of_lt hlt).symm (UInt64.ne_of_lt hlt').symm
  · intro d hd
    obtain ⟨hlt, hlt'⟩ := h.past d hd
    exact ⟨UInt64.lt_trans hlt (lt_add_one hroom), UInt64.lt_trans hlt' (lt_add_one hroom')⟩

theorem requeue (h : Alike out waiting handed q k q' k') :
    Alike [] (out ++ waiting) handed q.requeue k q'.requeue k' :=
  ⟨h.left.requeue, h.right.requeue, h.window, ⟨rfl, rfl⟩, h.numbers, h.records, h.told, h.past⟩

/-- The same delivery is acknowledged on both. -/
theorem ack (h : Alike out waiting handed q k q' k') {d : UInt64 × UInt64} (hd : d ∈ handed) :
    Alike (out.filter (·.1 ≠ d.1)) (waiting.filter (·.1 ≠ d.1)) handed (q.ack k d.1).1 (q.ack k d.1).2
      (q'.ack k' d.2).1 (q'.ack k' d.2).2 := by
  have hleft := h.left.ack d.1
  have hright := h.right.ack d.2
  rw [h.left.ack_eq, ack_records] at hleft ⊢
  rw [h.right.ack_eq, ack_records] at hright ⊢
  have hsame {ps : List (UInt64 × UInt64)} (hps : ∀ p ∈ ps, p ∈ out ++ waiting) :
      (ps.map (·.1)).filter (· ≠ d.1) = (ps.filter (·.1 ≠ d.1)).map (·.1) ∧
        (ps.map (·.2)).filter (· ≠ d.2) = (ps.filter (·.1 ≠ d.1)).map (·.2) := by
    refine ⟨List.filter_map, List.filter_map.trans (congrArg _ (List.filter_congr fun p hp => ?_))⟩
    exact decide_eq_decide.2 (not_congr (h.told d hd p (hps p hp))).symm
  have hout := hsame fun p => List.mem_append_left waiting
  have hwaiting := hsame fun p => List.mem_append_right out
  have hmem {p : UInt64 × UInt64} (hp : p ∈ out.filter (·.1 ≠ d.1) ++ waiting.filter (·.1 ≠ d.1)) :
      p ∈ out ++ waiting ∧ p.1 ≠ d.1 := by
    rw [← List.filter_append] at hp
    obtain ⟨hp, hne⟩ := List.mem_filter.1 hp
    exact ⟨hp, of_decide_eq_true hne⟩
  refine ⟨hleft, hright, h.window, ?_, ?_, fun p hp => ?_, fun e he p hp => h.told e he p (hmem hp).1, h.past⟩
  · rw [← hout.1, ← hout.2, ← h.inflight.1, ← h.inflight.2]
    exact ⟨rfl, rfl⟩
  · rw [← hwaiting.1, ← hwaiting.2, ← h.pending.1, ← h.pending.2]
    exact ⟨rfl, rfl⟩
  · obtain ⟨hp, hne⟩ := hmem hp
    show q'.bucket.get? (q'.bucket.delete k' d.2) p.2 = q.bucket.get? (q.bucket.delete k d.1) p.1
    rw [← Bucket.get?_contents, ← Bucket.get?_contents, Bucket.contents_delete, Bucket.contents_delete, OrderedMap.get?_erase,
      OrderedMap.get?_erase, if_neg hne, if_neg fun heq => hne ((h.told d hd p hp).2 heq), Bucket.get?_contents,
      Bucket.get?_contents]
    exact h.records p hp

/-- Both hand out the first that waits, or neither hands out anything. -/
theorem pop (h : Alike out waiting handed q k q' k') : ∃ out' waiting' more,
    Alike out' waiting' (handed ++ more) (q.serve k .pop).1 k (q'.serve k' .pop).1 k' ∧
    q'.reply k' .pop = q.reply k .pop ∧
    (q.handsOut k .pop).toList = more.map (·.1) ∧ (q'.handsOut k' .pop).toList = more.map (·.2) := by
  have hlength : q.inflight.length = out.length ∧ q'.inflight.length = out.length := by
    rw [h.inflight.1, h.inflight.2, List.length_map, List.length_map]
    exact ⟨rfl, rfl⟩
  have hsame : Alike out waiting (handed ++ []) q k q' k' := by rwa [List.append_nil]
  by_cases hfull : q.window ≤ out.length
  · have hp := pop_full (k := k) h.left.opened (hlength.1 ▸ hfull)
    have hp' := pop_full (k := k') h.right.opened (by rwa [hlength.2, h.window])
    exact ⟨out, waiting, [], by rwa [serve, serve, hp, hp'], by rw [reply, reply, hp, hp'], by rw [handsOut, hp]; rfl,
      by rw [handsOut, hp']; rfl⟩
  · have hroom : q.inflight.length < q.window := by omega
    have hroom' : q'.inflight.length < q'.window := by rw [h.window]; omega
    cases waiting with
    | nil =>
      have hp := pop_nil (k := k) h.left.opened hroom h.pending.1
      have hp' := pop_nil (k := k') h.right.opened hroom' h.pending.2
      exact ⟨out, [], [], by rwa [serve, serve, hp, hp'], by rw [reply, reply, hp, hp'], by rw [handsOut, hp]; rfl,
        by rw [handsOut, hp']; rfl⟩
    | cons p waiting =>
      have hmem : p ∈ out ++ p :: waiting := List.mem_append_right _ List.mem_cons_self
      have hread : q'.bucket.read k' Binary.readMessage p.2 = q.bucket.read k Binary.readMessage p.1 := by
        rw [Bucket.read, Bucket.read, h.records p hmem]
      cases hfirst : q.bucket.read k Binary.readMessage p.1 with
      | error e =>
        have hp := pop_cons_unreadable h.left.opened hroom h.pending.1 hfirst
        have hp' := pop_cons_unreadable h.right.opened hroom' h.pending.2 (hread.trans hfirst)
        exact ⟨out, p :: waiting, [], by rwa [serve, serve, hp, hp'], by rw [reply, reply, hp, hp'],
          by rw [handsOut, hp]; rfl, by rw [handsOut, hp']; rfl⟩
      | ok found =>
        cases found with
        | none => exact absurd hfirst (h.left.read_ne_none (h.pending.1 ▸ List.mem_cons_self))
        | some m =>
          have hp := pop_cons h.left.opened hroom h.pending.1 hfirst
          have hp' := pop_cons h.right.opened hroom' h.pending.2 (hread.trans hfirst)
          rw [h.left.insertSequence (show q.pending = [] ++ p.1 :: waiting.map (·.1) from h.pending.1)] at hp
          rw [h.right.insertSequence (show q'.pending = [] ++ p.2 :: waiting.map (·.2) from h.pending.2)] at hp'
          have hleft := h.left.serve (a := .pop) (by simp [Ask.isPush])
          have hright := h.right.serve (a := .pop) (by simp [Ask.isPush])
          refine ⟨out ++ [p], waiting, [p], ?_, by rw [reply, reply, hp, hp']; rfl, by rw [handsOut, hp]; rfl,
            by rw [handsOut, hp']; rfl⟩
          rw [serve, hp] at hleft ⊢
          rw [serve, hp'] at hright ⊢
          have hall : (out ++ [p]) ++ waiting = out ++ p :: waiting := List.append_assoc _ _ _
          refine ⟨hleft, hright, h.window, ?_, ⟨rfl, rfl⟩, hall ▸ h.records, ?_, ?_⟩
          · rw [h.inflight.1, h.inflight.2, List.map_append, List.map_append]
            exact ⟨rfl, rfl⟩
          · rw [hall]
            intro d hd r hr
            rcases List.mem_append.1 hd with hd | hd
            · exact h.told d hd r hr
            · rw [List.mem_singleton.1 hd]
              exact h.pair_eq hr hmem
          · intro d hd
            rcases List.mem_append.1 hd with hd | hd
            · exact h.past d hd
            · rw [List.mem_singleton.1 hd]
              exact h.below hmem

/-- What is asked of both by a turn, they answer alike and stay alike. -/
theorem serve (h : Alike out waiting handed q k q' k') {t : Turn} {a a' : Ask} (ha : t.ask (handed.map (·.1)) = some a)
    (ha' : t.ask (handed.map (·.2)) = some a') (hroom : a.isPush = true → q.next.toNat + 1 < 2 ^ 64)
    (hroom' : a'.isPush = true → q'.next.toNat + 1 < 2 ^ 64) : ∃ out' waiting' more,
    Alike out' waiting' (handed ++ more) (q.serve k a).1 (q.serve k a).2 (q'.serve k' a').1 (q'.serve k' a').2 ∧
    q'.reply k' a' = q.reply k a ∧
    (q.handsOut k a).toList = more.map (·.1) ∧ (q'.handsOut k' a').toList = more.map (·.2) := by
  cases t with
  | push m =>
    obtain rfl := Option.some.inj ha
    obtain rfl := Option.some.inj ha'
    exact ⟨_, _, [], by rw [List.append_nil]; exact h.push m (hroom rfl) (hroom' rfl), rfl, rfl, rfl⟩
  | pop =>
    obtain rfl := Option.some.inj ha
    obtain rfl := Option.some.inj ha'
    exact h.pop
  | requeue =>
    obtain rfl := Option.some.inj ha
    obtain rfl := Option.some.inj ha'
    exact ⟨_, _, [], by rw [List.append_nil]; exact h.requeue, rfl, rfl, rfl⟩
  | acknowledge place =>
    simp only [Turn.ask, List.getElem?_map, Option.map_map] at ha ha'
    obtain ⟨d, hd, rfl⟩ := Option.map_eq_some_iff.1 ha
    obtain ⟨d', hd', rfl⟩ := Option.map_eq_some_iff.1 ha'
    obtain rfl := Option.some.inj (hd.symm.trans hd')
    exact ⟨_, _, [], by rw [List.append_nil]; exact h.ack (List.mem_of_getElem? hd), rfl, rfl, rfl⟩

/-- No turns tell two queues apart that are alike. -/
theorem replies (h : Alike out waiting handed q k q' k') {turns : List Turn}
    (hroom : q.next.toNat + turns.countP Turn.isPush < 2 ^ 64)
    (hroom' : q'.next.toNat + turns.countP Turn.isPush < 2 ^ 64) :
    q'.replies k' (handed.map (·.2)) turns = q.replies k (handed.map (·.1)) turns := by
  induction turns generalizing q k q' k' out waiting handed with
  | nil => rfl
  | cons t turns ih =>
    rw [List.countP_cons] at hroom hroom'
    rw [DurableQueue.replies, DurableQueue.replies]
    rcases t.ask_pairs handed with ⟨ha, ha'⟩ | ⟨a, a', ha, ha', hpush, hpush'⟩ <;> rw [ha, ha']
    · exact ih h (by omega) (by omega)
    · obtain ⟨out', waiting', more, hafter, hreply, hmore, hmore'⟩ := h.serve ha ha'
        (fun hp => by rw [← hpush, if_pos hp] at hroom; omega) (fun hp => by rw [← hpush', if_pos hp] at hroom'; omega)
      have hnext := h.left.next_serve_le a
      have hnext' := h.right.next_serve_le a'
      rw [hpush] at hnext
      rw [hpush'] at hnext'
      have hrest := ih hafter (by omega) (by omega)
      rw [List.map_append, List.map_append, ← hmore, ← hmore'] at hrest
      show (q'.reply k' a').toList ++ _ = (q.reply k a).toList ++ _
      rw [hreply, hrest]

end Alike

/-! ## Recovering -/

theorem Holds.next_serveAll_le (h : q.Holds k) {asks : List Ask} (hroom : q.next.toNat + asks.countP Ask.isPush < 2 ^ 64) :
    (q.serveAll k asks).1.next.toNat ≤ q.next.toNat + asks.countP Ask.isPush := by
  induction asks generalizing q k with
  | nil => exact Nat.le_refl _
  | cons a asks ih =>
    obtain ⟨-, hserve, hrest⟩ := h.serve_cons hroom
    have hnext := h.next_serve_le a
    have hall := ih hserve hrest
    rw [List.countP_cons]
    rw [DurableQueue.serveAll]
    omega

/-- A queue is left open or closed over the records it has. -/
theorem close_left (q : DurableQueue) (k : Keyspace) (refused : Option String) : (q.close k false refused).2.1 = k := by
  unfold close
  split <;> rfl

/-- The numbers of a queue that takes back what is out are those of a queue opened over its records, one by one. -/
theorem Holds.alike_reopened (h : q.Holds k) (hroom : q.next.toNat < 2 ^ 64) {maxInflight : Nat}
    (hwindow : q.window = max maxInflight 1) :
    Alike [] ((q.bucket.sequences k).map fun s => (s, s)) [] q.requeue k
      (DurableQueue.new q.bucket maxInflight k) k := by
  have hbelow {s : UInt64} (hs : s ∈ q.bucket.sequences k) : s.toNat + 1 < 2 ^ 64 := by
    rw [← h.numbers] at hs
    have hlt := UInt64.lt_iff_toNat_lt.1 (h.below s hs)
    omega
  have hsame : ((q.bucket.sequences k).map fun s => (s, s)).map (·.1) = q.bucket.sequences k ∧
      ((q.bucket.sequences k).map fun s => (s, s)).map (·.2) = q.bucket.sequences k := by
    rw [List.map_map, List.map_map]
    exact ⟨List.map_id _, List.map_id _⟩
  refine ⟨h.requeue, .new (fun s hs => hbelow hs) maxInflight, hwindow.symm, ⟨rfl, rfl⟩, ?_, fun p hp => ?_, nofun, nofun⟩
  · rw [hsame.1, hsame.2]
    exact ⟨h.numbers, rfl⟩
  · obtain ⟨s, -, rfl⟩ := List.mem_map.1 hp
    rfl

/-- Whatever was pushed, handed out, acknowledged and requeued on a queue opened over a bucket: it may take
back what is out, or be left, closed or not, and flushed then or not, and another be opened over its records.
Then the same numbers are pending in the same order and nothing is out, and to the same turns both answer the
same from then on: the same messages in the same order, and nothing at the same places. Numbers stay below the
last there is. -/
theorem recovered_alike (bucket : Bucket) (maxInflight : Nat) (k₀ : Keyspace) (asks : List Ask) (turns : List Turn)
    (hstored : ∀ s ∈ bucket.sequences k₀,
      s.toNat + (asks.countP Ask.isPush + turns.countP Turn.isPush) < 2 ^ 64 - 1)
    (hpushes : asks.countP Ask.isPush + turns.countP Turn.isPush < 2 ^ 64 - 1) :
    let opened := new bucket maxInflight k₀
    let q := (opened.serveAll k₀ asks).1
    let k := (opened.serveAll k₀ asks).2
    ∀ left, left = k ∨ (∃ refused, left = (q.close k false refused).2.1) →
      let reopened := new bucket maxInflight left
      reopened.pending = q.requeue.pending ∧ q.requeue.inflight = [] ∧ reopened.inflight = [] ∧
      reopened.replies left [] turns = q.requeue.replies k [] turns := by
  intro opened q k left hleft
  obtain rfl : left = k := hleft.elim id fun ⟨refused, h⟩ => h.trans (close_left q k refused)
  have hholds : opened.Holds k₀ := .new (fun s hs => by have := hstored s hs; omega) maxInflight
  have hfirst : opened.next.toNat ≤ (2 ^ 64 - 2 - (asks.countP Ask.isPush + turns.countP Turn.isPush)) + 1 :=
    toNat_next_new_le (fun s hs => by have := hstored s hs; omega) maxInflight
  obtain ⟨hq, hbucket, hwindow⟩ : q.Holds k ∧ q.bucket = bucket ∧ q.window = max maxInflight 1 :=
    hholds.serveAll (by omega)
  have hnext : q.next.toNat ≤ opened.next.toNat + asks.countP Ask.isPush := hholds.next_serveAll_le (by omega)
  have halike := hq.alike_reopened (by omega) hwindow
  rw [hbucket] at halike
  intro reopened
  -- Opened anew, the queue counts on from the last record, which is no further than it had counted before.
  have hagain : reopened.next.toNat ≤ (q.next.toNat - 1) + 1 := toNat_next_new_le (fun s hs => by
    rw [← hbucket, ← hq.numbers] at hs
    have hlt := UInt64.lt_iff_toNat_lt.1 (hq.below s hs)
    omega) maxInflight
  refine ⟨?_, rfl, rfl, halike.replies ?_ ?_⟩
  · exact (hbucket ▸ hq.numbers).symm
  · show q.next.toNat + _ < _
    omega
  · show reopened.next.toNat + _ < _
    omega

/-- The last record is acknowledged before, so the queue opened anew stores under its number again where the
other counts on. Both redeliver the first message and then hand out what was pushed last. -/
theorem recovered_under_lower_number :
    let m (n : UInt8) : Message := { topic := "t", payload := [n], qos := .atLeastOnce }
    let bucket : Bucket := ⟨"c", by decide⟩
    let asks : List Ask := [.push (m 1), .push (m 2), .pop, .pop, .ack 2]
    let turns : List Turn :=
      [.pop, .push (m 3), .acknowledge 0, .pop, .requeue, .pop, .acknowledge 1, .acknowledge 2, .pop]
    let q := ((new bucket 2 .empty).serveAll .empty asks).1
    let k := ((new bucket 2 .empty).serveAll .empty asks).2
    let left := (q.close k false).2.1
    let reopened := new bucket 2 left
    q.requeue.next = 3 ∧ reopened.next = 2 ∧ reopened.pending = [1] ∧
      reopened.replies left [] turns = [.ok (some (m 1)), .ok (some (m 3)), .ok (some (m 3)), .ok none] := by
  intro m bucket asks turns q k left reopened
  have hstored : ∀ s ∈ bucket.sequences .empty,
      s.toNat + (asks.countP Ask.isPush + turns.countP Turn.isPush) < 2 ^ 64 - 1 := nofun
  obtain ⟨hpending, -, -, hreplies⟩ := recovered_alike bucket 2 .empty asks turns hstored (by decide) left (.inr ⟨none, rfl⟩)
  have hanswers : q.requeue.replies k [] turns = [.ok (some (m 1)), .ok (some (m 3)), .ok (some (m 3)), .ok none] := by
    decide +kernel
  exact ⟨by decide +kernel, by decide +kernel, hpending.trans (by decide +kernel), hreplies.trans hanswers⟩

end PubSub.DurableQueue
