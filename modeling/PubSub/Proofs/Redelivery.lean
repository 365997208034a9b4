import PubSub.Proofs.Acknowledging
import PubSub.Proofs.Durability
import PubSub.Proofs.Stored
/-!
# Redelivery

When a session's deliveries are taken back, their messages wait again before all others, and their numbers are
forgotten. What the session hands out from then on is what it owed, oldest first, and then what it takes, under
numbers that were never used (`redelivered_in_order`).
-/

namespace PubSub

/-- The operation takes back what a session has out. -/
def Op.TakesBack (r : SessionRef) (id : String) (op : Op) : Prop := op = .call r .requeue ∨ op = .disconnect id

namespace Ledger

/-! ## What is taken later -/

/-- The messages taken after the first ones. -/
def takenAfter (l : Ledger) (n : Nat) : List Message := (l.drop n).map (·.1)

variable {l l' : Ledger} {ms : List Message} {n : Nat}

theorem takenAfter_append (h : l'.map (·.1) = l.map (·.1) ++ ms) (hn : n ≤ l.length) :
    n ≤ l'.length ∧ l'.takenAfter n = l.takenAfter n ++ ms := by
  have hlength := congrArg List.length h
  rw [List.length_map, List.length_append, List.length_map] at hlength
  refine ⟨by omega, ?_⟩
  rw [takenAfter, takenAfter, List.map_drop, List.map_drop, h, List.drop_append_of_le_length (by rwa [List.length_map])]

theorem messages_deliver (d : Delivery) (l : Ledger) : (l.deliver d).map (·.1) = l.map (·.1) := by
  induction l with
  | nil => rfl
  | cons e l ih =>
    rw [deliver]
    split
    · next he => rw [he]; rfl
    · rw [List.map_cons, List.map_cons, ih]

/-- Only what is stored is new to a ledger. -/
theorem messages_afterJob (l : Ledger) (m : Mail) (k : Keyspace) (j : Job) :
    (l.afterJob m k j).map (·.1) = l.map (·.1) ++ j.stored?.toList := by
  have hnone {l' : Ledger} (h : l'.map (·.1) = l.map (·.1)) : l'.map (·.1) = l.map (·.1) ++ [] := by
    rw [h, List.append_nil]
  cases j with
  | store msg => exact List.map_append
  | next =>
    refine hnone ?_
    rw [afterJob]
    split
    · exact l.messages_deliver _
    · rfl
  | acknowledge id =>
    refine hnone ?_
    rw [afterJob, acknowledge, List.map_map]
    refine List.map_congr_left fun e _ => ?_
    by_cases he : e.2 = .out id <;> simp [he]
  | requeue | close =>
    refine hnone ?_
    rw [afterJob, recover, List.map_map]
    refine List.map_congr_left fun e _ => ?_
    by_cases he : e.2 = .settled <;> simp [he]

end Ledger

/-! ## What is handed out -/

/-- The delivery in an answer, if there is one. -/
def deliveryIn : Except QueueError (Option Delivery) → List Delivery
  | .ok (some d) => [d]
  | _ => []

namespace Mail

/-- What a job hands out. -/
def handed (m : Mail) (k : Keyspace) : Option Job → List Delivery
  | some .next => deliveryIn (m.next k).1
  | _ => []

theorem handed_of_ne {m : Mail} {k : Keyspace} {j : Option Job} (h : j ≠ some .next) : m.handed k j = [] := by
  unfold handed
  split
  · exact absurd rfl h
  · rfl

/-- The cache never changes which numbers it refuses. -/
theorem run_offset (m : Mail) (k : Keyspace) (j : Job) : (m.run k j).1.acks.offset = m.acks.offset := by
  cases j with
  | store msg =>
    cases hc : m.durable.closed with
    | true => rw [run_store_closed hc]
    | false => rw [run_store_open hc]
  | next =>
    show (m.next k).2.acks.offset = _
    unfold next
    split
    · next d _ _ _ =>
      dsimp only
      unfold AckCache.store
      by_cases hle : m.counter.next ≤ m.acks.offset
      · rw [if_pos hle]
      · rw [if_neg hle]
    · rfl
  | acknowledge id =>
    cases h : m.acks.remove id with
    | error e => rw [run_acknowledge_error h]
    | ok found =>
      rw [run_acknowledge_ok h]
      show found.2.offset = _
      rw [(AckCache.remove_eq_ok_iff.1 h).2.2]
  | requeue => rfl
  | close clean => rfl

theorem runs_offset (m : Mail) (k : Keyspace) (j : Option Job) : (m.runs k j).1.acks.offset = m.acks.offset := by
  cases j with
  | none => rfl
  | some j => exact m.run_offset k j

end Mail

namespace Mirrors

variable {k : Keyspace} {m : Mail} {out : List (UInt64 × Stored)} {waiting : List Stored} {j : Option Job}

/-- A number is taken when something is handed out, and only then. -/
theorem handed_cases (h : Mirrors (m.durable.bucket.contents k) m out waiting) (hspare : ∀ i, j = some i → m.Spare k i) :
    (m.handed k j = [] ∧ (m.runs k j).1.counter = m.counter) ∨
      ∃ msg, m.handed k j = [⟨m.counter.next, msg⟩] ∧ m.counter.next < (m.runs k j).1.counter.next := by
  cases j with
  | none => exact .inl ⟨rfl, rfl⟩
  | some j =>
    by_cases hnext : j = .next
    · subst hnext
      show (deliveryIn (m.next k).1 = [] ∧ (m.next k).2.counter = m.counter) ∨
        ∃ msg, deliveryIn (m.next k).1 = _ ∧ m.counter.next < (m.next k).2.counter.next
      rcases h.next_cases (hspare _ rfl) with hnone | ⟨s, rest, -, -, hresult, hafter⟩
      · rw [hnone]
        exact .inl ⟨rfl, rfl⟩
      · rw [hresult]
        exact .inr ⟨s.message, rfl, hafter.ids _ (List.mem_append_right _ (List.mem_singleton.2 rfl))⟩
    · exact .inl ⟨Mail.handed_of_ne fun h => hnext (Option.some.inj h), m.run_counter k j hnext⟩

/-- Unless it is taken back, what waits is handed out in order, and what is stored waits behind it. -/
theorem handed_runs (h : Mirrors (m.durable.bucket.contents k) m out waiting) (hspare : ∀ i, j = some i → m.Spare k i)
    (hfit : ∀ msg, j = some (.store msg) → msg.Fits) (hopen : ∀ clean, j ≠ some (.close clean))
    (hstay : j ≠ some .requeue) :
    ∃ out' waiting', Mirrors ((m.runs k j).1.durable.bucket.contents (m.runs k j).2) (m.runs k j).1 out' waiting' ∧
      waiting.map (·.message) ++ (j.bind Job.stored?).toList
        = (m.handed k j).map (·.message) ++ waiting'.map (·.message) ∧
      ∀ o ∈ out', o ∈ out ∨ o.1 ∈ (m.handed k j).map (·.id) := by
  cases j with
  | none => exact ⟨out, waiting, h, List.append_nil _, fun o ho => .inl ho⟩
  | some j =>
    cases j with
    | store msg =>
      exact ⟨out, _, h.store (hfit msg rfl) (hspare _ rfl), by simp [Mail.handed, Job.stored?], fun o ho => .inl ho⟩
    | next =>
      show ∃ out' waiting', Mirrors ((m.next k).2.durable.bucket.contents k) (m.next k).2 out' waiting' ∧
        waiting.map (·.message) ++ [] = (deliveryIn (m.next k).1).map (·.message) ++ waiting'.map (·.message) ∧
        ∀ o ∈ out', o ∈ out ∨ o.1 ∈ (deliveryIn (m.next k).1).map (·.id)
      rw [List.append_nil]
      rcases h.next_cases (hspare _ rfl) with hnone | ⟨s, rest, rfl, -, hresult, hafter⟩
      · rw [hnone]
        exact ⟨out, waiting, h, rfl, fun o ho => .inl ho⟩
      · rw [hresult]
        refine ⟨_, rest, hafter, rfl, fun o ho => (List.mem_append.1 ho).imp_right fun ho => ?_⟩
        rw [List.mem_singleton.1 ho]
        exact List.mem_singleton.2 rfl
    | acknowledge id =>
      exact ⟨_, waiting, h.acknowledge id, List.append_nil _, fun o ho => .inl (List.mem_of_mem_filter ho)⟩
    | requeue => exact absurd rfl hstay
    | close clean => exact absurd rfl (hopen clean)

end Mirrors

/-- Since deliveries were last taken back, with a ledger as it was then: what was owed and what was taken since is
what was handed out since, and then what waits. Nothing is out that was not handed out since. -/
structure Resumed (l : Ledger) (c : OrderedMap UInt64 Bytes) (m : Mail) (x : Ledger × List Delivery) : Prop where
  taken : l.length ≤ x.1.length
  held : ∃ out waiting, Mirrors c m out waiting ∧
    l.owed ++ x.1.takenAfter l.length = x.2.map (·.message) ++ waiting.map (·.message) ∧
    ∀ o ∈ out, o.1 ∈ x.2.map (·.id)

theorem Resumed.runs {l : Ledger} {k : Keyspace} {m : Mail} {x : Ledger × List Delivery} {j : Option Job}
    (h : Resumed l (m.durable.bucket.contents k) m x) (hspare : ∀ i, j = some i → m.Spare k i)
    (hfit : ∀ msg, j = some (.store msg) → msg.Fits) (hopen : ∀ clean, j ≠ some (.close clean))
    (hstay : j ≠ some .requeue) :
    Resumed l ((m.runs k j).1.durable.bucket.contents (m.runs k j).2) (m.runs k j).1
      (j.elim x.1 (x.1.afterJob m k), x.2 ++ m.handed k j) := by
  obtain ⟨htaken, out, waiting, hm, heq, hout⟩ := h
  obtain ⟨out', waiting', hm', heq', hout'⟩ := hm.handed_runs hspare hfit hopen hstay
  have hmessages : (j.elim x.1 (x.1.afterJob m k)).map (·.1) = x.1.map (·.1) ++ (j.bind Job.stored?).toList := by
    cases j with
    | none => exact (List.append_nil _).symm
    | some j => exact x.1.messages_afterJob m k j
  obtain ⟨htaken', hafter⟩ := Ledger.takenAfter_append hmessages htaken
  refine ⟨htaken', out', waiting', hm', ?_, fun o ho => ?_⟩
  · rw [hafter, ← List.append_assoc, heq, List.append_assoc, heq', ← List.append_assoc, List.map_append]
  · rw [List.map_append]
    exact List.mem_append.2 ((hout' o ho).imp_left (hout o))

namespace Broker

variable {first b b' : Broker} {r : SessionRef} {s s' : Session} {op : Op} {ops later : List Op} {bucket : Bucket}
  {l : Ledger}

/-- What an operation hands out of a session. -/
def handed (b : Broker) (r : SessionRef) : Op → List Delivery
  | .call q .nextGuaranteed => if q = r then deliveryIn (b.nextGuaranteed r).1 else []
  | _ => []

/-- The deliveries of a session, in order. -/
def delivered (r : SessionRef) (first : Broker) (ops : List Op) : List Delivery :=
  along (fun b ds op => ds ++ b.handed r op) first [] ops

theorem delivered_append (r : SessionRef) (first : Broker) (ops later : List Op) :
    delivered r first (ops ++ later) = delivered r first ops ++ delivered r (ops.foldl step first) later := by
  have hshift : along (fun b ds op => ds ++ b.handed r op) (ops.foldl step first) (delivered r first ops ++ []) later
      = delivered r first ops ++ delivered r (ops.foldl step first) later :=
    along_map (f := (delivered r first ops ++ ·)) (fun _ _ _ => List.append_assoc _ _ _) _ _ _
  rw [List.append_nil] at hshift
  exact (along_append _ first [] ops later).trans hshift

theorem handed_of_takesBack {id : String} (h : op.TakesBack r id) (b : Broker) : b.handed r op = [] := by
  rcases h with rfl | rfl <;> rfl

theorem deliveries_append (r : SessionRef) (first : Broker) (ops later : List Op) :
    deliveries r first (ops ++ later) = deliveries r first ops + deliveries r (ops.foldl step first) later :=
  (along_append _ first 0 ops later).trans (along_map (f := (deliveries r first ops + ·)) (fun _ _ _ => Nat.add_assoc _ _ _)
    (ops.foldl step first) 0 later)

/-! ## What an operation does -/

namespace Served

theorem handed (h : Served r b op s s') : b.handed r op = s.mail.handed b.store.queue (b.asked r s op) := by
  by_cases hop : op = .call r .nextGuaranteed
  · subst hop
    rw [asked, if_pos rfl, Broker.handed, if_pos rfl, (nextGuaranteed_spec h.session).1]
    rfl
  · -- Nothing else hands out, and nothing else asks for it.
    have hnone : b.handed r op = [] := by
      unfold Broker.handed
      split
      · next q => exact if_neg fun hq => hop (by rw [hq])
      · rfl
    rw [hnone, Mail.handed_of_ne fun hnext => ?_]
    rcases of_asked hnext with ⟨m, -, hj⟩ | ⟨c, rfl, hj⟩ | ⟨-, hj⟩ | ⟨clean, hj⟩
    · cases hj
    · exact hop (by rw [Session.job?_eq_next.1 hj])
    · cases hj
    · cases hj

/-- The ledger of the client is that of the session. -/
theorem noted (h : Served r b op s s') (l : Ledger) :
    b.noted s.info.id l op = (b.asked r s op).elim l (l.afterJob s.mail b.store.queue) := by
  cases op with
  | connect info => rw [h.asked_connect]; rfl
  | disconnect id =>
    rw [h.asked_disconnect, Broker.noted]
    by_cases hid : id = s.info.id
    · rw [if_pos hid, if_pos hid]
      rfl
    · rw [if_neg hid, if_neg hid]
      rfl
  | route m =>
    rw [asked, Broker.noted]
    cases hfind : (b.exchange.targets m.topic).find? (·.id = s.info.id) with
    | none => rfl
    | some t =>
      dsimp only
      rcases target_eq_or_refuses h.sound h.session h.opened hfind with rfl | ⟨hne, o, ho, hrefuses⟩
      · rw [stored, h.session, Option.map_some, Option.getD_some]
        by_cases haccepts : s.accepts m = true
        · rw [if_pos haccepts, if_pos ⟨rfl, haccepts⟩]
          rfl
        · rw [if_neg haccepts, if_neg fun h => haccepts h.2]
          rfl
      · rw [stored, ho, Option.map_some, Option.getD_some, if_neg hrefuses, if_neg fun h => hne h.1]
        rfl
  | call q c =>
    rw [asked, Broker.noted, h.registered]
    by_cases hq : q = r
    · subst hq
      rw [if_pos rfl, if_pos rfl]
      cases c with
      | push m =>
        rw [called, stored, h.session, Option.map_some, Option.getD_some, Session.job?]
        split <;> rfl
      | nextGuaranteed =>
        rw [called, (nextGuaranteed_spec h.session).1]
        rfl
      | close => exact absurd (if_pos rfl) (h.stays s.info.clean)
      | _ => rfl
    · rw [if_neg hq, if_neg fun hr => hq (Option.some.inj hr).symm]
      rfl
  | close => exact absurd rfl (h.stays s.info.clean)
  | reopen settings orderly => exact absurd rfl (h.ongoing settings orderly)

theorem takesBack (h : b.asked r s op = some .requeue) : op.TakesBack r s.info.id := by
  rcases of_asked h with ⟨m, -, hj⟩ | ⟨c, rfl, hj⟩ | ⟨rfl, -⟩ | ⟨clean, hj⟩
  · cases hj
  · cases c with
    | requeue => exact .inl rfl
    | push m =>
      rw [Session.job?] at hj
      split at hj <;> cases hj
    | _ => cases hj
  · exact .inr rfl
  · cases hj

end Served

/-! ## Along a run -/

/-- The mail of an open session agrees with the ledger of its client. -/
theorem Run.agrees (h : Run (Alone r) first ops b) (hmade : Made first r bucket)
    (hn : deliveries r first ops < 2 ^ 64 - 2) (hs : b.session? r = some s) (hopen : s.durable.closed = false) :
    Agrees (s.durable.bucket.contents b.store.queue) s.mail
      (ledger bucket.name first (bucket.resting first.store.queue) ops) := by
  obtain ⟨waiting, hlive, hfirst⟩ := hmade.mirrors
  refine (h.alone (fun _ _ hop => hop) (f := fun b l op => b.noted bucket.name l op)
    (I := fun c m l => m.durable.bucket = bucket ∧ Agrees c m l) hmade.inStep (by omega)
    (fun t ht _ => ⟨hmade.bucket_eq ht, [], waiting, hfirst t ht, hlive⟩) ?_ hs hopen).2
  rintro b op s s' l - hserved ⟨hbucket, hagrees⟩
  refine ⟨(s.mail.runs_bucket _ _).trans hbucket, ?_⟩
  have hid : s.info.id = bucket.name := (hserved.sound.named hserved.session).symm.trans (congrArg Bucket.name hbucket)
  rw [← hid, hserved.noted]
  cases hj : b.asked r s op with
  | none => exact hagrees
  | some j =>
    exact hagrees.run (fun m hm => hserved.fits m (by rw [hj, hm])) (hserved.spare j hj)
      fun clean hclean => hserved.stays clean (by rw [hj, hclean])

/-- Numbers of deliveries ascend, between the offset of the cache and the number that is next. -/
theorem Run.delivered_ids (h : Run (Alone r) first ops b) (hmade : Made first r bucket)
    (hn : deliveries r first ops < 2 ^ 64 - 2) (hs : b.session? r = some s) (hopen : s.durable.closed = false) :
    ((delivered r first ops).map (·.id)).Pairwise (· < ·) ∧
      ∀ d ∈ delivered r first ops, s.acks.offset < d.id ∧ d.id < s.counter.next := by
  obtain ⟨waiting, -, hfirst⟩ := hmade.mirrors
  refine (h.alone (fun _ _ hop => hop) (f := fun b ds op => ds ++ b.handed r op) (I := fun c m ds =>
    (∃ out waiting, Mirrors c m out waiting) ∧ (ds.map (·.id)).Pairwise (· < ·) ∧
      ∀ d ∈ ds, m.acks.offset < d.id ∧ d.id < m.counter.next) hmade.inStep (by omega)
    (fun t ht _ => ⟨⟨[], waiting, hfirst t ht⟩, .nil, fun d hd => absurd hd List.not_mem_nil⟩) ?_ hs hopen).2
  rintro b op s s' ds - hserved ⟨⟨out, waiting, hm⟩, hasc, hbetween⟩
  obtain ⟨waiting', hm'⟩ := hm.awaits hserved.spare hserved.fits hserved.stays
  refine ⟨⟨_, waiting', hm'⟩, ?_⟩
  rw [hserved.handed, s.mail.runs_offset]
  rcases hm.handed_cases hserved.spare with ⟨hnone, hcounter⟩ | ⟨msg, hone, hlt⟩
  · rw [hnone, List.append_nil, hcounter]
    exact ⟨hasc, hbetween⟩
  · rw [hone, List.map_append]
    refine ⟨List.pairwise_append.2 ⟨hasc, List.pairwise_singleton _ _, fun id hid id' hid' => ?_⟩, fun d hd => ?_⟩
    · obtain ⟨d, hd, rfl⟩ := List.mem_map.1 hid
      rw [List.mem_singleton.1 hid']
      exact (hbetween d hd).2
    · rcases List.mem_append.1 hd with hd | hd
      · exact ⟨(hbetween d hd).1, UInt64.lt_trans (hbetween d hd).2 hlt⟩
      · rw [List.mem_singleton.1 hd]
        exact ⟨hm.ahead, hlt⟩

/-- What a session with nothing out does from then on, as long as nothing is taken back. -/
theorem Run.resumed {n w : Nat} (h : Run (fun b op => Alone r b op ∧ ¬ op.TakesBack r bucket.name) first ops b)
    (hfirst : InStep r n w first) (hn : n + deliveries r first ops < 2 ^ 64 - 2)
    (hbase : ∀ s, first.session? r = some s → s.durable.closed = false → s.durable.bucket = bucket ∧
      ∃ waiting, Mirrors (s.durable.bucket.contents first.store.queue) s.mail [] waiting ∧
        l.owed = waiting.map (·.message))
    (hs : b.session? r = some s) (hopen : s.durable.closed = false) :
    Resumed l (s.durable.bucket.contents b.store.queue) s.mail (ledger bucket.name first l ops, delivered r first ops) := by
  have hnotes := along_prod (fun b l op => b.noted bucket.name l op) (fun b ds op => ds ++ b.handed r op) first l [] ops
  have hall := h.alone (fun _ _ hop => hop.1)
    (f := fun b x op => (b.noted bucket.name x.1 op, x.2 ++ b.handed r op))
    (I := fun c m x => m.durable.bucket = bucket ∧ Resumed l c m x) (x := (l, [])) hfirst hn (fun t ht htopen => ?_) ?_
    hs hopen
  · rw [hnotes] at hall
    exact hall.2
  · obtain ⟨hbucket, waiting, hm, howed⟩ := hbase t ht htopen
    refine ⟨hbucket, le_rfl, [], waiting, hm, ?_, nofun⟩
    rw [Ledger.takenAfter, List.drop_length, howed, List.map_nil, List.append_nil]
    rfl
  · rintro b op s s' x ⟨-, hback⟩ hserved ⟨hbucket, hresumed⟩
    refine ⟨(s.mail.runs_bucket _ _).trans hbucket, ?_⟩
    have hid : s.info.id = bucket.name := (hserved.sound.named hserved.session).symm.trans (congrArg Bucket.name hbucket)
    rw [← hid, hserved.noted, hserved.handed]
    exact hresumed.runs hserved.spare hserved.fits hserved.stays fun hj => hback (hid ▸ Served.takesBack hj)

/-! ## Taking back -/

theorem requeue_eq (hs : b.session? r = some s) : b.requeue r
    = (b.setSession r { s with durable := s.durable.requeue, acks := s.acks.clear.2 }).report
        (if s.acks.clear.1 = 0 then [] else [.requeued s.id s.acks.clear.1]) := by
  rw [requeue, hs]

theorem requeue_absent (hs : b.session? r = none) : b.requeue r = b := by
  rw [requeue, hs]

/-- Taking back twice is taking back once. -/
theorem requeue_requeue (b : Broker) (r : SessionRef) : (b.requeue r).requeue r = b.requeue r := by
  cases hs : b.session? r with
  | none => rw [requeue_absent hs, requeue_absent hs]
  | some s =>
    have hs' : (b.requeue r).session? r = some { s with durable := s.durable.requeue, acks := s.acks.clear.2 } := by
      rw [requeue_eq hs]
      exact session?_setSession_self hs
    -- The second time nothing is out and nothing is forgotten.
    calc (b.requeue r).requeue r
      _ = ((b.requeue r).setSession r { s with durable := s.durable.requeue, acks := s.acks.clear.2 }).report [] :=
        requeue_eq hs'
      _ = (b.requeue r).report [] := by rw [setSession_self hs']
      _ = b.requeue r := by rw [report, List.append_nil]

/-- After an operation that takes back, all that is owed waits. -/
theorem Run.taken_back (h : Run (Alone r) first (ops ++ [op]) b) (hmade : Made first r bucket)
    (hn : deliveries r first (ops ++ [op]) < 2 ^ 64 - 2) (hop : op.TakesBack r bucket.name) (hs : b.session? r = some s)
    (hopen : s.durable.closed = false) :
    let l := ledger bucket.name first (bucket.resting first.store.queue) ops
    ledger bucket.name first (bucket.resting first.store.queue) (ops ++ [op]) = l.recover ∧
      ∃ waiting, Mirrors (s.durable.bucket.contents b.store.queue) s.mail [] waiting ∧
        l.owed = waiting.map (·.message) := by
  intro l
  have hbucket := h.bucket_eq hmade hn hs hopen
  obtain ⟨out, waiting, hm, hl⟩ := h.agrees hmade hn hs hopen
  obtain ⟨hsound, -⟩ := (h.mono fun _ _ h => h.1).inStep hmade.inStep hn
  have hregistered : b.registry.get? bucket.name = some r := by
    rw [← hbucket, hsound.named hs]
    exact hsound.opened hs hopen
  have hledger : ledger bucket.name first (bucket.resting first.store.queue) (ops ++ [op]) = l.recover := by
    have hstate : (ops.foldl Broker.step first).step op = b := by
      rw [← h.foldl_eq, List.foldl_append]
      rfl
    have hnoted : ledger bucket.name first (bucket.resting first.store.queue) (ops ++ [op])
        = (ops.foldl Broker.step first).noted bucket.name l op := along_append (fun b l op => b.noted bucket.name l op) _ _ _ _
    rw [hnoted]
    rcases hop with rfl | rfl
    · rw [← hstate] at hregistered
      exact if_pos ((congrArg (·.get? bucket.name) (registry_perform _ r .requeue)).symm.trans hregistered)
    · exact if_pos rfl
  rw [hledger] at hl
  obtain rfl := Ledger.none_out hl
  exact ⟨hledger, waiting, hm, l.owed_recover.symm.trans (Ledger.owed_of_live hl)⟩

/-- A session alone with its bucket since it was made. Its deliveries have ascending numbers, which are above the
offset of the cache and below the number that is next. Take any operation of the run that takes deliveries back and
after which none are taken back again. What was handed out since are the messages that were owed then, oldest first,
and behind them those that were taken since; the next one is handed out if the window has a place. The numbers of
deliveries before strike nothing any more. Taking back twice is taking back once. -/
theorem redelivered_in_order (hmade : Made first r bucket) (hrun : Run (Alone r) first ops b)
    (hdeliveries : deliveries r first ops < 2 ^ 64 - 2) (hs : b.session? r = some s) (hopen : s.durable.closed = false) :
    ((delivered r first ops).map (·.id)).Pairwise (· < ·) ∧
    (∀ d ∈ delivered r first ops, s.acks.offset < d.id ∧ d.id < s.counter.next) ∧
    (∀ pre op post, ops = pre ++ op :: post → op.TakesBack r bucket.name →
      (∀ later ∈ post, ¬ later.TakesBack r bucket.name) →
      let before := ledger bucket.name first (bucket.resting first.store.queue) pre
      let due := before.owed ++ (ledger bucket.name first (bucket.resting first.store.queue) ops).takenAfter before.length
      let since := delivered r ((pre ++ [op]).foldl step first) post
      delivered r first ops = delivered r first pre ++ since ∧ since.map (·.message) <+: due ∧
      (b.nextGuaranteed r).1 = .ok (if (awaiting r first ops).length < first.settings.maxGuaranteed
        then due[since.length]?.map (⟨s.counter.next, ·⟩) else none) ∧
      ∀ d ∈ delivered r first pre, ∃ ns, b.acknowledge r d.id = b.report ns) ∧
    (b.requeue r).requeue r = b.requeue r := by
  obtain ⟨hasc, hbetween⟩ := hrun.delivered_ids hmade hdeliveries hs hopen
  refine ⟨hasc, hbetween, ?_, b.requeue_requeue r⟩
  intro pre op post hops hback hnone before due since
  rw [List.append_cons] at hops
  subst hops
  obtain ⟨hbefore, hafter⟩ := hrun.split
  have hcount := deliveries_append r first (pre ++ [op]) post
  have hmid : InStep r (deliveries r first (pre ++ [op])) first.settings.maxGuaranteed ((pre ++ [op]).foldl step first) :=
    (hbefore.mono fun _ _ h => h.1).inStep hmade.inStep (by omega)
  -- The session was open when its deliveries were taken back.
  obtain ⟨t, ht, htopen⟩ := hafter.opened hmid (by omega) hs hopen
  obtain ⟨hledger, waiting, hm, howed⟩ := hbefore.taken_back hmade (by omega) hback ht htopen
  obtain ⟨-, out, rest, hm', hdue, hout⟩ := (hafter.and_of_forall hnone).resumed (l := before.recover) hmid (by omega)
    (fun u hu _ => by
      obtain rfl := Option.some.inj (ht.symm.trans hu)
      exact ⟨hbefore.bucket_eq hmade (by omega) ht htopen, waiting, hm, before.owed_recover.trans howed⟩) hs hopen
  have hlater : ledger bucket.name first (bucket.resting first.store.queue) (pre ++ [op] ++ post)
      = ledger bucket.name ((pre ++ [op]).foldl step first) before.recover post := by
    rw [← hledger]
    exact along_append (fun b l op => b.noted bucket.name l op) _ _ _ _
  replace hdue : due = since.map (·.message) ++ rest.map (·.message) := by
    rw [← hdue, before.owed_recover, Ledger.recover, List.length_map, ← Ledger.recover, ← hlater]
  have hdelivered : delivered r first (pre ++ [op] ++ post) = delivered r first pre ++ since := by
    have hone : delivered r (pre.foldl step first) [op] = [] := handed_of_takesBack hback _
    rw [delivered_append, delivered_append, hone, List.append_nil]
  refine ⟨hdelivered, ⟨rest.map (·.message), hdue.symm⟩, ?_, fun d hd => ?_⟩
  · obtain ⟨rest', hawaiting⟩ := hrun.awaiting hmade hdeliveries hs hopen
    have hlength : out.length = (awaiting r first (pre ++ [op] ++ post)).length := by
      simpa using congrArg List.length (hm'.inflight.symm.trans hawaiting.inflight)
    have hwindow : s.mail.durable.window = first.settings.maxGuaranteed := by
      obtain ⟨u, hu, hcounted⟩ := ((hrun.mono fun _ _ h => h.1).inStep hmade.inStep hdeliveries).session
      obtain rfl := Option.some.inj (hs.symm.trans hu)
      exact (hcounted hopen).window
    have hhead : due[since.length]? = (rest.map (·.message)).head? := by
      rw [hdue, List.getElem?_append_right (List.length_map _).le, List.length_map, Nat.sub_self, List.head?_eq_getElem?]
    rw [(nextGuaranteed_spec hs).1, hm'.next_answer, hlength, hwindow, hhead, List.head?_map, Option.map_map]
    rfl
  · -- What is out was handed out since, under numbers above those of before.
    rw [hdelivered, List.map_append] at hasc
    have hother : ∀ o ∈ out, o.1 ≠ d.id := fun o ho =>
      (UInt64.ne_of_lt ((List.pairwise_append.1 hasc).2.2 d.id (List.mem_map_of_mem hd) o.1 (hout o ho))).symm
    obtain ⟨e, he⟩ := hm'.remove_of_notMem hother
    exact ⟨_, acknowledge_of_error hs he⟩

/-- Two of three messages are handed out and the first is acknowledged before the client goes and comes back. The second
is handed out again and the third is next; the number the second had before strikes nothing. -/
theorem redelivered_after_reconnect :
    let m (n : UInt8) : Message := { topic := "t", payload := [n], qos := .atLeastOnce }
    let first := (start { maxGuaranteed := 2 }).step (.connect { id := "c" })
    let pre : List Op := [.call 0 (.subscribe [⟨"t", .atLeastOnce⟩] none), .route (m 1), .call 0 (.push (m 2)),
      .call 0 .nextGuaranteed, .call 0 .nextGuaranteed, .call 0 (.acknowledge 2)]
    let post : List Op := [.connect { id := "c" }, .route (m 3), .call 0 .nextGuaranteed]
    let b := (pre ++ .disconnect "c" :: post).foldl step first
    (delivered 0 first (pre ++ .disconnect "c" :: post)).map (·.id) = [2, 3, 4] ∧
      (delivered 0 ((pre ++ [Op.disconnect "c"]).foldl step first) post).map (·.message) = [m 2] ∧
      (b.nextGuaranteed 0).1 = .ok (some ⟨5, m 3⟩) ∧ ∃ ns, b.acknowledge 0 3 = b.report ns := by
  intro m first pre post b
  let bucket : Bucket := ⟨"c", by decide⟩
  have hmade : Made first 0 bucket :=
    .of_connect (b := start { maxGuaranteed := 2 }) ⟨{ maxGuaranteed := 2 }, [], by decide, .nil⟩ (by decide +kernel) rfl
      (by rw [show bucket.sequences (start { maxGuaranteed := 2 }).store.queue = [] by decide +kernel]; nofun)
  have hrun : Run (Alone 0) first (pre ++ .disconnect "c" :: post) b := run_of_permits (by decide +kernel)
  let s := (b.session? 0).get (by decide +kernel)
  have hs : b.session? 0 = some s := (Option.some_get _).symm
  have hnone : ∀ later ∈ post, ¬ later.TakesBack 0 "c" := by simp [post, Op.TakesBack]
  obtain ⟨-, -, hsince, -⟩ := redelivered_in_order hmade hrun (by decide +kernel) hs (by decide +kernel)
  obtain ⟨-, -, hnext, hold⟩ := hsince pre (.disconnect "c") post rfl (.inr rfl) hnone
  exact ⟨by decide +kernel, by decide +kernel, hnext.trans (congrArg Except.ok (by decide +kernel)),
    hold ⟨3, m 2⟩ (by decide +kernel)⟩

end Broker

end PubSub
