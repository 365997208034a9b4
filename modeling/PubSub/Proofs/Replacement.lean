import PubSub.Proofs.Durability
/-!
# What a replaced session can still do

A session that was replaced is closed, but it remembers the numbers it handed out, and its bucket is its
successor's now. A call on it leaves the successor alone and strikes at most one record: that of a number
it still remembers, when that number is acknowledged (`contents_perform`). Where nothing is struck so, the
successor keeps every message until it is acknowledged (`late_calls`).
-/

namespace PubSub

/-- The record a call on a session strikes: the one of a delivery that is acknowledged. -/
def Session.strikes (s : Session) : Call → Option UInt64
  | .acknowledge id =>
    match s.acks.remove id with
    | .ok (seq, _) => some seq
    | .error _ => none
  | _ => none

/-- The records without one that is struck. -/
def Bucket.struck (b : Bucket) (k : Keyspace) : Option UInt64 → OrderedMap UInt64 Bytes
  | none => b.contents k
  | some seq => (b.contents k).erase seq

/-- The ledger of a client whose records are all waiting. -/
def Bucket.resting (b : Bucket) (k : Keyspace) : Ledger :=
  (b.sequences k).filterMap fun seq =>
    match b.read k Binary.readMessage seq with
    | .ok (some m) => some (m, .waiting)
    | _ => none

namespace Broker

variable {b b' : Broker} {bucket : Bucket} {l : Ledger} {r q : SessionRef} {s o : Session} {info : Info} {n : Nat}
  {settings : Settings} {op : Op}

/-! ## Late calls -/

/-- A call on a session that is not registered strikes what it acknowledges, and nothing else. -/
theorem contents_perform (hb : Sound b) (ho : b.session? q = some o) (hid : o.info.id = bucket.name)
    (hfree : b.registry.get? bucket.name ≠ some q) (c : Call) :
    bucket.contents (b.perform q c).store.queue = bucket.struck b.store.queue (o.strikes c) := by
  have hclosed : o.mail.durable.closed = true := hb.closed ho (hid ▸ hfree)
  have hbucket : o.mail.durable.bucket = bucket := bucket.eq_of_name ((hb.named ho).trans hid)
  obtain ⟨hdone, hidle⟩ := perform_spec ho c
  have hjob {j : Job} (hj : o.job? c = some j) : (b.perform q c).store.queue = (o.mail.run b.store.queue j).2 := by
    obtain ⟨o', -, hrun⟩ := (hdone j hj).mail o ho
    exact congrArg Prod.snd hrun
  by_cases hack : ∃ id, c = .acknowledge id
  · obtain ⟨id, rfl⟩ := hack
    rw [hjob (j := .acknowledge id) rfl]
    unfold Session.strikes
    dsimp only
    cases hremove : o.mail.acks.remove id with
    | error e =>
      rw [Mail.run_acknowledge_error hremove, show o.acks.remove id = .error e from hremove]
      rfl
    | ok found =>
      rw [Mail.run_acknowledge_ok hremove, show o.acks.remove id = .ok found from hremove, hbucket, Bucket.contents_delete]
      rfl
  · have hnone : o.strikes c = none := by
      cases c with
      | acknowledge id => exact absurd ⟨id, rfl⟩ hack
      | _ => rfl
    rw [hnone]
    show bucket.contents (b.perform q c).store.queue = bucket.contents b.store.queue
    cases hj : o.job? c with
    | none => rw [(hidle hj).records]
    | some j =>
      rw [hjob hj]
      -- The queue is closed: nothing is stored, and closing again deletes nothing.
      rcases o.mail.run_records b.store.queue j with heq | ⟨_, -, hopen, -⟩ | ⟨id, seq, acks, rfl, -, -⟩ | ⟨-, hopen, -⟩
      · rw [heq]
      · rw [hclosed] at hopen
        cases hopen
      · cases c <;> simp [Session.job?] at hj
        exact absurd ⟨_, rfl⟩ hack
      · rw [hclosed] at hopen
        cases hopen

/-! ## The successor's time -/

/-- Operations that leave the client its session `r`, and strike none of its records behind its back. -/
def Attends (bucket : Bucket) (r : SessionRef) (b : Broker) (op : Op) : Prop :=
  op.Fits ∧ match op with
  | .connect info => info.id = bucket.name → info.clean = false
  | .disconnect id => id = bucket.name → ∀ s, b.session? r = some s → s.info.clean = false
  | .route _ => True
  | .call q c =>
    if q = r then c ≠ .close
    else ∀ o, b.session? q = some o → o.info.id = bucket.name → ∀ seq, o.strikes c = some seq →
      bucket.get? b.store.queue seq = none
  | .close | .reopen _ _ => False

theorem Attends.configured (h : Attends bucket r b op) : op.Configured := by
  cases op with
  | reopen settings orderly => exact absurd h.2 id
  | _ => trivial

/-- A late call that strikes nothing leaves the ledger as it is. -/
theorem Keeps.late (h : Keeps bucket b l) (hb : Sound b) (hr : b.registry.get? bucket.name = some r) (hq : q ≠ r)
    {c : Call}
    (hnone : ∀ o, b.session? q = some o → o.info.id = bucket.name → ∀ seq, o.strikes c = some seq →
      bucket.get? b.store.queue seq = none) : Keeps bucket (b.perform q c) l := by
  by_cases hid : ∃ o, b.session? q = some o ∧ o.info.id = bucket.name
  · obtain ⟨o, ho, hid⟩ := hid
    have hfree : b.registry.get? bucket.name ≠ some q := fun hq' => hq (Option.some.inj (hq'.symm.trans hr))
    have hcontents : bucket.contents (b.perform q c).store.queue = bucket.contents b.store.queue := by
      rw [contents_perform hb ho hid hfree c]
      cases hs : o.strikes c with
      | none => rfl
      | some seq =>
        apply OrderedMap.ext_get?
        intro t
        rw [Bucket.struck, OrderedMap.get?_erase]
        -- What is struck was not there, so the records are the same.
        split
        · next ht => rw [ht, Bucket.get?_contents, hnone o ho hid seq hs]
        · rfl
    have hregistry : (b.perform q c).registry.get? bucket.name = some r := by rw [registry_perform, hr]
    refine ⟨fun hr' => ?_, fun hgone => ?_⟩
    · obtain rfl := Option.some.inj (hregistry.symm.trans hr')
      obtain ⟨s, hs, hsid, hagree⟩ := h.here hr
      refine ⟨s, ((perform_wants b q c).others r (Ne.symm hq)).trans hs, hsid, ?_⟩
      rw [hcontents]
      exact hagree
    · rw [hregistry] at hgone
      cases hgone
  · exact h.same (.perform hb c fun o ho hoid => hid ⟨o, ho, hoid⟩)

/-- Attended operations keep the ledger as it is noted, and the session registered. -/
theorem Keeps.attended (h : Keeps bucket b l) (hb : Sound b) (hr : b.registry.get? bucket.name = some r)
    (hnum : Numbered bucket n b) (hn : n + 3 < 2 ^ 64) (hop : Attends bucket r b op) :
    Keeps bucket (b.step op) (b.noted bucket.name l op) ∧ (b.step op).registry.get? bucket.name = some r := by
  obtain ⟨hfit, hop⟩ := hop
  cases op with
  | connect info =>
    have hsame : SameFor bucket.name b (b.connect info).2 := .connect hb bucket.usable hr hop
    exact ⟨h.same hsame, hsame.registry.trans hr⟩
  | disconnect id =>
    have hunclean {q : SessionRef} {s : Session} (hid : id = bucket.name) (hq : b.registry.get? bucket.name = some q)
        (hs : b.session? q = some s) : s.info.clean = false := by
      obtain rfl := Option.some.inj (hr.symm.trans hq)
      exact hop hid s hs
    -- The session is not clean, so it stays and takes its deliveries back.
    by_cases hid : id = bucket.name
    · refine ⟨h.disconnect hb id (hunclean hid) hnum hn, ?_⟩
      obtain ⟨s, hs, -⟩ := h.here hr
      show (b.disconnect id).registry.get? bucket.name = some r
      rw [hid, disconnect_eq_requeue hr hs (hunclean hid hr hs), registry_perform, hr]
    · have hsame : SameFor bucket.name b (b.disconnect id) := .disconnect hb hid
      rw [show b.noted bucket.name l (.disconnect id) = l from if_neg hid]
      exact ⟨h.same hsame, hsame.registry.trans hr⟩
  | route m =>
    refine ⟨h.route hb hfit hnum hn, ?_⟩
    show (b.route m).2.registry.get? bucket.name = some r
    rw [(SameInterest.route b m).registry, hr]
  | call q c =>
    have hregistry : (b.perform q c).registry.get? bucket.name = some r := by rw [registry_perform, hr]
    dsimp only at hop
    by_cases hq : q = r
    · subst hq
      rw [if_pos rfl] at hop
      rw [show b.noted bucket.name l (.call q c) = b.called q l c from if_pos hr]
      exact ⟨h.call hb hr hfit hop hnum hn, hregistry⟩
    · rw [if_neg hq] at hop
      have hother : ¬ b.registry.get? bucket.name = some q := fun hq' => hq (Option.some.inj (hq'.symm.trans hr))
      rw [show b.noted bucket.name l (.call q c) = l from if_neg hother]
      exact ⟨h.late hb hr hq hop, hregistry⟩
  | close => exact absurd hop id
  | reopen settings orderly => exact absurd hop id

theorem Run.attended {first : Broker} {ops : List Op} (h : Run (Attends bucket r) first ops b) (hb : Sound first)
    (hkeeps : Keeps bucket first l) (hr : first.registry.get? bucket.name = some r) (hnum : Numbered bucket n first)
    (hn : n + ops.countP Op.takesNumber < 2 ^ 63 - 1) : Sound b ∧ Numbered bucket (n + ops.countP Op.takesNumber) b ∧
      Keeps bucket b (ledger bucket.name first l ops) ∧ b.registry.get? bucket.name = some r := by
  induction h with
  | nil => exact ⟨hb, hnum, hkeeps, hr⟩
  | @step ops b op hrun hop ih =>
    rw [List.countP_append, List.countP_singleton] at hn
    obtain ⟨hb', hnum', hkeeps', hr'⟩ := ih (by omega)
    rw [hrun.ledger_step, List.countP_append, List.countP_singleton, ← Nat.add_assoc]
    exact ⟨hb'.step hop.configured, hnum'.step hb' hop.configured hop.1,
      hkeeps'.attended hb' hr' hnum' (by omega) hop⟩

/-! ## The successor's start -/

theorem rests_resting {k : Keyspace}
    (h : ∀ e ∈ (bucket.contents k).entries, ∃ m : Message, m.Fits ∧ e.2 = Binary.encodeMessage m) :
    Rests (bucket.contents k) (bucket.resting k) := by
  have hstored (es : List (UInt64 × Bytes)) (hes : ∀ e ∈ es, ∃ m : Message, m.Fits ∧ e.2 = Binary.encodeMessage m) :
      ∃ waiting : List Stored, es = waiting.map (fun s => (s.seq, Binary.encodeMessage s.message)) ∧
        ∀ s ∈ waiting, s.message.Fits := by
    induction es with
    | nil => exact ⟨[], rfl, nofun⟩
    | cons e es ih =>
      obtain ⟨waiting, rfl, hfit⟩ := ih fun d hd => hes d (List.mem_cons_of_mem e hd)
      obtain ⟨m, hm, heq⟩ := hes e List.mem_cons_self
      refine ⟨⟨e.1, m⟩ :: waiting, ?_, ?_⟩
      · rw [List.map_cons, ← heq]
      · intro s hs
        rcases List.mem_cons.1 hs with rfl | hs
        · exact hm
        · exact hfit s hs
  obtain ⟨waiting, hrecords, hfit⟩ := hstored _ h
  refine ⟨waiting, hrecords, hfit, ?_⟩
  have hread : ∀ s ∈ waiting, bucket.read k Binary.readMessage s.seq = .ok (some s.message) := by
    intro s hs
    refine Mirrors.read_of_mem ?_ (hfit s hs)
    rw [hrecords]
    exact List.mem_map.2 ⟨s, hs, rfl⟩
  -- Every record can be read, so each makes an entry.
  have hresting : bucket.resting k = waiting.map fun s => (s.message, .waiting) := by
    unfold Bucket.resting
    rw [Bucket.sequences_eq, OrderedMap.keys, hrecords, List.map_map]
    clear hrecords hfit
    induction waiting with
    | nil => rfl
    | cons s waiting ih =>
      simp only [List.map_cons, Function.comp_apply, List.filterMap_cons, hread s List.mem_cons_self,
        ih fun t ht => hread t (List.mem_cons_of_mem s ht)]
  rw [hresting]
  simp [Ledger.live, Ledger.entriesOf]

theorem Numbered.cleared (h : Numbered bucket n b) (hb : Sound b) (hid : info.id = bucket.name) :
    Numbered bucket n (b.cleared info) := by
  unfold Broker.cleared
  rw [hid]
  cases hr : b.registry.get? bucket.name with
  | none => exact h
  | some r =>
    have hsame : SameMail b ((b.report [.sessionDiscarded bucket.name]).update r { info with will := none }) :=
      (SameMail.report b _).trans (.update _ r _)
    have hb' := (hb.report [.sessionDiscarded bucket.name]).update r { info with will := none }
    have hr' : ((b.report [.sessionDiscarded bucket.name]).update r { info with will := none }).registry.get? bucket.name
        = some r := hsame.registry ▸ hr
    have hdismissed := (h.same (.of_sameMail hsame)).acts (acts_dismiss hb' hr') (fits_dismissActs _ r)
    rwa [countP_dismissActs] at hdismissed

/-- A fresh session keeps what rests in the bucket. -/
theorem Keeps.fresh (hb : Sound b) (hnum : Numbered bucket n b) (hn : n + 3 < 2 ^ 64) (hid : info.id = bucket.name)
    (hfree : b.registry.get? bucket.name = none) :
    Keeps bucket (b.enrol info).2 (bucket.resting (b.enrol info).2.store.queue) := by
  have hu : usableName info.id = true := hid ▸ bucket.usable
  have hrests : Keeps bucket b (bucket.resting b.store.queue) := by
    refine ⟨fun hr => ?_, fun _ => rests_resting fun e he => (hnum.records e he).2⟩
    rw [hfree] at hr
    cases hr
  have hacts := acts_enrol hb hu (hid ▸ hfree)
  rw [hid] at hacts
  rw [queue_enrol]
  exact hrests.enrol hacts hnum hn

/-! ## Every run -/

/-- In every state a call on a session that was replaced leaves all others as they are, and of the records
of the client it strikes at most the one its session remembers under the number acknowledged. Where nothing
is struck so, the records are what the successor found, took and was not acknowledged, in order, and its
deliveries are just these. -/
theorem late_calls (bucket : Bucket) {ops : List Op} (h : Run Lively (start settings) ops b)
    (hflaw : settings.flaw = none) :
    (∀ q o c, b.session? q = some o → o.info.id = bucket.name → b.registry.get? bucket.name ≠ some q →
      (∀ r, r ≠ q → (b.perform q c).session? r = b.session? r) ∧
      bucket.contents (b.perform q c).store.queue = bucket.struck b.store.queue (o.strikes c)) ∧
    ∀ info, info.id = bucket.name → (b.registry.get? bucket.name = none ∨ info.clean = true) →
      (b.connect info).1 = .ok b.sessions.length ∧
      ∀ later b', Run (Attends bucket b.sessions.length) (b.connect info).2 later b' →
        ops.countP Op.takesNumber + later.countP Op.takesNumber < 2 ^ 63 - 1 →
        let owed := (ledger bucket.name (b.connect info).2 (bucket.resting (b.connect info).2.store.queue) later).owed
        (bucket.sequences b'.store.queue).map (bucket.read b'.store.queue Binary.readMessage)
            = owed.map (fun m => .ok (some m)) ∧
          Drains b.sessions.length (b'.requeue b.sessions.length) owed := by
  have hb : Sound b := h.sound hflaw fun _ _ h => h.1
  have hnum : Numbered bucket (ops.countP Op.takesNumber) b := h.numbered hflaw (fun _ _ h => h) bucket
  refine ⟨fun q o c ho hid hfree => ⟨(perform_wants b q c).others, contents_perform hb ho hid hfree c⟩, ?_⟩
  intro info hid hnew
  have hu : usableName info.id = true := hid ▸ bucket.usable
  have hb₂ := hb.cleared info
  have hnum₂ := hnum.cleared hb hid
  have hfree : (b.cleared info).registry.get? bucket.name = none := hid ▸ get?_registry_cleared b info
  obtain ⟨c, ns, -, henrol⟩ := enrol_of_usable (b.cleared info) hu
  rw [connect_fresh (hid ▸ hnew), ← length_sessions_cleared b info]
  refine ⟨congrArg Prod.fst henrol, fun later b' hrun hn => ?_⟩
  have hacts := acts_enrol hb₂ hu (hid ▸ hfree)
  rw [hid] at hacts
  have hregistered : ((b.cleared info).enrol info).2.registry.get? bucket.name = some (b.cleared info).sessions.length := by
    rw [registry_enrol hu, OrderedMap.get?_insert, if_pos hid.symm]
  have hnumbered : Numbered bucket (ops.countP Op.takesNumber) ((b.cleared info).enrol info).2 := by
    refine hnum₂.acts hacts fun a ha => ?_
    rw [List.mem_singleton.1 ha]
    trivial
  obtain ⟨hb', hnum', hkeeps, hr⟩ := hrun.attended (hb₂.enrol (hid ▸ hfree)) (Keeps.fresh hb₂ hnum₂ (by omega) hid hfree)
    hregistered hnumbered hn
  have hread := hkeeps.rests.read
  rw [Ledger.owed_recover] at hread
  have hrequeue := hkeeps.call hb' hr (c := .requeue) trivial nofun hnum' (by omega)
  have hr' : (b'.perform (b.cleared info).sessions.length .requeue).registry.get? bucket.name
      = some (b.cleared info).sessions.length := by rw [registry_perform, hr]
  have hnum'' : Numbered bucket _ (b'.step (.call (b.cleared info).sessions.length .requeue)) :=
    hnum'.step hb' trivial trivial
  exact ⟨hread, hrequeue.drains (hb'.perform _ .requeue) hnum'' hr' hn⟩

/-- A late acknowledgement strikes the record of its successor that came to have the same number. -/
theorem struck_by_predecessor :
    let m : Message := { topic := "t", payload := [7], qos := .atLeastOnce }
    let bucket : Bucket := ⟨"a", by decide⟩
    let ops : List Op := [.connect { id := "a" }, .call 0 (.subscribe [⟨"t", .atLeastOnce⟩] none), .call 0 (.push m),
      .call 0 .nextGuaranteed, .connect { id := "a", clean := true }, .call 1 (.subscribe [⟨"t", .atLeastOnce⟩] none),
      .call 1 (.push m)]
    let b := ops.foldl step (start {})
    b.registry.get? "a" = some 1 ∧ bucket.sequences b.store.queue = [1] ∧
      bucket.sequences (b.perform 0 (.acknowledge 2)).store.queue = [] := by
  intro m bucket ops b
  have hfit : m.Fits := ⟨by decide, by decide⟩
  have hrun : Run Lively (start {}) ops b := by
    refine Run.of_forall .nil fun _ op hop => ?_
    simp only [List.mem_cons, List.not_mem_nil, or_false] at hop
    rcases hop with rfl | rfl | rfl | rfl | rfl | rfl | rfl <;> first | exact ⟨trivial, trivial⟩ | exact ⟨trivial, hfit⟩
  have hregistered : b.registry.get? "a" = some 1 := by decide +kernel
  have hs : b.session? 0 = some ((b.session? 0).get (by decide +kernel)) := (Option.some_get _).symm
  have hlate := ((late_calls bucket hrun rfl).1 0 _ (.acknowledge 2) hs (by decide +kernel)
    (by rw [show bucket.name = "a" from rfl, hregistered]; decide)).2
  refine ⟨hregistered, by decide +kernel, ?_⟩
  rw [Bucket.sequences_eq, hlate]
  decide +kernel

end Broker

end PubSub
