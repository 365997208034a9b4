import PubSub.Proofs.Lasting
import PubSub.Proofs.Numbers
/-!
# The ledger of a run

What each operation does to a client's ledger is read off what the operation answers (`Broker.noted`).
The client keeps its ledger when its open session agrees with it, or when there is no session and the
records rest in the bucket (`Keeps`); every operation that leaves the client its session keeps it so
(`Keeps.step`).
-/

namespace PubSub

/-! ## Records at rest -/

/-- The records are what the ledger has not settled, and none of it is out. -/
def Rests (c : OrderedMap UInt64 Bytes) (l : Ledger) : Prop :=
  ∃ waiting : List Stored, c.entries = waiting.map (fun s => (s.seq, Binary.encodeMessage s.message)) ∧
    (∀ s ∈ waiting, s.message.Fits) ∧ l.live = Ledger.entriesOf [] waiting

section
variable {c : OrderedMap UInt64 Bytes} {m : Mail} {l : Ledger} {bucket : Bucket} {k : Keyspace}

theorem Ledger.recover_recover (l : Ledger) : l.recover.recover = l.recover := by
  simp only [recover, List.map_map]
  refine List.map_congr_left fun e _ => ?_
  by_cases h : e.2 = .settled <;> simp [h]

/-- A session that goes leaves its records, in order. -/
theorem Agrees.rests (h : Agrees c m l) : Rests c l.recover := by
  obtain ⟨out, waiting, hm, hl⟩ := h
  refine ⟨out.map (·.2) ++ waiting, hm.records, hm.legible, ?_⟩
  rw [Ledger.live_recover, hl]
  simp [Ledger.entriesOf, Function.comp_def]

theorem Rests.recover (h : Rests c l) : Rests c l.recover := by
  obtain ⟨waiting, hrecords, hfit, hl⟩ := h
  refine ⟨waiting, hrecords, hfit, ?_⟩
  rw [Ledger.live_recover, hl]
  simp [Ledger.entriesOf]

/-- A fresh session over the bucket agrees with the ledger. -/
theorem Rests.agrees (h : Rests (bucket.contents k) l) (hroom : ∀ e ∈ (bucket.contents k).entries, e.1.toNat + 1 < 2 ^ 64)
    (info : Info) (maxBestEffort maxGuaranteed : Nat) :
    Agrees (bucket.contents k) (Session.new info bucket maxBestEffort maxGuaranteed k).mail l := by
  obtain ⟨waiting, hrecords, hfit, hl⟩ := h
  refine ⟨[], waiting, Mirrors.fresh info bucket _ _ k hrecords hfit fun s hs => ?_, hl⟩
  refine hroom (s.seq, Binary.encodeMessage s.message) ?_
  rw [hrecords]
  exact List.mem_map.2 ⟨s, hs, rfl⟩

/-- The records read in order are the messages owed. -/
theorem Rests.read (h : Rests (bucket.contents k) l) :
    (bucket.sequences k).map (bucket.read k Binary.readMessage) = l.owed.map fun m => .ok (some m) := by
  obtain ⟨waiting, hrecords, hfit, hl⟩ := h
  rw [Ledger.owed_of_live hl, Bucket.sequences_eq, OrderedMap.keys, hrecords, List.map_nil, List.nil_append, List.map_map,
    List.map_map, List.map_map]
  refine List.map_congr_left fun s hs => Mirrors.read_of_mem ?_ (hfit s hs)
  rw [hrecords]
  exact List.mem_map.2 ⟨s, hs, rfl⟩

end

namespace Broker

/-! ## Keeping a ledger -/

/-- A message given to a session is taken if the session accepts it. -/
def stored (b : Broker) (r : SessionRef) (m : Message) (l : Ledger) : Ledger :=
  if ((b.session? r).map (·.accepts m)).getD false then l.accept m else l

def called (b : Broker) (r : SessionRef) (l : Ledger) : Call → Ledger
  | .push m => b.stored r m l
  | .nextGuaranteed =>
    match (b.nextGuaranteed r).1 with
    | .ok (some d) => l.deliver d
    | _ => l
  | .acknowledge id => l.acknowledge id
  | .requeue => l.recover
  | _ => l

/-- The ledger of a client after an operation. Only calls on its registered session count. -/
def noted (b : Broker) (id : String) (l : Ledger) : Op → Ledger
  | .connect _ => l
  | .disconnect id' => if id' = id then l.recover else l
  | .route m =>
    match (b.exchange.targets m.topic).find? (·.id = id) with
    | none => l
    | some t => b.stored t.session m l
  | .call r c => if b.registry.get? id = some r then b.called r l c else l
  | .close | .reopen _ _ => l.recover

variable {b b' b₁ b₂ : Broker} {bucket : Bucket} {l : Ledger} {r : SessionRef} {s : Session} {info : Info} {n : Nat}
  {joined : Bool}

structure Keeps (bucket : Bucket) (b : Broker) (l : Ledger) : Prop where
  here : ∀ {r}, b.registry.get? bucket.name = some r → ∃ s, b.session? r = some s ∧ s.info.id = bucket.name ∧
    Agrees (bucket.contents b.store.queue) s.mail l
  gone : b.registry.get? bucket.name = none → Rests (bucket.contents b.store.queue) l

namespace Keeps

theorem rests (h : Keeps bucket b l) : Rests (bucket.contents b.store.queue) l.recover := by
  cases hr : b.registry.get? bucket.name with
  | none => exact (h.gone hr).recover
  | some r =>
    obtain ⟨s, -, -, hagree⟩ := h.here hr
    exact hagree.rests

theorem same (h : Keeps bucket b l) (hs : SameFor bucket.name b b') : Keeps bucket b' l where
  here hr := by
    rw [hs.registry] at hr
    obtain ⟨s, hsr, hid, hagree⟩ := h.here hr
    obtain ⟨s', hs', heq⟩ := hs.mail hsr hid
    refine ⟨s', hs', (Mail.id_eq heq).trans hid, ?_⟩
    rw [heq, hs.records bucket rfl]
    exact hagree
  gone hr := by
    rw [hs.registry] at hr
    rw [hs.records bucket rfl]
    exact h.gone hr

/-- What is done with the registered session is done with the ledger. -/
theorem job {j : Job} (h : Keeps bucket b l) (hr : b.registry.get? bucket.name = some r) (hs : b.session? r = some s)
    (he : Effect bucket.name b (.job r j) b') (hfit : ∀ msg, j = .store msg → msg.Fits)
    (hroom : j.takesNumber = true → s.mail.Room) (hopen : ∀ clean, j ≠ .close clean) :
    Keeps bucket b' (l.afterJob s.mail b.store.queue j) := by
  obtain ⟨hb, -, hdoes⟩ := he
  obtain ⟨t, ht, hid, hagree⟩ := h.here hr
  obtain rfl := Option.some.inj (hs.symm.trans ht)
  obtain ⟨s', hs', hrun⟩ := hdoes.mail s hs
  have hmail : s'.mail = (s.mail.run b.store.queue j).1 := congrArg Prod.fst hrun
  have hqueue : b'.store.queue = (s.mail.run b.store.queue j).2 := congrArg Prod.snd hrun
  have hbucket : s.mail.durable.bucket = bucket := bucket.eq_of_name ((hb.named hs).trans hid)
  have hbucket' : (s.mail.run b.store.queue j).1.durable.bucket = bucket := by
    rw [← hmail, ← hbucket]
    exact hdoes.frame.bucket s s' hs hs'
  have hid' : s'.info.id = bucket.name := by
    obtain ⟨u, hu, heq⟩ := hdoes.frame.interest.session?_back hs'
    obtain rfl := Option.some.inj (hs.symm.trans hu)
    exact (Interest.id_eq heq).trans hid
  have hafter := Agrees.run (k := b.store.queue) (j := j) (by rw [hbucket]; exact hagree) hfit (.of_room hroom) hopen
  rw [hbucket', ← hmail, ← hqueue] at hafter
  constructor
  · intro q hq
    rw [hdoes.frame.interest.registry, hr] at hq
    obtain rfl := Option.some.inj hq
    exact ⟨s', hs', hid', hafter⟩
  · intro hnone
    rw [hdoes.frame.interest.registry, hr] at hnone
    cases hnone

/-- A session that is not clean leaves its records behind. -/
theorem leave (h : Keeps bucket b l) (he : Effect bucket.name b (.job r (.close false)) b₁)
    (hs : SameFor bucket.name b₁ b₂) :
    Keeps bucket (b₂.unregister bucket.name) l.recover := by
  obtain ⟨hb, ⟨s, hs', hid⟩, hdoes⟩ := he
  obtain ⟨s', -, hrun⟩ := hdoes.mail s hs'
  have hqueue : b₁.store.queue = b.store.queue := by
    rw [show b₁.store.queue = (s.mail.run b.store.queue (.close false)).2 from congrArg Prod.snd hrun]
    -- Of all that can happen to records, closing does none unless it is a clean close.
    rcases s.mail.run_records b.store.queue (.close false) with heq | ⟨_, hj, -⟩ | ⟨_, _, _, hj, -⟩ | ⟨hj, -⟩
    · exact heq
    · cases hj
    · cases hj
    · cases hj
  have hnone : (b₂.unregister bucket.name).registry.get? bucket.name = none := by
    show (b₂.registry.erase bucket.name).get? bucket.name = none
    rw [OrderedMap.get?_erase, if_pos rfl]
  constructor
  · intro q hq
    rw [hnone] at hq
    cases hq
  · intro _
    show Rests (bucket.contents b₂.store.queue) l.recover
    rw [hs.records bucket rfl, hqueue]
    exact h.rests

/-- A client that comes finds its records. -/
theorem enrolled {c : Bucket} (h : Keeps bucket b l) (hfree : b.registry.get? bucket.name = none)
    (hid : info.id = bucket.name)
    (hc : c.name = bucket.name) (hroom : ∀ e ∈ (bucket.contents b.store.queue).entries, e.1.toNat + 1 < 2 ^ 64) :
    Keeps bucket (b.enrolled info c) l := by
  obtain rfl := bucket.eq_of_name hc
  have hget : (b.enrolled info c).registry.get? c.name = some b.sessions.length :=
    (get?_registry_enrolled b info c c.name).trans (if_pos hid.symm)
  constructor
  · intro q hq
    obtain rfl := Option.some.inj (hget.symm.trans hq)
    exact ⟨_, session?_enrolled_new, hid, (h.gone hfree).agrees hroom info _ _⟩
  · intro hnone
    rw [hget] at hnone
    cases hnone

/-! ## All operations -/

theorem open_of_accepts {msg : Message} (h : s.accepts msg = true) : s.durable.closed = false := by
  simp only [Session.accepts, Bool.and_eq_true, Bool.not_eq_true'] at h
  exact h.2

/-- A message that the client's session accepts is in the ledger. -/
theorem store (h : Keeps bucket b l) (hb : Sound b) {msg : Message} (hs : b.session? r = some s)
    (hid : s.info.id = bucket.name) (hacts : Acts bucket.name b (b.storeActs r msg) b') (hfit : msg.Fits)
    (hnum : Numbered bucket n b) (hn : n + 3 < 2 ^ 64) : Keeps bucket b' (b.stored r msg l) := by
  unfold storeActs at hacts
  unfold stored
  rw [hs] at hacts ⊢
  dsimp only at hacts
  rw [Option.map_some, Option.getD_some]
  by_cases ha : s.accepts msg = true
  · rw [if_pos ha] at hacts ⊢
    have hopen := open_of_accepts ha
    cases hacts with
    | act hsame he hrest =>
      cases hrest with
      | same hlast =>
        obtain ⟨s₁, hs₁, heq⟩ := hsame.mail hs hid
        -- A session that accepts has an open queue, so it is the registered one, whose mail the ledger tells.
        have hr : b.registry.get? bucket.name = some r := hid ▸ hb.opened hs hopen
        refine Keeps.same ((h.same hsame).job (hsame.registry.trans hr) hs₁ he ?_ ?_ ?_) hlast
        · rintro _ ⟨⟩
          exact hfit
        · intro _
          rw [heq]
          exact hnum.room hn hs hid hopen
        · exact nofun
  · rw [if_neg ha] at hacts ⊢
    cases hacts with
    | same hsame => exact h.same hsame

theorem route (h : Keeps bucket b l) (hb : Sound b) {m : Message} (hfit : m.Fits) (hnum : Numbered bucket n b)
    (hn : n + 3 < 2 ^ 64) : Keeps bucket (b.route m).2 (b.noted bucket.name l (.route m)) := by
  have hacts : Acts bucket.name b (b.acts bucket.name (.route m)) (b.route m).2 := acts_route hb m
  unfold noted
  unfold acts at hacts
  dsimp only at hacts ⊢
  cases hfind : (b.exchange.targets m.topic).find? (·.id = bucket.name) with
  | none =>
    rw [hfind] at hacts
    cases hacts with
    | same hsame => exact h.same hsame
  | some t =>
    rw [hfind] at hacts
    obtain ⟨s, hs, hid⟩ := hb.bound (mem_of_mem_targets (List.mem_of_find?_eq_some hfind))
    have htid : t.id = bucket.name := by simpa using List.find?_some hfind
    exact h.store hb hs (hid.trans htid) hacts hfit hnum hn

/-- A call on the registered session is a job done or none. -/
theorem call (h : Keeps bucket b l) (hb : Sound b) (hr : b.registry.get? bucket.name = some r) {c : Call} (hfit : c.Fits)
    (hclose : c ≠ .close) (hnum : Numbered bucket n b) (hn : n + 3 < 2 ^ 64) :
    Keeps bucket (b.perform r c) (b.called r l c) := by
  obtain ⟨s, hs, hid, hagree⟩ := h.here hr
  obtain ⟨out, waiting, hm, -⟩ := hagree
  obtain ⟨hdone, hidle⟩ := perform_spec hs c
  have hjob {j : Job} (hj : s.job? c = some j) (hfit : ∀ msg, j = .store msg → msg.Fits)
      (hopen : ∀ clean, j ≠ .close clean) :=
    h.job (j := j) hr hs ⟨hb, ⟨s, hs, hid⟩, hdone j hj⟩ hfit (fun _ => hnum.room hn hs hid hm.opened) hopen
  cases c with
  | push m =>
    unfold called stored
    simp only [hs, Option.map_some, Option.getD_some]
    by_cases ha : s.accepts m = true
    · rw [if_pos ha]
      refine hjob (j := .store m) (by simp [Session.job?, ha]) ?_ (by rintro _ ⟨⟩)
      rintro _ ⟨⟩
      exact hfit
    · rw [if_neg ha]
      exact h.same (.of_sameMail (hidle (by simp [Session.job?, ha])))
  | nextGuaranteed =>
    unfold called
    rw [(nextGuaranteed_spec hs).1]
    exact hjob (j := .next) rfl (by rintro _ ⟨⟩) (by rintro _ ⟨⟩)
  | acknowledge id => exact hjob (j := .acknowledge id) rfl (by rintro _ ⟨⟩) (by rintro _ ⟨⟩)
  | requeue => exact hjob (j := .requeue) rfl (by rintro _ ⟨⟩) (by rintro _ ⟨⟩)
  | close => exact absurd rfl hclose
  | _ => exact h.same (.of_sameMail (hidle rfl))

theorem perform (h : Keeps bucket b l) (hb : Sound b) {c : Call} (hop : Steady bucket.name b (.call r c))
    (hnum : Numbered bucket n b) (hn : n + 3 < 2 ^ 64) :
    Keeps bucket (b.perform r c) (b.noted bucket.name l (.call r c)) := by
  unfold noted
  dsimp only
  by_cases hr : b.registry.get? bucket.name = some r
  · obtain ⟨s, hs, hid⟩ := hb.registered hr
    obtain ⟨-, hclose, -⟩ := hop.2 s hs hid
    rw [if_pos hr]
    exact h.call hb hr hop.1 hclose hnum hn
  · rw [if_neg hr]
    exact h.same (.perform hb c fun s hs hid => hr (hop.2 s hs hid).1)

theorem enrol {q : SessionRef} (h : Keeps bucket b l) (hacts : Acts bucket.name b [.enrol q info] b')
    (hnum : Numbered bucket n b) (hn : n + 3 < 2 ^ 64) : Keeps bucket b' l := by
  cases hacts with
  | act hsame he hrest =>
    obtain ⟨-, hfree, -, hid, c, hc, rfl⟩ := he
    cases hrest with
    | same hlast =>
      refine ((h.same hsame).enrolled hfree hid hc fun e he => ?_).same hlast
      have hle := ((hnum.same hsame).records e he).1
      omega

theorem connect (h : Keeps bucket b l) (hb : Sound b) (hclean : info.id = bucket.name → info.clean = false)
    (hnum : Numbered bucket n b) (hn : n + 3 < 2 ^ 64) : Keeps bucket (b.connect info).2 l := by
  cases hr : b.registry.get? bucket.name with
  | some r => exact h.same (.connect hb bucket.usable hr hclean)
  | none =>
    have hacts := acts_connect hb bucket.usable info
    unfold acts at hacts
    dsimp only at hacts
    rw [hr] at hacts
    by_cases hid : info.id = bucket.name
    · rw [if_pos hid] at hacts
      exact h.enrol hacts hnum hn
    · rw [if_neg hid] at hacts
      cases hacts with
      | same hsame => exact h.same hsame

theorem disconnect (h : Keeps bucket b l) (hb : Sound b) (id' : String)
    (hclean : ∀ {r s}, b.registry.get? bucket.name = some r → b.session? r = some s → s.info.clean = false)
    (hnum : Numbered bucket n b) (hn : n + 3 < 2 ^ 64) :
    Keeps bucket (b.disconnect id') (b.noted bucket.name l (.disconnect id')) := by
  unfold noted
  dsimp only
  by_cases hid : id' = bucket.name
  · subst hid
    rw [if_pos rfl]
    cases hr : b.registry.get? bucket.name with
    | none =>
      rw [show b.disconnect bucket.name = b by unfold Broker.disconnect; rw [hr]]
      -- Nobody is there to take anything back, and nothing is out.
      refine ⟨fun hq => ?_, fun _ => (h.gone hr).recover⟩
      rw [hr] at hq
      cases hq
    | some r =>
      obtain ⟨s, hs, -, -⟩ := h.here hr
      rw [disconnect_eq_requeue hr hs (hclean hr hs)]
      exact h.call hb hr (c := .requeue) trivial nofun hnum hn
  · rw [if_neg hid]
    exact h.same (.disconnect hb hid)

theorem close (h : Keeps bucket b l) (hb : Sound b) (hlast : Lasting bucket.name joined b) :
    Keeps bucket b.close l.recover := by
  have hacts : Acts bucket.name b (b.acts bucket.name .close) b.close := acts_close hb
  unfold acts at hacts
  dsimp only at hacts
  cases hr : b.registry.get? bucket.name with
  | none =>
    rw [hr] at hacts
    cases hacts with
    | same hsame =>
      refine Keeps.same (b := b) ⟨fun hq => ?_, fun _ => (h.gone hr).recover⟩ hsame
      rw [hr] at hq
      cases hq
  | some r =>
    obtain ⟨s, hs, -, -⟩ := h.here hr
    rw [hr] at hacts
    dsimp only at hacts
    rw [dismissActs, hs] at hacts
    dsimp only at hacts
    rw [hlast.unclean hr hs] at hacts
    cases hacts with
    | act hsame he hrest =>
      cases hrest with
      | act hsame' hfree hrest =>
        obtain rfl := hfree
        cases hrest with
        | same hend => exact ((h.same hsame).leave he hsame').same hend

/-- Every operation keeps the ledger as it is noted. -/
theorem step (h : Keeps bucket b l) (hb : Sound b) (hlast : Lasting bucket.name joined b) (hnum : Numbered bucket n b)
    (hn : n + 3 < 2 ^ 64) {op : Op} (hop : Steady bucket.name b op)
    (hne : ∀ settings orderly, op ≠ .reopen settings orderly) :
    Keeps bucket (b.step op) (b.noted bucket.name l op) := by
  cases op with
  | connect info => exact h.connect hb hop hnum hn
  | disconnect id' => exact h.disconnect hb id' hlast.unclean hnum hn
  | route m => exact h.route hb hop hnum hn
  | call r c => exact h.perform hb hop hnum hn
  | close => exact h.close hb hlast
  | reopen settings orderly => exact absurd rfl (hne settings orderly)

end Keeps

end Broker

end PubSub
