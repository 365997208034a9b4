import PubSub.Proofs.Keeping
/-!
# Messages are kept until they are acknowledged

A client that is never made clean loses no guaranteed message: after any run, over crashes and
restarts, the records of its bucket are the messages it was given and has not acknowledged, in order,
and once its deliveries are taken back it is handed all of them again (`kept_until_acknowledged`).
-/

namespace PubSub

namespace Broker

/-- The broker and a client's ledger after some operations, from a broker and a ledger at first. -/
def traced (id : String) (first : Broker) (l : Ledger) (ops : List Op) : Broker × Ledger :=
  ops.foldl (fun x op => (x.1.step op, x.1.noted id x.2 op)) (first, l)

/-- The ledger of a client after some operations. -/
def ledger (id : String) (first : Broker) (l : Ledger) (ops : List Op) : Ledger := (traced id first l ops).2

theorem Run.ledger_step {allowed : Broker → Op → Prop} {first b : Broker} {ops : List Op} (h : Run allowed first ops b)
    (id : String) (l : Ledger) (op : Op) : ledger id first l (ops ++ [op]) = b.noted id (ledger id first l ops) op :=
  h.along_step (fun b l op => b.noted id l op) l op

variable {b b' : Broker} {bucket : Bucket} {l : Ledger} {r : SessionRef} {s : Session} {info : Info} {n : Nat}
  {joined : Bool} {settings : Settings} {op : Op}

/-! ## What every run keeps -/

/-- A client's messages are safe with a broker that has taken `n` numbers at most. -/
structure Faithful (bucket : Bucket) (joined : Bool) (n : Nat) (b : Broker) (l : Ledger) : Prop where
  sound : Sound b
  lasting : Lasting bucket.name joined b
  numbered : Numbered bucket n b
  keeps : Keeps bucket b l

namespace Faithful

theorem report (h : Faithful bucket joined n b l) (ns : List Notice) : Faithful bucket joined n (b.report ns) l where
  sound := h.sound.report ns
  lasting := Lasting.enduring.report h.lasting ns
  numbered := h.numbered.same (.report b ns)
  keeps := h.keeps.same (.report b ns)

theorem step (h : Faithful bucket joined n b l) (hn : n + 3 < 2 ^ 64) (hop : Steady bucket.name b op)
    (hne : ∀ settings orderly, op ≠ .reopen settings orderly) :
    Faithful bucket (joined || op.joins bucket.name) (n + if op.takesNumber then 1 else 0) (b.step op)
      (b.noted bucket.name l op) where
  sound := h.sound.step hop.configured
  lasting := h.lasting.step h.sound bucket.usable hop hne
  numbered := h.numbered.step h.sound hop.configured hop.fits
  keeps := h.keeps.step h.sound h.lasting h.numbered hn hop hne

/-- A session that is restored takes nothing from the client. -/
theorem restored (h : Faithful bucket joined n b l) (hn : n + 3 < 2 ^ 64) (hu : usableName info.id = true)
    (hclean : info.clean = false) (hfree : b.registry.get? info.id = none) :
    Faithful bucket joined n ((b.enrol info).2.registerAll b.sessions.length) l := by
  have hregister : SameFor bucket.name (b.enrol info).2 ((b.enrol info).2.registerAll b.sessions.length) :=
    .of_sameMail (.registerAll _ _)
  suffices hkept : Keeps bucket (b.enrol info).2 l from
    ⟨(h.sound.enrol hfree).registerAll _, h.lasting.restored h.sound hu hclean hfree, h.numbered.restored h.sound hu hfree,
      hkept.same hregister⟩
  by_cases hid : info.id = bucket.name
  · have hacts := acts_enrol h.sound hu hfree
    rw [hid] at hacts
    exact h.keeps.enrol hacts h.numbered hn
  · exact h.keeps.same (.enrol hid)

/-- Opening brings a client back that has a record, with its messages. -/
theorem openOn {store : Store} {events : EventTable} (hflaw : settings.flaw = none) (hn : n + 3 < 2 ^ 64)
    (hrecorded : SessionRecords.Recorded store.sessions) (hrests : Rests (bucket.contents store.queue) l)
    (hrecords : ∀ e ∈ (bucket.contents store.queue).entries,
      e.1.toNat ≤ n ∧ ∃ m : Message, m.Fits ∧ e.2 = Binary.encodeMessage m)
    (hjoined : joined = true → (OrderedMap.get? store.sessions (Text.bytes bucket.name)).isSome) :
    Faithful bucket joined n (openOn settings (.database store) events).2 l ∧
      (joined = true → ∃ r, (openOn settings (.database store) events).2.registry.get? bucket.name = some r) := by
  have hstep (done : List Info) (b : Broker) (info : Info) (_ : Sound b)
      (hI : Faithful bucket joined n b l ∧ ∀ d ∈ done, (b.registry.get? d.id).isSome)
      (hinfo : info ∈ (SessionRecords.loadAll store.sessions).1) (hu : usableName info.id = true)
      (hfree : b.registry.get? info.id = none) :
      Faithful bucket joined n ((b.enrol info).2.registerAll b.sessions.length) l ∧
        ∀ d ∈ done ++ [info], (((b.enrol info).2.registerAll b.sessions.length).registry.get? d.id).isSome := by
    have hclean := ((SessionRecords.loadAll_of_recorded hrecorded).2.1 info hinfo).1
    refine ⟨hI.1.restored hn hu hclean hfree, fun d hd => ?_⟩
    rw [(SameMail.registerAll _ _).registry, registry_enrol hu, OrderedMap.get?_insert]
    split
    · rfl
    · next hne =>
      rcases List.mem_append.1 hd with hd | hd
      · exact hI.2 d hd
      · exact absurd (congrArg Info.id (List.mem_singleton.1 hd)) hne
  have hfirst : Faithful bucket joined n (opening settings store events) l := by
    refine ⟨.opening hrecorded, ⟨?_, hjoined⟩, ⟨hrecords, ?_⟩, ⟨?_, fun _ => hrests⟩⟩
    · intro r s hr
      cases hr
    · intro r s hs
      cases hs
    · intro r hr
      cases hr
  obtain ⟨-, hfaithful, hregistered⟩ := Sound.openOn_induction
    (I := fun done b => Faithful bucket joined n b l ∧ ∀ d ∈ done, (b.registry.get? d.id).isSome)
    (fun _ _ ns hI => ⟨hI.1.report ns, hI.2⟩) hstep hflaw hrecorded
      ⟨hfirst, fun d hd => absurd hd List.not_mem_nil⟩
  refine ⟨hfaithful, fun hj => ?_⟩
  -- The record of the client is one of those loaded, and every session loaded was registered.
  obtain ⟨hentries, -, -⟩ := SessionRecords.loadAll_of_recorded hrecorded
  obtain ⟨record, hrecord⟩ := Option.isSome_iff_exists.1 (hjoined hj)
  have hmem := OrderedMap.get?_eq_some_iff.1 hrecord
  rw [hentries] at hmem
  obtain ⟨d, hd, heq⟩ := List.mem_map.1 hmem
  have hid : d.id = bucket.name := Text.bytes_injective (congrArg Prod.fst heq)
  rw [← hid]
  exact Option.isSome_iff_exists.1 (hregistered d hd)

theorem reopen (h : Faithful bucket joined n b l) (hn : n + 3 < 2 ^ 64) (hflaw : settings.flaw = none) (orderly : Bool) :
    Faithful bucket joined n (b.reopen settings orderly).2 l.recover ∧
      (joined = true → ∃ r, (b.reopen settings orderly).2.registry.get? bucket.name = some r) := by
  obtain ⟨events, heq⟩ := reopen_eq b settings orderly
  rw [heq]
  cases orderly with
  | false => exact openOn hflaw hn h.sound.recorded h.keeps.rests h.numbered.records h.lasting.recorded
  | true =>
    have hclosed : Faithful bucket (joined || false) n b.close l.recover :=
      h.step hn (show Steady bucket.name b .close from trivial) nofun
    -- Closing takes all deliveries back, so there are none to take back when it is opened again.
    have hrests := hclosed.keeps.rests
    rw [Ledger.recover_recover] at hrests
    rw [Bool.or_false] at hclosed
    exact openOn hflaw hn hclosed.sound.recorded hrests hclosed.numbered.records hclosed.lasting.recorded

end Faithful

theorem Run.faithful {ops : List Op} (h : Run (Steady bucket.name) (start settings) ops b) (hflaw : settings.flaw = none)
    (hops : ops.countP Op.takesNumber < 2 ^ 63 - 1) :
    Faithful bucket (ops.any (Op.joins bucket.name)) (ops.countP Op.takesNumber) b
      (ledger bucket.name (start settings) [] ops) := by
  induction h with
  | nil =>
    have hrests : Rests (bucket.contents ({} : Store).queue) [] := ⟨[], rfl, nofun, rfl⟩
    have hjoined : false = true → (OrderedMap.get? ({} : Store).sessions (Text.bytes bucket.name)).isSome := nofun
    exact (Faithful.openOn hflaw (by decide : 0 + 3 < 2 ^ 64) SessionRecords.recorded_empty hrests nofun hjoined).1
  | @step ops b op hrun hop ih =>
    rw [List.countP_append, List.countP_singleton] at hops
    have hfaithful := ih (by omega)
    have hn : ops.countP Op.takesNumber + 3 < 2 ^ 64 := by omega
    rw [hrun.ledger_step, List.countP_append, List.countP_singleton, List.any_append, List.any_cons, List.any_nil,
      Bool.or_false]
    cases op with
    | reopen settings orderly =>
      rw [show (Op.reopen settings orderly).joins bucket.name = false from rfl, Bool.or_false]
      exact (hfaithful.reopen hn hop orderly).1
    | _ => exact hfaithful.step hn hop nofun

/-! ## Handing everything out again -/

/-- Asking for the next message and acknowledging it, over and over, gives these messages and then none. -/
inductive Drains (r : SessionRef) : Broker → List Message → Prop
  | done {b : Broker} : (b.nextGuaranteed r).1 = .ok none → Drains r b []
  | more {b : Broker} {d : Delivery} {ms : List Message} : (b.nextGuaranteed r).1 = .ok (some d) →
      Drains r ((b.nextGuaranteed r).2.acknowledge r d.id) ms → Drains r b (d.message :: ms)

theorem drains_of_mirrors {waiting : List Stored} (hs : b.session? r = some s)
    (h : Mirrors (s.mail.durable.bucket.contents b.store.queue) s.mail [] waiting)
    (hroom : s.mail.counter.next.toNat + waiting.length < 2 ^ 64) : Drains r b (waiting.map (·.message)) := by
  induction waiting generalizing b s with
  | nil =>
    refine .done ?_
    rw [(nextGuaranteed_spec hs).1, h.next_nil]
  | cons t waiting ih =>
    rw [List.length_cons] at hroom
    -- Nothing is out, so the window is open and what is handed out is acknowledged at once.
    have hwindow : ¬ s.mail.durable.window ≤ ([] : List (UInt64 × Stored)).length := Nat.not_le.2 h.window
    obtain ⟨hresult, hdoes⟩ := nextGuaranteed_spec hs
    have hnext := h.next_cons hwindow
    have hout := h.after_next (by omega) hwindow
    obtain ⟨s', hs', hrun⟩ := hdoes.mail s hs
    have hmail : s'.mail = (s.mail.next b.store.queue).2 := congrArg Prod.fst hrun
    have hqueue : (b.nextGuaranteed r).2.store.queue = b.store.queue := congrArg Prod.snd hrun
    obtain ⟨s'', hs'', hrun'⟩ := (acknowledge_spec hs' s.mail.counter.next).mail s' hs'
    rw [hmail, hqueue] at hrun'
    have hmail' := congrArg Prod.fst hrun'
    have hqueue' := congrArg Prod.snd hrun'
    dsimp only at hmail' hqueue'
    have hsettled := hout.acknowledge s.mail.counter.next
    rw [← hmail', ← hqueue'] at hsettled
    refine .more (d := ⟨s.mail.counter.next, t.message⟩) (hresult.trans hnext) (ih hs'' ?_ ?_)
    · simpa using hsettled
    · have hcounter := s.mail.run_counter_le b.store.queue .next
      have hcounter' := (s.mail.next b.store.queue).2.run_counter_le b.store.queue (.acknowledge s.mail.counter.next)
      rw [← hmail'] at hcounter'
      have hone : (s.mail.run b.store.queue .next).1 = (s.mail.next b.store.queue).2 := rfl
      rw [hone] at hcounter
      simp only [Job.takesNumber, if_true, Bool.false_eq_true, if_false] at hcounter hcounter'
      omega

/-- With nothing out, what the registered session hands out is what is owed. -/
theorem Keeps.drains (h : Keeps bucket b l.recover) (hb : Sound b) (hnum : Numbered bucket n b)
    (hr : b.registry.get? bucket.name = some r) (hn : n < 2 ^ 63 - 1) : Drains r b l.owed := by
  obtain ⟨s, hs, hid, out, waiting, hm, hl⟩ := h.here hr
  obtain rfl := Ledger.none_out hl
  have howed : l.owed = waiting.map (·.message) := by
    rw [← Ledger.owed_recover, Ledger.owed_of_live hl]
    rfl
  have hlength : waiting.length ≤ n + 1 := by
    have hrecords := hnum.length_records
    rwa [hm.records, List.length_map] at hrecords
  have hcounter : s.mail.counter.next.toNat ≤ n + 2 := (hnum.sessions hs hid hm.opened).2
  have hbucket : s.mail.durable.bucket = bucket := bucket.eq_of_name ((hb.named hs).trans hid)
  rw [howed]
  exact drains_of_mirrors hs (by rw [hbucket]; exact hm) (by omega)

/-! ## At least once -/

/-- Operations that take back what is out, for a client that has a session to go on with. -/
inductive Recovers (id : String) (ops : List Op) (b : Broker) : Op → Prop
  | requeue {r : SessionRef} : b.registry.get? id = some r → Recovers id ops b (.call r .requeue)
  | disconnect {r : SessionRef} : b.registry.get? id = some r → Recovers id ops b (.disconnect id)
  | reopen {settings : Settings} {orderly : Bool} {info : Info} : settings.flaw = none → .connect info ∈ ops →
      info.id = id → Recovers id ops b (.reopen settings orderly)

/-- What takes back the deliveries of a client leaves it a session that hands out all that is owed. -/
theorem Faithful.recovered {ops : List Op} (h : Faithful bucket (ops.any (Op.joins bucket.name)) n b l)
    (hn : n < 2 ^ 63 - 1)
    (hop : Recovers bucket.name ops b op) :
    ∃ r, (b.step op).registry.get? bucket.name = some r ∧ Drains r (b.step op) l.owed := by
  have hn' : n + 3 < 2 ^ 64 := by omega
  have hrequeue {r : SessionRef} (hr : b.registry.get? bucket.name = some r) :
      ∃ q, (b.perform r .requeue).registry.get? bucket.name = some q ∧ Drains q (b.perform r .requeue) l.owed := by
    have hsteady : Steady bucket.name b (.call r .requeue) := ⟨trivial, fun s hs hid => ⟨hr, nofun, nofun⟩⟩
    have hafter := h.step hn' hsteady nofun
    rw [show b.noted bucket.name l (.call r .requeue) = l.recover from if_pos hr] at hafter
    have hr' : (b.perform r .requeue).registry.get? bucket.name = some r := by rw [registry_perform, hr]
    exact ⟨r, hr', hafter.keeps.drains hafter.sound hafter.numbered hr' hn⟩
  cases hop with
  | requeue hr => exact hrequeue hr
  | disconnect hr =>
    obtain ⟨s, hs, -⟩ := h.sound.registered hr
    show ∃ q, (b.disconnect bucket.name).registry.get? bucket.name = some q ∧ Drains q (b.disconnect bucket.name) l.owed
    rw [disconnect_eq_requeue hr hs (h.lasting.unclean hr hs)]
    exact hrequeue hr
  | reopen hflaw hmem hid =>
    obtain ⟨hafter, hregistered⟩ := h.reopen hn' hflaw _
    obtain ⟨r, hr⟩ := hregistered (List.any_eq_true.2 ⟨_, hmem, decide_eq_true hid⟩)
    exact ⟨r, hr, hafter.keeps.drains hafter.sound hafter.numbered hr hn⟩

/-- After every run that leaves a client its session, the records of its bucket are the messages it took
and has not acknowledged, in order. Whatever takes back what is out leaves a session that hands out just
these. -/
theorem kept_until_acknowledged (bucket : Bucket) {settings : Settings} {ops : List Op} {b : Broker}
    (h : Run (Steady bucket.name) (start settings) ops b) (hflaw : settings.flaw = none)
    (hops : ops.countP Op.takesNumber < 2 ^ 63 - 1) :
    (bucket.sequences b.store.queue).map (bucket.read b.store.queue Binary.readMessage)
        = (ledger bucket.name (start settings) [] ops).owed.map (fun m => .ok (some m)) ∧
      ∀ op, Recovers bucket.name ops b op → ∃ r, (b.step op).registry.get? bucket.name = some r ∧
        Drains r (b.step op) (ledger bucket.name (start settings) [] ops).owed := by
  have hfaithful := h.faithful hflaw hops
  have hrests := hfaithful.keeps.rests.read
  rw [Ledger.owed_recover] at hrests
  exact ⟨hrests, fun op hop => hfaithful.recovered hops hop⟩

theorem kept_message_after_crash :
    let m : Message := { topic := "t", payload := [7], qos := .atLeastOnce }
    let ops : List Op := [.connect { id := "a" }, .call 0 (.subscribe [⟨"t", .atLeastOnce⟩] none), .call 0 (.push m),
      .call 0 .nextGuaranteed]
    let b := (ops.foldl step (start {})).step (.reopen {} false)
    ∃ r, b.registry.get? "a" = some r ∧ Drains r b [m] := by
  intro m ops b
  have hfit : m.Fits := ⟨by decide, by decide⟩
  have hrun : Run (Steady "a") (start {}) ops (ops.foldl step (start {})) := by
    show Run (Steady "a") (start {}) ((([] ++ [Op.connect { id := "a" }])
      ++ [.call 0 (.subscribe [⟨"t", .atLeastOnce⟩] none)]) ++ [.call 0 (.push m)] ++ [.call 0 .nextGuaranteed]) _
    refine .step (.step (.step (.step .nil fun _ => rfl) ?_) ?_) ?_
    · exact ⟨trivial, fun _ _ _ => ⟨by decide +kernel, nofun, nofun⟩⟩
    · exact ⟨hfit, fun _ _ _ => ⟨by decide +kernel, nofun, nofun⟩⟩
    · exact ⟨trivial, fun _ _ _ => ⟨by decide +kernel, nofun, nofun⟩⟩
  have howed : (ledger "a" (start {}) [] ops).owed = [m] := by decide +kernel
  have hrecovers : Recovers "a" ops (ops.foldl step (start {})) (.reopen {} false) := .reopen rfl List.mem_cons_self rfl
  have hkept := (kept_until_acknowledged ⟨"a", by decide⟩ hrun rfl (by decide)).2 _ hrecovers
  rw [howed] at hkept
  exact hkept

end Broker

end PubSub
