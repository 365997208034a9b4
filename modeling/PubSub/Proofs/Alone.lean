import PubSub.Proofs.Outstanding
import PubSub.Proofs.OwnCalls
import PubSub.Proofs.Replacement
/-!
# A session alone with its bucket

As long as nobody else touches its bucket, an open session is told by its mail and the records of the bucket:
an operation asks at most one job of it (`asked`), and both are after the operation what the job makes of them
(`served`). What such jobs keep therefore holds along every run that leaves the session open (`Run.alone`).
-/

namespace PubSub

namespace Broker

variable {first b b' c : Broker} {r q : SessionRef} {s s' : Session} {op : Op} {ops : List Op} {j : Job} {id : String}
  {xs : List Act} {n w : Nat} {clean : Bool}

/-! ## What an operation asks -/

/-- The job an operation asks of a session that is registered. -/
def asked (b : Broker) (r : SessionRef) (s : Session) : Op → Option Job
  | .connect info => if info.id = s.info.id ∧ info.clean = true then some (.close true) else none
  | .disconnect id => if id = s.info.id then some (if s.info.clean then .close true else .requeue) else none
  | .route m =>
    match (b.exchange.targets m.topic).find? (·.id = s.info.id) with
    | none => none
    | some t => if t.session = r ∧ s.accepts m = true then some (.store m) else none
  | .call q c => if q = r then s.job? c else none
  | .close => some (.close s.info.clean)
  | .reopen _ _ => none

/-- Where jobs come from. -/
theorem of_asked (h : b.asked r s op = some j) : (∃ m, op = .route m ∧ j = .store m) ∨
    (∃ c, op = .call r c ∧ s.job? c = some j) ∨ (op = .disconnect s.info.id ∧ j = .requeue) ∨
    ∃ clean, j = .close clean := by
  cases op with
  | connect info =>
    rw [asked] at h
    split at h
    · exact .inr (.inr (.inr ⟨true, (Option.some.inj h).symm⟩))
    · cases h
  | disconnect id =>
    rw [asked] at h
    split at h
    · next hid =>
      subst hid
      cases hclean : s.info.clean with
      | true =>
        rw [hclean] at h
        exact .inr (.inr (.inr ⟨true, (Option.some.inj h).symm⟩))
      | false =>
        rw [hclean] at h
        exact .inr (.inr (.inl ⟨rfl, (Option.some.inj h).symm⟩))
    · cases h
  | route m =>
    rw [asked] at h
    split at h
    · cases h
    · split at h
      · exact .inl ⟨m, rfl, (Option.some.inj h).symm⟩
      · cases h
  | call q c =>
    rw [asked] at h
    split at h
    · next hq => exact .inr (.inl ⟨c, by rw [hq], h⟩)
    · cases h
  | close => exact .inr (.inr (.inr ⟨_, (Option.some.inj h).symm⟩))
  | reopen settings orderly => cases h

/-- The broker is not opened anew, the session does not run out of numbers for records, messages can be in
memory, and no call on another session changes the records of its bucket. -/
def Alone (r : SessionRef) (b : Broker) (op : Op) : Prop :=
  Lasts r b op ∧ op.Fits ∧ ∀ q c, op = .call q c → q ≠ r → ∀ s, b.session? r = some s →
    s.durable.bucket.contents (b.step op).store.queue = s.durable.bucket.contents b.store.queue

instance : (op : Op) → Decidable (∀ settings orderly, op ≠ .reopen settings orderly)
  | .reopen settings orderly => isFalse fun h => h settings orderly rfl
  | .connect _ | .disconnect _ | .route _ | .call _ _ | .close => isTrue nofun

instance (r : SessionRef) (b : Broker) (op : Op) : Decidable (Lasts r b op) :=
  decidable_of_iff ((∀ settings orderly, op ≠ .reopen settings orderly) ∧
      ∀ s ∈ b.session? r, ∀ s' ∈ (b.step op).session? r, s.durable.next ≤ s'.durable.next)
    ⟨fun h => ⟨h.1, fun s s' hs hs' => h.2 s hs s' hs'⟩, fun h => ⟨h.1, fun s hs s' hs' => h.2 s s' hs hs'⟩⟩

/-- What holds of every call an operation is, when it is one. -/
theorem forall_call_iff {p : SessionRef → Call → Prop} {q : SessionRef} {c : Call} :
    (∀ q' c', Op.call q c = .call q' c' → p q' c') ↔ p q c :=
  ⟨fun h => h q c rfl, fun h q' c' hop => by cases hop; exact h⟩

instance {p : SessionRef → Call → Prop} [∀ q c, Decidable (p q c)] :
    (op : Op) → Decidable (∀ q c, op = .call q c → p q c)
  | .call _ _ => decidable_of_iff _ forall_call_iff.symm
  | .connect _ | .disconnect _ | .route _ | .close | .reopen _ _ => isTrue nofun

instance (r : SessionRef) (b : Broker) (op : Op) : Decidable (Alone r b op) :=
  haveI (q : SessionRef) : Decidable (q ≠ r → ∀ s, b.session? r = some s →
      s.durable.bucket.contents (b.step op).store.queue = s.durable.bucket.contents b.store.queue) :=
    inferInstanceAs (Decidable (q ≠ r → ∀ s ∈ b.session? r, _ = _))
  inferInstanceAs (Decidable (Lasts r b op ∧ op.Fits ∧
    ∀ q c, op = .call q c → q ≠ r → ∀ s, b.session? r = some s → _ = _))

theorem Alone.configured (h : Alone r b op) : op.Configured := by
  cases op with
  | reopen settings orderly => exact absurd rfl (h.1.1 settings orderly)
  | _ => trivial

/-- What a job makes of a session and the records of its bucket. -/
structure Done (r : SessionRef) (b : Broker) (s : Session) (j : Option Job) (b' : Broker) (s' : Session) : Prop where
  mail : s'.mail = (s.mail.runs b.store.queue j).1
  records : s.durable.bucket.contents b'.store.queue = s.durable.bucket.contents (s.mail.runs b.store.queue j).2

theorem SameFor.done (h : SameFor id b b') (hb : Sound b) (hs : b.session? r = some s) (hid : s.info.id = id)
    (hs' : b'.session? r = some s') : Done r b s none b' s' := by
  obtain ⟨t, ht, hmail⟩ := h.mail hs hid
  obtain rfl := Option.some.inj (hs'.symm.trans ht)
  exact ⟨hmail, h.records _ ((hb.named hs).trans hid)⟩

theorem Does.done (h : Does r j b b') (hs : b.session? r = some s) (hs' : b'.session? r = some s') :
    Done r b s (some j) b' s' := by
  obtain ⟨t, ht, hrun⟩ := h.mail s hs
  obtain rfl := Option.some.inj (hs'.symm.trans ht)
  obtain ⟨hmail, hrecords⟩ := Prod.mk.inj hrun
  exact ⟨hmail, by rw [hrecords]; rfl⟩

/-- A job that is all that is done to a client. -/
theorem Acts.done_one (h : Acts id b [.job r j] b') (hb : Sound b) (hs : b.session? r = some s) (hid : s.info.id = id)
    (hs' : b'.session? r = some s') : Done r b s (some j) b' s' := by
  have hname : s.durable.bucket.name = id := (hb.named hs).trans hid
  cases h with
  | @act _ b₁ b₂ _ _ _ hsame he hrest =>
    obtain ⟨-, -, hdoes⟩ := he
    obtain ⟨s₁, hs₁, hmail₁⟩ := hsame.mail hs hid
    obtain ⟨s₂, hs₂, -⟩ := hdoes.mail s₁ hs₁
    obtain ⟨hmail₂, hrecords₂⟩ := hdoes.done hs₁ hs₂
    obtain ⟨t, ht, hinterest, -⟩ := hdoes.frame.session?_back hs₂
    obtain rfl := Option.some.inj (hs₁.symm.trans ht)
    have hid₂ : s₂.info.id = id := (Interest.id_eq hinterest).trans ((Mail.id_eq hmail₁).trans hid)
    -- The records the job finds are those of the bucket before, so it does the same.
    obtain ⟨hmail, hrecords⟩ := Mail.runs_congr (hsame.records s.mail.durable.bucket hname) (some j)
    rw [show s₁.durable.bucket = s.durable.bucket from congrArg (·.durable.bucket) hmail₁, hmail₁] at hrecords₂
    rw [hmail₁] at hmail₂
    cases hrest with
    | same hlast =>
      obtain ⟨t, ht, hmail'⟩ := hlast.mail hs₂ hid₂
      obtain rfl := Option.some.inj (hs'.symm.trans ht)
      exact ⟨hmail'.trans (hmail₂.trans hmail), (hlast.records _ hname).trans (hrecords₂.trans hrecords)⟩

theorem Acts.done {j : Option Job} (h : Acts id b (j.toList.map (.job r)) b') (hb : Sound b) (hs : b.session? r = some s)
    (hid : s.info.id = id) (hs' : b'.session? r = some s') : Done r b s j b' s' := by
  cases j with
  | none =>
    cases h with
    | same hsame => exact hsame.done hb hs hid hs'
  | some j => exact h.done_one hb hs hid hs'

/-- A session of which nothing is asked but to close is closed. -/
theorem Acts.closed (h : Acts id b xs b') (hxs : xs.filterMap (Act.job? r) = [.close clean]) (hs : b.session? r = some s)
    (hid : s.info.id = id) (hs' : b'.session? r = some s') : s'.durable.closed = true := by
  obtain ⟨t, ht, hworked⟩ := h.worked hs hid
  obtain rfl := Option.some.inj (hs'.symm.trans ht)
  rw [hxs] at hworked
  obtain ⟨k, hrun⟩ := hworked.single
  exact (congrArg (·.durable.closed) hrun).trans (s.durable.close_closed k clean)

/-! ## What an operation does -/

theorem storeActs_eq (hs : b.session? r = some s) (m : Message) :
    b.storeActs r m = if s.accepts m = true then [.job r (.store m)] else [] := by
  rw [storeActs, hs]

/-- A routed message for a client is for its open session, or for one that is closed and accepts nothing. -/
theorem target_eq_or_refuses (hb : Sound b) (hs : b.session? r = some s) (hopen : s.durable.closed = false) {m : Message}
    {t : Binding} (hfind : (b.exchange.targets m.topic).find? (·.id = s.info.id) = some t) :
    t.session = r ∨ t.session ≠ r ∧ ∃ o, b.session? t.session = some o ∧ ¬ o.accepts m = true := by
  have htid : t.id = s.info.id := by simpa using List.find?_some hfind
  obtain ⟨o, ho, hid⟩ := hb.bound (mem_of_mem_targets (List.mem_of_find?_eq_some hfind))
  by_cases ht : t.session = r
  · exact .inl ht
  · refine .inr ⟨ht, o, ho, fun h => ?_⟩
    have hregistered := hb.opened ho (Keeps.open_of_accepts h)
    rw [hid, htid, hb.opened hs hopen] at hregistered
    exact ht (Option.some.inj hregistered).symm

theorem acts_route_eq (hb : Sound b) (hs : b.session? r = some s) (hopen : s.durable.closed = false) (m : Message) :
    b.acts s.info.id (.route m) = (b.asked r s (.route m)).toList.map (.job r) := by
  rw [acts, asked]
  cases hfind : (b.exchange.targets m.topic).find? (·.id = s.info.id) with
  | none => rfl
  | some t =>
    dsimp only
    rcases target_eq_or_refuses hb hs hopen hfind with rfl | ⟨hne, o, ho, hrefuses⟩
    · rw [storeActs_eq hs]
      by_cases haccepts : s.accepts m = true
      · rw [if_pos haccepts, if_pos ⟨rfl, haccepts⟩]
        rfl
      · rw [if_neg haccepts, if_neg fun h => haccepts h.2]
        rfl
    · rw [storeActs_eq ho, if_neg hrefuses, if_neg fun h => hne h.1]
      rfl

/-- An operation does with a session that is alone with its bucket what it asks of it, if the session stays open. -/
theorem done_step (hb : Sound b) (hop : Alone r b op) (hs : b.session? r = some s) (hs' : (b.step op).session? r = some s')
    (hopen' : s'.durable.closed = false) : s.durable.closed = false ∧ Done r b s (b.asked r s op) (b.step op) s' := by
  obtain ⟨hlasts, -, halone⟩ := hop
  have hu := hb.usable hs
  have hopen : s.durable.closed = false := by
    rw [← Bool.not_eq_true]
    intro hclosed
    obtain ⟨t, ht, hmail⟩ := step_mail hb hlasts.1 hs
    obtain rfl := Option.some.inj (hs'.symm.trans ht)
    have hclosed' : s'.durable.closed = true := by
      rcases hmail with hsame | ⟨j, k, -, hrun⟩
      · exact (congrArg (·.durable.closed) hsame).trans hclosed
      · exact (congrArg (·.durable.closed) hrun).trans (Mail.run_of_closed hclosed k j)
    rw [hclosed'] at hopen'
    cases hopen'
  have hr := hb.opened hs hopen
  -- What would close the session is not what was done.
  have hstays {xs : List Act} {clean : Bool} (hacts : Acts s.info.id b xs (b.step op))
      (hxs : xs.filterMap (Act.job? r) = [.close clean]) : False := by
    rw [hacts.closed hxs hs rfl hs'] at hopen'
    cases hopen'
  have hdismiss : (b.dismissActs r).filterMap (Act.job? r) = [.close s.info.clean] := by
    rw [dismissActs, hs]
    simp [Act.job?]
  refine ⟨hopen, ?_⟩
  have hacts := acts_step hb hu hlasts.1
  cases op with
  | connect info =>
    rw [asked]
    by_cases hclean : info.id = s.info.id ∧ info.clean = true
    · rw [acts, if_pos hclean.1, hr] at hacts
      dsimp only at hacts
      rw [if_pos hclean.2] at hacts
      have hclose : [Act.job r (.close true), .free, .enrol b.sessions.length info].filterMap (Act.job? r)
          = [.close true] := by simp [Act.job?]
      exact absurd (hstays hacts hclose) id
    · rw [if_neg hclean]
      have hsame : SameFor s.info.id b (b.connect info).2 :=
        .connect hb hu hr fun hid => Bool.eq_false_iff.2 fun h => hclean ⟨hid, h⟩
      exact hsame.done hb hs rfl hs'
  | disconnect id =>
    rw [asked]
    by_cases hid : id = s.info.id
    · subst hid
      rw [if_pos rfl]
      cases hclean : s.info.clean with
      | true =>
        rw [acts, if_pos rfl, hr] at hacts
        simp only [hs, Option.map_some, Option.getD_some, hclean, if_true] at hacts
        exact absurd (hstays hacts hdismiss) id
      | false =>
        have hrequeue : b.step (.disconnect s.info.id) = b.requeue r := disconnect_eq_requeue hr hs hclean
        rw [hrequeue] at hs' ⊢
        exact (requeue_spec hs).done hs hs'
    · rw [if_neg hid]
      exact (SameFor.disconnect hb hid).done hb hs rfl hs'
  | route m =>
    rw [acts_route_eq hb hs hopen] at hacts
    exact hacts.done hb hs rfl hs'
  | call q c =>
    rw [asked]
    by_cases hq : q = r
    · subst hq
      rw [if_pos rfl]
      obtain ⟨hdone, hidle⟩ := perform_spec hs c
      cases hj : s.job? c with
      | none => exact (SameFor.of_sameMail (hidle hj)).done hb hs rfl hs'
      | some j => exact (hdone j hj).done hs hs'
    · rw [if_neg hq]
      have hsame : (b.perform q c).session? r = b.session? r := (perform_wants b q c).others r (Ne.symm hq)
      obtain rfl := Option.some.inj (hs'.symm.trans (hsame.trans hs))
      exact ⟨rfl, halone q c rfl hq s' hs⟩
  | close =>
    rw [acts, hr] at hacts
    exact absurd (hstays hacts hdismiss) id
  | reopen settings orderly => exact absurd rfl (hlasts.1 settings orderly)

/-- An open session is asked a job it has numbers for, or none, and stays open. -/
structure Served (r : SessionRef) (b : Broker) (op : Op) (s s' : Session) : Prop
    extends Done r b s (b.asked r s op) (b.step op) s' where
  sound : Sound b
  ongoing : ∀ settings orderly, op ≠ .reopen settings orderly
  session : b.session? r = some s
  opened : s.durable.closed = false
  stays : ∀ clean, b.asked r s op ≠ some (.close clean)
  fits : ∀ m, b.asked r s op = some (.store m) → m.Fits
  spare : ∀ j, b.asked r s op = some j → s.mail.Spare b.store.queue j

namespace Served

theorem bucket (h : Served r b op s s') : s'.durable.bucket = s.durable.bucket :=
  (congrArg (·.durable.bucket) h.mail).trans (s.mail.runs_bucket _ _)

theorem registered (h : Served r b op s s') : b.registry.get? s.info.id = some r := h.sound.opened h.session h.opened

theorem asked_connect {info : Info} (h : Served r b (.connect info) s s') : b.asked r s (.connect info) = none := by
  have hstays := h.stays true
  rw [asked] at hstays ⊢
  split at hstays
  · exact absurd rfl hstays
  · next hclean => exact if_neg hclean

theorem asked_disconnect {id : String} (h : Served r b (.disconnect id) s s') :
    b.asked r s (.disconnect id) = if id = s.info.id then some .requeue else none := by
  have hstays := h.stays true
  rw [asked] at hstays ⊢
  split at hstays
  · next hid =>
    rw [if_pos hid, if_pos hid]
    cases hclean : s.info.clean with
    | true =>
      rw [hclean] at hstays
      exact absurd rfl hstays
    | false => rfl
  · next hid => rw [if_neg hid, if_neg hid]

end Served

theorem served (hb : Sound b) (hop : Alone r b op) (hs : b.session? r = some s) (hs' : (b.step op).session? r = some s')
    (hopen' : s'.durable.closed = false) (hcounter : op.delivers b r = true → s.counter.next.toNat + 1 < 2 ^ 64) :
    Served r b op s s' := by
  obtain ⟨hopen, hdone⟩ := done_step hb hop hs hs' hopen'
  obtain ⟨⟨hongoing, hnumbers⟩, hfits, -⟩ := hop
  refine ⟨hdone, hb, hongoing, hs, hopen, fun clean hclean => ?_, fun m hm => ?_, fun j hj => ?_⟩
  · have hmail := hdone.mail
    rw [hclean] at hmail
    have hclosed : s'.durable.closed = true :=
      (congrArg (·.durable.closed) hmail).trans (s.durable.close_closed b.store.queue clean)
    rw [hclosed] at hopen'
    cases hopen'
  · rcases of_asked hm with ⟨m', rfl, hstore⟩ | ⟨c, rfl, hjob⟩ | ⟨-, hstore⟩ | ⟨clean, hstore⟩
    · cases hstore
      exact hfits
    · exact fits_job (r := r) hfits hjob
    · cases hstore
    · cases hstore
  · have hmail := hdone.mail
    rw [hj] at hmail
    cases j with
    | store m =>
      have hle := hnumbers s s' hs hs'
      rw [show s'.durable.next = (s.mail.run b.store.queue (.store m)).1.durable.next from congrArg (·.durable.next) hmail,
        Mail.run_store_open hopen] at hle
      exact toNat_lt_of_le_add_one hle
    | next =>
      rcases of_asked hj with ⟨m, -, hnext⟩ | ⟨c, rfl, hjob⟩ | ⟨-, hnext⟩ | ⟨clean, hnext⟩
      · cases hnext
      · rintro ⟨d, hd⟩
        rw [Session.job?_eq_next.1 hjob] at hcounter
        refine hcounter ?_
        rw [Op.delivers, (nextGuaranteed_spec hs).1, hd, decide_eq_true rfl]
        rfl
      · cases hnext
      · cases hnext
    | acknowledge | requeue | close => trivial

/-! ## Along a run -/

/-- What the jobs of a session keep holds as long as the session is open. -/
theorem Run.alone {α : Type} {allowed : Broker → Op → Prop} {f : Broker → α → Op → α}
    {I : OrderedMap UInt64 Bytes → Mail → α → Prop} {x : α} (h : Run allowed first ops b)
    (hallowed : ∀ b op, allowed b op → Alone r b op) (hfirst : InStep r n w first)
    (hn : n + deliveries r first ops < 2 ^ 64 - 2)
    (hbase : ∀ s, first.session? r = some s → s.durable.closed = false →
      I (s.durable.bucket.contents first.store.queue) s.mail x)
    (hstep : ∀ {b op s s' y}, allowed b op → Served r b op s s' →
      I (s.mail.durable.bucket.contents b.store.queue) s.mail y →
      let after := s.mail.runs b.store.queue (b.asked r s op)
      I (after.1.durable.bucket.contents after.2) after.1 (f b y op))
    (hs : b.session? r = some s) (hopen : s.durable.closed = false) :
    I (s.durable.bucket.contents b.store.queue) s.mail (along f first x ops) := by
  induction h generalizing s with
  | nil => exact hbase s hs hopen
  | @step ops b op hrun hop ih =>
    have halone := hallowed b op hop
    have hcount : deliveries r first (ops ++ [op]) = deliveries r first ops + if op.delivers b r then 1 else 0 :=
      hrun.along_step _ _ _
    rw [hcount] at hn
    have hbefore := (hrun.mono fun b op h => (hallowed b op h).1).inStep_after hfirst (by omega)
    obtain ⟨t, ht, hcounted⟩ := hbefore.session
    have hserved : Served r b op t s := served hbefore.sound halone ht hs hopen fun hdelivers => by
      have hcounter := (hcounted (done_step hbefore.sound halone ht hs hopen).1).counter
      rw [if_pos hdelivers] at hn
      rw [show t.counter.next.toNat = n + deliveries r first ops + 2 from hcounter]
      omega
    have hafter := hstep hop hserved (ih (by omega) ht hserved.opened)
    rw [hrun.along_step]
    dsimp only at hafter
    have hbucket : s.mail.durable.bucket = t.durable.bucket := hserved.bucket
    rw [← hserved.mail, hbucket, ← hserved.records] at hafter
    rwa [← hbucket] at hafter

/-- A session that is open was open before. -/
theorem Run.opened (h : Run (Alone r) first ops b) (hfirst : InStep r n w first)
    (hn : n + deliveries r first ops < 2 ^ 64 - 2) (hs : b.session? r = some s) (hopen : s.durable.closed = false) :
    ∃ t, first.session? r = some t ∧ t.durable.closed = false :=
  h.alone (fun _ _ hop => hop) (f := fun _ x _ => x) (x := ())
    (I := fun _ _ _ => ∃ t, first.session? r = some t ∧ t.durable.closed = false) hfirst hn
    (fun t ht htopen => ⟨t, ht, htopen⟩) (fun _ _ hopened => hopened) hs hopen

/-! ## From the start -/

/-- A session as it was made over a bucket, in a broker that came about in any way. -/
structure Made (first : Broker) (r : SessionRef) (bucket : Bucket) : Prop where
  reached : ∃ settings before, settings.flaw = none ∧ Run Lively (start settings) before first
  session : ∃ s info, first.session? r = some s ∧ s.mail = (first.newSession info bucket).mail
  numbers : ∀ seq ∈ bucket.sequences first.store.queue, seq.toNat + 1 < 2 ^ 64

namespace Made

variable {bucket : Bucket}

/-- A client that is new to a broker has such a session. -/
theorem of_connect {info : Info} (hreached : ∃ settings before, settings.flaw = none ∧ Run Lively (start settings) before b)
    (hfree : b.registry.get? info.id = none) (hname : bucket.name = info.id)
    (hnumbers : ∀ seq ∈ bucket.sequences b.store.queue, seq.toNat + 1 < 2 ^ 64) :
    Made (b.step (.connect info)) b.sessions.length bucket := by
  obtain ⟨settings, before, hflaw, hrun⟩ := hreached
  obtain ⟨ns, henrol⟩ := b.enrol_of_bucket hname
  have hconnect : b.step (.connect info) = (b.enrolled info bucket).report ns := by
    show (b.connect info).2 = _
    rw [connect_fresh (.inl hfree), cleared, hfree]
    exact congrArg Prod.snd henrol
  have hop : Lively b (.connect info) := ⟨trivial, trivial⟩
  refine ⟨⟨settings, before ++ [.connect info], hflaw, hrun.step hop⟩, ?_, ?_⟩
  · rw [hconnect]
    exact ⟨b.newSession info bucket, info, session?_enrolled_new, rfl⟩
  · rw [hconnect]
    exact hnumbers

theorem bucket_eq (h : Made first r bucket) (hs : first.session? r = some s) : s.durable.bucket = bucket := by
  obtain ⟨t, info, ht, hmail⟩ := h.session
  obtain rfl := Option.some.inj (hs.symm.trans ht)
  exact congrArg (·.durable.bucket) hmail

/-- Nothing was handed out yet. -/
theorem inStep (h : Made first r bucket) : InStep r 0 first.settings.maxGuaranteed first := by
  obtain ⟨settings, before, hflaw, hrun⟩ := h.reached
  obtain ⟨s, info, hs, hmail⟩ := h.session
  refine ⟨hrun.sound hflaw fun _ _ h => h.1, s, hs, fun _ => hmail ▸ ⟨.fresh h.numbers, rfl, ?_⟩⟩
  exact Nat.max_eq_left (one_le_maxGuaranteed ((hrun.mono fun _ _ h => h.1).flawless hflaw))

/-- All records wait. -/
theorem mirrors (h : Made first r bucket) : ∃ waiting,
    (bucket.resting first.store.queue).live = Ledger.entriesOf [] waiting ∧
    ∀ s, first.session? r = some s → Mirrors (s.durable.bucket.contents first.store.queue) s.mail [] waiting := by
  obtain ⟨settings, before, hflaw, hrun⟩ := h.reached
  obtain ⟨t, info, ht, hmail⟩ := h.session
  obtain ⟨waiting, hrecords, hfit, hlive⟩ := rests_resting fun e he =>
    ((hrun.numbered hflaw (fun _ _ h => h) bucket).records e he).2
  refine ⟨waiting, hlive, fun s hs => ?_⟩
  obtain rfl := Option.some.inj (hs.symm.trans ht)
  rw [h.bucket_eq hs, hmail]
  refine .fresh info bucket _ _ _ hrecords hfit fun x hx => h.numbers x.seq ?_
  rw [Bucket.sequences_eq, OrderedMap.keys, hrecords, List.map_map]
  exact List.mem_map.2 ⟨x, hx, rfl⟩

end Made

/-- An open session keeps its bucket. -/
theorem Run.bucket_eq {bucket : Bucket} (h : Run (Alone r) first ops b) (hmade : Made first r bucket)
    (hn : deliveries r first ops < 2 ^ 64 - 2) (hs : b.session? r = some s) (hopen : s.durable.closed = false) :
    s.durable.bucket = bucket := by
  refine h.alone (fun _ _ hop => hop) (f := fun _ x _ => x) (x := ()) (I := fun _ m _ => m.durable.bucket = bucket)
    hmade.inStep (by omega) (fun t ht _ => hmade.bucket_eq ht) ?_ hs hopen
  intro b op s s' _ _ _ hbucket
  exact (s.mail.runs_bucket _ _).trans hbucket

end Broker

end PubSub
