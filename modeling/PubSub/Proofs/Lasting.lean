import PubSub.Proofs.Interests
import PubSub.Proofs.Numbers
/-!
# A client that stays

A client that never asks for a clean start has a session that is not clean, and from the time it first
connected a record to restore the session from (`Lasting`).
-/

namespace PubSub

/-- Whether an operation brings a client in. -/
def Op.joins (id : String) : Op → Bool
  | .connect info => info.id = id
  | _ => false

namespace Broker

variable {b b' : Broker} {r : SessionRef} {s : Session} {info : Info} {id id' : String} {joined : Bool}
  {f : Interest → Interest}

/-- The client never asks for a clean start, and is called by its registered session only, which it
does not close. -/
def Steady (id : String) (b : Broker) : Op → Prop
  | .connect info => info.id = id → info.clean = false
  | .route m => m.Fits
  | .call r c => c.Fits ∧ ∀ s, b.session? r = some s → s.info.id = id →
      b.registry.get? id = some r ∧ c ≠ .close ∧ ∀ info, c = .update info → info.clean = false
  | .reopen settings _ => settings.flaw = none
  | .disconnect _ | .close => True

theorem Steady.configured {op : Op} (h : Steady id b op) : op.Configured := by
  cases op with
  | reopen settings orderly => exact h
  | _ => trivial

theorem Steady.fits {op : Op} (h : Steady id b op) : op.Fits := by
  cases op with
  | route m => exact h
  | call r c => exact h.1
  | _ => trivial

structure Lasting (id : String) (joined : Bool) (b : Broker) : Prop where
  unclean : ∀ {r s}, b.registry.get? id = some r → b.session? r = some s → s.info.clean = false
  recorded : joined = true → (OrderedMap.get? b.store.sessions (Text.bytes id)).isSome

/-- A client that leaves a session that is not clean has its deliveries taken back. -/
theorem disconnect_eq_requeue (hr : b.registry.get? id = some r) (hs : b.session? r = some s)
    (hclean : s.info.clean = false) :
    b.disconnect id = b.perform r .requeue := by
  unfold disconnect
  simp only [hr, hs, Option.map_some, Option.getD_some, hclean]
  rfl

namespace Lasting

theorem of_interest (h : Lasting id joined b) (hs : SameInterest b b') : Lasting id joined b' where
  unclean hr hs' := by
    obtain ⟨s, hs₀, heq⟩ := hs.session?_back hs'
    rw [hs.registry] at hr
    exact (congrArg (·.info.clean) heq).trans (h.unclean hr hs₀)
  recorded := by
    rw [hs.records]
    exact h.recorded

theorem recorded_of_writes (h : Lasting id joined b) (hrec : Writes r b b')
    (hs : ∀ s, b'.session? r = some s → s.info.id = id → s.info.clean = false) (hj : joined = true) :
    (OrderedMap.get? b'.store.sessions (Text.bytes id)).isSome := by
  rcases hrec with heq | ⟨s, hs', heq⟩ <;> rw [heq]
  · exact h.recorded hj
  · by_cases hid : s.info.id = id
    · subst hid
      rw [SessionRecords.written, hs s hs' rfl, if_neg Bool.false_ne_true, SessionRecords.get?_save_self]
      rfl
    · rw [SessionRecords.get?_written_other hid]
      exact h.recorded hj

/-- What a session comes to want does not make it clean. -/
theorem of_wants (h : Lasting id joined b) (hb : Sound b) (hreg : b'.registry = b.registry) (hw : Wants r f b b')
    (hrec : Writes r b b') (hid : ∀ i, (f i).info.id = i.info.id)
    (hkeep : ∀ s, b.session? r = some s → s.info.id = id → (f s.interest).info.clean = false) : Lasting id joined b' where
  unclean {q s'} hr hs' := by
    rw [hreg] at hr
    by_cases hq : q = r
    · subst hq
      obtain ⟨s, hs, heq⟩ := hw.session?_back hs'
      exact (congrArg (·.info.clean) heq).trans (hkeep s hs (hb.id_of_registered hr hs))
    · rw [hw.others q hq] at hs'
      exact h.unclean hr hs'
  recorded := by
    refine h.recorded_of_writes hrec fun s' hs' hsid => ?_
    obtain ⟨s, hs, heq⟩ := hw.session?_back hs'
    have hsame : s'.info.id = s.info.id := (congrArg (·.info.id) heq).trans (hid s.interest)
    exact (congrArg (·.info.clean) heq).trans (hkeep s hs (hsame.symm.trans hsid))

theorem perform (h : Lasting id joined b) (hb : Sound b) {c : Call} (hc : Steady id b (.call r c)) :
    Lasting id joined (b.perform r c) := by
  refine h.of_wants hb (registry_perform b r c) (perform_wants b r c) (perform_writes b r c) (·.after_id c) ?_
  intro s hs hid
  obtain ⟨hr, -, hupdate⟩ := hc.2 s hs hid
  have hclean := h.unclean hr hs
  exact (Interest.after_clean fun info hinfo => (hupdate info hinfo).trans hclean.symm).trans hclean

theorem update (h : Lasting id joined b) (hb : Sound b)
    (hclean : ∀ s, b.session? r = some s → s.info.id = id → info.clean = false) :
    Lasting id joined (b.update r info) :=
  h.of_wants hb (SameMail.update b r info).registry (update_wants b r info) (perform_writes b r (.update info))
    (fun _ => rfl) hclean

/-- A client that comes back has its record written. -/
theorem resume (h : Lasting id joined b) (hb : Sound b) (hr : b.registry.get? info.id = some r)
    (hclean : info.id = id → info.clean = false) : Lasting id (joined || decide (info.id = id)) (b.update r info) := by
  obtain ⟨s, hs, hsid⟩ := hb.registered hr
  have hkept : Lasting id joined (b.update r info) :=
    h.update hb fun t ht hid => hclean ((hb.id_of_registered hr ht).symm.trans hid)
  refine ⟨hkept.unclean, fun hj => ?_⟩
  by_cases hid : info.id = id
  · subst hid
    have hwritten : (b.update r info).store.sessions = SessionRecords.written b.store.sessions
        { s.info with will := info.will, clean := info.clean } := by
      unfold Broker.update
      rw [hs]
      exact records_persistSession (session?_setSession_self hs)
    rw [hwritten, SessionRecords.written, if_neg (by simp [hclean rfl]), ← hsid]
    exact congrArg Option.isSome (SessionRecords.get?_save_self b.store.sessions
      { s.info with will := info.will, clean := info.clean })
  · exact hkept.recorded (by simpa [hid] using hj)

theorem enrolled {bucket : Bucket} (h : Lasting id joined b) (hb : Sound b) (hclean : info.id = id → info.clean = false) :
    Lasting id (joined || decide (info.id = id)) (b.enrolled info bucket) where
  unclean {r s} hr hs := by
    rw [get?_registry_enrolled] at hr
    split at hr
    · next hid =>
      obtain rfl := Option.some.inj hr
      obtain rfl := Option.some.inj (session?_enrolled_new.symm.trans hs)
      exact hclean hid.symm
    · obtain ⟨t, ht, -⟩ := hb.registered hr
      obtain rfl := Option.some.inj (hs.symm.trans (session?_enrolled.2 (.inl ht)))
      exact h.unclean hr ht
  recorded := by
    intro hj
    show (OrderedMap.get? (SessionRecords.written b.store.sessions info) (Text.bytes id)).isSome
    by_cases hid : info.id = id
    · subst hid
      rw [SessionRecords.written, hclean rfl, if_neg Bool.false_ne_true, SessionRecords.get?_save_self]
      rfl
    · rw [SessionRecords.get?_written_other hid]
      exact h.recorded (by simpa [hid] using hj)

theorem dismiss (h : Lasting id joined b) : Lasting id joined (b.dismiss id' r) where
  unclean {q s'} hr hs' := by
    rw [registry_dismiss, OrderedMap.get?_erase] at hr
    split at hr
    · cases hr
    · by_cases hq : q = r
      · subst hq
        obtain ⟨s, hs, heq⟩ := (dismiss_wants b id' q).session?_back hs'
        exact (congrArg (·.info.clean) heq).trans (h.unclean hr hs)
      · rw [(dismiss_wants b id' r).others q hq] at hs'
        exact h.unclean hr hs'
  recorded := by
    rw [records_dismiss]
    exact h.recorded

theorem enduring : Enduring (Lasting id joined) where
  same := of_interest
  dismiss _ h _ := h.dismiss

theorem enrol (h : Lasting id joined b) (hb : Sound b) (hu : usableName id = true)
    (hclean : info.id = id → info.clean = false) :
    Lasting id (joined || decide (info.id = id)) (b.enrol info).2 := by
  by_cases husable : usableName info.id = true
  · obtain ⟨bucket, ns, -, heq⟩ := enrol_of_usable b husable
    rw [heq]
    exact enduring.report (h.enrolled hb hclean) ns
  · obtain ⟨e, ns, heq⟩ := enrol_of_unusable b husable
    have hid : info.id ≠ id := fun he => husable (he ▸ hu)
    rw [heq]
    simp only [hid, decide_false, Bool.or_false]
    exact enduring.report h ns

/-- A client keeps its session when another is cleared. -/
theorem cleared (h : Lasting id joined b) (hb : Sound b) (hother : info.id = id → b.registry.get? info.id = none) :
    Lasting id joined (b.cleared info) := by
  unfold Broker.cleared
  split
  · exact h
  · next r hr =>
    refine ((enduring.report h _).update (hb.report _) fun t ht htid => ?_).dismiss
    have hfree := hother ((hb.id_of_registered hr ht).symm.trans htid)
    rw [hr] at hfree
    cases hfree

theorem connect (h : Lasting id joined b) (hb : Sound b) (hu : usableName id = true)
    (hclean : info.id = id → info.clean = false) :
    Lasting id (joined || decide (info.id = id)) (b.connect info).2 := by
  rcases connect_cases b info with ⟨hfresh, heq⟩ | ⟨r, hr, -, heq⟩ <;> rw [heq]
  · -- The client itself has no clean start, so it gets a fresh session only where it had none.
    refine (h.cleared hb fun hid => ?_).enrol (hb.cleared info) hu hclean
    exact hfresh.resolve_right (by rw [hclean hid]; exact Bool.false_ne_true)
  · exact (enduring.report h _).resume (hb.report _) hr hclean

theorem step (h : Lasting id joined b) (hb : Sound b) (hu : usableName id = true) {op : Op} (hop : Steady id b op)
    (hne : ∀ settings orderly, op ≠ .reopen settings orderly) : Lasting id (joined || op.joins id) (b.step op) := by
  have hstay {op : Op} {b' : Broker} (hno : op.joins id = false) (h' : Lasting id joined b') :
      Lasting id (joined || op.joins id) b' := by
    rw [hno, Bool.or_false]
    exact h'
  cases op with
  | connect info => exact h.connect hb hu hop
  | disconnect id' => exact hstay rfl (enduring.disconnect hb h id')
  | route m => exact hstay rfl (h.of_interest (.route b m))
  | call r c => exact hstay rfl (h.perform hb hop)
  | close => exact hstay rfl (enduring.close hb h)
  | reopen settings orderly => exact absurd rfl (hne settings orderly)

/-! ## Opening again -/

theorem weaken {joined' : Bool} (h : Lasting id joined' b) (hj : joined = true → joined' = true) : Lasting id joined b :=
  ⟨h.unclean, fun he => h.recorded (hj he)⟩

/-- A session restored from a record is not clean. -/
theorem restored (h : Lasting id joined b) (hb : Sound b) (hu : usableName info.id = true) (hclean : info.clean = false)
    (hfree : b.registry.get? info.id = none) : Lasting id joined ((b.enrol info).2.registerAll b.sessions.length) := by
  have hsound := hb.enrol hfree
  obtain ⟨bucket, ns, -, heq⟩ := enrol_of_usable b hu
  have henrolled : Lasting id (joined || decide (info.id = id)) ((b.enrolled info bucket).report ns) :=
    enduring.report (h.enrolled hb fun _ => hclean) ns
  rw [heq] at hsound ⊢
  refine (henrolled.weaken fun hj => by rw [hj, Bool.true_or]).of_wants hsound (SameMail.registerAll _ _).registry
    (.registerAll _ _) (.inl (congrArg _ (store_registerAll _ _))) (fun _ => rfl) fun s hs _ => ?_
  obtain rfl := Option.some.inj (session?_enrolled_new.symm.trans hs)
  exact hclean

end Lasting

end Broker

end PubSub
