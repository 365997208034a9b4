import PubSub.Proofs.CleanStart
import PubSub.Proofs.Stored
/-!
# What a clean session leaves behind

A session that is clean from its clean start to its end leaves no message to those that come after it for
its client, unless its broker stops without closing it (`left_behind`). The queue of a clean session is
recorded like any other, and only closing it deletes what is recorded. Nothing tells a broker that is
opened again that the records it finds are those of a clean session.
-/

namespace PubSub

/-- The broker stops without being closed. -/
def Op.crashes : Op → Bool
  | .reopen _ orderly => !orderly
  | _ => false

namespace Broker

variable {b b₁ b₂ : Broker} {bucket : Bucket} {r : SessionRef} {info : Info} {settings : Settings} {op : Op}

/-- The operation is the end of a session that is registered for the client. -/
def Ends (bucket : Bucket) (r : SessionRef) (b : Broker) (op : Op) : Prop :=
  (∃ settings orderly, op = .reopen settings orderly) ∨ (b.step op).registry.get? bucket.name ≠ some r

/-- The session goes on, as a clean one. -/
def Stays (bucket : Bucket) (r : SessionRef) (b : Broker) (op : Op) : Prop :=
  Lively b op ∧ ¬ Ends bucket r b op ∧ ((b.step op).session? r).map (·.info.clean) = some true

/-- The session is registered for the client and clean, and what is recorded is under an open queue. -/
structure Alive (bucket : Bucket) (r : SessionRef) (b : Broker) : Prop where
  sound : Sound b
  registered : b.registry.get? bucket.name = some r
  clean : ∀ s, b.session? r = some s → s.info.clean = true
  purged : Purged bucket b

/-- An open queue is one of a registered session. -/
theorem Purged.empty (h : Purged bucket b) (hb : Sound b) (hfree : b.registry.get? bucket.name = none) :
    bucket.contents b.store.queue = .empty := by
  refine h.resolve_left ?_
  rintro ⟨r, s, hs, hid, hopen⟩
  have hr := hb.opened hs hopen
  rw [hid, hfree] at hr
  cases hr

theorem registry_disconnect (b : Broker) (id : String) :
    (b.disconnect id).registry = b.registry ∨ (b.disconnect id).registry = b.registry.erase id := by
  unfold Broker.disconnect
  split
  · exact .inl rfl
  · next r _ =>
    split
    · exact .inr (registry_dismiss _ _ _)
    · exact .inl (Local.requeue b r).interest.registry

namespace Alive

theorem fresh (hb : Sound b) (hid : info.id = bucket.name) (hclean : info.clean = true) :
    Alive bucket b.sessions.length (b.connect info).2 := by
  have hsound : Sound (b.connect info).2 := hb.connect info
  obtain ⟨ns, heq⟩ := connect_clean (b := b) hid hclean
  rw [heq] at hsound ⊢
  rw [← length_sessions_cleared b info]
  refine ⟨hsound, (get?_registry_enrolled _ info bucket _).trans (if_pos hid.symm), fun s hs => ?_, .enrolled _ hid⟩
  obtain rfl := Option.some.inj (session?_enrolled_new.symm.trans hs)
  exact hclean

/-- While the session of a client is clean, only queues that were closed before are closed as those of
sessions that are not. -/
theorem purged_step (h : Alive bucket r b) (op : Op) (hop : ∀ settings orderly, op ≠ .reopen settings orderly) :
    Purged bucket (b.step op) := by
  refine h.purged.acts (acts_step h.sound bucket.usable hop) fun q hq => ?_
  obtain ⟨s, hs, hunclean, hwhy⟩ := unclean_of_mem_acts hq
  have hne : b.registry.get? bucket.name ≠ some q := by
    rw [h.registered]
    rintro heq
    obtain rfl := Option.some.inj heq
    exact absurd ((h.clean s hs).symm.trans hunclean) nofun
  rcases hwhy with ⟨-, hid⟩ | ⟨-, hq⟩
  · exact ⟨s, hs, hid, h.sound.closed hs (by rwa [hid])⟩
  · exact absurd hq hne

theorem step (h : Alive bucket r b) (hop : Stays bucket r b op) : Alive bucket r (b.step op) := by
  obtain ⟨hlively, hends, hclean⟩ := hop
  obtain ⟨hreopen, hr⟩ := not_or.1 hends
  refine ⟨h.sound.step hlively.1, Classical.not_not.1 hr, fun s hs => ?_, h.purged_step op ?_⟩
  · rw [hs] at hclean
    exact Option.some.inj hclean
  · exact fun settings orderly heq => hreopen ⟨settings, orderly, heq⟩

theorem empty_close (h : Alive bucket r b) : bucket.contents b.close.store.queue = .empty :=
  (h.purged_step .close (by simp)).empty h.sound.close (registry_close b bucket.name)

theorem empty_disconnect (h : Alive bucket r b) {id : String} (hend : Ends bucket r b (.disconnect id)) :
    bucket.contents (b.disconnect id).store.queue = .empty := by
  have hr : (b.disconnect id).registry.get? bucket.name ≠ some r := hend.resolve_left nofun
  refine (h.purged_step (.disconnect id) (by simp)).empty (h.sound.disconnect id) ?_
  show (b.disconnect id).registry.get? bucket.name = none
  rcases registry_disconnect b id with heq | heq <;> rw [heq] at hr ⊢
  · exact absurd h.registered hr
  · rw [OrderedMap.get?_erase] at hr ⊢
    split at hr
    · next hid => exact if_pos hid
    · exact absurd h.registered hr

theorem empty_connect (h : Alive bucket r b) (hend : Ends bucket r b (.connect info)) :
    bucket.contents (b.connect info).2.store.queue = .empty := by
  have hr : (b.connect info).2.registry.get? bucket.name ≠ some r := hend.resolve_left nofun
  by_cases hid : info.id = bucket.name
  · rcases connect_cases b info with ⟨hfresh, -⟩ | ⟨q, -, -, heq⟩
    · have hclean : info.clean = true := hfresh.resolve_left (by rw [hid, h.registered]; exact nofun)
      obtain ⟨hopened, hclosed⟩ := contents_cleared h.sound hid hclean
      rw [connect_fresh (.inr hclean), queue_enrol]
      by_cases ho : Opened bucket b
      · exact hopened ho
      · rw [hclosed ho]
        exact h.purged.resolve_left ho
    · -- A session that is resumed stays registered.
      rw [heq, (SameMail.update _ q info).registry] at hr
      exact absurd h.registered hr
  · have hacts : Acts bucket.name b _ (b.connect info).2 := acts_connect h.sound bucket.usable info
    rw [show b.acts bucket.name (.connect info) = [] from if_neg hid] at hacts
    cases hacts with
    | same hsame => exact absurd (hsame.registry.trans h.registered) hr

/-- The end of a clean session empties the bucket, if the broker does not stop without closing it. -/
theorem empty_end (h : Alive bucket r b) (hop : op.Configured) (hend : Ends bucket r b op) (hcrash : op.crashes = false) :
    bucket.contents (b.step op).store.queue = .empty := by
  cases op with
  | connect info => exact h.empty_connect hend
  | disconnect id => exact h.empty_disconnect hend
  | route m =>
    have hr : (b.route m).2.registry.get? bucket.name ≠ some r := hend.resolve_left nofun
    rw [(SameInterest.route b m).registry] at hr
    exact absurd h.registered hr
  | call q c =>
    have hr : (b.perform q c).registry.get? bucket.name ≠ some r := hend.resolve_left nofun
    rw [registry_perform] at hr
    exact absurd h.registered hr
  | close => exact h.empty_close
  | reopen settings orderly =>
    cases orderly with
    | false => cases hcrash
    | true =>
      show bucket.contents (b.reopen settings true).2.store.queue = _
      rw [(reopened h.sound hop true).2.queue]
      exact h.empty_close

/-- What the end of a clean session leaves in the bucket. -/
theorem messages_end (h : Alive bucket r b) (hop : op.Configured) (hend : Ends bucket r b op) :
    bucket.messages (b.step op).store.queue = if op.crashes then bucket.messages b.store.queue else [] := by
  split
  · next hcrash =>
    cases op with
    | reopen settings orderly =>
      cases orderly with
      | false =>
        show bucket.messages (b.reopen settings false).2.store.queue = _
        rw [(reopened h.sound hop false).2.queue]
        rfl
      | true => cases hcrash
    | _ => cases hcrash
  · next hcrash =>
    unfold Bucket.messages
    rw [h.empty_end hop hend (Bool.eq_false_iff.2 hcrash)]
    rfl

end Alive

/-- A session that was clean all its life leaves nothing behind, unless it ends with a crash: then all that
is in its queue is left. From then on its client's bucket holds no message but those left and those stored
since, none of them more often, and every message handed out to the client is one of these. -/
theorem left_behind (bucket : Bucket) {before life after : List Op} (h : Run Lively (start settings) before b)
    (hflaw : settings.flaw = none) (hid : info.id = bucket.name) (hclean : info.clean = true)
    (hlife : Run (Stays bucket b.sessions.length) (b.connect info).2 life b₁) (hop : Lively b₁ op)
    (hend : Ends bucket b.sessions.length b₁ op) (hafter : Run Lively (b₁.step op) after b₂) :
    let left := if op.crashes then bucket.messages b₁.store.queue else []
    let held := left ++ storedSince bucket.name (b₁.step op) after
    bucket.messages (b₁.step op).store.queue = left ∧
    (bucket.messages b₂.store.queue).Subperm held ∧
    ∀ r s d, b₂.session? r = some s → s.info.id = bucket.name → (b₂.nextGuaranteed r).1 = .ok (some d) →
      d.message ∈ held := by
  intro left held
  have hb : Sound b := h.sound hflaw fun _ _ h => h.1
  have halive : Alive bucket b.sessions.length b₁ :=
    hlife.invariant (Alive bucket b.sessions.length) (.fresh hb hid hclean) fun _ _ h hop => h.step hop
  have hleft : bucket.messages (b₁.step op).store.queue = left := halive.messages_end hop.1 hend
  obtain ⟨hb₂, hheld⟩ := hafter.messages (halive.sound.step hop.1) (fun _ _ h => h) bucket
  rw [hleft] at hheld
  exact ⟨hleft, hheld, fun r s d hs hsid hd => hheld.subset (handed_out hb₂ hs hsid hd)⟩

/-- A message of a clean session is handed out after a crash, though the client asked for a clean start. -/
theorem handed_out_after_crash :
    let m : Message := { topic := "t", payload := [7], qos := .atLeastOnce }
    let bucket : Bucket := ⟨"a", by decide⟩
    let info : Info := { id := "a", clean := true }
    let life : List Op := [.call 0 (.subscribe [⟨"t", .atLeastOnce⟩] none), .call 0 (.push m)]
    let b₁ := life.foldl step ((start {}).connect info).2
    let b₂ := (b₁.step (.reopen {} false)).step (.connect info)
    storedSince "a" (b₁.step (.reopen {} false)) [.connect info] = [] ∧ m ∈ bucket.messages b₁.store.queue ∧
      ∃ d, (b₂.nextGuaranteed 0).1 = .ok (some d) ∧ d.message = m := by
  intro m bucket info life b₁ b₂
  have hfit : m.Fits := ⟨by decide, by decide⟩
  have hfirst : (start {}).sessions.length = 0 := by decide +kernel
  have hlife : Run (Stays bucket (start {}).sessions.length) ((start {}).connect info).2 ([] ++ [life[0]] ++ [life[1]])
      b₁ := by
    rw [hfirst]
    refine .step (.step .nil ⟨⟨trivial, trivial⟩, ?_⟩) ⟨⟨trivial, hfit⟩, ?_⟩
    all_goals exact ⟨not_or.2 ⟨nofun, Classical.not_not.2 (by decide +kernel)⟩, by decide +kernel⟩
  have hcrash : Lively b₁ (.reopen {} false) := ⟨rfl, trivial⟩
  have hend : Ends bucket (start {}).sessions.length b₁ (.reopen {} false) := .inl ⟨_, _, rfl⟩
  have hafter : Run Lively (b₁.step (.reopen {} false)) ([] ++ [.connect info]) b₂ := .step .nil ⟨trivial, trivial⟩
  have hnone : storedSince "a" (b₁.step (.reopen {} false)) [.connect info] = [] := by decide +kernel
  have hs : b₂.session? 0 = some ((b₂.session? 0).get (by decide +kernel)) := (Option.some_get _).symm
  have hd : (b₂.nextGuaranteed 0).1 = .ok (some ⟨2, m⟩) := by decide +kernel
  have hheld : m ∈ bucket.messages b₁.store.queue ++ storedSince "a" (b₁.step (.reopen {} false)) [.connect info] :=
    (left_behind bucket .nil rfl rfl rfl hlife hcrash hend hafter).2.2 0 _ _ hs (by decide +kernel) hd
  rw [hnone, List.append_nil] at hheld
  exact ⟨hnone, hheld, _, hd, rfl⟩

end Broker

end PubSub
