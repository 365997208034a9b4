import PubSub.Proofs.Reopening
/-!
# Bindings go with their sessions

As long as registered sessions alone subscribe, every binding is tied to a session that is registered under
its id and is known to hold its filter (`Tied`). Where an id is free, nothing is bound under it.
-/

namespace PubSub

/-- Whether a call takes new subscriptions in. -/
def Call.subscribes : Call → Bool
  | .subscribe subs _ => !subs.isEmpty
  | _ => false

theorem Interest.binds_eq_nil {c : Call} (h : c.subscribes = false) (i : Interest) : i.binds c = [] := by
  cases c with
  | subscribe subs authorize =>
    cases subs with
    | nil => rfl
    | cons sub subs => cases h
  | _ => rfl

theorem Interest.subscribes_of_mem_binds {i : Interest} {c : Call} {f : String} (h : f ∈ i.binds c) :
    c.subscribes = true := by
  rw [← Bool.not_eq_false]
  intro hno
  rw [binds_eq_nil hno] at h
  cases h

namespace Broker

variable {b b' : Broker} {r : SessionRef} {s : Session} {info : Info} {id : String} {settings : Settings} {op : Op}

/-- Registered sessions alone take subscriptions in. -/
def Orderly (b : Broker) (op : Op) : Prop :=
  op.Configured ∧ ∀ r c, op = .call r c → c.subscribes = true → b.Registered r

/-- Every binding is of the session registered under its id, for a filter the session holds. -/
structure Tied (b : Broker) : Prop where
  registered : ∀ {x}, x ∈ b.exchange.bindings → b.registry.get? x.id = some x.session
  held : ∀ {x s}, x ∈ b.exchange.bindings → b.session? x.session = some s → x.filter ∈ s.info.subscriptions.keys

namespace Tied

theorem unbound (h : Tied b) (hfree : b.registry.get? id = none) : ∀ x ∈ b.exchange.bindings, x.id ≠ id := by
  rintro x hx rfl
  have hr := h.registered hx
  rw [hfree] at hr
  cases hr

theorem of_interest (h : Tied b) (hs : SameInterest b b') : Tied b' where
  registered hx := by
    rw [hs.exchange] at hx
    rw [hs.registry]
    exact h.registered hx
  held {x s'} hx hs' := by
    rw [hs.exchange] at hx
    obtain ⟨s, hs, heq⟩ := hs.session?_back hs'
    rw [show s'.info = s.info from congrArg Interest.info heq]
    exact h.held hx hs

/-- As long as a session that is not registered takes no subscriptions in, calls keep the bindings tied. -/
theorem perform (h : Tied b) (hb : Sound b) {c : Call} (hr : c.subscribes = true → b.Registered r) :
    Tied (b.perform r c) := by
  cases hs : b.session? r with
  | none => exact h.of_interest (perform_same (.inr hs))
  | some s =>
    have hmem : ∀ {x}, x ∈ (b.perform r c).exchange.bindings →
        (x ∈ b.exchange.bindings ∨ x.filter ∈ s.interest.binds c ∧ x.id = s.info.id ∧ x.session = r) ∧
          ¬ (x.filter ∈ s.interest.unbinds c ∧ x.id = s.info.id ∧ x.session = r) := by
      intro x hx
      rw [perform_exchange hs, Exchange.mem_unbindAll, Exchange.mem_bindAll] at hx
      exact ⟨hx.1.imp_left And.left, hx.2⟩
    constructor
    · intro x hx
      rw [registry_perform]
      rcases (hmem hx).1 with hx | ⟨hf, hid, hxr⟩
      · exact h.registered hx
      · rw [hid, hxr]
        exact hb.of_registered (hr (Interest.subscribes_of_mem_binds hf)) hs
    · intro x s' hx hs'
      obtain ⟨hx, hno⟩ := hmem hx
      by_cases hxr : x.session = r
      · rw [hxr] at hs'
        obtain ⟨t, ht, heq⟩ := (perform_wants b r c).session?_back hs'
        obtain rfl := Option.some.inj (hs.symm.trans ht)
        rw [show s'.info = (s.interest.after c).info from congrArg Interest.info heq, Interest.mem_keys_after]
        rcases hx with hx | ⟨hf, hid, -⟩
        · -- A binding of the session is under its id, so it is for a filter that was not unbound.
          exact ⟨.inl (h.held hx (hxr ▸ hs)), fun hf => hno ⟨hf, (hb.id_of_bound hx (hxr ▸ hs)).symm, hxr⟩⟩
        · exact ⟨.inr hf, fun hf => hno ⟨hf, hid, hxr⟩⟩
      · rw [(perform_wants b r c).others _ hxr] at hs'
        exact h.held (hx.resolve_right fun hx => hxr hx.2.2) hs'

/-! ## Coming and going -/

/-- A session that is dismissed leaves no binding behind. -/
theorem dismiss (h : Tied b) (hb : Sound b) (hr : b.registry.get? id = some r) : Tied (b.dismiss id r) := by
  obtain ⟨s, hs, hid⟩ := hb.registered hr
  have hleft : ∀ x ∈ (b.dismiss id r).exchange.bindings, x ∈ b.exchange.bindings ∧ x.session ≠ r := by
    intro x hx
    rw [exchange_dismiss hs, Exchange.mem_unbindAll] at hx
    -- A binding of the session is for a filter it holds, so it was removed.
    exact ⟨hx.1, fun hxr => hx.2 ⟨h.held hx.1 (hxr ▸ hs), (hb.id_of_bound hx.1 (hxr ▸ hs)).symm, hxr⟩⟩
  constructor
  · intro x hx
    obtain ⟨hx, hxr⟩ := hleft x hx
    have hregistered := h.registered hx
    rw [registry_dismiss, OrderedMap.get?_erase, if_neg]
    · exact hregistered
    · intro hxid
      rw [hxid, hr] at hregistered
      exact hxr (Option.some.inj hregistered).symm
  · intro x s' hx hs'
    obtain ⟨hx, hxr⟩ := hleft x hx
    rw [(dismiss_wants b id r).others _ hxr] at hs'
    exact h.held hx hs'

theorem enrol (h : Tied b) (hb : Sound b) (hfree : b.registry.get? info.id = none) : Tied (b.enrol info).2 := by
  by_cases hu : usableName info.id = true
  · obtain ⟨bucket, ns, -, heq⟩ := enrol_of_usable b hu
    rw [heq]
    refine of_interest ⟨fun {x} hx => ?_, fun {x s'} hx hs' => ?_⟩ (.report _ ns)
    · exact (get?_registry_enrolled _ _ _ _).trans ((if_neg (h.unbound hfree x hx)).trans (h.registered hx))
    · -- A binding is tied to a session that was there before.
      obtain ⟨s, hs, -⟩ := hb.bound hx
      exact h.held hx ((session?_enrolled.1 hs').resolve_right fun hnew => session?_ne_length hs hnew.1)
  · obtain ⟨e, ns, heq⟩ := enrol_of_unusable b hu
    rw [heq]
    exact h.of_interest (.report b ns)

theorem update (h : Tied b) (hb : Sound b) (r : SessionRef) (info : Info) : Tied (b.update r info) :=
  h.perform (c := .update info) hb nofun

theorem enduring : Enduring Tied where
  same := of_interest
  dismiss hb h hr := h.dismiss hb hr

theorem cleared (h : Tied b) (hb : Sound b) (info : Info) : Tied (b.cleared info) :=
  enduring.cleared hb h info fun hb h _ => h.update hb _ _

theorem connect (h : Tied b) (hb : Sound b) (info : Info) : Tied (b.connect info).2 := by
  rcases connect_cases b info with ⟨-, heq⟩ | ⟨r, -, -, heq⟩ <;> rw [heq]
  · exact (h.cleared hb info).enrol (hb.cleared info) (get?_registry_cleared b info)
  · exact (enduring.report h _).update (hb.report _) r info

/-! ## Runs -/

/-- What is bound on opening is bound to the sessions that are back. -/
theorem of_restored {k queue : Keyspace} {done : List Info} (h : Restored k queue done b) : Tied b where
  registered {x} hx := by
    obtain ⟨-, -, -, -, hr⟩ := (h.bound x).1 hx
    exact hr
  held {x s} hx hs := by
    obtain ⟨info, hinfo, hid, hf, hr⟩ := (h.bound x).1 hx
    obtain ⟨r, t, hr', ht, hinterest⟩ := h.back info hinfo
    obtain rfl : x.session = r := Option.some.inj (hr.symm.trans (hid ▸ hr'))
    obtain rfl := Option.some.inj (hs.symm.trans ht)
    rw [show s.info = info from congrArg Interest.info hinterest]
    exact hf

theorem step (h : Tied b) (hb : Sound b) (hop : Orderly b op) : Tied (b.step op) := by
  cases op with
  | connect info => exact h.connect hb info
  | disconnect id => exact enduring.disconnect hb h id
  | route m => exact h.of_interest (.route b m)
  | call r c => exact h.perform hb (hop.2 r c rfl)
  | close => exact enduring.close hb h
  | reopen settings orderly => exact of_restored (reopened hb hop.1 orderly).2

end Tied

theorem Run.tied {ops : List Op} (h : Run Orderly (start settings) ops b) (hflaw : settings.flaw = none) : Tied b := by
  induction h with
  | nil => exact .of_restored (restored_start hflaw)
  | @step ops b op hrun hop ih => exact ih.step (hrun.sound hflaw fun _ _ h => h.1) hop

end Broker

end PubSub
