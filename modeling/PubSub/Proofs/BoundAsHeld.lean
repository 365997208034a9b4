import PubSub.Proofs.Bindings
import PubSub.Proofs.ExchangeTable
import PubSub.Proofs.InSync
/-!
# What is bound is what is held

A registered session has each filter that it holds bound, from when it subscribes or is restored until it lets
go of the filter or is let go itself (`Complete`). With nothing else bound (`Tied`), the exchange has just the
subscriptions of the registered sessions (`bound_as_held`), and none once the broker is closed.
-/

namespace PubSub.Broker

variable {b b' : Broker} {r : SessionRef} {s : Session} {info : Info} {id : String} {settings : Settings}
  {dormant dormant' : SessionRef → Bool} {op : Op}

/-- Registered sessions that are not dormant have all that they hold bound. -/
structure Complete (dormant : SessionRef → Bool) (b : Broker) : Prop where
  bound : ∀ {id r s f}, b.registry.get? id = some r → b.session? r = some s → dormant r = false →
    f ∈ s.info.subscriptions.keys → ⟨f, id, r⟩ ∈ b.exchange.bindings

namespace Complete

theorem of_interest (h : Complete dormant b) (hs : SameInterest b b') : Complete dormant b' where
  bound {id r s' f} hr hs' hd hf := by
    obtain ⟨s, hs₀, heq⟩ := hs.session?_back hs'
    rw [hs.registry] at hr
    rw [show s'.info = s.info from congrArg Interest.info heq] at hf
    rw [hs.exchange]
    exact h.bound hr hs₀ hd hf

/-- A call leaves every filter bound that is held afterwards. Only subscribing wakes a session. -/
theorem perform {c : Call} (h : Complete dormant b) (hb : Sound b) (hr : c.subscribes = true → b.Registered r)
    (hd : ∀ q, dormant' q = false → dormant q = false ∨ q = r ∧ c.subscribes = true) :
    Complete dormant' (b.perform r c) := by
  cases hs : b.session? r with
  | none =>
    refine of_interest ⟨fun {id q t f} hq ht hdq hf => ?_⟩ (perform_same (.inr hs))
    refine h.bound hq ht ((hd q hdq).resolve_right fun hqr => ?_) hf
    rw [hqr.1, hs] at ht
    cases ht
  | some s =>
    have hmem (x : Binding) : x ∈ (b.perform r c).exchange.bindings ↔
        (x ∈ b.exchange.bindings ∧ ¬ (x.filter ∈ s.interest.binds c ∧ x.id = s.info.id) ∨
          x.filter ∈ s.interest.binds c ∧ x.id = s.info.id ∧ x.session = r) ∧
        ¬ (x.filter ∈ s.interest.unbinds c ∧ x.id = s.info.id ∧ x.session = r) := by
      rw [perform_exchange hs, Exchange.mem_unbindAll, Exchange.mem_bindAll]
    constructor
    intro id q t f hq ht hdq hf
    rw [registry_perform] at hq
    by_cases hqr : q = r
    · subst hqr
      obtain ⟨s', hs', heq⟩ := (perform_wants b q c).session?_back ht
      obtain rfl := Option.some.inj (hs.symm.trans hs')
      obtain rfl := hb.id_of_registered hq hs
      rw [show t.info = (s.interest.after c).info from congrArg Interest.info heq, Interest.mem_keys_after] at hf
      refine (hmem _).2 ⟨?_, fun hno => hf.2 hno.1⟩
      by_cases hbinds : f ∈ s.interest.binds c
      · exact .inr ⟨hbinds, rfl, rfl⟩
      · -- What is held and not bound anew was bound, as all that is held is bound on subscribing.
        have hheld := hf.1.resolve_right hbinds
        refine .inl ⟨h.bound hq hs ((hd q hdq).resolve_right fun hsub => ?_) hheld, fun hno => hbinds hno.1⟩
        cases c with
        | subscribe subs authorize =>
          cases subs with
          | nil => cases hsub.2
          | cons sub subs => exact absurd (Interest.keys_accept hheld (sub :: subs)) hbinds
        | _ => cases hsub.2
    · rw [(perform_wants b r c).others q hqr] at ht
      have hbound := h.bound hq ht ((hd q hdq).resolve_right fun hsub => hqr hsub.1) hf
      refine (hmem _).2 ⟨.inl ⟨hbound, ?_⟩, fun hno => hqr hno.2.2⟩
      -- The session that binds is registered under its id, so this one is of another client.
      rintro ⟨hbinds, rfl⟩
      have hreg := hb.of_registered (hr (Interest.subscribes_of_mem_binds hbinds)) hs
      exact hqr (Option.some.inj (hq.symm.trans hreg))

theorem dismiss (h : Complete dormant b) (hb : Sound b) (hr : b.registry.get? id = some r) :
    Complete dormant (b.dismiss id r) := by
  obtain ⟨s, hs, rfl⟩ := hb.registered hr
  constructor
  intro id q t f hq ht hdq hf
  rw [registry_dismiss, OrderedMap.get?_erase] at hq
  split at hq
  · cases hq
  · next hid =>
    -- A session that is registered still is of another client, so it is another one.
    have hqr : q ≠ r := by
      rintro rfl
      exact hid (hb.id_of_registered hq hs).symm
    rw [(dismiss_wants b s.info.id r).others q hqr] at ht
    rw [exchange_dismiss hs, Exchange.mem_unbindAll]
    exact ⟨h.bound hq ht hdq hf, fun hno => hqr hno.2.2⟩

theorem update (h : Complete dormant b) (hb : Sound b) (r : SessionRef) (info : Info) :
    Complete dormant (b.update r info) :=
  h.perform (c := .update info) hb nofun fun _ hq => .inl hq

theorem enduring : Enduring (Complete dormant) where
  same := of_interest
  dismiss hb h hr := h.dismiss hb hr

/-- A session that is awake from the first has come with nothing to hold. -/
theorem enrol (h : Complete dormant b) (hb : Sound b)
    (hnew : dormant b.sessions.length = false → info.subscriptions = .empty) : Complete dormant (b.enrol info).2 := by
  by_cases hu : usableName info.id = true
  · obtain ⟨bucket, ns, -, heq⟩ := enrol_of_usable b hu
    rw [heq]
    refine of_interest (b := b.enrolled info bucket) ⟨fun {id q s f} hq hs hdq hf => ?_⟩ (.report _ ns)
    rw [get?_registry_enrolled] at hq
    split at hq
    · obtain rfl := Option.some.inj hq
      obtain rfl := Option.some.inj (session?_enrolled_new.symm.trans hs)
      have hnone : f ∈ info.subscriptions.keys := hf
      rw [hnew hdq] at hnone
      cases hnone
    · obtain ⟨t, ht, -⟩ := hb.registered hq
      rw [session?_enrolled.2 (.inl ht)] at hs
      obtain rfl := Option.some.inj hs
      exact h.bound hq ht hdq hf
  · obtain ⟨e, ns, heq⟩ := enrol_of_unusable b hu
    rw [heq]
    exact h.of_interest (.report b ns)

theorem connect (h : Complete dormant b) (hb : Sound b)
    (hnew : dormant b.sessions.length = false → info.subscriptions = .empty) : Complete dormant (b.connect info).2 := by
  rcases connect_cases b info with ⟨-, heq⟩ | ⟨r, -, -, heq⟩ <;> rw [heq]
  · refine (enduring.cleared hb h info fun hb h _ => h.update hb _ _).enrol (hb.cleared info) ?_
    rw [length_sessions_cleared]
    exact hnew
  · exact (enduring.report h _).update (hb.report _) r info

/-- What is restored is bound. -/
theorem of_restored {k queue : Keyspace} {done : List Info} (h : Restored k queue done b) : Complete dormant b where
  bound {id r s f} hr hs _ hf := by
    obtain ⟨info, hi, rfl⟩ := h.only (by rw [hr]; rfl)
    obtain ⟨q, t, hq, ht, hinterest⟩ := h.back info hi
    obtain rfl := Option.some.inj (hr.symm.trans hq)
    obtain rfl := Option.some.inj (hs.symm.trans ht)
    rw [show s.info = info from congrArg Interest.info hinterest] at hf
    exact (h.bound _).2 ⟨info, hi, rfl, hf, hr⟩

/-- When no client comes with subscriptions of its own, no session is dormant. -/
theorem step (h : Complete (fun _ => false) b) (hb : Sound b) (hop : Orderly b op) (hplain : Plain b op) :
    Complete (fun _ => false) (b.step op) := by
  cases op with
  | connect info => exact h.connect hb fun _ => hplain.2 info rfl
  | disconnect id => exact enduring.disconnect hb h id
  | route m => exact h.of_interest (.route b m)
  | call r c => exact h.perform hb (hop.2 r c rfl) fun _ hq => .inl hq
  | close => exact enduring.close hb h
  | reopen settings orderly => exact of_restored (reopened hb hop.1 orderly).2

end Complete

theorem Run.complete {ops : List Op} (h : Run (fun b op => Orderly b op ∧ Plain b op) (start settings) ops b)
    (hflaw : settings.flaw = none) : Complete (fun _ => false) b := by
  induction h with
  | nil => exact .of_restored (restored_start hflaw)
  | @step ops b op hrun hop ih => exact ih.step (hrun.sound hflaw fun _ _ h => h.1.1) hop.1 hop.2

/-! ## The exchange and the sessions -/

/-- All filters that registered sessions hold, those of one session after those of another. -/
def heldFilters (b : Broker) : List String :=
  b.registry.entries.flatMap fun e => ((b.session? e.2).map (·.info.subscriptions.keys)).getD []

theorem mem_heldFilters {f : String} : f ∈ b.heldFilters ↔
    ∃ id r s, b.registry.get? id = some r ∧ b.session? r = some s ∧ f ∈ s.info.subscriptions.keys := by
  unfold heldFilters
  rw [List.mem_flatMap]
  constructor
  · rintro ⟨⟨id, r⟩, he, hf⟩
    cases hs : b.session? r with
    | none =>
      rw [hs] at hf
      cases hf
    | some s =>
      rw [hs] at hf
      exact ⟨id, r, s, OrderedMap.get?_eq_some_iff.2 he, hs, hf⟩
  · rintro ⟨id, r, s, hr, hs, hf⟩
    refine ⟨(id, r), OrderedMap.get?_eq_some_iff.1 hr, ?_⟩
    rw [hs]
    exact hf

namespace Tied

/-- The session bound under an id is the one registered under it, so there is only one. -/
theorem functional (h : Tied b) : b.exchange.Functional := by
  intro y hy z hz _ hid
  have hr := h.registered hy
  rw [hid] at hr
  exact Option.some.inj (hr.symm.trans (h.registered hz))

/-- Nothing is bound where no session is registered. -/
theorem bindings_eq_nil (h : Tied b) (hfree : ∀ id, b.registry.get? id = none) : b.exchange.bindings = [] := by
  rw [List.eq_nil_iff_forall_not_mem]
  intro x hx
  exact h.unbound (hfree x.id) x hx rfl

end Tied

/-- The exchange binds a filter under an id to a session just when that is the session registered under the
id and it holds the filter. The table is kept in step by what is bound and unbound from there on, and every
filter in it has a session, so the filters bound are as many as there are held by registered sessions. When
the broker is closed, nothing is bound. -/
theorem bound_as_held {ops : List Op} (h : Run (fun b op => Orderly b op ∧ Plain b op) (start settings) ops b)
    (hflaw : settings.flaw = none) :
    (∀ f id r, b.exchange.bound? f id = some r ↔
      b.registry.get? id = some r ∧ ∃ s, b.session? r = some s ∧ f ∈ s.info.subscriptions.keys) ∧
    (∀ changes : List Exchange.Change, let t := changes.foldl Exchange.Table.change b.exchange.table
      (changes.foldl Exchange.change b.exchange).table = t ∧
        ∀ f sessions, t.get? f = some sessions → sessions ≠ .empty) ∧
    b.exchange.table.size = b.heldFilters.eraseDups.length ∧
    b.exchange.filters.length = b.heldFilters.eraseDups.length ∧
    b.close.exchange.bindings = [] := by
  have hb : Sound b := h.sound hflaw fun _ _ hop => hop.1.1
  have htied : Tied b := (h.mono fun _ _ hop => hop.1).tied hflaw
  have hcomplete := h.complete hflaw
  have hbound (f id : String) (r : SessionRef) : ⟨f, id, r⟩ ∈ b.exchange.bindings ↔
      b.registry.get? id = some r ∧ ∃ s, b.session? r = some s ∧ f ∈ s.info.subscriptions.keys := by
    constructor
    · intro hx
      obtain ⟨s, hs, -⟩ := hb.bound hx
      exact ⟨htied.registered hx, s, hs, htied.held hx hs⟩
    · rintro ⟨hr, s, hs, hf⟩
      exact hcomplete.bound hr hs rfl hf
  have hfilters : b.exchange.filters.length = b.heldFilters.eraseDups.length := by
    refine Exchange.length_eraseDups_congr fun f => ?_
    rw [mem_heldFilters, List.mem_map]
    constructor
    · rintro ⟨x, hx, rfl⟩
      obtain ⟨hr, s, hs, hf⟩ := (hbound x.filter x.id x.session).1 hx
      exact ⟨x.id, x.session, s, hr, hs, hf⟩
    · rintro ⟨id, r, s, hr, hs, hf⟩
      exact ⟨⟨f, id, r⟩, (hbound f id r).2 ⟨hr, s, hs, hf⟩, rfl⟩
  refine ⟨fun f id r => ?_, fun changes => ?_, ?_, hfilters, ?_⟩
  · rw [htied.functional.bound?_eq_some_iff, hbound]
  · have hstep := htied.functional.table_changes changes
    exact ⟨hstep, hstep ▸ Exchange.pruned_table _⟩
  · rw [Exchange.size_table htied.functional, hfilters]
  · exact (Tied.enduring.close hb htied).bindings_eq_nil b.registry_close

/-- Two clients hold a filter, and one of them another besides: two filters are bound. -/
theorem bound_for_two_clients :
    let ops : List Op := [.connect { id := "a" }, .connect { id := "b" },
      .call 0 (.subscribe [⟨"t", .atLeastOnce⟩, ⟨"u/#", .atMostOnce⟩] none), .call 1 (.subscribe [⟨"t", .atMostOnce⟩] none)]
    let b := ops.foldl step (start {})
    b.exchange.bound? "t" "b" = some 1 ∧ b.exchange.bound? "u/#" "b" = none ∧ b.exchange.table.size = 2 ∧
      b.close.exchange.bindings = [] := by
  intro ops b
  have hrun : Run (fun b op => Orderly b op ∧ Plain b op) (start {}) ops b := by
    refine .step (.step (.step (.step .nil ?_) ?_) ?_) ?_
    · refine ⟨⟨trivial, nofun⟩, trivial, ?_⟩
      rintro _ ⟨⟩
      rfl
    · refine ⟨⟨trivial, nofun⟩, trivial, ?_⟩
      rintro _ ⟨⟩
      rfl
    · refine ⟨⟨trivial, ?_⟩, trivial, nofun⟩
      rintro _ _ ⟨⟩ -
      exact ⟨"a", by decide +kernel⟩
    · refine ⟨⟨trivial, ?_⟩, trivial, nofun⟩
      rintro _ _ ⟨⟩ -
      exact ⟨"b", by decide +kernel⟩
  obtain ⟨hbound, -, hsize, -, hclosed⟩ := bound_as_held hrun rfl
  have hs : b.session? 1 = some ((b.session? 1).get (by decide +kernel)) := (Option.some_get _).symm
  refine ⟨(hbound _ _ _).2 ⟨by decide +kernel, _, hs, by decide +kernel⟩, ?_, ?_, hclosed⟩
  · rw [Option.eq_none_iff_forall_ne_some]
    intro r hr
    obtain ⟨hreg, s, hs', hf⟩ := (hbound _ _ _).1 hr
    obtain rfl : 1 = r := Option.some.inj ((show b.registry.get? "b" = some 1 by decide +kernel).symm.trans hreg)
    obtain rfl := Option.some.inj (hs.symm.trans hs')
    exact absurd hf (by decide +kernel)
  · rw [hsize]
    decide +kernel

end PubSub.Broker
