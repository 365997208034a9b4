import PubSub.Proofs.Bindings
import PubSub.Proofs.Clients
import PubSub.Proofs.Recording
/-!
# What a replaced session can still register

A session that was replaced is called under the client id that is its successor's now. A binding is removed
only by the session it is tied to, so nothing that a replaced session unbinds is its successor's. But it
binds filters and writes the client's record as any other session does (`late_registrations`): it takes over
its successor's bindings when it subscribes, and with every change its successor's record. As long as no
such session subscribes, messages are routed to registered sessions only.
-/

namespace PubSub

namespace Broker

variable {b : Broker} {q : SessionRef} {o : Session} {settings : Settings}

/-- The records after a call on a session: its own is written as it is then, if the call changes it. -/
theorem get_perform (ho : b.session? q = some o) (c : Call) (id : String) :
    SessionRecords.get (b.perform q c).store.sessions id = if c.writes ∧ id = o.info.id
      then .ok (o.interest.after c).info.recorded else SessionRecords.get b.store.sessions id := by
  rw [perform_records ho]
  cases hc : c.writes with
  | false => simp
  | true =>
    have hid : (o.interest.after c).info.id = o.info.id := o.interest.after_id c
    rw [if_pos rfl]
    by_cases he : id = o.info.id
    · rw [if_pos ⟨rfl, he⟩, he, ← hid]
      exact SessionRecords.get_written_self _ _
    · rw [if_neg fun h => he h.2]
      exact SessionRecords.get_written_other fun h => he (h.symm.trans hid)

/-- A binding after a call is one from before it that the call did not take over, or one of its own; and of
its own it removes those that it unbinds. -/
theorem mem_bindings_perform (hb : Sound b) (ho : b.session? q = some o) (c : Call) (x : Binding) :
    (x.session ≠ q → (x ∈ (b.perform q c).exchange.bindings ↔
      x ∈ b.exchange.bindings ∧ ¬ (x.filter ∈ o.interest.binds c ∧ x.id = o.info.id))) ∧
    (x.session = q → (x ∈ (b.perform q c).exchange.bindings ↔
      x.id = o.info.id ∧ (x ∈ b.exchange.bindings ∨ x.filter ∈ o.interest.binds c) ∧ x.filter ∉ o.interest.unbinds c)) := by
  rw [perform_exchange ho, Exchange.mem_unbindAll, Exchange.mem_bindAll]
  refine ⟨fun hx => ?_, fun hx => ?_⟩
  · rw [and_iff_left fun hno => hx hno.2.2, or_iff_left fun hnew => hx hnew.2.2]
  · have hid : x ∈ b.exchange.bindings → x.id = o.info.id := fun hmem => (hb.id_of_bound hmem (hx ▸ ho)).symm
    by_cases hf : x.filter ∈ o.interest.binds c <;> grind

/-- A call on a session that is not registered leaves the registry and every other session as it is. What it
writes is the client's record, and what it binds it takes over from the session that is registered. As long
as registered sessions alone subscribe, every binding is of the session registered under its id, and a late
call that does not subscribe leaves all bindings as they are. -/
theorem late_registrations {ops : List Op} (h : Run (fun _ op => op.Configured) (start settings) ops b)
    (hflaw : settings.flaw = none) (ho : b.session? q = some o) (hlate : b.registry.get? o.info.id ≠ some q) (c : Call) :
    let b' := b.perform q c
    (b'.registry = b.registry ∧ ∀ r, r ≠ q → b'.session? r = b.session? r) ∧
    (∀ id, SessionRecords.get b'.store.sessions id = if c.writes ∧ id = o.info.id
      then .ok (o.interest.after c).info.recorded else SessionRecords.get b.store.sessions id) ∧
    (∀ x, x.session ≠ q → (x ∈ b'.exchange.bindings ↔
      x ∈ b.exchange.bindings ∧ ¬ (x.filter ∈ o.interest.binds c ∧ x.id = o.info.id))) ∧
    (∀ x, x.session = q → (x ∈ b'.exchange.bindings ↔
      x.id = o.info.id ∧ (x ∈ b.exchange.bindings ∨ x.filter ∈ o.interest.binds c) ∧ x.filter ∉ o.interest.unbinds c)) ∧
    (Run Orderly (start settings) ops b →
      (∀ x ∈ b.exchange.bindings, b.registry.get? x.id = some x.session) ∧
      (∀ topic, ∀ x ∈ b.exchange.targets topic, b.registry.get? x.id = some x.session) ∧
      (c.subscribes = false → b'.exchange.bindings = b.exchange.bindings)) := by
  intro b'
  have hb : Sound b := h.sound hflaw fun _ _ hop => hop
  refine ⟨⟨registry_perform b q c, (perform_wants b q c).others⟩, get_perform ho c,
    fun x => (mem_bindings_perform hb ho c x).1, fun x => (mem_bindings_perform hb ho c x).2, fun horderly => ?_⟩
  have htied := horderly.tied hflaw
  refine ⟨fun x => htied.registered, fun topic x hx => htied.registered (mem_of_mem_targets hx), fun hc => ?_⟩
  have hnone : ∀ x ∈ b.exchange.bindings, x.session ≠ q := by
    rintro x hx rfl
    exact hlate (hb.id_of_bound hx ho ▸ htied.registered hx)
  show (b.perform q c).exchange.bindings = _
  rw [perform_exchange ho, Interest.binds_eq_nil hc, Exchange.bindings_unbindAll]
  exact List.filter_eq_self.2 fun y hy => decide_eq_true fun hno => hnone y hy hno.2.2

/-- A replaced session that subscribes takes a binding from its successor and removes its record. -/
theorem taken_over_by_predecessor :
    let ops : List Op := [.connect { id := "a" }, .connect { id := "a", clean := true }, .call 1 (.update {}),
      .call 1 (.subscribe [⟨"t", .atLeastOnce⟩] none)]
    let b := ops.foldl step (start {})
    let late := b.perform 0 (.subscribe [⟨"t", .atLeastOnce⟩] none)
    (b.registry.get? "a" = some 1 ∧ ⟨"t", "a", 1⟩ ∈ b.exchange.bindings ∧
      SessionRecords.get b.store.sessions "a" ≠ .ok none) ∧
    late.registry.get? "a" = some 1 ∧ ⟨"t", "a", 1⟩ ∉ late.exchange.bindings ∧ ⟨"t", "a", 0⟩ ∈ late.exchange.bindings ∧
      SessionRecords.get late.store.sessions "a" = .ok none := by
  intro ops b late
  have hrun : Run (fun _ op => op.Configured) (start {}) ops b := by
    refine Run.of_forall .nil fun _ op hop => ?_
    simp only [List.mem_cons, List.not_mem_nil, or_false] at hop
    rcases hop with rfl | rfl | rfl | rfl <;> trivial
  have ho : b.session? 0 = some ((b.session? 0).get (by decide +kernel)) := (Option.some_get _).symm
  obtain ⟨⟨hregistry, -⟩, hrecords, hothers, hown, -⟩ :=
    late_registrations hrun rfl ho (by decide +kernel) (.subscribe [⟨"t", .atLeastOnce⟩] none)
  refine ⟨⟨by decide +kernel, by decide +kernel, by decide +kernel⟩, ?_, ?_, ?_, ?_⟩
  · exact (congrArg (OrderedMap.get? · "a") hregistry).trans (by decide +kernel)
  · rw [hothers _ (by decide)]
    decide +kernel
  · rw [hown _ rfl]
    decide +kernel
  · rw [hrecords]
    decide +kernel

end Broker

end PubSub
