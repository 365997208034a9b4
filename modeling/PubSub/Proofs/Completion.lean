import PubSub.Proofs.Handling
/-!
# When the publisher of a routed message is told

The copies of a routed message are settled one by one: stored, handed out, dropped or refused. The
publisher is told once, with the last of them, so it was told just when no copy waits for a
best-effort delivery any more. That is so during routing already when no target queues its copy.
-/

namespace PubSub

namespace Session

variable {s : Session} {e : Event}

/-- Whether a message offered to the session would wait for a best-effort delivery. -/
structure Queues (s : Session) (m : Message) : Prop where
  lane : s.lane? m = some .bestEffort
  opened : s.bestEffort.closed = false
  room : s.bestEffort.waiting.length < s.bestEffort.capacity

theorem waiting_offered_of_queues (h : s.Queues e.message) :
    (s.offered e).bestEffort.waiting = s.bestEffort.waiting ++ [e] := by
  have hroom : ¬ (s.bestEffort.closed = true ∨ s.bestEffort.capacity ≤ s.bestEffort.waiting.length) :=
    not_or.2 ⟨Bool.eq_false_iff.1 h.opened, Nat.not_le.2 h.room⟩
  unfold offered BestEffortQueue.offered
  rw [h.lane]
  dsimp only
  rw [if_neg hroom]

theorem waiting_offered_of_not_queues (h : ¬ s.Queues e.message) :
    (s.offered e).bestEffort.waiting = s.bestEffort.waiting := by
  unfold offered
  split
  · rfl
  · next hlane =>
    unfold BestEffortQueue.offered
    dsimp only
    split
    · rfl
    · next hroom =>
      obtain ⟨hopen, hroom⟩ := not_or.1 hroom
      exact absurd ⟨hlane, Bool.eq_false_iff.2 hopen, Nat.lt_of_not_le hroom⟩ h
  · split <;> rfl

end Session

namespace Broker

variable {b b₀ : Broker} {settings : Settings} {m : Message} {n : Nat} {ops before after : List Op}

/-- A copy of a published event waits for a best-effort delivery. -/
def Awaits (b : Broker) (n : Nat) : Prop :=
  ∃ s ∈ b.sessions, ∃ e ∈ s.bestEffort.waiting, ∃ split place, e.id = .copy (.published n) split place

theorem mem_waiting {e : EventId} : e ∈ b.waiting ↔ ∃ s ∈ b.sessions, ∃ d ∈ s.bestEffort.waiting, d.id = e := by
  simp only [waiting, Multiset.mem_coe, List.mem_map, List.mem_flatMap]
  constructor
  · rintro ⟨d, ⟨s, hs, hd⟩, he⟩
    exact ⟨s, hs, d, hd, he⟩
  · rintro ⟨s, hs, d, hd, he⟩
    exact ⟨d, ⟨s, hs, hd⟩, he⟩

/-- What waits of a tracked event are copies of it. -/
theorem awaits_iff (h : Traffic.Tracks m n b.traffic) : b.Awaits n ↔ ∃ e ∈ b.waiting, e.root = n := by
  constructor
  · rintro ⟨s, hs, d, hd, split, place, he⟩
    exact ⟨d.id, mem_waiting.2 ⟨s, hs, d, hd, rfl⟩, congrArg EventId.root he⟩
  · rintro ⟨e, he, hroot⟩
    obtain ⟨place, -, hcopy, -⟩ := h.pending e (Traffic.mem_copies.2 ⟨he, hroot⟩)
    obtain ⟨s, hs, d, hd, rfl⟩ := mem_waiting.1 he
    exact ⟨s, hs, d, hd, 0, place, hcopy⟩

/-- The publisher is told at most once, and was told just when no copy waits. -/
theorem told_iff (h : Traffic.Tracks m n b.traffic) : ∃ st, b.events.get? (.published n) = some st ∧
    st.message = m ∧ st.completion.fired ≤ 1 ∧ (st.completion.fired = 1 ↔ ¬ b.Awaits n) := by
  obtain ⟨st, hst, hmessage, honce, htold⟩ := h.told
  refine ⟨st, hst, hmessage, honce, htold.trans ?_⟩
  rw [awaits_iff h, not_exists]
  simp only [not_and]
  rfl

/-! ## Routing -/

/-- A copy waits after routing where a target queues it. -/
theorem awaits_route (hb : Sound b) (hknown : Traffic.Known b.traffic) (m : Message) :
    (b.route m).2.Awaits b.events.published ↔
      ∃ z ∈ b.exchange.targets m.topic, ∃ s, b.session? z.session = some s ∧ s.Queues m := by
  constructor
  · rintro ⟨s', hs', e, he, split, place, hcopy⟩
    obtain ⟨r, hr⟩ := List.mem_iff_getElem?.1 hs'
    obtain ⟨s, hs, -⟩ := (SameInterest.route b m).session?_back hr
    -- What waited before comes from an earlier event.
    have hnew : e ∉ s.bestEffort.waiting := by
      intro hold
      have hroot := hknown e.id (mem_waiting.2 ⟨s, List.mem_iff_getElem?.2 ⟨r, hs⟩, e, hold, rfl⟩)
      rw [hcopy] at hroot
      exact Nat.lt_irrefl _ hroot
    obtain ⟨hother, htarget⟩ := session?_route_copy hb hs m
    by_cases hz : ∃ z ∈ b.exchange.targets m.topic, z.session = r
    · obtain ⟨place, hplace⟩ := htarget hz
      obtain ⟨z, hz, rfl⟩ := hz
      obtain rfl := Option.some.inj (Eq.trans hr.symm hplace)
      refine ⟨z, hz, s, hs, ?_⟩
      by_contra hno
      rw [Session.waiting_offered_of_not_queues hno] at he
      exact hnew he
    · have hsame := hother fun z hz' hzr => hz ⟨z, hz', hzr⟩
      obtain rfl := Option.some.inj (Eq.trans hr.symm hsame)
      exact absurd he hnew
  · rintro ⟨z, hz, s, hs, hqueues⟩
    obtain ⟨place, hplace⟩ := (session?_route_copy hb hs m).2 ⟨z, hz, rfl⟩
    let copy : Event := ⟨.copy (.published b.events.published) 0 place, m⟩
    refine ⟨s.offered copy, List.mem_iff_getElem?.2 ⟨z.session, hplace⟩, copy, ?_, 0, place, rfl⟩
    rw [Session.waiting_offered_of_queues hqueues]
    exact List.mem_append_right _ List.mem_cons_self

/-- A message that is routed is tracked from then on. -/
theorem tracks_route (hb : Sound b) (hknown : Traffic.Known b.traffic) (m : Message) :
    Traffic.Tracks m b.events.published (b.route m).2.traffic :=
  (Traffic.Tracks.spread hknown m _).goes (goes_route hb m)

/-! ## Runs -/

theorem Run.known (h : Run (fun _ op => op.Configured) (start settings) ops b) (hflaw : settings.flaw = none) :
    Sound b ∧ Traffic.Known b.traffic := by
  refine h.invariant (fun b => Sound b ∧ Traffic.Known b.traffic) ⟨.start hflaw, ?_⟩ fun _ op hI hop =>
    ⟨hI.1.step hop, hI.2.goes (goes_step hI.1 op)⟩
  intro e he
  rw [start, traffic_openOn] at he
  exact absurd he (Multiset.notMem_zero e)

theorem Run.tracks (h : Run (fun _ op => op.Configured) b₀ ops b) (hb : Sound b₀)
    (htracks : Traffic.Tracks m n b₀.traffic) : Traffic.Tracks m n b.traffic :=
  (h.invariant (fun b => Sound b ∧ Traffic.Tracks m n b.traffic) ⟨hb, htracks⟩ fun _ op hI hop =>
    ⟨hI.1.step hop, hI.2.goes (goes_step hI.1 op)⟩).2

/-- Whatever is done before and after a message is routed, its publisher is told at most once, and was
told just when none of its copies waits any more. It is told during routing just when no target queues
the message. -/
theorem told_with_last_copy (hflaw : settings.flaw = none)
    (hbefore : Run (fun _ op => op.Configured) (start settings) before b₀)
    (hafter : Run (fun _ op => op.Configured) (b₀.step (.route m)) after b) :
    (∃ st, b.events.get? (.published b₀.events.published) = some st ∧ st.message = m ∧ st.completion.fired ≤ 1 ∧
      (st.completion.fired = 1 ↔ ¬ b.Awaits b₀.events.published)) ∧
    (∃ st, (b₀.step (.route m)).events.get? (.published b₀.events.published) = some st ∧
      (st.completion.fired = 1 ↔
        ∀ z ∈ b₀.exchange.targets m.topic, ∀ s, b₀.session? z.session = some s → ¬ s.Queues m)) := by
  obtain ⟨hsound, hknown⟩ := hbefore.known hflaw
  have hrouted := tracks_route hsound hknown m
  obtain ⟨st, hst, hmessage, honce, htold⟩ := told_iff (hafter.tracks (hsound.route m) hrouted)
  obtain ⟨st₀, hst₀, -, -, htold₀⟩ := told_iff hrouted
  refine ⟨⟨st, hst, hmessage, honce, htold⟩, st₀, hst₀, htold₀.trans ?_⟩
  rw [awaits_route hsound hknown m]
  simp only [not_exists, not_and]

/-- Two clients are targets of a message. One has it stored, and the publisher is told when the other
one is handed its copy. -/
theorem told_when_handed_out :
    let m : Message := { topic := "t", payload := [7], qos := .atLeastOnce }
    let ops : List Op := [.connect { id := "a" }, .connect { id := "b" },
      .call 0 (.subscribe [⟨"t", .atMostOnce⟩] none), .call 1 (.subscribe [⟨"#", .atLeastOnce⟩] none)]
    let b := (ops.foldl step (start {})).step (.route m)
    (b.events.get? (.published 0)).map (·.completion.fired) = some 0 ∧
      ((b.step (.call 0 .nextBestEffort)).events.get? (.published 0)).map (·.completion.fired) = some 1 := by
  intro m ops b
  have hbefore : Run (fun _ op => op.Configured) (start {}) ([] ++ ops) (ops.foldl step (start {})) :=
    Run.of_forall .nil fun _ op hop => by
      simp only [ops, List.mem_cons, List.not_mem_nil, or_false] at hop
      rcases hop with rfl | rfl | rfl | rfl <;> trivial
  have hnumber : (ops.foldl step (start {})).events.published = 0 := by decide +kernel
  have hlast : Run (fun _ op => op.Configured) b ([] ++ [.call 0 .nextBestEffort]) (b.step (.call 0 .nextBestEffort)) :=
    .step .nil trivial
  have hnothing : Run (fun _ op => op.Configured) b [] b := .nil
  obtain ⟨⟨st, hst, -, honce, -⟩, st₀, hst₀, htold₀⟩ := told_with_last_copy rfl hbefore hnothing
  obtain ⟨⟨st₁, hst₁, -, -, htold₁⟩, -⟩ := told_with_last_copy rfl hbefore hlast
  rw [hnumber] at hst hst₀ hst₁ htold₁
  obtain rfl := Option.some.inj (hst.symm.trans hst₀)
  refine ⟨?_, ?_⟩
  · have hqueues : ∃ s, (ops.foldl step (start {})).session? 0 = some s ∧ s.Queues m := by
      refine ⟨((ops.foldl step (start {})).session? 0).get (by decide +kernel), (Option.some_get _).symm, ?_⟩
      exact ⟨by decide +kernel, by decide +kernel, by decide +kernel⟩
    obtain ⟨s, hs, hqueues⟩ := hqueues
    have hnot : st.completion.fired ≠ 1 := fun h => htold₀.1 h ⟨"t", "a", 0⟩ (by decide +kernel) s hs hqueues
    have hnone : st.completion.fired = 0 := by omega
    rw [hst, Option.map_some, hnone]
  · have hempty : ∀ s ∈ (b.step (.call 0 .nextBestEffort)).sessions, s.bestEffort.waiting = [] := by decide +kernel
    have hfired : st₁.completion.fired = 1 := htold₁.2 fun ⟨s, hs, e, he, _⟩ => by
      rw [hempty s hs] at he
      exact absurd he List.not_mem_nil
    rw [hst₁, Option.map_some, hfired]

end Broker

end PubSub
