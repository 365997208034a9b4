import PubSub.Proofs.BestEffortQueue
import PubSub.Proofs.FilterMap
import PubSub.Proofs.Offering
import PubSub.Proofs.QueueOrder
/-!
# One place for each event

An event pushed on a session goes to one of its queues or is dropped for want of a filter, and which of
the three is read off the event and the subscriptions held (`Session.Belongs`). It is refused there when the
queue is closed or the store does not write the record (`Session.Refuses`). Nothing happens to the event in
the other places, and nothing at all when it is refused (`Broker.one_place`).
-/

namespace PubSub

open Topic

theorem QoS.isGuaranteed_iff {q : QoS} : q.isGuaranteed = true ↔ 0 < q.toNat := by
  cases q <;> decide

/-- The strongest service is guaranteed when any is. -/
theorem QoS.isGuaranteed_highest {qs : List QoS} {q : QoS} (h : highest qs = some q) :
    q.isGuaranteed = true ↔ ∃ p ∈ qs, p.isGuaranteed = true := by
  obtain ⟨hmem, hmax⟩ := highest_eq_some_iff.1 h
  refine ⟨fun hq => ⟨q, hmem, hq⟩, ?_⟩
  rintro ⟨p, hp, hg⟩
  rw [isGuaranteed_iff] at hg ⊢
  exact Nat.lt_of_lt_of_le hg (hmax p hp)

namespace Session

variable {s : Session} {m : Message}

/-- The subscriptions held that cover a topic. -/
def covering (s : Session) (topic : String) : List (String × QoS) :=
  s.info.subscriptions.entries.filter fun e => matchesFilter topic e.1

/-- Where an event belongs: in the best-effort queue when it is sent without guarantee or nothing that covers
it asks for one, in the durable queue when it and something that covers it do, and nowhere when it is to be
guaranteed and nothing covers it. -/
def Belongs (s : Session) (m : Message) : Option Lane → Prop
  | some .bestEffort => m.qos.isGuaranteed = false ∨
      s.covering m.topic ≠ [] ∧ ∀ e ∈ s.covering m.topic, e.2.isGuaranteed = false
  | some .durable => m.qos.isGuaranteed = true ∧ ∃ e ∈ s.covering m.topic, e.2.isGuaranteed = true
  | none => m.qos.isGuaranteed = true ∧ s.covering m.topic = []

/-- Why an event is refused in a place: the queue is closed, or it is open and the store, which answers so, does
not write the record. -/
def Refuses (s : Session) (answer : WriteAnswer) : Option Lane → QueueError → Prop
  | some .bestEffort, err => s.bestEffort.closed = true ∧ err = .closed s.bestEffort.name
  | some .durable, err => s.durable.closed = true ∧ err = s.durable.closedError ∨
      s.durable.closed = false ∧ ∃ e, answer.failure? = some e ∧ err = .store e
  | none, _ => False

/-- A session that is ready for what it holds puts a message where it belongs. -/
theorem belongs_iff (h : Trie.Represents s.filters s.info.subscriptions) {place : Option Lane} :
    s.Belongs m place ↔ s.lane? m = place := by
  have hmatch : s.matchQoS m.topic = QoS.highest ((s.covering m.topic).map (·.2)) :=
    QoS.highest_congr fun _ => (h.matching_perm m.topic).mem_iff
  unfold lane?
  cases hg : m.qos.isGuaranteed with
  | false =>
    rw [if_neg Bool.false_ne_true]
    rcases place with _ | _ | _ <;> simp [Belongs, hg]
  | true =>
    rw [if_pos rfl]
    cases hq : s.matchQoS m.topic with
    | none =>
      have hnone : s.covering m.topic = [] := by
        rw [hmatch, QoS.highest_eq_none_iff] at hq
        exact List.map_eq_nil_iff.1 hq
      rcases place with _ | _ | _ <;> simp [Belongs, hg, hnone]
    | some q =>
      have hsome : s.covering m.topic ≠ [] := by
        intro hnil
        rw [hmatch, hnil] at hq
        cases hq
      have hstrongest : q.isGuaranteed = true ↔ ∃ e ∈ s.covering m.topic, e.2.isGuaranteed = true := by
        rw [QoS.isGuaranteed_highest (hmatch.symm.trans hq)]
        simp only [List.mem_map, exists_exists_and_eq_and]
      have hweak : q.isGuaranteed = false ↔ ∀ e ∈ s.covering m.topic, e.2.isGuaranteed = false := by
        rw [← Bool.not_eq_true, hstrongest]
        simp
      rw [Option.map_some]
      rcases place with _ | _ | _ <;> simp only [Belongs, hg, ← hweak, ← hstrongest] <;> cases q.isGuaranteed <;>
        simp [hsome]

end Session

namespace Broker

variable {b b' : Broker} {r : SessionRef} {s : Session} {e : Event} {place place' : Option Lane}

/-- What became of an event at a session. In the best-effort queue it is the last that waits, or if the
queue is full it is complete. In the durable queue its message is the last record pending and it is complete.
And nowhere, it is complete. All else is as it was. -/
def Went (r : SessionRef) (s : Session) (e : Event) (b : Broker) : Option Lane → Broker → Prop
  | some .bestEffort, b' =>
    s.bestEffort.waiting.length < s.bestEffort.capacity ∧
      b' = b.setSession r { s with bestEffort := { s.bestEffort with waiting := s.bestEffort.waiting ++ [e] } } ∨
    s.bestEffort.capacity ≤ s.bestEffort.waiting.length ∧ b'.events.isDone e.id = true ∧
      b' = (b.report [.bestEffortFull s.bestEffort.name e.message]).release e
  | some .durable, b' =>
    b'.events.isDone e.id = true ∧
    b' = ((b.setSession r { s with durable :=
      { s.durable with next := s.durable.next + 1, pending := s.durable.pending ++ [s.durable.next] } }).setQueueRecords
        (s.durable.bucket.put b.store.queue s.durable.next (Binary.encodeMessage e.message))).release e ∧
    s.durable.bucket.contents b'.store.queue =
      (s.durable.bucket.contents b.store.queue).insert s.durable.next (Binary.encodeMessage e.message) ∧
    (s.durable.bucket.get? b.store.queue s.durable.next = none →
      (s.durable.bucket.contents b'.store.queue).size = (s.durable.bucket.contents b.store.queue).size + 1)
  | none, b' =>
    b'.events.isDone e.id = true ∧ b' = (b.report [.noSubscription s.id e.message]).release e

namespace Went

/-- Only the durable queue has one more record to hand out. -/
theorem durable_iff (hs : b.session? r = some s) (h : Went r s e b place b') : place = some .durable ↔
    ∃ s', b'.session? r = some s' ∧ s'.durable.pending.length = s.durable.pending.length + 1 := by
  have hsame {t : Session} (ht : b'.session? r = some t) (hdurable : t.durable = s.durable) :
      ¬ ∃ s', b'.session? r = some s' ∧ s'.durable.pending.length = s.durable.pending.length + 1 := by
    rintro ⟨s', hs', hmore⟩
    obtain rfl := Option.some.inj (ht.symm.trans hs')
    rw [hdurable] at hmore
    omega
  rcases place with _ | _ | _
  · obtain ⟨-, rfl⟩ := h
    exact iff_of_false (by simp) (hsame hs rfl)
  · rcases h with ⟨-, rfl⟩ | ⟨-, -, rfl⟩
    · exact iff_of_false (by simp) (hsame (session?_setSession_self hs) rfl)
    · exact iff_of_false (by simp) (hsame hs rfl)
  · obtain ⟨-, rfl, -⟩ := h
    exact ⟨fun _ => ⟨_, session?_setSession_self hs, by simp⟩, fun _ => rfl⟩

/-- Only an event that went nowhere is reported so. -/
theorem nowhere_iff (h : Went r s e b place b') :
    place = none ↔ b'.journal = b.journal ++ [.noSubscription s.id e.message] := by
  rcases place with _ | _ | _
  · obtain ⟨-, rfl⟩ := h
    exact ⟨fun _ => rfl, fun _ => rfl⟩
  · rcases h with ⟨-, rfl⟩ | ⟨-, -, rfl⟩
    · refine iff_of_false (by simp) fun hjournal => ?_
      exact absurd (List.self_eq_append_right.1 hjournal) (List.cons_ne_nil _ _)
    · refine iff_of_false (by simp) fun hjournal => ?_
      cases List.append_cancel_left hjournal
  · obtain ⟨-, rfl, -⟩ := h
    refine iff_of_false (by simp) fun hjournal => ?_
    exact absurd (List.self_eq_append_right.1 hjournal) (List.cons_ne_nil _ _)

theorem unique (hs : b.session? r = some s) (h : Went r s e b place b') (h' : Went r s e b place' b') :
    place = place' := by
  have hdurable := (h.durable_iff hs).trans (h'.durable_iff hs).symm
  have hnowhere := h.nowhere_iff.trans h'.nowhere_iff.symm
  rcases place with _ | _ | _ <;> rcases place' with _ | _ | _ <;> simp_all

end Went

/-- What offering an event comes to: it goes to this place, unless it is refused there. Then nothing happens. -/
structure Places (r : SessionRef) (s : Session) (e : Event) (answer : WriteAnswer) (b : Broker) (place : Option Lane)
    (x : Except QueueError Unit × Broker) : Prop where
  went : x.1 = .ok () → Went r s e b place x.2
  refused : ∀ err, x.1 = .error err ↔ s.Refuses answer place err
  kept : ∀ {err}, x.1 = .error err → x.2 = b

variable {answer : WriteAnswer}

namespace Places

variable {x : Except QueueError Unit × Broker} {err : QueueError}

theorem of_ok (hok : x.1 = .ok ()) (hwent : Went r s e b place x.2) (hnone : ∀ err, ¬ s.Refuses answer place err) :
    Places r s e answer b place x where
  went _ := hwent
  refused err := iff_of_false (fun herr => by cases hok.symm.trans herr) (hnone err)
  kept herr := by cases hok.symm.trans herr

theorem of_error (herr : x = (.error err, b)) (honly : ∀ err', s.Refuses answer place err' ↔ err = err') :
    Places r s e answer b place x where
  went hok := by rw [herr] at hok; cases hok
  refused err' := by rw [herr, honly, Except.error.injEq]
  kept _ := congrArg Prod.snd herr

end Places

theorem places_bestEffort (hs : b.session? r = some s) (hknown : (b.events.get? e.id).isSome) :
    Places r s e answer b (some .bestEffort) (b.pushBestEffort r s e) := by
  unfold pushBestEffort BestEffortQueue.push
  by_cases hclosed : s.bestEffort.closed = true
  · rw [if_pos hclosed]
    exact .of_error rfl fun err => (and_iff_right hclosed).trans eq_comm
  · rw [if_neg hclosed]
    by_cases hroom : s.bestEffort.waiting.length < s.bestEffort.capacity
    · rw [if_pos hroom]
      refine .of_ok rfl (.inl ⟨hroom, ?_⟩) fun err hrefuses => hclosed hrefuses.1
      simp [BestEffortQueue.Outcome.notices, report]
    · rw [if_neg hroom]
      refine .of_ok rfl (.inr ⟨Nat.le_of_not_lt hroom, EventTable.isDone_release hknown, ?_⟩)
        fun err hrefuses => hclosed hrefuses.1
      simp only [setSession_self hs, BestEffortQueue.Outcome.notices, if_true]

theorem places_durable (hknown : (b.events.get? e.id).isSome) :
    Places r s e answer b (some .durable) (b.pushDurable r s e answer) := by
  have hrefuses (err : QueueError) : s.Refuses answer (some .durable) err ↔
      s.durable.push b.store.queue e.message answer = .error err := DurableQueue.push_eq_error_iff.symm
  unfold pushDurable
  cases hpush : s.durable.push b.store.queue e.message answer with
  | error err => exact .of_error rfl fun err' => by rw [hrefuses, hpush, Except.error.injEq]
  | ok stored =>
    obtain ⟨-, -, rfl⟩ := DurableQueue.push_eq_ok_iff.1 hpush
    have hcontents := s.durable.bucket.contents_put b.store.queue s.durable.next (Binary.encodeMessage e.message)
    refine .of_ok rfl ⟨EventTable.isDone_release hknown, rfl, hcontents, fun hfree => ?_⟩ fun err herr => ?_
    · rw [← Bucket.get?_contents] at hfree
      refine (congrArg OrderedMap.size hcontents).trans ?_
      rw [OrderedMap.size_insert, hfree]
      rfl
    · cases hpush.symm.trans ((hrefuses err).1 herr)

theorem places_offer (hs : b.session? r = some s) (hknown : (b.events.get? e.id).isSome) :
    Places r s e answer b (s.lane? e.message) (b.offer r e answer) := by
  have hbestEffort : Places r s e answer b (some .bestEffort) (b.pushBestEffort r s e) := places_bestEffort hs hknown
  have hdurable : Places r s e answer b (some .durable) (b.pushDurable r s e answer) := places_durable hknown
  unfold offer Session.lane?
  rw [hs]
  dsimp only
  cases e.message.qos.isGuaranteed with
  | false => exact hbestEffort
  | true =>
    cases s.matchQoS e.message.topic with
    | none => exact .of_ok rfl ⟨EventTable.isDone_release hknown, rfl⟩ fun _ => id
    | some q =>
      cases hq : q.isGuaranteed with
      | false => simpa [hq] using hbestEffort
      | true => simpa [hq] using hdurable

/-- An event that is pushed on a session goes to one place and no other, the one where it belongs by the
subscriptions held, unless it is refused there: because the queue is closed, or because the store does not write
the record. Then nothing has happened, to the event or to anything else. -/
theorem one_place (hs : b.session? r = some s) (hheld : Trie.Represents s.filters s.info.subscriptions)
    (hknown : (b.events.get? e.id).isSome) (answer : WriteAnswer) :
    ((b.offer r e answer).1 = .ok () → (∃! place, Went r s e b place (b.offer r e answer).2) ∧
      ∀ place, Went r s e b place (b.offer r e answer).2 ↔ s.Belongs e.message place) ∧
    (∀ err, (b.offer r e answer).1 = .error err → (b.offer r e answer).2 = b) ∧
    (∀ err, (b.offer r e answer).1 = .error err ↔
      ∃ place, s.Belongs e.message place ∧ s.Refuses answer place err) := by
  have hplaces : Places r s e answer b (s.lane? e.message) (b.offer r e answer) := places_offer hs hknown
  refine ⟨fun hok => ?_, fun err => hplaces.kept, fun err => ?_⟩
  · have hwent := hplaces.went hok
    refine ⟨⟨_, hwent, fun place hplace => hplace.unique hs hwent⟩, fun place => ?_⟩
    rw [Session.belongs_iff hheld]
    refine ⟨fun hplace => hwent.unique hs hplace, ?_⟩
    rintro rfl
    exact hwent
  · simp only [hplaces.refused err, Session.belongs_iff hheld, exists_eq_left']

/-- Of two filters that cover the topic one asks for a guarantee, so the message is stored and does not
wait in the other queue too. When the store has no room for it, it is in neither. -/
theorem one_place_by_strongest :
    let m : Message := { topic := "t", payload := [7], qos := .atLeastOnce }
    let joined := (start {}).step (.connect { id := "a" })
    let held := joined.step (.call 0 (.subscribe [⟨"t", .atLeastOnce⟩, ⟨"#", .atMostOnce⟩] none))
    let e := (held.events.publish m true).1
    let b := { held with events := (held.events.publish m true).2 }
    ∃ s, b.session? 0 = some s ∧ Went 0 s e b (some .durable) (b.offer 0 e).2 ∧
      ¬ Went 0 s e b (some .bestEffort) (b.offer 0 e).2 ∧
      b.offer 0 e (.notWritten "no space") = (.error (.store (.notWritten "no space")), b) := by
  intro m joined held e b
  obtain ⟨s, hs⟩ := Option.isSome_iff_exists.1 (show (b.session? 0).isSome by decide +kernel)
  have hof {α : Type} (f : Session → α) (x : α) (h : (b.session? 0).map f = some x) : f s = x := by
    rw [hs] at h
    exact Option.some.inj h
  have hfilters := hof (·.filters) ((Topic.Trie.set {} "#" .atMostOnce).set "t" .atLeastOnce) (by decide +kernel)
  have hsubscriptions := hof (·.info.subscriptions)
    ((OrderedMap.empty.insert (canonical "#") .atMostOnce).insert (canonical "t") .atLeastOnce) (by decide +kernel)
  have hheld : Trie.Represents s.filters s.info.subscriptions := by
    rw [hfilters, hsubscriptions]
    exact (Trie.Represents.empty.set "#" .atMostOnce).set "t" .atLeastOnce
  have hcovered : ∃ f ∈ s.covering "t", f.2.isGuaranteed = true :=
    hof (fun s => decide (∃ f ∈ s.covering "t", f.2.isGuaranteed = true)) true (by decide +kernel) |> of_decide_eq_true
  have hknown : (b.events.get? e.id).isSome := by decide +kernel
  obtain ⟨hwent, -, -⟩ := one_place hs hheld hknown .written
  obtain ⟨⟨place, -, hunique⟩, hbelongs⟩ := hwent (by decide +kernel)
  have hdurable := (hbelongs (some .durable)).2 ⟨rfl, hcovered⟩
  obtain ⟨-, hkept, hrefused⟩ := one_place hs hheld hknown (.notWritten "no space")
  have hfail := (hrefused _).2 ⟨some .durable, ⟨rfl, hcovered⟩,
    .inr ⟨hof (·.durable.closed) false (by decide +kernel), _, rfl, rfl⟩⟩
  refine ⟨s, hs, hdurable, fun hother => ?_, Prod.ext hfail (hkept _ hfail)⟩
  have hsame := (hunique _ hdurable).trans (hunique _ hother).symm
  cases hsame

end Broker

end PubSub
