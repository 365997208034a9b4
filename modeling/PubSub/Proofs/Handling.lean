import PubSub.Proofs.OwnCalls
import PubSub.Proofs.Traffic
/-!
# How a broker handles events

A broker has the events in its hands that wait in the best-effort queues of its sessions. Each
operation is traffic (`Goes`): most leave every event where it is (`Idle`), an event that is offered
ends up in a queue or is released (`Takes`), and closing and crashing settle what waits.
-/

namespace PubSub

/-- The events that wait for a best-effort delivery. -/
def Session.waiting (s : Session) : Multiset EventId := (s.bestEffort.waiting.map (·.id) : List EventId)

namespace Broker

open Traffic (Goes Step)

variable {b b' : Broker} {r : SessionRef} {s : Session} {e : Event}

def waiting (b : Broker) : Multiset EventId := ((b.sessions.flatMap (·.bestEffort.waiting)).map (·.id) : List EventId)

/-- The events in the broker's hands. -/
def traffic (b : Broker) : Traffic := ⟨b.waiting, b.events⟩

/-- What waits for one session is part of what waits. -/
theorem waiting_setSession (hs : b.session? r = some s) :
    ∃ rest, b.waiting = s.waiting + rest ∧ ∀ s', (b.setSession r s').waiting = s'.waiting + rest := by
  obtain ⟨hlt, rfl⟩ := List.getElem?_eq_some_iff.1 hs
  have hparts (t : Session) (before after : List Session) :
      (((before ++ t :: after).flatMap (·.bestEffort.waiting)).map (·.id) : List EventId)
        = t.waiting + (((before ++ after).flatMap (·.bestEffort.waiting)).map (·.id) : List EventId) := by
    simp only [List.flatMap_append, List.flatMap_cons, List.map_append, ← Multiset.coe_add, Session.waiting]
    exact add_left_comm _ _ _
  refine ⟨(((b.sessions.take r ++ b.sessions.drop (r + 1)).flatMap (·.bestEffort.waiting)).map (·.id) : List EventId),
    ?_, fun s' => ?_⟩
  · unfold waiting
    rw [← hparts b.sessions[r] (b.sessions.take r) (b.sessions.drop (r + 1)), List.getElem_cons_drop,
      List.take_append_drop]
  · unfold waiting setSession
    dsimp only
    rw [List.set_eq_take_append_cons_drop, if_pos hlt, hparts]

theorem Idle.traffic (h : Idle b b') : b'.traffic = b.traffic := by
  have hwaiting (c : Broker) : c.sessions.flatMap (·.bestEffort.waiting)
      = (c.sessions.map Session.bestEffort).flatMap (·.waiting) := by rw [List.flatMap_map]
  unfold Broker.traffic waiting
  rw [hwaiting b', hwaiting b, h.backlog, h.events]

/-! ## Offering an event -/

/-- An event that is taken from the one who offers it is queued or released; one that is refused stays
with whoever offers it. -/
structure Takes (e : Event) (b : Broker) (x : Except QueueError Unit × Broker) : Prop where
  taken : x.1 = .ok () → Goes (b.traffic.beside {e.id}) x.2.traffic
  refused : ∀ {err}, x.1 = .error err → x.2.traffic = b.traffic

theorem goes_release (h : Idle b b') (e : Event) : Goes (b.traffic.beside {e.id}) (b'.release e).traffic := by
  have hstep : Step (b'.traffic.beside {e.id}) (b'.release e).traffic := by
    unfold Traffic.beside
    rw [Multiset.singleton_add]
    exact .release e.id
  rw [← h.traffic]
  exact .single hstep

theorem takes_pushBestEffort (hs : b.session? r = some s) (e : Event) : Takes e b (b.pushBestEffort r s e) := by
  unfold pushBestEffort BestEffortQueue.push
  by_cases hclosed : s.bestEffort.closed = true
  · rw [if_pos hclosed]
    exact ⟨nofun, fun _ => rfl⟩
  · rw [if_neg hclosed]
    by_cases hroom : s.bestEffort.waiting.length < s.bestEffort.capacity
    · rw [if_pos hroom]
      refine ⟨fun _ => ?_, nofun⟩
      obtain ⟨rest, hrest, hset⟩ := waiting_setSession hs
      have hqueued : (b.setSession r { s with bestEffort :=
          { s.bestEffort with waiting := s.bestEffort.waiting ++ [e] } }).waiting = {e.id} + b.waiting := by
        rw [hset, hrest, ← add_assoc]
        congr 1
        simp only [Session.waiting, List.map_append, ← Multiset.coe_add]
        exact add_comm _ _
      have heq : (b.setSession r { s with bestEffort :=
          { s.bestEffort with waiting := s.bestEffort.waiting ++ [e] } }).traffic = b.traffic.beside {e.id} :=
        congrArg (Traffic.mk · b.events) hqueued
      rw [← heq]
      exact .refl
    · rw [if_neg hroom]
      refine ⟨fun _ => ?_, nofun⟩
      exact goes_release ((Idle.setSession hs rfl).trans (.report _ _)) e

theorem takes_pushDurable (hs : b.session? r = some s) (e : Event) : Takes e b (b.pushDurable r s e) := by
  unfold pushDurable
  cases hpush : s.durable.push b.store.queue e.message with
  | error err => exact ⟨nofun, fun _ => rfl⟩
  | ok found =>
    refine ⟨fun _ => ?_, nofun⟩
    have hset : Idle b (b.setSession r { s with durable := found.1 }) := .setSession hs rfl
    exact goes_release (hset.trans ⟨rfl, rfl⟩) e

theorem takes_offer (hs : b.session? r = some s) (e : Event) : Takes e b (b.offer r e) := by
  unfold offer
  rw [hs]
  dsimp only
  split
  · exact takes_pushBestEffort hs e
  · split
    · exact ⟨fun _ => goes_release (.report b _) e, nofun⟩
    · split
      · exact takes_pushDurable hs e
      · exact takes_pushBestEffort hs e

/-- An event that was not split is taken, or it stays as it is with nobody to settle it. -/
theorem goes_offer_published (b : Broker) (r : SessionRef) (n : Nat) (m : Message) :
    Goes (b.traffic.beside {.published n}) (b.offer r ⟨.published n, m⟩).2.traffic := by
  have hleave : Step (b.traffic.beside {.published n}) b.traffic := by
    unfold Traffic.beside
    rw [Multiset.singleton_add]
    exact .leave n
  cases hs : b.session? r with
  | none =>
    unfold offer
    rw [hs]
    exact .single hleave
  | some s =>
    have htakes := takes_offer hs ⟨.published n, m⟩
    cases hanswer : (b.offer r ⟨.published n, m⟩).1 with
    | ok => exact htakes.taken hanswer
    | error err =>
      rw [htakes.refused hanswer]
      exact .single hleave

theorem goes_push (b : Broker) (r : SessionRef) (m : Message) : Goes b.traffic (b.push r m).2.traffic := by
  have hpublish : Step b.traffic
      (({ b with events := (b.events.publish m true).2 } : Broker).traffic.beside {.published b.events.published}) := by
    unfold Traffic.beside
    rw [Multiset.singleton_add]
    exact .publish m
  exact .head hpublish (goes_offer_published _ r _ m)

/-! ## Routing -/

theorem goes_deliver {target : Binding} (hs : b.session? target.session = some s) (e : Event) :
    Goes (b.traffic.beside {e.id}) (b.deliver target e).traffic := by
  have htakes := takes_offer hs e
  unfold deliver
  split
  · next heq =>
    rw [heq] at htakes
    exact htakes.taken rfl
  · next err b' heq =>
    rw [heq] at htakes
    have hrefused : b'.traffic = b.traffic := htakes.refused rfl
    rw [← hrefused]
    exact goes_release (.report b' _) e

theorem goes_foldl_deliver (copies : List (Binding × Event)) (hcopies : ∀ c ∈ copies, (b.session? c.1.session).isSome) :
    Goes (b.traffic.beside (copies.map (·.2.id) : List EventId))
      (copies.foldl (fun b c => b.deliver c.1 c.2) b).traffic := by
  induction copies generalizing b with
  | nil =>
    rw [List.map_nil, Multiset.coe_nil, Traffic.beside, zero_add]
    exact .refl
  | cons c copies ih =>
    obtain ⟨s, hs⟩ := Option.isSome_iff_exists.1 (hcopies c List.mem_cons_self)
    have hrest := ih (b := b.deliver c.1 c.2) fun d hd => by
      obtain ⟨t, ht⟩ := Option.isSome_iff_exists.1 (hcopies d (List.mem_cons_of_mem c hd))
      obtain ⟨t', ht', -⟩ := (Local.deliver b c.1 c.2).interest.session? ht
      exact Option.isSome_iff_exists.2 ⟨t', ht'⟩
    have hboth : b.traffic.beside ((c :: copies).map (·.2.id) : List EventId)
        = (b.traffic.beside {c.2.id}).beside (copies.map (·.2.id) : List EventId) := by
      simp only [Traffic.beside, List.map_cons, ← Multiset.cons_coe, ← Multiset.singleton_add]
      rw [add_assoc, add_left_comm]
    rw [hboth]
    exact ((goes_deliver hs c.2).beside _).trans hrest

/-- Routing hands each copy of the message to its target. -/
theorem goes_route (hb : Sound b) (m : Message) :
    Goes ⟨((b.events.spread m (b.exchange.targets m.topic).length).1.map (·.id) : List EventId) + b.waiting,
      (b.events.spread m (b.exchange.targets m.topic).length).2⟩ (b.route m).2.traffic := by
  let targets := b.exchange.targets m.topic
  let copies := (b.events.spread m targets.length).1
  have hlength : copies.length = targets.length := by
    rw [show copies = _ from EventTable.spread_copies _ _ _, EventTable.copies, List.length_map, List.length_range]
  have hids : (targets.zip copies).map (·.2.id) = copies.map (·.id) := by
    conv_rhs => rw [← List.map_snd_zip (Nat.le_of_eq hlength), List.map_map]
    rfl
  have hfold := goes_foldl_deliver (b := { b with events := (b.events.spread m targets.length).2 })
    (targets.zip copies) fun c hc => by
      obtain ⟨s, hs, -⟩ := hb.bound (mem_of_mem_targets (List.of_mem_zip hc).1)
      exact Option.isSome_iff_exists.2 ⟨s, hs⟩
  rw [hids] at hfold
  exact hfold

/-! ## Settling what waits -/

theorem goes_nextBestEffort (b : Broker) (r : SessionRef) : Goes b.traffic (b.nextBestEffort r).2.traffic := by
  unfold nextBestEffort
  split
  · exact .refl
  · next s hs =>
    unfold BestEffortQueue.pop
    cases hwaiting : s.bestEffort.waiting with
    | nil => exact .refl
    | cons e rest =>
      dsimp only
      set q : BestEffortQueue := { s.bestEffort with waiting := rest, counter := s.bestEffort.counter.take.2 }
      have hheld : b.traffic = (b.setSession r { s with bestEffort := q }).traffic.beside {e.id} := by
        obtain ⟨others, hothers, hset⟩ := waiting_setSession hs
        unfold traffic Traffic.beside
        dsimp only
        rw [hothers, hset, ← add_assoc]
        unfold Session.waiting
        rw [hwaiting, List.map_cons, ← Multiset.cons_coe, ← Multiset.singleton_add]
        rfl
      rw [hheld]
      exact goes_release (.refl _) e

theorem goes_foldl_release (b : Broker) (es : List Event) :
    Goes (b.traffic.beside (es.map (·.id) : List EventId)) (es.foldl release b).traffic := by
  induction es generalizing b with
  | nil =>
    rw [List.map_nil, Multiset.coe_nil, Traffic.beside, zero_add]
    exact .refl
  | cons e es ih =>
    have hfirst := (goes_release (.refl b) e).beside (es.map (·.id) : List EventId)
    rw [Traffic.beside_beside, add_comm, Multiset.singleton_add, Multiset.cons_coe] at hfirst
    exact hfirst.trans (ih (b.release e))

theorem goes_closeSession (b : Broker) (r : SessionRef) : Goes b.traffic (b.closeSession r).traffic := by
  unfold closeSession
  split
  · exact .refl
  · next s hs =>
    dsimp only
    set b₁ := (b.setSession r { s with
      bestEffort := s.bestEffort.close.2, durable := (s.durable.close b.store.queue s.info.clean).1 }).setQueueRecords
        (s.durable.close b.store.queue s.info.clean).2.1
    have hheld : b.traffic = b₁.traffic.beside (s.bestEffort.close.1.map (·.id) : List EventId) := by
      obtain ⟨others, hothers, hset⟩ := waiting_setSession hs
      have hwaiting : b₁.waiting = _ := hset _
      unfold traffic Traffic.beside
      rw [hothers, hwaiting, ← add_assoc]
      have hown : s.waiting = (s.bestEffort.close.1.map (·.id) : List EventId)
          + (s.bestEffort.close.2.waiting.map (·.id) : List EventId) := by
        unfold Session.waiting BestEffortQueue.close
        split <;> simp
      rw [hown]
      rfl
    rw [hheld]
    exact (goes_foldl_release b₁ s.bestEffort.close.1).trans (.refl)

theorem goes_abandon (b : Broker) : Goes b.traffic ⟨0, b.abandon.events⟩ := by
  have hfold (es : List Event) (t : EventTable) : Goes ⟨(es.map (·.id) : List EventId), t⟩
      ⟨0, es.foldl (fun t e => t.drop e.id) t⟩ := by
    induction es generalizing t with
    | nil => exact .refl
    | cons e es ih =>
      rw [List.map_cons, ← Multiset.cons_coe]
      exact .head (.drop e.id) (ih _)
  exact hfold _ _

/-! ## Coming and going -/

theorem traffic_create (b : Broker) (info : Info) : (b.create info).2.traffic = b.traffic := by
  unfold create
  split
  · rfl
  · next bucket _ =>
    have hnone (s : Session) (hs : s.bestEffort.waiting = []) :
        (b.sessions ++ [s]).flatMap (·.bestEffort.waiting) = b.sessions.flatMap (·.bestEffort.waiting) := by
      rw [List.flatMap_append, List.flatMap_singleton, hs, List.append_nil]
    exact congrArg (fun es : List Event => Traffic.mk (es.map (·.id) : List EventId) b.events)
      (hnone (Session.new info bucket b.settings.maxBestEffort b.settings.maxGuaranteed b.store.queue) rfl)

theorem traffic_enrol (b : Broker) (info : Info) : (b.enrol info).2.traffic = b.traffic := by
  have hcreate := traffic_create b info
  unfold enrol
  split
  · next heq => rwa [heq] at hcreate
  · next heq => rwa [heq] at hcreate

theorem traffic_restoreAll (b : Broker) (infos : List Info) : (b.restoreAll infos).2.traffic = b.traffic := by
  induction infos generalizing b with
  | nil => rfl
  | cons info infos ih =>
    have hcreate := traffic_create b info
    unfold restoreAll
    split
    · next heq => rwa [heq] at hcreate
    · next r b' heq =>
      rw [heq] at hcreate
      exact (ih _).trans ((Idle.registerAll b' r).traffic.trans hcreate)

/-- A broker that was just opened has no events in its hands. -/
theorem traffic_openOn (settings : Settings) (location : Location) (events : EventTable) :
    (openOn settings location events).2.traffic = ⟨0, events⟩ := by
  have hrestore (settings : Settings) (store : Store) :
      (restore { settings, store, events, journal := [.storeOpened] }).2.traffic = ⟨0, events⟩ := by
    have hall := traffic_restoreAll (({ settings, store, events, journal := [.storeOpened] } : Broker).report
      (SessionRecords.loadAll store.sessions).2) (SessionRecords.loadAll store.sessions).1
    cases heq : (({ settings, store, events, journal := [.storeOpened] } : Broker).report
        (SessionRecords.loadAll store.sessions).2).restoreAll (SessionRecords.loadAll store.sessions).1 with
    | mk answer b' =>
      rw [heq] at hall
      unfold restore
      cases answer <;> simp only [heq] <;> exact hall
  unfold openOn openOver
  split
  · rfl
  · next checked _ =>
    split
    · rfl
    · next store _ =>
      have hrestored := hrestore checked store
      split
      · next heq => rwa [heq] at hrestored
      · next heq => rwa [heq] at hrestored

theorem goes_dismiss (b : Broker) (id : String) (r : SessionRef) : Goes b.traffic (b.dismiss id r).traffic := by
  rw [← (Idle.unbindAll b r).traffic]
  exact goes_closeSession (b.unbindAll r) r

theorem goes_connect (b : Broker) (info : Info) : Goes b.traffic (b.connect info).2.traffic := by
  rcases connect_cases b info with ⟨-, heq⟩ | ⟨r, -, -, heq⟩
  · rw [heq, traffic_enrol]
    unfold cleared
    split
    · exact .refl
    · next r _ =>
      rw [← ((Idle.report b _).trans (.update _ r _)).traffic]
      exact goes_dismiss _ _ r
  · rw [heq]
    rw [← ((Idle.report b _).trans (.update _ r _)).traffic]

theorem goes_disconnect (b : Broker) (id : String) : Goes b.traffic (b.disconnect id).traffic := by
  unfold disconnect
  split
  · exact .refl
  · next r _ =>
    split
    · exact goes_dismiss (b.report _) id r
    · rw [(Idle.requeue b r).traffic]

theorem goes_close (b : Broker) : Goes b.traffic b.close.traffic := by
  have hfold (es : List (String × SessionRef)) (b : Broker) :
      Goes b.traffic (es.foldl (fun b e => b.dismiss e.1 e.2) b).traffic := by
    induction es generalizing b with
    | nil => exact .refl
    | cons e es ih => exact (goes_dismiss b e.1 e.2).trans (ih _)
  exact hfold _ b

theorem goes_reopen (b : Broker) (settings : Settings) (orderly : Bool) :
    Goes b.traffic (b.reopen settings orderly).2.traffic := by
  have hclosed : Goes b.traffic (if orderly then b.close else b).traffic := by
    split
    · exact goes_close b
    · exact .refl
  unfold reopen
  rw [traffic_openOn]
  exact hclosed.trans (goes_abandon _)

/-! ## Operations -/

theorem goes_perform (b : Broker) (r : SessionRef) (c : Call) : Goes b.traffic (b.perform r c).traffic := by
  have hidle {b' : Broker} (h : Idle b b') : Goes b.traffic b'.traffic := by rw [h.traffic]
  cases c with
  | push m => exact goes_push b r m
  | subscribe subs authorize => exact hidle (.subscribe b r subs authorize)
  | unsubscribe filters => exact hidle (.unsubscribe b r filters)
  | update info => exact hidle (.update b r info)
  | cleanWill => exact hidle (.cleanWill b r)
  | nextBestEffort => exact goes_nextBestEffort b r
  | nextGuaranteed => exact hidle (.nextGuaranteed b r)
  | acknowledge id => exact hidle (.acknowledge b r id)
  | requeue => exact hidle (.requeue b r)
  | close => exact goes_closeSession b r

/-- Whatever a broker does with events is traffic. -/
theorem goes_step (hb : Sound b) (op : Op) : Goes b.traffic (b.step op).traffic := by
  cases op with
  | connect info => exact goes_connect b info
  | disconnect id => exact goes_disconnect b id
  | route m => exact .head (.spread m _) (goes_route hb m)
  | call r c => exact goes_perform b r c
  | close => exact goes_close b
  | reopen settings orderly => exact goes_reopen b settings orderly

end Broker

end PubSub
