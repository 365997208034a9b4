import PubSub.Proofs.BoundAsHeld
import PubSub.Proofs.Clients
import PubSub.Proofs.Recording
/-!
# Registrations over a restart

A session that is restored has every filter it is known to hold registered and bound. A session that a
client comes with subscriptions for has none, until it subscribes to something: it is dormant. A restart
brings back every session that is not clean with its will and its subscriptions, and all that are not
dormant match and are routed to afterwards as they were before (`registered_over_restart`); a dormant one wakes up.
-/

namespace PubSub

open Topic

namespace Interest

variable {i : Interest}

/-- Nothing that is held is registered. -/
structure Idle (i : Interest) : Prop where
  sorted : i.filters.Sorted
  valid : ∀ {f q}, i.info.subscriptions.get? f = some q → flaw f = none
  vacant : ∀ p, i.filters.root.get? p = none

namespace Idle

theorem to_within (h : Idle i) : Within i where
  sorted := h.sorted
  valid := h.valid
  within {p q} hq := by
    rw [h.vacant] at hq
    cases hq

theorem fresh {info : Info} (hvalid : ∀ {f q}, info.subscriptions.get? f = some q → flaw f = none) : Idle ⟨info, {}⟩ where
  sorted := Trie.sorted_empty
  valid := hvalid
  vacant := Node.get?_empty

theorem forget (h : Idle i) (f : String) : Idle (i.forget f) where
  sorted := h.sorted.remove f
  valid {g q} hg := by
    have hg' : (i.info.subscriptions.erase f).get? g = some q := hg
    rw [OrderedMap.get?_erase] at hg'
    split at hg'
    · cases hg'
    · exact h.valid hg'
  vacant p := by
    show (i.filters.remove f).2.root.get? p = none
    rw [Trie.root_remove h.sorted, h.vacant, ite_self]

/-- Only subscribing registers anything. -/
theorem after {c : Call} (h : Idle i) (hc : c.subscribes = false) : Idle (i.after c) := by
  have hforget (filters : List String) {i : Interest} (h : Idle i) : Idle (filters.foldl Interest.forget i) := by
    induction filters generalizing i with
    | nil => exact h
    | cons f filters ih => exact ih (h.forget f)
  cases c with
  | subscribe subs authorize =>
    cases subs with
    | nil => exact h
    | cons sub subs => cases hc
  | unsubscribe filters => exact hforget filters h
  | update info => exact ⟨h.sorted, h.valid, h.vacant⟩
  | cleanWill => exact ⟨h.sorted, h.valid, h.vacant⟩
  | _ => exact h

theorem maxQoS (h : Idle i) (topic : String) : i.filters.maxQoS topic = none := by
  refine QoS.highest_eq_none_iff.2 (List.eq_nil_iff_forall_not_mem.2 fun q hq => ?_)
  obtain ⟨p, hp, -⟩ := Trie.mem_matching.1 hq
  rw [h.vacant] at hp
  cases hp

end Idle

/-- All that is held is registered, and nothing else; or it is idle. -/
def Settled (dormant : Bool) (i : Interest) : Prop := if dormant then Idle i else Synced [] i

namespace Settled

variable {dormant : Bool} {c : Call}

theorem to_within (h : Settled dormant i) : Within i := by
  cases dormant with
  | true => exact Idle.to_within h
  | false => exact Synced.to_within h

/-- Subscribing wakes a dormant session; as long as valid filters alone are taken out, no other call matters. -/
theorem after (h : Settled dormant i) (hc : ∀ filters, c = .unsubscribe filters → ∀ f ∈ filters, flaw f = none) :
    Settled (dormant && !c.subscribes) (i.after c) := by
  cases hs : c.subscribes with
  | true =>
    rw [Bool.not_true, Bool.and_false]
    cases c with
    | subscribe subs authorize =>
      cases subs with
      | nil => cases hs
      | cons sub subs => exact Synced.of_subscribe h.to_within sub subs authorize
    | _ => cases hs
  | false =>
    rw [Bool.not_false, Bool.and_true]
    cases dormant with
    | true => exact Idle.after h hs
    | false =>
      have hsynced : Synced [] i := h
      have hafter : Synced (c.taken []) (i.after c) := hsynced.after c
      cases c with
      | unsubscribe filters => exact hsynced.forgetAll_valid (hc filters rfl)
      | subscribe subs authorize =>
        cases subs with
        | nil => exact hsynced
        | cons sub subs => cases hs
      | _ => exact hafter

end Settled

end Interest

namespace Broker

variable {b b' : Broker} {r : SessionRef} {s : Session} {info : Info} {id : String} {settings : Settings}
  {dormant dormant' : SessionRef → Bool} {op : Op}

/-- Sessions are called while they are registered, and filters alone come in and are taken out. -/
def Valid (b : Broker) (op : Op) : Prop :=
  Called b op ∧ (∀ info, op = .connect info → Held info) ∧
    ∀ r filters, op = .call r (.unsubscribe filters) → ∀ f ∈ filters, flaw f = none

/-- Which sessions are dormant after an operation: those made with subscriptions, until they subscribe. -/
def dormancy (b : Broker) (dormant : SessionRef → Bool) : Op → SessionRef → Bool
  | .connect info => fun r => if r = b.sessions.length then !info.subscriptions.isEmpty else dormant r
  | .call r c => fun q => dormant q && !(decide (q = r) && c.subscribes)
  | .reopen _ _ => fun _ => false
  | _ => dormant

/-- The sessions that are dormant after some operations, from a broker that was just opened. -/
def dormantAfter (first : Broker) (ops : List Op) : SessionRef → Bool := along dormancy first (fun _ => false) ops

/-! ## Registered and bound alike -/

/-- Registered sessions that are not dormant have all that they hold registered and bound, the others nothing. -/
structure Settled (dormant : SessionRef → Bool) (b : Broker) : Prop where
  filters : ∀ {id r s}, b.registry.get? id = some r → b.session? r = some s → s.interest.Settled (dormant r)
  bound : ∀ {id r s f}, b.registry.get? id = some r → b.session? r = some s → dormant r = false →
    f ∈ s.info.subscriptions.keys → ⟨f, id, r⟩ ∈ b.exchange.bindings
  awake : ∀ {x}, x ∈ b.exchange.bindings → dormant x.session = false

namespace Settled

theorem complete (h : Settled dormant b) : Complete dormant b := ⟨h.bound⟩

theorem of_interest (h : Settled dormant b) (hs : SameInterest b b') : Settled dormant b' where
  filters hr hs' := by
    obtain ⟨s, hs₀, heq⟩ := hs.session?_back hs'
    rw [hs.registry] at hr
    rw [heq]
    exact h.filters hr hs₀
  bound := (h.complete.of_interest hs).bound
  awake hx := by
    rw [hs.exchange] at hx
    exact h.awake hx

/-- Only the sessions there are matter. -/
theorem congr (h : Settled dormant b) (hb : Sound b) (hd : ∀ r, r ≠ b.sessions.length → dormant' r = dormant r) :
    Settled dormant' b := by
  refine ⟨fun {id r s} hr hs => ?_, fun {id r s f} hr hs hdr hf => ?_, fun {x} hx => ?_⟩
  · rw [hd r (session?_ne_length hs)]
    exact h.filters hr hs
  · rw [hd r (session?_ne_length hs)] at hdr
    exact h.bound hr hs hdr hf
  · obtain ⟨t, ht, -⟩ := hb.bound hx
    rw [hd x.session (session?_ne_length ht)]
    exact h.awake hx

theorem perform {c : Call} (h : Settled dormant b) (hb : Sound b) (hr : b.Registered r)
    (hc : ∀ filters, c = .unsubscribe filters → ∀ f ∈ filters, flaw f = none) :
    Settled (b.dormancy dormant (.call r c)) (b.perform r c) := by
  obtain ⟨id, hr⟩ := hr
  obtain ⟨s, hs, rfl⟩ := hb.registered hr
  have hself : b.dormancy dormant (.call r c) r = (dormant r && !c.subscribes) := by
    simp [dormancy]
  have hother {q : SessionRef} (hq : q ≠ r) : b.dormancy dormant (.call r c) q = dormant q := by
    simp [dormancy, hq]
  have hcomplete : Complete (b.dormancy dormant (.call r c)) (b.perform r c) := by
    refine h.complete.perform hb (fun _ => ⟨s.info.id, hr⟩) fun q hq => ?_
    by_cases hqr : q = r
    · rw [hqr, hself, Bool.and_eq_false_iff, Bool.not_eq_false'] at hq
      rw [hqr]
      exact hq.imp_right fun hsub => ⟨rfl, hsub⟩
    · exact .inl (hother hqr ▸ hq)
  refine ⟨fun {id' q s'} hq hs' => ?_, hcomplete.bound, fun {x} hx => ?_⟩
  · rw [registry_perform] at hq
    by_cases hqr : q = r
    · subst hqr
      obtain ⟨t, ht, heq⟩ := (perform_wants b q c).session?_back hs'
      obtain rfl := Option.some.inj (hs.symm.trans ht)
      rw [heq, hself]
      exact (h.filters hr hs).after hc
    · rw [(perform_wants b r c).others q hqr] at hs'
      rw [hother hqr]
      exact h.filters hq hs'
  · rw [perform_exchange hs, Exchange.mem_unbindAll, Exchange.mem_bindAll] at hx
    rcases hx.1 with ⟨hx, -⟩ | ⟨hbinds, -, hxr⟩
    · simp [dormancy, h.awake hx]
    · rw [hxr, hself, Interest.subscribes_of_mem_binds hbinds, Bool.not_true, Bool.and_false]

theorem dismiss (h : Settled dormant b) (hb : Sound b) (hr : b.registry.get? id = some r) :
    Settled dormant (b.dismiss id r) := by
  obtain ⟨s, hs, rfl⟩ := hb.registered hr
  refine ⟨fun {id' q s'} hq hs' => ?_, (h.complete.dismiss hb hr).bound, fun hx => ?_⟩
  · rw [registry_dismiss, OrderedMap.get?_erase] at hq
    split at hq
    · cases hq
    · next hid =>
      -- A session that is registered still is of another client, so it is another one.
      have hqr : q ≠ r := by
        rintro rfl
        exact hid (hb.id_of_registered hq hs).symm
      rw [(dismiss_wants b s.info.id r).others q hqr] at hs'
      exact h.filters hq hs'
  · rw [exchange_dismiss hs, Exchange.mem_unbindAll] at hx
    exact h.awake hx.1

theorem update (h : Settled dormant b) (hb : Sound b) (hr : b.registry.get? id = some r) (info : Info) :
    Settled dormant (b.update r info) := by
  have hsame : b.dormancy dormant (.call r (.update info)) = dormant := by
    funext q
    simp [dormancy, Call.subscribes]
  have hupdate := h.perform (c := .update info) hb ⟨id, hr⟩ nofun
  rw [hsame] at hupdate
  exact hupdate

theorem enduring : Enduring (Settled dormant) where
  same := of_interest
  dismiss hb h hr := h.dismiss hb hr

/-- A fresh session is dormant unless it holds nothing. -/
theorem enrol (h : Settled dormant b) (hb : Sound b) (hheld : Held info)
    (hd : ∀ r, dormant' r = if r = b.sessions.length then !info.subscriptions.isEmpty else dormant r) :
    Settled dormant' (b.enrol info).2 := by
  have hbefore : Settled dormant' b := h.congr hb fun r hr => (hd r).trans (if_neg hr)
  have hempty (hnew : dormant' b.sessions.length = false) : info.subscriptions = .empty := by
    rw [hd, if_pos rfl, Bool.not_eq_false', OrderedMap.isEmpty, List.isEmpty_iff] at hnew
    exact OrderedMap.ext' hnew
  have hcomplete : Complete dormant' (b.enrol info).2 := hbefore.complete.enrol hb hempty
  by_cases hu : usableName info.id = true
  · obtain ⟨bucket, ns, -, heq⟩ := enrol_of_usable b hu
    rw [heq] at hcomplete ⊢
    refine ⟨fun {id q s} hq hs => ?_, hcomplete.bound, hbefore.awake⟩
    have hq' := (get?_registry_enrolled b info bucket id).symm.trans hq
    split at hq'
    · obtain rfl := Option.some.inj hq'
      obtain rfl := Option.some.inj (session?_enrolled_new.symm.trans hs)
      cases hdn : dormant' b.sessions.length with
      | true => exact Interest.Idle.fresh fun hf => hheld _ _ hf
      | false => exact Interest.Synced.fresh (hempty hdn) []
    · obtain ⟨t, ht, -⟩ := hb.registered hq'
      obtain rfl := Option.some.inj ((session?_enrolled.2 (.inl ht)).symm.trans hs)
      exact hbefore.filters hq' ht
  · obtain ⟨e, ns, heq⟩ := enrol_of_unusable b hu
    rw [heq]
    exact hbefore.of_interest (.report b ns)

theorem connect (h : Settled dormant b) (hb : Sound b) (hheld : Held info) :
    Settled (b.dormancy dormant (.connect info)) (b.connect info).2 := by
  rcases connect_cases b info with ⟨-, heq⟩ | ⟨r, hr, -, heq⟩ <;> rw [heq]
  · refine (enduring.cleared hb h info fun hb h hr => h.update hb hr _).enrol (hb.cleared info) hheld fun r => ?_
    rw [length_sessions_cleared]
    rfl
  · have hresumed := (enduring.report h [.sessionResumed info.id]).update (hb.report _) hr info
    refine hresumed.congr ((hb.report _).update r info) fun q hq => if_neg ?_
    rw [(SameMail.update _ r info).length_sessions] at hq
    exact hq

/-- What is restored is registered and bound. -/
theorem of_restored {k queue : Keyspace} {done : List Info} (h : Restored k queue done b) (hheld : ∀ i ∈ done, Held i) :
    Settled (fun _ => false) b := by
  have hcomplete : Complete (fun _ => false) b := .of_restored h
  refine ⟨fun {id r s} hr hs => ?_, hcomplete.bound, fun _ => rfl⟩
  obtain ⟨info, hi, rfl⟩ := h.only (by rw [hr]; rfl)
  obtain ⟨q, t, hq, ht, hinterest⟩ := h.back info hi
  obtain rfl := Option.some.inj (hr.symm.trans hq)
  obtain rfl := Option.some.inj (hs.symm.trans ht)
  rw [hinterest]
  exact Interest.Synced.restored fun hf => hheld info hi _ _ hf

/-- All that is due to clients holds filters. -/
theorem held_due {left : String → Option Info} (h : Settled dormant b) (hb : Sound b)
    (hleft : ∀ {id info}, left id = some info → Held info) {id : String} {info : Info} (hdue : b.due left id = some info) :
    Held info := by
  cases hr : b.registry.get? id with
  | none =>
    rw [due_free hr] at hdue
    exact hleft hdue
  | some r =>
    obtain ⟨s, hs, -⟩ := hb.registered hr
    rw [due_registered hr hs, Info.recorded] at hdue
    split at hdue
    · cases hdue
    · obtain rfl := Option.some.inj hdue
      exact fun f q hf => (h.filters hr hs).to_within.valid hf

theorem reopen {left : String → Option Info} (h : Settled dormant b) (hb : Sound b) (hm : Truthful left b)
    (hleft : ∀ {id info}, left id = some info → Held info) (hflaw : settings.flaw = none) (orderly : Bool) :
    Settled (fun _ => false) (b.reopen settings orderly).2 := by
  refine of_restored (reopened hb hflaw orderly).2 fun info hi => ?_
  have hget := hb.recorded.get_eq_some.2 ⟨hi, rfl⟩
  rw [hm.records] at hget
  exact h.held_due hb hleft (Except.ok.inj hget)

theorem step {left : String → Option Info} (h : Settled dormant b) (hb : Sound b) (hm : Truthful left b)
    (hleft : ∀ {id info}, left id = some info → Held info) (hop : Valid b op) :
    Settled (b.dormancy dormant op) (b.step op) := by
  cases op with
  | connect info => exact h.connect hb (hop.2.1 info rfl)
  | disconnect id => exact enduring.disconnect hb h id
  | route m => exact h.of_interest (.route b m)
  | call r c => exact h.perform hb (hop.1.2 r c rfl) fun filters hc => hop.2.2 r filters (hc ▸ rfl)
  | close => exact enduring.close hb h
  | reopen settings orderly => exact h.reopen hb hm hleft hop.1.1 orderly

end Settled

theorem held_leave {left : String → Option Info} (h : Settled dormant b) (hb : Sound b)
    (hleft : ∀ {id info}, left id = some info → Held info) {id : String} {info : Info}
    (hinfo : b.leave left op id = some info) : Held info := by
  cases op with
  | connect i =>
    have hinfo' : (if id = i.id then none else left id) = some info := hinfo
    split at hinfo'
    · cases hinfo'
    · exact hleft hinfo'
  | close => exact h.held_due hb hleft hinfo
  | reopen settings orderly => cases hinfo
  | disconnect => exact hleft hinfo
  | route => exact hleft hinfo
  | call => exact hleft hinfo

theorem Run.settled {ops : List Op} (h : Run Valid (start settings) ops b) (hflaw : settings.flaw = none) :
    Settled (dormantAfter (start settings) ops) b ∧
      ∀ {id info}, leftover (start settings) ops id = some info → Held info := by
  induction h with
  | nil => exact ⟨.of_restored (restored_start hflaw) fun _ hi => absurd hi List.not_mem_nil, nofun⟩
  | @step ops b op hrun hop ih =>
    obtain ⟨hsettled, hleft⟩ := ih
    have hcalled : Run Called (start settings) ops b := hrun.mono fun _ _ hop => hop.1
    have hb : Sound b := hrun.sound hflaw fun _ _ hop => hop.1.1
    rw [dormantAfter, leftover, hrun.along_step, hrun.along_step]
    exact ⟨hsettled.step hb (hcalled.truthful hflaw) hleft hop, held_leave hsettled hb hleft⟩

/-! ## Before and after a restart -/

namespace Settled

/-- A session that is not dormant matches by all that it holds. -/
theorem matchQoS (h : Settled dormant b) (hr : b.registry.get? id = some r) (hs : b.session? r = some s)
    (topic : String) : s.matchQoS topic = if dormant r then none
      else QoS.highest ((s.info.subscriptions.entries.filter fun e => matchesFilter topic e.1).map (·.2)) := by
  have hsettled : s.interest.Settled (dormant r) := h.filters hr hs
  show s.interest.filters.maxQoS topic = _
  cases hd : dormant r with
  | true =>
    rw [hd] at hsettled
    exact Interest.Idle.maxQoS hsettled topic
  | false =>
    rw [hd] at hsettled
    have hmax := Interest.Synced.maxQoS hsettled topic
    simp only [List.all_nil, Bool.and_true] at hmax
    exact hmax

/-- A client is routed to when its session is not dormant and holds a filter that covers the topic. -/
theorem routed (h : Settled dormant b) (ht : Tied b) (hr : b.registry.get? id = some r) (hs : b.session? r = some s)
    (topic : String) : (∃ x ∈ b.exchange.targets topic, x.id = id) ↔
      dormant r = false ∧ ∃ f ∈ s.info.subscriptions.keys, matchesFilter topic f = true := by
  rw [exists_mem_targets]
  constructor
  · rintro ⟨x, hx, rfl, hmatch⟩
    obtain rfl : x.session = r := Option.some.inj ((ht.registered hx).symm.trans hr)
    exact ⟨h.awake hx, x.filter, ht.held hx hs, hmatch⟩
  · rintro ⟨hd, f, hf, hmatch⟩
    exact ⟨⟨f, id, r⟩, h.bound hr hs hd hf, rfl, hmatch⟩

end Settled

/-- Opening a broker again, after closing it or not, brings every session that is not clean back with its
will and its subscriptions, and none that is clean. The session brought back matches every topic by all that
it holds and is routed to when that covers the topic, as it was before unless it was dormant: then it
matched nothing and was routed nothing. -/
theorem registered_over_restart {ops : List Op} {again : Settings} (h : Run Valid (start settings) ops b)
    (hflaw : settings.flaw = none) (hagain : again.flaw = none) (orderly : Bool) (hr : b.registry.get? id = some r)
    (hs : b.session? r = some s) :
    let b' := (b.reopen again orderly).2
    let asleep := dormantAfter (start settings) ops r
    (b.reopen again orderly).1 = .ok () ∧ (s.info.clean = true → b'.registry.get? id = none) ∧
    (s.info.clean = false → ∃ r' s', b'.registry.get? id = some r' ∧ b'.session? r' = some s' ∧ s'.info = s.info ∧
      ∀ topic,
        (s'.matchQoS topic
            = QoS.highest ((s.info.subscriptions.entries.filter fun e => matchesFilter topic e.1).map (·.2)) ∧
          ((∃ x ∈ b'.exchange.targets topic, x.id = id) ↔
            ∃ f ∈ s.info.subscriptions.keys, matchesFilter topic f = true)) ∧
        (asleep = false → s.matchQoS topic = s'.matchQoS topic ∧
          ((∃ x ∈ b.exchange.targets topic, x.id = id) ↔ ∃ x ∈ b'.exchange.targets topic, x.id = id)) ∧
        (asleep = true → s.matchQoS topic = none ∧ ∀ x ∈ b.exchange.targets topic, x.id ≠ id)) := by
  intro b' asleep
  have hb : Sound b := h.sound hflaw fun _ _ hop => hop.1.1
  have htruthful := (h.mono fun _ _ hop => hop.1).truthful hflaw
  have htied : Tied b := (h.mono fun _ _ hop => ⟨hop.1.1, fun r c hcall _ => hop.1.2 r c hcall⟩).tied hflaw
  obtain ⟨hsettled, hleft⟩ := h.settled hflaw
  obtain ⟨hok, hrestored⟩ := reopened hb hagain orderly
  have hget := htruthful.records id
  rw [due_registered hr hs] at hget
  refine ⟨hok, fun hclean => ?_, fun hclean => ?_⟩
  · rw [Info.recorded_clean hclean] at hget
    exact hrestored.absent hb.recorded hget
  · rw [Info.recorded_unclean hclean] at hget
    obtain ⟨r', s', hr', hs', hinterest⟩ := hrestored.session hb.recorded hget
    have hinfo : s'.info = s.info := congrArg Interest.info hinterest
    have hsettled' : Settled (fun _ => false) b' := hsettled.reopen hb htruthful hleft hagain orderly
    refine ⟨r', s', hr', hs', hinfo, fun topic => ?_⟩
    have hmatch := hsettled.matchQoS hr hs topic
    have hmatch' := hsettled'.matchQoS hr' hs' topic
    have hrouted := hsettled.routed htied hr hs topic
    have hrouted' := hsettled'.routed (.of_restored hrestored) hr' hs' topic
    rw [hinfo, if_neg Bool.false_ne_true] at hmatch'
    rw [hinfo, and_iff_right rfl] at hrouted'
    refine ⟨⟨hmatch', hrouted'⟩, fun hawake => ?_, fun hasleep => ?_⟩
    · rw [show dormantAfter (start settings) ops r = false from hawake] at hmatch hrouted
      rw [if_neg Bool.false_ne_true] at hmatch
      rw [and_iff_right rfl] at hrouted
      exact ⟨hmatch.trans hmatch'.symm, hrouted.trans hrouted'.symm⟩
    · rw [show dormantAfter (start settings) ops r = true from hasleep] at hmatch hrouted
      refine ⟨hmatch.trans (if_pos rfl), fun x hx hid => ?_⟩
      exact absurd (hrouted.1 ⟨x, hx, hid⟩).1 nofun

/-- A client that comes with a subscription matches nothing by it until the broker is opened again. -/
theorem woken_by_restart :
    let ops : List Op := [.connect { id := "a", subscriptions := OrderedMap.empty.insert "t" .atLeastOnce }]
    let b := ops.foldl step (start {})
    let b' := (b.reopen {} true).2
    ∃ s r' s', b.session? 0 = some s ∧ s.matchQoS "t" = none ∧ (∀ x ∈ b.exchange.targets "t", x.id ≠ "a") ∧
      b'.registry.get? "a" = some r' ∧ b'.session? r' = some s' ∧ s'.matchQoS "t" = some .atLeastOnce ∧
      ∃ x ∈ b'.exchange.targets "t", x.id = "a" := by
  intro ops b b'
  have hheld : Held { id := "a", subscriptions := OrderedMap.empty.insert "t" .atLeastOnce } := by
    intro f q hf
    rw [show ({ id := "a", subscriptions := OrderedMap.empty.insert "t" .atLeastOnce } : Info).subscriptions.get? f
      = _ from OrderedMap.get?_insert _ _ _ _] at hf
    split at hf
    · next he => rw [he]; decide +kernel
    · cases hf
  have hrun : Run Valid (start {}) ops b := by
    refine Run.of_forall .nil fun _ op hop => ?_
    obtain rfl := List.mem_singleton.1 hop
    refine ⟨⟨trivial, fun _ _ hcall => Op.noConfusion hcall⟩, ?_, fun _ _ hcall => Op.noConfusion hcall⟩
    rintro _ ⟨⟩
    exact hheld
  have hs : b.session? 0 = some ((b.session? 0).get (by decide +kernel)) := (Option.some_get _).symm
  have hr : b.registry.get? "a" = some 0 := by decide +kernel
  obtain ⟨-, -, hback⟩ := registered_over_restart hrun rfl (show ({} : Settings).flaw = none from rfl) true hr hs
  obtain ⟨r', s', hr', hs', -, htopic⟩ := hback (by decide +kernel)
  obtain ⟨⟨hmatch, hrouted⟩, -, hasleep⟩ := htopic "t"
  obtain ⟨hnone, hunrouted⟩ := hasleep (by decide +kernel)
  refine ⟨_, r', s', hs, hnone, hunrouted, hr', hs', ?_, hrouted.2 ⟨"t", by decide +kernel, by decide +kernel⟩⟩
  rw [hmatch]
  decide +kernel

end Broker

end PubSub
