import PubSub.Proofs.Opening
import PubSub.Proofs.Requests
import PubSub.Proofs.Subscribing
/-!
# In which order subscriptions are restored

The subscriptions of a record are registered one after the other, and nothing says in which order
(`Broker.openIn`). A record may hold filters that are not in order, since only subscribing looks at them, and such
filters may share a place in the trie; then the one registered last counts. So the service a topic gets is the
strongest recorded for it in any order, and the same in all orders, just when one of the strongest filters shares
its place with none that is recorded with another service (`restored_in_any_order`). Filters in order share no
places.
-/

namespace PubSub

namespace Topic

variable {es ds : List (String × QoS)} {f g topic : String} {q : QoS}

theorem matchesFilter_congr (h : canonical f = canonical g) (topic : String) :
    matchesFilter topic f = matchesFilter topic g := by
  rw [Bool.eq_iff_iff, matchesFilter_iff, matchesFilter_iff, canonical_eq_iff.1 h]

/-- The service that is registered last at the place of a filter. -/
def lastAt (es : List (String × QoS)) (f : String) : Option QoS :=
  (es.filter fun e => canonical e.1 = canonical f).getLast?.map (·.2)

theorem lastAt_append : lastAt (es ++ ds) f = (lastAt ds f).or (lastAt es f) := by
  unfold lastAt
  rw [List.filter_append, List.getLast?_append, Option.map_or]

theorem exists_of_lastAt (h : lastAt es f = some q) : ∃ g, (g, q) ∈ es ∧ canonical g = canonical f := by
  obtain ⟨⟨g, _⟩, hlast, rfl⟩ := Option.map_eq_some_iff.1 h
  obtain ⟨hmem, hplace⟩ := List.mem_filter.1 (List.mem_of_getLast? hlast)
  exact ⟨g, hmem, of_decide_eq_true hplace⟩

theorem lastAt_of_mem (h : (g, q) ∈ es) (hplace : canonical g = canonical f) : ∃ p, lastAt es f = some p := by
  have hne : (es.filter fun e => canonical e.1 = canonical f) ≠ [] :=
    List.ne_nil_of_mem (List.mem_filter.2 ⟨h, decide_eq_true hplace⟩)
  obtain ⟨e, he⟩ := Option.ne_none_iff_exists'.1 (mt List.getLast?_eq_none_iff.1 hne)
  exact ⟨e.2, by rw [lastAt, he]; rfl⟩

/-- A topic finds what was registered last at the places that cover it. -/
theorem Trie.mem_matching_register : q ∈ (es.foldl (fun t e => t.set e.1 e.2) ({} : Trie)).matching topic ↔
    ∃ f, lastAt es f = some q ∧ matchesFilter topic f = true := by
  have h : Represents (es.foldl (fun t e => t.set e.1 e.2) {})
      (es.foldl (fun m e => m.insert (canonical e.1) e.2) .empty) := by
    have hchanges := Represents.empty.applyAll (es.map fun e => .set e.1 e.2)
    rwa [List.foldl_map, List.foldl_map] at hchanges
  have hget (f : String) : (es.foldl (fun m e => m.insert (canonical e.1) e.2)
      (.empty : OrderedMap String QoS)).get? (canonical f) = lastAt es f := by
    rw [OrderedMap.get?_foldl_insert (fun e : String × QoS => canonical e.1) (·.2)]
    exact Option.or_none
  simp only [(h.matching_perm topic).mem_iff, List.mem_map, List.mem_filter, Prod.exists, ← OrderedMap.get?_eq_some_iff]
  constructor
  · rintro ⟨f, _, ⟨hf, hmatches⟩, rfl⟩
    exact ⟨f, by rw [← hget, h.canonical hf, hf], hmatches⟩
  · rintro ⟨f, hf, hmatches⟩
    refine ⟨canonical f, q, ⟨(hget f).trans hf, ?_⟩, rfl⟩
    rwa [matchesFilter_congr (canonical_canonical f)]

end Topic

open Topic

/-! ## What a record says -/

namespace Info

variable {info : Info} {topic : String} {q : QoS}

/-- The strongest service recorded for a topic. -/
def strongest (info : Info) (topic : String) : Option QoS :=
  QoS.highest ((info.subscriptions.entries.filter fun e => matchesFilter topic e.1).map (·.2))

/-- The service a topic gets when the subscriptions are registered in this order. -/
def registeredIn (info : Info) (order : Enumeration) (topic : String) : Option QoS :=
  ((order.list info.subscriptions).foldl (fun t e => t.set e.1 e.2) ({} : Trie)).maxQoS topic

/-- One of the strongest filters for a topic shares its place with none that asks for another service. -/
def Decided (info : Info) (topic : String) : Prop :=
  ∀ q, info.strongest topic = some q → ∃ f, info.subscriptions.get? f = some q ∧ matchesFilter topic f = true ∧
    ∀ g p, info.subscriptions.get? g = some p → canonical g = canonical f → p = q

theorem strongest_eq_some_iff : info.strongest topic = some q ↔
    (∃ f, info.subscriptions.get? f = some q ∧ matchesFilter topic f = true) ∧
      ∀ f p, info.subscriptions.get? f = some p → matchesFilter topic f = true → p.toNat ≤ q.toNat := by
  unfold strongest
  rw [QoS.highest_eq_some_iff]
  simp only [OrderedMap.get?_eq_some_iff, List.mem_map, List.mem_filter, Prod.exists]
  grind

theorem mem_list (order : Enumeration) {f : String} :
    (f, q) ∈ order.list info.subscriptions ↔ info.subscriptions.get? f = some q := by
  rw [(order.perm info.subscriptions).mem_iff, OrderedMap.get?_eq_some_iff]

/-- It is the strongest service just when a place that covers the topic has that for its last. -/
theorem registeredIn_eq_strongest_iff (order : Enumeration) : info.registeredIn order topic = info.strongest topic ↔
    ∀ q, info.strongest topic = some q →
      ∃ f, lastAt (order.list info.subscriptions) f = some q ∧ matchesFilter topic f = true := by
  have hrecorded {f : String} {p : QoS} (hf : lastAt (order.list info.subscriptions) f = some p)
      (hmatches : matchesFilter topic f = true) :
      ∃ g, info.subscriptions.get? g = some p ∧ matchesFilter topic g = true := by
    obtain ⟨g, hg, hplace⟩ := exists_of_lastAt hf
    exact ⟨g, (mem_list order).1 hg, by rwa [matchesFilter_congr hplace]⟩
  unfold registeredIn Trie.maxQoS
  cases hstrongest : info.strongest topic with
  | none =>
    rw [QoS.highest_eq_none_iff]
    refine iff_of_true (List.eq_nil_iff_forall_not_mem.2 fun p hp => ?_) nofun
    obtain ⟨f, hf, hmatches⟩ := Trie.mem_matching_register.1 hp
    obtain ⟨g, hg, hcovers⟩ := hrecorded hf hmatches
    have hnone := List.map_eq_nil_iff.1 (QoS.highest_eq_none_iff.1 hstrongest)
    exact List.filter_eq_nil_iff.1 hnone _ (OrderedMap.get?_eq_some_iff.1 hg) hcovers
  | some q =>
    obtain ⟨-, hbound⟩ := strongest_eq_some_iff.1 hstrongest
    rw [QoS.highest_eq_some_iff, Trie.mem_matching_register, and_iff_left]
    · exact ⟨fun h _ hq => Option.some.inj hq ▸ h, fun h => h q rfl⟩
    · intro p hp
      obtain ⟨f, hf, hmatches⟩ := Trie.mem_matching_register.1 hp
      obtain ⟨g, hg, hcovers⟩ := hrecorded hf hmatches
      exact hbound g p hg hcovers

end Info

/-! ## Two orders that tell -/

/-- First the subscriptions whose service is chosen, then the others. -/
def Enumeration.chosenFirst (chosen : QoS → Bool) : Enumeration where
  list m := m.entries.filter (chosen ·.2) ++ m.entries.filter (!chosen ·.2)
  perm m := List.filter_append_perm (chosen ·.2) m.entries

namespace Info

variable {info : Info} {topic : String}

/-- Where others are recorded at a place, the last there is one of them. -/
theorem lastAt_chosenFirst {chosen : QoS → Bool} {f g : String} {p q : QoS} (hg : info.subscriptions.get? g = some p)
    (hplace : canonical g = canonical f) (hother : chosen p = false)
    (hlast : lastAt ((Enumeration.chosenFirst chosen).list info.subscriptions) f = some q) : chosen q = false := by
  have hmem : (g, p) ∈ info.subscriptions.entries.filter (!chosen ·.2) :=
    List.mem_filter.2 ⟨OrderedMap.get?_eq_some_iff.1 hg, by simp [hother]⟩
  obtain ⟨t, ht⟩ := lastAt_of_mem hmem hplace
  obtain ⟨h, hh, -⟩ := exists_of_lastAt ht
  have heq : t = q := by
    rw [Enumeration.chosenFirst, lastAt_append, ht] at hlast
    exact Option.some.inj hlast
  simpa [heq] using (List.mem_filter.1 hh).2

/-- With the strongest service last the topic gets it. -/
theorem registeredIn_strongest_last {q : QoS} (h : info.strongest topic = some q) :
    info.registeredIn (.chosenFirst (· ≠ q)) topic = info.strongest topic := by
  rw [registeredIn_eq_strongest_iff]
  intro p hp
  obtain rfl := Option.some.inj (h.symm.trans hp)
  obtain ⟨⟨f, hf, hmatches⟩, -⟩ := strongest_eq_some_iff.1 h
  obtain ⟨t, ht⟩ := lastAt_of_mem ((mem_list (.chosenFirst (· ≠ q))).2 hf) rfl
  have heq := lastAt_chosenFirst hf rfl (by simp) ht
  exact ⟨f, by simpa using ht.trans (congrArg some (by simpa using heq)), hmatches⟩

/-- With the strongest service first the topic gets it only if no other takes all its places. -/
theorem decided_of_strongest_first {q : QoS} (h : info.strongest topic = some q)
    (heq : info.registeredIn (.chosenFirst (· = q)) topic = info.strongest topic) : info.Decided topic := by
  intro p hp
  obtain rfl := Option.some.inj (h.symm.trans hp)
  obtain ⟨f, hf, hmatches⟩ := (registeredIn_eq_strongest_iff _).1 heq q h
  obtain ⟨g, hg, hplace⟩ := exists_of_lastAt hf
  refine ⟨g, (mem_list _).1 hg, by rwa [matchesFilter_congr hplace], fun g' p hg' hplace' => ?_⟩
  by_contra hother
  have hlast := lastAt_chosenFirst hg' (hplace'.trans hplace) (decide_eq_false hother) hf
  simp at hlast

theorem Decided.registeredIn (h : info.Decided topic) (order : Enumeration) :
    info.registeredIn order topic = info.strongest topic := by
  rw [registeredIn_eq_strongest_iff]
  intro q hq
  obtain ⟨f, hf, hmatches, hsame⟩ := h q hq
  obtain ⟨p, hp⟩ := lastAt_of_mem ((mem_list order).2 hf) rfl
  obtain ⟨g, hg, hplace⟩ := exists_of_lastAt hp
  obtain rfl := hsame g p ((mem_list order).1 hg) hplace
  exact ⟨f, hp, hmatches⟩

/-- The order has no part in what a topic gets just when the record decides it. -/
theorem decided_iff_same :
    info.Decided topic ↔ ∀ order order', info.registeredIn order topic = info.registeredIn order' topic := by
  constructor
  · intro h order order'
    rw [h.registeredIn, h.registeredIn]
  · intro h q hq
    refine decided_of_strongest_first hq ?_ q hq
    rw [h _ (.chosenFirst (· ≠ q)), registeredIn_strongest_last hq]

/-- A topic gets the strongest service in any order just when the record decides it. -/
theorem decided_iff_strongest : info.Decided topic ↔ ∀ order, info.registeredIn order topic = info.strongest topic :=
  ⟨Decided.registeredIn, fun h => decided_iff_same.2 fun order order' => (h order).trans (h order').symm⟩

/-- Filters in order share no places. -/
theorem decided_of_valid (h : ∀ f ∈ info.subscriptions.keys, flaw f = none) (topic : String) : info.Decided topic := by
  have hvalid {f : String} {q : QoS} (hf : info.subscriptions.get? f = some q) : flaw f = none :=
    h f (OrderedMap.mem_keys_iff.2 (Option.isSome_iff_exists.2 ⟨q, hf⟩))
  intro q hq
  obtain ⟨⟨f, hf, hmatches⟩, -⟩ := strongest_eq_some_iff.1 hq
  refine ⟨f, hf, hmatches, fun g p hg hplace => ?_⟩
  rw [canonical_of_flaw (hvalid hg), canonical_of_flaw (hvalid hf)] at hplace
  rw [hplace, hf] at hg
  exact (Option.some.inj hg).symm

end Info

/-! ## Opening in any order -/

namespace Broker

variable {b : Broker} {r : SessionRef} {s : Session} {info other : Info} {settings : Settings} {store : Store}
  {events : EventTable} {orders : SessionRef → Enumeration} {infos : List Info} {id : String}

/-- Restores sessions one by one and goes through the subscriptions of each in its order. -/
def restoreAllIn (orders : SessionRef → Enumeration) (b : Broker) : List Info → Except StoreError Unit × Broker
  | [] => (.ok (), b)
  | info :: rest =>
    match b.create info with
    | (.error e, b) => (.error e, b)
    | (.ok r, b) => ((b.registerIn (orders r) r).register info.id r).restoreAllIn orders rest

def restoreIn (orders : SessionRef → Enumeration) (b : Broker) : Except StoreError Unit × Broker :=
  let (infos, notices) := SessionRecords.loadAll b.store.sessions
  match (b.report notices).restoreAllIn orders infos with
  | (.error e, b) => (.error e, b)
  | (.ok (), b) => (.ok (), b.report (if b.registry.isEmpty then [] else [.sessionsRestored b.registry.size]))

/-- Opens a broker on stored data and goes through the subscriptions of each session in its order. -/
def openIn (orders : SessionRef → Enumeration) (settings : Settings) (location : Location) (events : EventTable) :
    Except BrokerError Unit × Broker :=
  match settings.check with
  | .error e => (.error (.config e), { settings, events })
  | .ok settings =>
    match location.load with
    | .error e => (.error (.store e), { settings, events })
    | .ok store =>
      match restoreIn orders { settings, store, events, journal := [.storeOpened] } with
      | (.error e, b) => (.error (.store e), b)
      | (.ok (), b) => (.ok (), b)

theorem restoreAllIn_ascending (b : Broker) (infos : List Info) :
    b.restoreAllIn (fun _ => .ascending) infos = b.restoreAll infos := by
  induction infos generalizing b with
  | nil => rfl
  | cons info infos ih =>
    rw [restoreAllIn, restoreAll]
    rcases b.create info with ⟨e | r, b'⟩
    · rfl
    · exact ih _

/-- The broker goes through them in key order. -/
theorem openIn_ascending (settings : Settings) (location : Location) (events : EventTable) :
    openIn (fun _ => .ascending) settings location events = openOn settings location events := by
  have hall : restoreAllIn (fun _ => .ascending) = restoreAll := funext fun b => funext (restoreAllIn_ascending b)
  unfold openIn restoreIn
  exact hall ▸ rfl

theorem registry_registerIn (b : Broker) (order : Enumeration) (r : SessionRef) :
    (b.registerIn order r).registry = b.registry := by
  unfold registerIn
  split <;> rfl

theorem session?_registerIn_self (hs : b.session? r = some s) (order : Enumeration) :
    (b.registerIn order r).session? r = some (s.register (order.list s.info.subscriptions)) := by
  unfold registerIn
  rw [hs]
  exact session?_setSession_self hs

theorem session?_registerIn_other {q : SessionRef} (hq : q ≠ r) (order : Enumeration) :
    (b.registerIn order r).session? q = b.session? q := by
  unfold registerIn
  split
  · rfl
  · exact session?_setSession_other hq

theorem registerIn_register (b : Broker) (order : Enumeration) (id : String) (r : SessionRef) :
    (b.registerIn order r).register id r = (b.register id r).registerIn order r := by
  have hsession : (b.register id r).session? r = b.session? r := rfl
  unfold registerIn
  rw [hsession]
  cases b.session? r <;> rfl

theorem restoreAllIn_cons (h : usableName info.id = true) (rest : List Info) : b.restoreAllIn orders (info :: rest) =
    ((b.enrol info).2.registerIn (orders b.sessions.length) b.sessions.length).restoreAllIn orders rest := by
  have hbucket : Bucket.ofName info.id = .ok ⟨info.id, h⟩ := dif_pos h
  rw [restoreAllIn]
  unfold enrol create
  rw [hbucket]
  exact congrArg (restoreAllIn orders · rest) (registerIn_register _ _ _ _)

/-- The record has its session, with its subscriptions registered in the order of that session. -/
def RestoredIn (orders : SessionRef → Enumeration) (b : Broker) (info : Info) : Prop :=
  ∃ r s, b.registry.get? info.id = some r ∧ b.session? r = some s ∧ s.info = info ∧
    s.filters = ((orders r).list info.subscriptions).foldl (fun t e => t.set e.1 e.2) {}

/-- One more session leaves those of other ids alone. -/
theorem restoredIn_step (hu : usableName info.id = true) (hsame : info.id = other.id → other = info)
    (h : RestoredIn orders b other ∨ other = info) :
    RestoredIn orders ((b.enrol info).2.registerIn (orders b.sessions.length) b.sessions.length) other := by
  obtain ⟨bucket, ns, -, heq⟩ := enrol_of_usable b hu
  have hnew : ((b.enrolled info bucket).report ns).session? b.sessions.length = some (b.newSession info bucket) :=
    session?_enrolled_new
  have hregistry (id : String) : (((b.enrolled info bucket).report ns).registerIn (orders b.sessions.length)
      b.sessions.length).registry.get? id = if id = info.id then some b.sessions.length else b.registry.get? id := by
    rw [registry_registerIn]
    exact OrderedMap.get?_insert _ _ _ _
  rw [heq]
  by_cases hid : info.id = other.id
  · obtain rfl := hsame hid
    exact ⟨b.sessions.length, _, (hregistry _).trans (if_pos rfl), session?_registerIn_self hnew _, rfl, rfl⟩
  · have hne : other ≠ info := fun he => hid (he ▸ rfl)
    obtain ⟨r, s, hr, hs, hinfo⟩ := h.resolve_right hne
    refine ⟨r, s, (hregistry _).trans ((if_neg (Ne.symm hid)).trans hr), ?_, hinfo⟩
    rw [session?_registerIn_other (session?_ne_length hs)]
    exact session?_enrolled.2 (.inl hs)

/-- Restoring succeeds in any order, and in the end every session is registered in its own. -/
theorem restoreAllIn_spec (orders : SessionRef → Enumeration) (hu : ∀ i ∈ infos, usableName i.id = true) :
    (b.restoreAllIn orders infos).1 = .ok () ∧
      ∀ info, (RestoredIn orders b info ∨ info ∈ infos) → (∀ i ∈ infos, i.id = info.id → info = i) →
        RestoredIn orders (b.restoreAllIn orders infos).2 info := by
  induction infos generalizing b with
  | nil => exact ⟨rfl, fun info h _ => h.resolve_right List.not_mem_nil⟩
  | cons i infos ih =>
    obtain ⟨hfirst, hrest⟩ := List.forall_mem_cons.1 hu
    rw [restoreAllIn_cons hfirst]
    obtain ⟨hok, hafter⟩ := ih (b := (b.enrol i).2.registerIn (orders b.sessions.length) b.sessions.length) hrest
    refine ⟨hok, fun info h hsame => ?_⟩
    obtain ⟨hi, hsame⟩ := List.forall_mem_cons.1 hsame
    refine hafter info ?_ hsame
    rw [List.mem_cons, ← or_assoc] at h
    exact h.imp_left (restoredIn_step hfirst hi)

theorem openIn_spec (hflaw : settings.flaw = none)
    (hu : ∀ i ∈ (SessionRecords.loadAll store.sessions).1, usableName i.id = true) (events : EventTable)
    (orders : SessionRef → Enumeration) :
    (openIn orders settings (.database store) events).1 = .ok () ∧
      ∀ info ∈ (SessionRecords.loadAll store.sessions).1,
        RestoredIn orders (openIn orders settings (.database store) events).2 info := by
  obtain ⟨hok, hall⟩ := restoreAllIn_spec orders hu
    (b := { settings, store, events, journal := [.storeOpened] ++ (SessionRecords.loadAll store.sessions).2 })
  unfold openIn restoreIn
  simp only [Settings.check_of_flaw_none hflaw, Location.load, report]
  generalize restoreAllIn _ _ _ = restored at hok hall
  obtain ⟨answer, b⟩ := restored
  obtain rfl : answer = .ok () := hok
  refine ⟨rfl, fun info hinfo => hall info (.inr hinfo) fun i hi hid => ?_⟩
  exact SessionRecords.eq_of_mem_loadAll hinfo hi hid.symm

/-- For a topic the session of a record gives what its subscriptions come to in their order. -/
theorem matchQoS_openIn (hok : (openOn settings (.database store) events).1 = .ok ())
    (hget : SessionRecords.get store.sessions id = .ok (some info)) (orders : SessionRef → Enumeration) :
    (openIn orders settings (.database store) events).1 = .ok () ∧
      ∃ r s, (openIn orders settings (.database store) events).2.client? id = some s ∧ s.info = info.loadedAs id ∧
        ∀ topic, s.matchQoS topic = info.registeredIn (orders r) topic := by
  have hflaw := flaw_of_openOn hok
  obtain ⟨hopened, hall⟩ := openIn_spec hflaw ((openOn_ok_iff hflaw).1 hok) events orders
  obtain ⟨r, s, hr, hs, hinfo, hfilters⟩ := hall (info.loadedAs id) (SessionRecords.mem_loadAll.2 ⟨info, hget, rfl⟩)
  refine ⟨hopened, r, s, client?_of hr hs, hinfo, fun topic => ?_⟩
  rw [Session.matchQoS, hfilters]
  rfl

/-- Opening succeeds in any order if it does in key order, and registers for each record that can be read a session
with what is known from it. For a topic that session gives the strongest service recorded in whatever order, and
the same in any two orders, just when the record decides the topic. It decides all topics if its filters are in
order. -/
theorem restored_in_any_order (hok : (openOn settings (.database store) events).1 = .ok ())
    (hget : SessionRecords.get store.sessions id = .ok (some info)) (topic : String) :
    let restored (orders : SessionRef → Enumeration) := openIn orders settings (.database store) events
    let given (orders : SessionRef → Enumeration) := ((restored orders).2.client? id).bind (·.matchQoS topic)
    restored (fun _ => .ascending) = openOn settings (.database store) events ∧
    (∀ orders, (restored orders).1 = .ok () ∧
      ∃ s, (restored orders).2.client? id = some s ∧ s.info = { info with id, clean := false }) ∧
    ((∀ orders, given orders = info.strongest topic) ↔ info.Decided topic) ∧
    ((∀ orders orders', given orders = given orders') ↔ info.Decided topic) ∧
    ((∀ f ∈ info.subscriptions.keys, flaw f = none) → ∀ orders, given orders = info.strongest topic) := by
  intro restored given
  have hgiven (orders : SessionRef → Enumeration) : ∃ r, given orders = info.registeredIn (orders r) topic := by
    obtain ⟨-, r, s, hs, -, hmatch⟩ := matchQoS_openIn hok hget orders
    refine ⟨r, ?_⟩
    show ((restored orders).2.client? id).bind (·.matchQoS topic) = _
    rw [hs]
    exact hmatch topic
  have hconstant (order : Enumeration) : given (fun _ => order) = info.registeredIn order topic :=
    (hgiven fun _ => order).elim fun _ h => h
  have hdecided (h : info.Decided topic) (orders : SessionRef → Enumeration) : given orders = info.strongest topic := by
    obtain ⟨r, hr⟩ := hgiven orders
    rw [hr, h.registeredIn]
  refine ⟨openIn_ascending _ _ _, fun orders => ?_, ⟨fun h => ?_, hdecided⟩, ⟨fun h => ?_, fun h orders orders' => ?_⟩,
    fun hvalid => hdecided (Info.decided_of_valid hvalid topic)⟩
  · obtain ⟨hopened, r, s, hs, hinfo, -⟩ := matchQoS_openIn hok hget orders
    exact ⟨hopened, s, hs, hinfo⟩
  · exact Info.decided_iff_strongest.2 fun order => (hconstant order).symm.trans (h _)
  · refine Info.decided_iff_same.2 fun order order' => ?_
    rw [← hconstant, ← hconstant]
    exact h _ _
  · rw [hdecided h, hdecided h]

/-- A record with a filter and, in its place, one that is not in order. -/
theorem restored_by_order :
    let info : Info := { id := "c", subscriptions := .ofList [("a/#", .atLeastOnce), ("a/#/b", .atMostOnce)] }
    let store : Store := { sessions := .ofList [(Text.bytes "c", info.encode)] }
    let given (orders : SessionRef → Enumeration) :=
      ((openIn orders {} (.database store) {}).2.client? "c").bind (·.matchQoS "a/x")
    (openOn {} (.database store) {}).1 = .ok () ∧ SessionRecords.get store.sessions "c" = .ok (some info) ∧
    info.strongest "a/x" = some .atLeastOnce ∧ (∃ orders, given orders ≠ some .atLeastOnce) ∧
    ∃ orders orders', given orders ≠ given orders' := by
  intro info store given
  have hok : (openOn {} (.database store) {}).1 = .ok () := by decide +kernel
  have hget : SessionRecords.get store.sessions "c" = .ok (some info) := by decide +kernel
  have hstrongest : info.strongest "a/x" = some .atLeastOnce := by decide +kernel
  obtain ⟨-, -, hsame, hany, -⟩ := restored_in_any_order hok hget "a/x"
  have hundecided : ¬ info.Decided "a/x" := by
    intro h
    obtain ⟨f, hf, -, hall⟩ := h .atLeastOnce hstrongest
    have hentries : info.subscriptions.entries = [("a/#", .atLeastOnce), ("a/#/b", .atMostOnce)] := by decide +kernel
    have hmem := OrderedMap.get?_eq_some_iff.1 hf
    obtain rfl : f = "a/#" := by simpa [hentries] using hmem
    exact absurd (hall "a/#/b" .atMostOnce (by decide +kernel) (by decide +kernel)) (by decide)
  rw [hstrongest] at hsame
  refine ⟨hok, hget, hstrongest, not_forall.1 (mt hsame.1 hundecided), ?_⟩
  simpa only [not_forall] using mt hany.1 hundecided

end Broker

end PubSub
