import PubSub.Proofs.Interests
import PubSub.Proofs.TrieForm
/-!
# What subscribing comes to

The subscriptions of a session are gone through twice when it subscribes: to register them, and to ask
about them. Nothing says in which order (`Broker.subscribeIn`). In any order the session holds what it held
and what the batch says in addition, less what is not allowed; its trie, its bindings and its record say the
same; and subscribing once more changes nothing (`Broker.subscribed_exactly`).
-/

namespace PubSub

open Topic

/-! ## Going through a map in any order -/

/-- An order in which the subscriptions that are held may be gone through. -/
structure Enumeration where
  list : OrderedMap String QoS → List (String × QoS)
  perm : ∀ m, (list m).Perm m.entries

def Enumeration.ascending : Enumeration := ⟨(·.entries), fun _ => .refl _⟩

theorem Enumeration.mem_keys {order : Enumeration} {m : OrderedMap String QoS} {f : String} :
    f ∈ (order.list m).map (·.1) ↔ f ∈ m.keys := ((order.perm m).map (·.1)).mem_iff

/-- Whether a filter is allowed. Without anybody to ask it is. -/
def grants : Option Authorize → String → Bool
  | none, _ => true
  | some allowed, f => allowed .subscribe f

/-! ## The session -/

namespace Session

variable {s : Session} {subs : List Subscription} {authorize : Option Authorize}

/-- What is held, overridden by the entries of a batch whose filters are in order, one after the other. -/
def overridden (s : Session) (subs : List Subscription) : OrderedMap String QoS :=
  (subs.filter fun sub => (flaw sub.filter).isNone).foldl (fun m sub => m.insert sub.filter sub.qos) s.info.subscriptions

/-- What is held after subscribing: of all that is asked for and was held, what is allowed. -/
def permitted (s : Session) (subs : List Subscription) (authorize : Option Authorize) : OrderedMap String QoS :=
  (s.overridden subs).filter fun f _ => grants authorize f

theorem get?_overridden (s : Session) (subs : List Subscription) (f : String) : (s.overridden subs).get? f =
    (((subs.filter fun sub => (flaw sub.filter).isNone).filter (·.filter = f)).getLast?.map (·.qos)).or
      (s.info.subscriptions.get? f) := Interest.get?_accept s.interest subs f

theorem get?_permitted (s : Session) (subs : List Subscription) (authorize : Option Authorize) (f : String) :
    (s.permitted subs authorize).get? f = if grants authorize f then (s.overridden subs).get? f else none :=
  OrderedMap.get?_filter _ _ f

theorem mem_keys_permitted {f : String} :
    f ∈ (s.permitted subs authorize).keys ↔ f ∈ (s.overridden subs).keys ∧ grants authorize f = true := by
  rw [OrderedMap.mem_keys_iff, OrderedMap.mem_keys_iff, get?_permitted]
  cases grants authorize f <;> simp

theorem isSome_overridden {f : String} (h : (s.info.subscriptions.get? f).isSome) (subs : List Subscription) :
    ((s.overridden subs).get? f).isSome := by
  rw [get?_overridden, Option.isSome_or, h, Bool.or_true]

theorem valid_overridden (h : ∀ f ∈ s.info.subscriptions.keys, flaw f = none) (subs : List Subscription) :
    ∀ f ∈ (s.overridden subs).keys, flaw f = none := Interest.valid_accept (i := s.interest) h subs

theorem foldl_forget_eq (filters : List String) (s : Session) : filters.foldl forget s =
    { s with
      filters := filters.foldl (fun t f => (t.remove f).2) s.filters
      info := { s.info with subscriptions := filters.foldl OrderedMap.erase s.info.subscriptions } } := by
  induction filters generalizing s with
  | nil => rfl
  | cons f filters ih =>
    rw [List.foldl_cons, ih]
    rfl

/-- The session after it has taken in a batch and registered all that it holds then. -/
def enlarged (s : Session) (order : Enumeration) (subs : List Subscription) : Session :=
  { s with info := { s.info with subscriptions := s.overridden subs } }.register (order.list (s.overridden subs))

/-- The filters that are not allowed, as they are come by. -/
def denied (s : Session) (order : Enumeration) (subs : List Subscription) (authorize : Option Authorize) : List String :=
  ((order.list (s.overridden subs)).map (·.1)).filter fun f => ¬ grants authorize f

theorem mem_denied {order : Enumeration} {f : String} :
    f ∈ s.denied order subs authorize ↔ f ∈ (s.overridden subs).keys ∧ grants authorize f = false := by
  rw [denied, List.mem_filter, Enumeration.mem_keys]
  simp

def subscribed (s : Session) (register recheck : Enumeration) (subs : List Subscription)
    (authorize : Option Authorize) : Session :=
  (s.denied recheck subs authorize).foldl forget (s.enlarged register subs)

/-- In whatever order, it is the session with what is permitted and a trie that holds it. -/
theorem subscribed_eq (hvalid : ∀ f ∈ s.info.subscriptions.keys, flaw f = none)
    (hheld : Trie.Holds s.filters s.info.subscriptions) (register recheck : Enumeration) (subs : List Subscription)
    (authorize : Option Authorize) :
    ∃ t, Trie.Holds t (s.permitted subs authorize) ∧ s.subscribed register recheck subs authorize =
      { s with info := { s.info with subscriptions := s.permitted subs authorize }, filters := t } := by
  have hall := valid_overridden hvalid subs
  have hregistered := hheld.setAll (register.list (s.overridden subs)) fun e he =>
    hall e.1 (Enumeration.mem_keys.1 (List.mem_map_of_mem he))
  rw [OrderedMap.foldl_insert_of_perm (register.perm _) fun f hf => isSome_overridden hf subs] at hregistered
  have hforgotten := hregistered.removeAll (s.denied recheck subs authorize) fun f hf =>
    hall f (mem_denied.1 hf).1
  have hleft : (s.denied recheck subs authorize).foldl OrderedMap.erase (s.overridden subs) =
      s.permitted subs authorize := by
    refine OrderedMap.ext_get? fun f => ?_
    rw [OrderedMap.get?_foldl_erase, get?_permitted]
    by_cases hf : f ∈ (s.overridden subs).keys
    · simp only [mem_denied, hf, true_and]
      cases grants authorize f <;> rfl
    · have hnone : (s.overridden subs).get? f = none :=
        Option.not_isSome_iff_eq_none.1 fun hsome => hf (OrderedMap.mem_keys_iff.2 hsome)
      simp [hnone]
  rw [hleft] at hforgotten
  refine ⟨_, hforgotten, ?_⟩
  rw [subscribed, foldl_forget_eq]
  simp only [enlarged, Session.register, hleft]

/-- Asking for the same once more asks for nothing new. -/
theorem permitted_again {s' : Session} (h : s'.info.subscriptions = s.permitted subs authorize) :
    s'.permitted subs authorize = s.permitted subs authorize := by
  refine OrderedMap.ext_get? fun f => ?_
  rw [get?_permitted, get?_overridden, h, get?_permitted, get?_overridden]
  cases grants authorize f with
  | false => rfl
  | true =>
    rw [if_pos rfl, if_pos rfl]
    cases (((subs.filter fun sub => (flaw sub.filter).isNone).filter (·.filter = f)).getLast?.map (·.qos)) <;> rfl

theorem keys_overridden_again {s' : Session} (h : s'.info.subscriptions = s.permitted subs authorize) {f : String}
    (hf : f ∈ (s'.overridden subs).keys) : f ∈ (s.overridden subs).keys := by
  rw [OrderedMap.mem_keys_iff, get?_overridden, h, get?_permitted, get?_overridden] at hf
  rw [OrderedMap.mem_keys_iff, get?_overridden]
  cases hlast : (((subs.filter fun sub => (flaw sub.filter).isNone).filter (·.filter = f)).getLast?.map (·.qos)) with
  | some q => rfl
  | none =>
    rw [hlast] at hf
    cases hg : grants authorize f with
    | false =>
      rw [hg] at hf
      cases hf
    | true => rwa [hg] at hf

end Session

/-! ## The exchange -/

namespace Exchange

variable {x : Exchange} {id : String} {r : SessionRef} {fs denied : List String}

/-- A filter that is bound to the session already is bound as it was, any other behind all bindings. -/
theorem bindings_bind {f : String} (hown : ∀ y ∈ x.bindings, y.filter = f → y.id = id → y.session = r) :
    (x.bind f id r).bindings = if (x.bound? f id).isSome then x.bindings else x.bindings ++ [⟨f, id, r⟩] := by
  unfold bind
  dsimp only
  split
  · refine (List.map_congr_left fun y hy => ?_).trans (List.map_id _)
    split
    · next hsame => rw [← hown y hy hsame.1 hsame.2, id_eq]
    · rfl
  · rfl

theorem bindings_bindAll (hown : ∀ y ∈ x.bindings, y.filter ∈ fs → y.id = id → y.session = r)
    (hbound : ∀ f ∈ fs, f ∉ denied → ∃ y ∈ x.bindings, y.filter = f ∧ y.id = id) :
    ∃ ys, (x.bindAll fs id r).bindings = x.bindings ++ ys ∧
      ∀ y ∈ ys, y.filter ∈ denied ∧ y.id = id ∧ y.session = r := by
  induction fs generalizing x with
  | nil => exact ⟨[], (List.append_nil _).symm, List.forall_mem_nil _⟩
  | cons f fs ih =>
    have hbind := bindings_bind (f := f) fun y hy hf => hown y hy (hf ▸ List.mem_cons_self)
    by_cases hsome : (x.bound? f id).isSome
    · rw [if_pos hsome] at hbind
      rw [← hbind]
      refine ih (x := x.bind f id r) ?_ ?_ <;> rw [hbind]
      · exact fun y hy hfs => hown y hy (List.mem_cons_of_mem f hfs)
      · exact fun g hg => hbound g (List.mem_cons_of_mem f hg)
    · rw [if_neg hsome] at hbind
      obtain ⟨ys, hys, hall⟩ := ih (x := x.bind f id r) (by
        rw [hbind]
        intro y hy hfs hid
        rcases List.mem_append.1 hy with hy | hy
        · exact hown y hy (List.mem_cons_of_mem f hfs) hid
        · rw [List.mem_singleton.1 hy]) (by
        rw [hbind]
        intro g hg hallowed
        obtain ⟨y, hy, hsame⟩ := hbound g (List.mem_cons_of_mem f hg) hallowed
        exact ⟨y, List.mem_append_left _ hy, hsame⟩)
      -- What is not bound yet is denied.
      have hdenied : f ∈ denied := by
        refine Decidable.byContradiction fun hallowed => hsome ?_
        exact isSome_bound?.2 (hbound f List.mem_cons_self hallowed)
      refine ⟨⟨f, id, r⟩ :: ys, ?_, List.forall_mem_cons.2 ⟨⟨hdenied, rfl, rfl⟩, hall⟩⟩
      rw [List.append_cons, ← hbind]
      exact hys

/-- Binding what is bound to the session and what is not allowed, and unbinding the latter, comes to
nothing. -/
theorem bindings_rebound (hsub : denied ⊆ fs)
    (hown : ∀ y ∈ x.bindings, y.filter ∈ fs → y.id = id → y.session = r ∧ y.filter ∉ denied)
    (hbound : ∀ f ∈ fs, f ∉ denied → ∃ y ∈ x.bindings, y.filter = f ∧ y.id = id) :
    ((x.bindAll fs id r).unbindAll denied id r).bindings = x.bindings := by
  obtain ⟨ys, hys, hall⟩ := bindings_bindAll (r := r) (fun y hy hf hid => (hown y hy hf hid).1) hbound
  rw [bindings_unbindAll, hys, List.filter_append]
  have hkept : x.bindings.filter (fun y => ¬ (y.filter ∈ denied ∧ y.id = id ∧ y.session = r)) = x.bindings := by
    refine List.filter_eq_self.2 fun y hy => decide_eq_true ?_
    rintro ⟨hf, hid, -⟩
    exact (hown y hy (hsub hf) hid).2 hf
  have hgone : ys.filter (fun y => ¬ (y.filter ∈ denied ∧ y.id = id ∧ y.session = r)) = [] := by
    refine List.filter_eq_nil_iff.2 fun y hy => ?_
    simpa using hall y hy
  rw [hkept, hgone, List.append_nil]

end Exchange

/-! ## The broker -/

namespace Broker

variable {b : Broker} {r : SessionRef} {s : Session} {subs : List Subscription} {authorize : Option Authorize}

/-- Registers the subscriptions of a session in this order. -/
def registerIn (b : Broker) (order : Enumeration) (r : SessionRef) : Broker :=
  match b.session? r with
  | none => b
  | some s =>
    let subs := order.list s.info.subscriptions
    { b.setSession r (s.register subs) with exchange := b.exchange.bindAll (subs.map (·.1)) s.id r }

/-- Subscribes and goes through the subscriptions in these orders, once to register them and once to ask. -/
def subscribeIn (b : Broker) (register recheck : Enumeration) (r : SessionRef) (subs : List Subscription)
    (authorize : Option Authorize) : List (Action × String) × Broker :=
  match subs, b.session? r with
  | [], _ | _, none => ([], b)
  | _, some s =>
    let b := (b.accept r subs).registerIn register r
    match authorize with
    | none => ([], b.persistSession r)
    | some allowed =>
      let held := ((b.session? r).map fun s => (recheck.list s.info.subscriptions).map (·.1)).getD []
      let denied := held.filter fun f => ¬ allowed .subscribe f
      let b := (b.report (denied.map (.subscriptionDenied s.id))).forgetAll r denied
      (held.map (.subscribe, ·), b.persistSession r)

/-- The broker goes through them in key order. -/
theorem subscribeIn_ascending (b : Broker) (r : SessionRef) (subs : List Subscription) (authorize : Option Authorize) :
    b.subscribeIn .ascending .ascending r subs authorize = b.subscribe r subs authorize := rfl

theorem report_nil (b : Broker) : b.report [] = b := by
  rw [report, List.append_nil]

theorem forgetAll_nil (b : Broker) (r : SessionRef) : b.forgetAll r [] = b := by
  unfold forgetAll
  split
  · rfl
  · next s hs => exact congrArg (fun c : Broker => { c with exchange := b.exchange }) (setSession_self hs)

/-- Taking filters out of a session and writing its record. -/
theorem forgetAll_persistSession (hs : b.session? r = some s) (filters : List String) :
    (b.forgetAll r filters).persistSession r =
      { b.setSession r (filters.foldl Session.forget s) with
        exchange := b.exchange.unbindAll filters s.id r
        store := { b.store with
          sessions := SessionRecords.written b.store.sessions (filters.foldl Session.forget s).info } } := by
  have hset : (b.forgetAll r filters).session? r = some (filters.foldl Session.forget s) := by
    unfold forgetAll
    rw [hs]
    exact session?_setSession_self hs
  unfold persistSession
  rw [hset]
  unfold forgetAll
  rw [hs]
  rfl

/-- Taking in a batch and registering what is held then. -/
theorem accept_registerIn (hs : b.session? r = some s) (order : Enumeration) (subs : List Subscription) : ∃ ns,
    (b.accept r subs).registerIn order r =
      { b.setSession r (s.enlarged order subs) with
        exchange := b.exchange.bindAll ((order.list (s.overridden subs)).map (·.1)) s.id r
        journal := b.journal ++ ns } := by
  have haccept : ∃ ns, b.accept r subs =
      (b.setSession r { s with info := { s.info with subscriptions := s.overridden subs } }).report ns := by
    unfold accept
    rw [hs]
    exact ⟨_, rfl⟩
  obtain ⟨ns, haccept⟩ := haccept
  have hset : (b.accept r subs).session? r =
      some { s with info := { s.info with subscriptions := s.overridden subs } } := by
    rw [haccept]
    exact session?_setSession_self hs
  refine ⟨ns, ?_⟩
  unfold registerIn
  rw [hset, haccept]
  simp only [report, setSession, List.set_set]
  rfl

/-- All that subscribing changes. -/
theorem subscribeIn_eq (hs : b.session? r = some s) (register recheck : Enumeration) (hsubs : subs ≠ [])
    (authorize : Option Authorize) :
    ∃ ns, (b.subscribeIn register recheck r subs authorize).2 =
      { b.setSession r (s.subscribed register recheck subs authorize) with
        exchange := (b.exchange.bindAll ((register.list (s.overridden subs)).map (·.1)) s.id r).unbindAll
          (s.denied recheck subs authorize) s.id r
        store := { b.store with
          sessions := SessionRecords.written b.store.sessions (s.subscribed register recheck subs authorize).info }
        journal := b.journal ++ ns } := by
  obtain ⟨ns, hregister⟩ := accept_registerIn hs register subs
  have henlarged : ((b.accept r subs).registerIn register r).session? r = some (s.enlarged register subs) := by
    rw [hregister]
    exact session?_setSession_self hs
  have hforget (ns' : List Notice) :
      ((((b.accept r subs).registerIn register r).report ns').forgetAll r (s.denied recheck subs authorize)).persistSession r =
      { b.setSession r (s.subscribed register recheck subs authorize) with
        exchange := (b.exchange.bindAll ((register.list (s.overridden subs)).map (·.1)) s.id r).unbindAll
          (s.denied recheck subs authorize) s.id r
        store := { b.store with
          sessions := SessionRecords.written b.store.sessions (s.subscribed register recheck subs authorize).info }
        journal := b.journal ++ (ns ++ ns') } := by
    have hreported : (((b.accept r subs).registerIn register r).report ns').session? r =
        some (s.enlarged register subs) := henlarged
    rw [forgetAll_persistSession hreported, hregister]
    simp only [report, setSession, List.set_set, List.append_assoc]
    rfl
  cases subs with
  | nil => exact absurd rfl hsubs
  | cons sub subs =>
    cases authorize with
    | none =>
      have hnone : s.denied recheck (sub :: subs) none = [] := by simp [Session.denied, grants]
      refine ⟨_, .trans ?_ (hforget [])⟩
      rw [hnone, forgetAll_nil, report_nil]
      simp only [subscribeIn, hs]
    | some allowed =>
      refine ⟨_, .trans ?_ (hforget ((s.denied recheck (sub :: subs) (some allowed)).map (.subscriptionDenied s.id)))⟩
      simp only [subscribeIn, hs, henlarged, Option.map_some, Option.getD_some]
      rfl

theorem mem_bindings_subscribed (x : Exchange) (r : SessionRef) (s : Session) (register recheck : Enumeration)
    (subs : List Subscription) (authorize : Option Authorize) (y : Binding) :
    y ∈ ((x.bindAll ((register.list (s.overridden subs)).map (·.1)) s.id r).unbindAll
        (s.denied recheck subs authorize) s.id r).bindings ↔
      y ∈ x.bindings ∧ ¬ (y.filter ∈ (s.overridden subs).keys ∧ y.id = s.id) ∨
        y.filter ∈ (s.permitted subs authorize).keys ∧ y.id = s.id ∧ y.session = r := by
  rw [Exchange.mem_unbindAll, Exchange.mem_bindAll, Enumeration.mem_keys, Session.mem_denied,
    Session.mem_keys_permitted]
  cases grants authorize y.filter <;> grind

/-- What a session is known to hold, its trie and its bindings say the same, and its filters are in order. -/
structure Agreed (b : Broker) (r : SessionRef) (s : Session) : Prop where
  valid : ∀ f ∈ s.info.subscriptions.keys, flaw f = none
  trie : Trie.Holds s.filters s.info.subscriptions
  bound : ∀ y : Binding, y.session = r →
    (y ∈ b.exchange.bindings ↔ y.id = s.id ∧ y.filter ∈ s.info.subscriptions.keys)

/-- All but what is only noted of the past: the journal and what was asked of the exchange. -/
def quiet (b : Broker) : Broker := { b with journal := [], exchange := { b.exchange with calls := [] } }

/-- The state is the same but for the order of the bindings. -/
structure SameHeld (b b' : Broker) : Prop where
  sessions : b.sessions = b'.sessions
  store : b.store = b'.store
  bindings : ∀ y, y ∈ b.exchange.bindings ↔ y ∈ b'.exchange.bindings
  settings : b.settings = b'.settings
  registry : b.registry = b'.registry
  events : b.events = b'.events

theorem written_written (k : Keyspace) (info : Info) :
    SessionRecords.written (SessionRecords.written k info) info = SessionRecords.written k info := by
  refine OrderedMap.ext_get? fun key => ?_
  simp only [SessionRecords.get?_written]
  split <;> rfl

/-- What a session becomes does not depend on the orders. -/
theorem Agreed.subscribed_eq (h : b.Agreed r s) (subs : List Subscription) (authorize : Option Authorize) :
    ∃ t, Trie.Holds t (s.permitted subs authorize) ∧ ∀ register recheck : Enumeration,
      s.subscribed register recheck subs authorize =
        { s with info := { s.info with subscriptions := s.permitted subs authorize }, filters := t } := by
  obtain ⟨t, ht, -⟩ := Session.subscribed_eq h.valid h.trie .ascending .ascending subs authorize
  refine ⟨t, ht, fun register recheck => ?_⟩
  obtain ⟨u, hu, heq⟩ := Session.subscribed_eq h.valid h.trie register recheck subs authorize
  rw [heq, hu.unique ht]

/-- A session `s` with its broker `b` has become `s'` with `b'` by subscribing. -/
structure Became (b : Broker) (r : SessionRef) (s : Session) (subs : List Subscription) (authorize : Option Authorize)
    (s' : Session) (b' : Broker) : Prop where
  sessions : b'.sessions = b.sessions.set r s'
  store : b'.store = { b.store with sessions := SessionRecords.written b.store.sessions s'.info }
  bindings : ∀ y, y ∈ b'.exchange.bindings ↔
    y ∈ b.exchange.bindings ∧ ¬ (y.filter ∈ (s.overridden subs).keys ∧ y.id = s.id) ∨
      y.filter ∈ (s.permitted subs authorize).keys ∧ y.id = s.id ∧ y.session = r
  settings : b'.settings = b.settings
  registry : b'.registry = b.registry
  events : b'.events = b.events

theorem subscribeIn_became (hs : b.session? r = some s) (register recheck : Enumeration) (hsubs : subs ≠ [])
    (authorize : Option Authorize) :
    Became b r s subs authorize (s.subscribed register recheck subs authorize)
      (b.subscribeIn register recheck r subs authorize).2 := by
  obtain ⟨ns, heq⟩ := subscribeIn_eq hs register recheck hsubs authorize
  rw [heq]
  exact ⟨rfl, rfl, mem_bindings_subscribed b.exchange r s register recheck subs authorize, rfl, rfl, rfl⟩

namespace Became

variable {s' : Session} {b' b'' : Broker}

theorem session? (h : Became b r s subs authorize s' b') (hs : b.session? r = some s) : b'.session? r = some s' := by
  have hset : (b.setSession r s').session? r = some s' := session?_setSession_self hs
  rw [← hset, Broker.session?, h.sessions]
  rfl

theorem record (h : Became b r s subs authorize s' b') :
    SessionRecords.get b'.store.sessions s'.info.id = .ok (if s'.info.clean then none else some s'.info) := by
  rw [h.store]
  exact SessionRecords.get_written_self _ _

theorem sameHeld (h : Became b r s subs authorize s' b') (h' : Became b r s subs authorize s' b'') :
    b'.SameHeld b'' where
  sessions := h.sessions.trans h'.sessions.symm
  store := h.store.trans h'.store.symm
  bindings y := (h.bindings y).trans (h'.bindings y).symm
  settings := h.settings.trans h'.settings.symm
  registry := h.registry.trans h'.registry.symm
  events := h.events.trans h'.events.symm

theorem agreed (h : Became b r s subs authorize s' b') (hb : b.Agreed r s) (hid : s'.id = s.id)
    (hheld : s'.info.subscriptions = s.permitted subs authorize) (htrie : Trie.Holds s'.filters (s.permitted subs authorize)) :
    b'.Agreed r s' where
  valid f hf := Session.valid_overridden hb.valid subs f (Session.mem_keys_permitted.1 (hheld ▸ hf)).1
  trie := hheld ▸ htrie
  bound y hy := by
    -- What the session had bound is among what it holds when it has taken in the batch.
    have hold : y.filter ∈ s.info.subscriptions.keys → y.filter ∈ (s.overridden subs).keys := fun hf =>
      OrderedMap.mem_keys_iff.2 (Session.isSome_overridden (OrderedMap.mem_keys_iff.1 hf) subs)
    rw [h.bindings, hb.bound y hy, hheld, hid]
    constructor
    · rintro (⟨⟨hyid, hf⟩, hno⟩ | ⟨hf, hyid, -⟩)
      · exact absurd ⟨hold hf, hyid⟩ hno
      · exact ⟨hyid, hf⟩
    · rintro ⟨hyid, hf⟩
      exact .inr ⟨hf, hyid, hy⟩

/-- Subscribing once more changes nothing. -/
theorem again (h : Became b r s subs authorize s' b') (hb : b'.Agreed r s') (hs : b'.session? r = some s')
    (hid : s'.id = s.id) (hheld : s'.info.subscriptions = s.permitted subs authorize) (hsubs : subs ≠ [])
    (register recheck : Enumeration) : (b'.subscribeIn register recheck r subs authorize).2.quiet = b'.quiet := by
  have hsame : s'.subscribed register recheck subs authorize = s' := by
    obtain ⟨t, ht, heq⟩ := hb.subscribed_eq subs authorize
    rw [Session.permitted_again hheld, ← hheld] at ht
    rw [heq, Session.permitted_again hheld, ← hheld, ht.unique hb.trie]
  obtain ⟨ns, heq⟩ := subscribeIn_eq hs register recheck hsubs authorize
  have hbindings : ((b'.exchange.bindAll ((register.list (s'.overridden subs)).map (·.1)) s'.id r).unbindAll
      (s'.denied recheck subs authorize) s'.id r).bindings = b'.exchange.bindings := by
    refine Exchange.bindings_rebound (fun f hf => Enumeration.mem_keys.2 (Session.mem_denied.1 hf).1)
      (fun y hy hf hyid => ?_) fun f hf hallowed => ?_
    · have hin := Session.keys_overridden_again hheld (Enumeration.mem_keys.1 hf)
      rcases (h.bindings y).1 hy with ⟨-, hno⟩ | ⟨hkept, -, hr⟩
      · exact absurd ⟨hin, hyid.trans hid⟩ hno
      · refine ⟨hr, fun hdenied => ?_⟩
        have hgranted := (Session.mem_keys_permitted.1 hkept).2
        rw [(Session.mem_denied.1 hdenied).2] at hgranted
        cases hgranted
    · have hin := Enumeration.mem_keys.1 hf
      have hgranted : grants authorize f = true := by
        cases hg : grants authorize f with
        | false => exact absurd (Session.mem_denied.2 ⟨hin, hg⟩) hallowed
        | true => rfl
      have hkept : f ∈ (s'.permitted subs authorize).keys := Session.mem_keys_permitted.2 ⟨hin, hgranted⟩
      rw [Session.permitted_again hheld, ← hheld] at hkept
      exact ⟨_, (hb.bound ⟨f, s'.id, r⟩ rfl).2 ⟨rfl, hkept⟩, rfl, rfl⟩
  have hstore : { b'.store with sessions := SessionRecords.written b'.store.sessions s'.info } = b'.store := by
    rw [h.store, written_written]
  rw [heq, hsame]
  simp only [quiet, hbindings, hstore]
  rw [setSession_self hs]

end Became

/-- Subscribing with a batch that is not empty makes a session hold just what it held, overridden by the
batch, as far as it is allowed. Its trie, its bindings and its record agree with that, in whatever order the
subscriptions are gone through, and doing it once more in any order changes nothing. An empty batch changes
nothing at all. The broker goes through the subscriptions in key order. -/
theorem subscribed_exactly (hs : b.session? r = some s) (h : b.Agreed r s) (hsubs : subs ≠ [])
    (authorize : Option Authorize) (register recheck : Enumeration) :
    let b' := (b.subscribeIn register recheck r subs authorize).2
    (∃ t, let s' := { s with info := { s.info with subscriptions := s.permitted subs authorize }, filters := t }
      b'.session? r = some s' ∧ b'.Agreed r s' ∧
      SessionRecords.get b'.store.sessions s.id = .ok (if s.info.clean then none else some s'.info)) ∧
    b'.SameHeld (b.subscribe r subs authorize).2 ∧
    (∀ register' recheck' : Enumeration,
      (b'.subscribeIn register' recheck' r subs authorize).2.quiet = b'.quiet) ∧
    b.subscribeIn register recheck r [] authorize = ([], b) ∧ b.subscribe r [] authorize = ([], b) ∧
    (∀ batch, b.subscribe r batch authorize = b.subscribeIn .ascending .ascending r batch authorize) := by
  intro b'
  obtain ⟨t, htrie, heq⟩ := h.subscribed_eq subs authorize
  have hbecame := subscribeIn_became hs register recheck hsubs authorize
  have hsubscribe := subscribeIn_became hs .ascending .ascending hsubs authorize
  rw [heq] at hbecame hsubscribe
  have hs' := hbecame.session? hs
  have hagreed := hbecame.agreed h rfl rfl htrie
  exact ⟨⟨t, hs', hagreed, hbecame.record⟩, hbecame.sameHeld hsubscribe,
    fun register' recheck' => hbecame.again hagreed hs' rfl rfl hsubs register' recheck', rfl, rfl,
    fun batch => (subscribeIn_ascending b r batch authorize).symm⟩

/-- A session subscribes with a filter that is not in order, one that is not allowed, and one that comes twice.
The subscriptions are gone through backwards. -/
theorem subscribed_exactly_backwards :
    let b := (start {}).step (.connect { id := "a" })
    let subs : List Subscription :=
      [⟨"t", .atLeastOnce⟩, ⟨"b#", .atMostOnce⟩, ⟨"u", .atMostOnce⟩, ⟨"t", .exactlyOnce⟩]
    let authorize : Option Authorize := some fun _ f => f ≠ "u"
    let backwards : Enumeration := ⟨fun m => m.entries.reverse, fun m => m.entries.reverse_perm⟩
    let b' := (b.subscribeIn backwards backwards 0 subs authorize).2
    (∃ s', b'.session? 0 = some s' ∧ s'.info.subscriptions.entries = [("t", .exactlyOnce)]) ∧
      ⟨"t", "a", 0⟩ ∈ b'.exchange.bindings ∧ ⟨"u", "a", 0⟩ ∉ b'.exchange.bindings ∧
      (b'.subscribe 0 subs authorize).2.quiet = b'.quiet := by
  intro b subs authorize backwards b'
  obtain ⟨s, hs⟩ := Option.isSome_iff_exists.1 (show (b.session? 0).isSome by decide +kernel)
  have hof {α : Type} (f : Session → α) (x : α) (h : (b.session? 0).map f = some x) : f s = x := by
    rw [hs] at h
    exact Option.some.inj h
  have hid : s.id = "a" := hof (·.id) "a" (by decide +kernel)
  have hempty : s.info.subscriptions = .empty := hof (·.info.subscriptions) .empty (by decide +kernel)
  have hfilters : s.filters = {} := hof (·.filters) {} (by decide +kernel)
  have hunbound : b.exchange.bindings = [] := by decide +kernel
  have hagreed : b.Agreed 0 s := by
    refine ⟨?_, ?_, fun y _ => ?_⟩
    · rw [hempty]
      exact List.forall_mem_nil _
    · rw [hempty, hfilters]
      exact .empty
    · simp [hunbound, hempty, OrderedMap.keys, OrderedMap.empty]
  obtain ⟨⟨t, hs', hagreed', -⟩, -, hagain, -⟩ :=
    subscribed_exactly hs hagreed (List.cons_ne_nil _ _) authorize backwards backwards
  have hpermitted : (s.permitted subs authorize).entries = [("t", .exactlyOnce)] := by
    unfold Session.permitted Session.overridden
    rw [hempty]
    decide +kernel
  have hbound (f : String) : ⟨f, "a", 0⟩ ∈ b'.exchange.bindings ↔ f ∈ (s.permitted subs authorize).keys :=
    (hagreed'.bound ⟨f, "a", 0⟩ rfl).trans (and_iff_right hid.symm)
  refine ⟨⟨_, hs', hpermitted⟩, ?_, ?_, hagain .ascending .ascending⟩
  · simp [hbound, OrderedMap.keys, hpermitted]
  · simp [hbound, OrderedMap.keys, hpermitted]

end Broker

end PubSub
