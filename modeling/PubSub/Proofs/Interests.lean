import PubSub.Proofs.Jobs
import PubSub.Proofs.Sound
/-!
# What a call makes a session want

Subscribing and its kin change what is known of a session and its filters together (`Interest.after`).
Every call changes the interest of its session so and no other (`perform_wants`), binds and unbinds
filters of that session only (`perform_exchange`), and writes the session's record as it is afterwards or
none at all (`perform_records`).
-/

namespace PubSub

namespace Interest

/-- Takes in the subscriptions whose filters are in order. -/
def accept (i : Interest) (subs : List Subscription) : Interest where
  info := { i.info with
    subscriptions := (subs.filter fun sub => (Topic.flaw sub.filter).isNone).foldl
      (fun m sub => m.insert sub.filter sub.qos) i.info.subscriptions }
  filters := i.filters

/-- Registers every subscription that is held. -/
def register (i : Interest) : Interest where
  info := i.info
  filters := i.info.subscriptions.entries.foldl (fun t e => t.set e.1 e.2) i.filters

def forget (i : Interest) (filter : String) : Interest where
  info := { i.info with subscriptions := i.info.subscriptions.erase filter }
  filters := (i.filters.remove filter).2

/-- The filters held that are not allowed. -/
def denied (i : Interest) (allowed : Authorize) : List String :=
  i.info.subscriptions.keys.filter fun f => ¬ allowed .subscribe f

def after (i : Interest) : Call → Interest
  | .subscribe [] _ => i
  | .subscribe (sub :: subs) none => (i.accept (sub :: subs)).register
  | .subscribe (sub :: subs) (some allowed) =>
    let held := (i.accept (sub :: subs)).register
    (held.denied allowed).foldl forget held
  | .unsubscribe filters => filters.foldl forget i
  | .update info => { i with info := { i.info with will := info.will, clean := info.clean } }
  | .cleanWill => { i with info := { i.info with will := none } }
  | _ => i

/-- The filters a call binds: with any new one all that are held. -/
def binds (i : Interest) : Call → List String
  | .subscribe (sub :: subs) _ => (i.accept (sub :: subs)).info.subscriptions.keys
  | _ => []

/-- The filters a call unbinds. -/
def unbinds (i : Interest) : Call → List String
  | .subscribe (sub :: subs) (some allowed) => (i.accept (sub :: subs)).register.denied allowed
  | .unsubscribe filters => filters
  | _ => []

theorem foldl_forget_info (filters : List String) (i : Interest) : (filters.foldl forget i).info
    = { i.info with subscriptions := filters.foldl OrderedMap.erase i.info.subscriptions } := by
  induction filters generalizing i with
  | nil => rfl
  | cons f filters ih => rw [List.foldl_cons, ih]; rfl

theorem after_id (i : Interest) (c : Call) : (i.after c).info.id = i.info.id := by
  cases c with
  | subscribe subs authorize =>
    cases subs with
    | nil => rfl
    | cons sub subs =>
      cases authorize with
      | none => rfl
      | some allowed => rw [after, foldl_forget_info]; rfl
  | unsubscribe filters => rw [after, foldl_forget_info]
  | _ => rfl

/-- Only an update changes the clean flag. -/
theorem after_clean {i : Interest} {c : Call} (h : ∀ info, c = .update info → info.clean = i.info.clean) :
    (i.after c).info.clean = i.info.clean := by
  cases c with
  | subscribe subs authorize =>
    cases subs with
    | nil => rfl
    | cons sub subs =>
      cases authorize with
      | none => rfl
      | some allowed => rw [after, foldl_forget_info]; rfl
  | unsubscribe filters => rw [after, foldl_forget_info]
  | update info => exact h info rfl
  | _ => rfl

theorem mem_keys_foldl_forget {filters : List String} {i : Interest} {f : String} :
    f ∈ (filters.foldl forget i).info.subscriptions.keys ↔ f ∈ i.info.subscriptions.keys ∧ f ∉ filters := by
  rw [OrderedMap.mem_keys_iff, OrderedMap.mem_keys_iff, foldl_forget_info, OrderedMap.get?_foldl_erase]
  split <;> simp_all

/-- What is held under a filter when subscriptions are taken in: what the last of them says, or what was. -/
theorem get?_accept (i : Interest) (subs : List Subscription) (f : String) :
    (i.accept subs).info.subscriptions.get? f =
      (((subs.filter fun sub => (Topic.flaw sub.filter).isNone).filter (·.filter = f)).getLast?.map (·.qos)).or
        (i.info.subscriptions.get? f) :=
  OrderedMap.get?_foldl_insert _ _ _ _ _

theorem keys_accept {i : Interest} {f : String} (hf : f ∈ i.info.subscriptions.keys) (subs : List Subscription) :
    f ∈ (i.accept subs).info.subscriptions.keys := by
  rw [OrderedMap.mem_keys_iff] at hf ⊢
  rw [get?_accept, Option.isSome_or, hf, Bool.or_true]

/-- Filters in order stay so. -/
theorem valid_accept {i : Interest} (h : ∀ f ∈ i.info.subscriptions.keys, Topic.flaw f = none)
    (subs : List Subscription) : ∀ f ∈ (i.accept subs).info.subscriptions.keys, Topic.flaw f = none := by
  intro f hf
  rw [OrderedMap.mem_keys_iff, get?_accept] at hf
  cases hlast : ((subs.filter fun sub => (Topic.flaw sub.filter).isNone).filter (·.filter = f)).getLast? with
  | none =>
    rw [hlast] at hf
    exact h f (OrderedMap.mem_keys_iff.2 hf)
  | some sub =>
    obtain ⟨hmem, hsame⟩ := List.mem_filter.1 (List.mem_of_getLast? hlast)
    obtain rfl : sub.filter = f := by simpa using hsame
    exact Option.isNone_iff_eq_none.1 (by simpa using (List.mem_filter.1 hmem).2)

/-- What is held after a call: what was held and what it binds, but for what it unbinds. -/
theorem mem_keys_after {i : Interest} {c : Call} {f : String} : f ∈ (i.after c).info.subscriptions.keys ↔
    (f ∈ i.info.subscriptions.keys ∨ f ∈ i.binds c) ∧ f ∉ i.unbinds c := by
  cases c with
  | subscribe subs authorize =>
    cases subs with
    | nil => simp [after, binds, unbinds]
    | cons sub subs =>
      have hheld := or_iff_right_of_imp fun hf => keys_accept (i := i) (f := f) hf (sub :: subs)
      cases authorize with
      | none =>
        rw [binds, hheld]
        exact (and_iff_left List.not_mem_nil).symm
      | some allowed =>
        rw [after, mem_keys_foldl_forget, binds, hheld]
        rfl
  | unsubscribe filters => simp [after, binds, unbinds, mem_keys_foldl_forget]
  | _ => simp [after, binds, unbinds]

end Interest

/-- Whether a call writes the record of its session. -/
def Call.writes : Call → Bool
  | .subscribe subs _ => !subs.isEmpty
  | .unsubscribe filters => !filters.isEmpty
  | .update _ | .cleanWill => true
  | _ => false

theorem Session.interest_foldl_forget (filters : List String) (s : Session) :
    (filters.foldl Session.forget s).interest = filters.foldl Interest.forget s.interest := by
  induction filters generalizing s with
  | nil => rfl
  | cons f filters ih => rw [List.foldl_cons, ih]; rfl

namespace SessionRecords

/-- The session records with the one of a session as it is now. -/
def written (k : Keyspace) (info : Info) : Keyspace :=
  if info.clean then remove k info.id else save k info.id info

theorem get?_save_self (k : Keyspace) (info : Info) :
    OrderedMap.get? (save k info.id info) (Text.bytes info.id) = some info.encode := by
  rw [save, OrderedMap.get?_insert, if_pos rfl]

theorem get?_written (k : Keyspace) (info : Info) (key : Bytes) : OrderedMap.get? (written k info) key =
    if key = Text.bytes info.id then if info.clean then none else some info.encode else OrderedMap.get? k key := by
  unfold written
  split
  · rw [remove, OrderedMap.get?_erase]
  · rw [save, OrderedMap.get?_insert]

/-- What is written of a session is found under its id, and nothing of a clean one. -/
theorem get?_written_self (k : Keyspace) (info : Info) :
    OrderedMap.get? (written k info) (Text.bytes info.id) = if info.clean then none else some info.encode := by
  rw [get?_written, if_pos rfl]

theorem get?_written_other {k : Keyspace} {info : Info} {id : String} (h : info.id ≠ id) :
    OrderedMap.get? (written k info) (Text.bytes id) = OrderedMap.get? k (Text.bytes id) := by
  rw [get?_written, if_neg fun he => h (Text.bytes_injective he).symm]

theorem get_of_get? {k : Keyspace} {id : String} {info : Info} (h : OrderedMap.get? k (Text.bytes id) = some info.encode) :
    get k id = .ok (some { info with clean := false }) := by
  simp only [get, h, Info.decode_encode]

/-- What is known of a session that is not clean is read from its record as it is. -/
theorem get_written_self (k : Keyspace) (info : Info) :
    get (written k info) info.id = .ok (if info.clean then none else some info) := by
  unfold written
  split
  · unfold get remove
    rw [OrderedMap.get?_erase, if_pos rfl]
  · next hclean =>
    have hclean : false = info.clean := (Bool.eq_false_iff.2 hclean).symm
    rw [get_of_get? (get?_save_self k info), hclean]

theorem get_written_other {k : Keyspace} {info : Info} {id : String} (h : info.id ≠ id) :
    get (written k info) id = get k id := by
  unfold get
  rw [get?_written_other h]

end SessionRecords

namespace Broker

variable {b b' b'' : Broker} {r : SessionRef} {s s' : Session} {f g : Interest → Interest}

/-- At most what session `r` wants has changed. -/
structure Wants (r : SessionRef) (f : Interest → Interest) (b b' : Broker) : Prop where
  interests : (b'.session? r).map Session.interest = (b.session? r).map fun s => f s.interest
  others : ∀ r', r' ≠ r → b'.session? r' = b.session? r'

namespace Wants

theorem session? (h : Wants r f b b') (hs : b.session? r = some s) :
    ∃ s', b'.session? r = some s' ∧ s'.interest = f s.interest := by
  have hr := h.interests
  rw [hs] at hr
  exact Option.map_eq_some_iff.1 hr

theorem session?_back (h : Wants r f b b') (hs : b'.session? r = some s') :
    ∃ s, b.session? r = some s ∧ s'.interest = f s.interest := by
  have hr := h.interests
  rw [hs] at hr
  obtain ⟨s, hs, heq⟩ := Option.map_eq_some_iff.1 hr.symm
  exact ⟨s, hs, heq.symm⟩

theorem refl (r : SessionRef) (b : Broker) : Wants r id b b := ⟨rfl, fun _ _ => rfl⟩

theorem absent (h : b.session? r = none) (f : Interest → Interest) : Wants r f b b where
  interests := by rw [h]; rfl
  others _ _ := rfl

theorem trans (h : Wants r f b b') (h' : Wants r g b' b'') : Wants r (g ∘ f) b b'' where
  interests := by
    have hmap : (b'.session? r).map (fun s => g s.interest) = ((b'.session? r).map Session.interest).map g := by
      rw [Option.map_map]
      rfl
    rw [h'.interests, hmap, h.interests, Option.map_map]
    rfl
  others r' hr := (h'.others r' hr).trans (h.others r' hr)

theorem of_local (h : Local r b b') : Wants r id b b' := ⟨h.interest.interest r, h.others⟩

theorem setSession (h : b.session? r = some s) (hi : s'.interest = f s.interest) : Wants r f b (b.setSession r s') where
  interests := by rw [session?_setSession_self h, h, Option.map_some, Option.map_some, hi]
  others r' hr := session?_setSession_other hr

theorem report (b : Broker) (ns : List Notice) : Wants r id b (b.report ns) := of_local (.report b ns)

theorem exchange (b : Broker) (x : Exchange) : Wants r id b { b with exchange := x } := ⟨rfl, fun _ _ => rfl⟩

theorem persistSession (b : Broker) (r q : SessionRef) : Wants r id b (b.persistSession q) :=
  ⟨congrArg _ (session?_persistSession b q r), fun r' _ => session?_persistSession b q r'⟩

theorem accept (b : Broker) (r : SessionRef) (subs : List Subscription) :
    Wants r (·.accept subs) b (b.accept r subs) := by
  unfold Broker.accept
  split
  · next h => exact absent h _
  · next s h =>
    refine trans (f := (·.accept subs)) (setSession h ?_) (report _ _)
    rfl

theorem registerAll (b : Broker) (r : SessionRef) : Wants r Interest.register b (b.registerAll r) := by
  unfold Broker.registerAll
  split
  · next h => exact absent h _
  · next s h =>
    have hset : Wants r Interest.register b (b.setSession r (s.register s.info.subscriptions.entries)) :=
      setSession h rfl
    exact hset.trans (exchange _ _)

theorem forgetAll (b : Broker) (r : SessionRef) (filters : List String) :
    Wants r (filters.foldl Interest.forget) b (b.forgetAll r filters) := by
  unfold Broker.forgetAll
  split
  · next h => exact absent h _
  · next s h =>
    exact trans (f := filters.foldl Interest.forget) (setSession h (Session.interest_foldl_forget filters s)) (exchange _ _)

end Wants

theorem update_wants (b : Broker) (r : SessionRef) (info : Info) :
    Wants r (·.after (.update info)) b (b.update r info) := by
  unfold update
  split
  · next h => exact .absent h _
  · next s h =>
    refine Wants.trans (f := (·.after (.update info))) (.setSession h ?_) (.persistSession _ r r)
    rfl

theorem cleanWill_wants (b : Broker) (r : SessionRef) : Wants r (·.after .cleanWill) b (b.cleanWill r) := by
  unfold cleanWill
  split
  · next h => exact .absent h _
  · next s h =>
    refine Wants.trans (f := (·.after .cleanWill)) (.setSession h ?_) (.persistSession _ r r)
    rfl

theorem unsubscribe_wants (b : Broker) (r : SessionRef) (filters : List String) :
    Wants r (·.after (.unsubscribe filters)) b (b.unsubscribe r filters) := by
  unfold unsubscribe
  split
  · exact .refl r b
  · exact (Wants.forgetAll b r filters).trans (.persistSession _ r r)

/-- What is asked about is what is held after subscribing, and so is what is denied. -/
theorem subscribe_asked (hs : b.session? r = some s) (sub : Subscription) (subs : List Subscription)
    (allowed : Authorize) : ∃ ns, (b.subscribe r (sub :: subs) (some allowed)).2
      = ((((b.accept r (sub :: subs)).registerAll r).report ns).forgetAll r
          ((s.interest.accept (sub :: subs)).register.denied allowed)).persistSession r := by
  obtain ⟨s', hs', heq⟩ := ((Wants.accept b r (sub :: subs)).trans (.registerAll _ r)).session? hs
  have hkeys : s'.info.subscriptions.keys = (s.interest.accept (sub :: subs)).register.info.subscriptions.keys :=
    congrArg (·.info.subscriptions.keys) heq
  unfold subscribe
  simp only [hs, hs', Option.map_some, Option.getD_some, hkeys]
  exact ⟨_, rfl⟩

theorem subscribe_wants (b : Broker) (r : SessionRef) (subs : List Subscription) (authorize : Option Authorize) :
    Wants r (·.after (.subscribe subs authorize)) b (b.subscribe r subs authorize).2 := by
  cases subs with
  | nil => exact .refl r b
  | cons sub subs =>
    cases h : b.session? r with
    | none =>
      rw [show (b.subscribe r (sub :: subs) authorize).2 = b by simp only [subscribe, h]]
      exact .absent h _
    | some s =>
      have hheld := (Wants.accept b r (sub :: subs)).trans (.registerAll _ r)
      cases authorize with
      | none =>
        rw [show (b.subscribe r (sub :: subs) none).2 = ((b.accept r (sub :: subs)).registerAll r).persistSession r by
          simp only [subscribe, h]]
        exact hheld.trans (.persistSession _ r r)
      | some allowed =>
        obtain ⟨ns, heq⟩ := subscribe_asked h sub subs allowed
        have hall := ((hheld.trans (.report _ ns)).trans (.forgetAll _ r
          ((s.interest.accept (sub :: subs)).register.denied allowed))).trans (.persistSession _ r r)
        rw [heq]
        refine ⟨hall.interests.trans ?_, hall.others⟩
        rw [h]
        rfl

/-- A call changes the interest of its session as it says, and no other. -/
theorem perform_wants (b : Broker) (r : SessionRef) (c : Call) : Wants r (·.after c) b (b.perform r c) := by
  cases c with
  | push m => exact .of_local (.push b r m)
  | subscribe subs authorize => exact subscribe_wants b r subs authorize
  | unsubscribe filters => exact unsubscribe_wants b r filters
  | update info => exact update_wants b r info
  | cleanWill => exact cleanWill_wants b r
  | nextBestEffort => exact .of_local (.nextBestEffort b r)
  | nextGuaranteed => exact .of_local (.nextGuaranteed b r)
  | acknowledge id => exact .of_local (.acknowledge b r id)
  | requeue => exact .of_local (.requeue b r)
  | close => exact .of_local (.closeSession b r)

/-! ## Records -/

theorem store_accept (b : Broker) (r : SessionRef) (subs : List Subscription) : (b.accept r subs).store = b.store := by
  unfold accept
  split <;> rfl

theorem store_registerAll (b : Broker) (r : SessionRef) : (b.registerAll r).store = b.store := by
  unfold registerAll
  split <;> rfl

theorem store_unbindAll (b : Broker) (r : SessionRef) : (b.unbindAll r).store = b.store := by
  unfold unbindAll
  split <;> rfl

theorem store_forgetAll (b : Broker) (r : SessionRef) (filters : List String) :
    (b.forgetAll r filters).store = b.store := by
  unfold forgetAll
  split <;> rfl

theorem records_persistSession (h : b.session? r = some s) :
    (b.persistSession r).store.sessions = SessionRecords.written b.store.sessions s.info := by
  unfold persistSession
  rw [h]
  rfl

/-- The session records are as they were but for that of session `r`. -/
def Writes (r : SessionRef) (b b' : Broker) : Prop :=
  b'.store.sessions = b.store.sessions ∨
    ∃ s, b'.session? r = some s ∧ b'.store.sessions = SessionRecords.written b.store.sessions s.info

theorem writes_persistSession (h : b'.store = b.store) (r : SessionRef) : Writes r b (b'.persistSession r) := by
  unfold persistSession
  split
  · exact .inl (by rw [h])
  · next s hs =>
    refine .inr ⟨s, hs, ?_⟩
    rw [← h]
    rfl

/-- A call that writes does so last. -/
theorem perform_persists (b : Broker) (r : SessionRef) {c : Call} (hc : c.writes = true) :
    ∃ b₁ : Broker, b₁.store = b.store ∧ b.perform r c = b₁.persistSession r := by
  have habsent (h : b.session? r = none) : b = b.persistSession r := by simp only [persistSession, h]
  cases c with
  | subscribe subs authorize =>
    have hheld : ((b.accept r subs).registerAll r).store = b.store := (store_registerAll _ r).trans (store_accept b r subs)
    rcases subscribe_cases b r subs authorize with ⟨heq, rfl | h⟩ | ⟨-, -, heq | ⟨ns, denied, heq⟩⟩
    · cases hc
    · exact ⟨b, rfl, heq.trans (habsent h)⟩
    · exact ⟨_, hheld, heq⟩
    · exact ⟨_, (store_forgetAll (((b.accept r subs).registerAll r).report ns) r denied).trans hheld, heq⟩
  | unsubscribe filters =>
    cases filters with
    | nil => cases hc
    | cons f filters => exact ⟨_, store_forgetAll b r (f :: filters), rfl⟩
  | update info =>
    cases h : b.session? r with
    | none => exact ⟨b, rfl, .trans (by simp only [perform, update, h]) (habsent h)⟩
    | some s =>
      let b₁ := b.setSession r { s with info := { s.info with will := info.will, clean := info.clean } }
      exact ⟨b₁, rfl, by simp only [perform, update, h, b₁]⟩
  | cleanWill =>
    cases h : b.session? r with
    | none => exact ⟨b, rfl, .trans (by simp only [perform, cleanWill, h]) (habsent h)⟩
    | some s =>
      let b₁ := b.setSession r { s with info := { s.info with will := none } }
      exact ⟨b₁, rfl, by simp only [perform, cleanWill, h, b₁]⟩
  | _ => cases hc

/-- A call that writes nothing leaves what every session wants as it is, and so does any on no session. -/
theorem perform_same {c : Call} (h : c.writes = false ∨ b.session? r = none) : SameInterest b (b.perform r c) := by
  cases c with
  | push m => exact (Local.push b r m).interest
  | subscribe subs authorize =>
    cases subs with
    | nil => exact .refl b
    | cons sub subs =>
      have h := h.resolve_left (Ne.symm Bool.false_ne_true)
      simp only [perform, subscribe, h]
      exact .refl b
  | unsubscribe filters =>
    cases filters with
    | nil => exact .refl b
    | cons f filters =>
      have h := h.resolve_left (Ne.symm Bool.false_ne_true)
      simp only [perform, unsubscribe, forgetAll, persistSession, h]
      exact .refl b
  | update info =>
    have h := h.resolve_left (Ne.symm Bool.false_ne_true)
    simp only [perform, update, h]
    exact .refl b
  | cleanWill =>
    have h := h.resolve_left (Ne.symm Bool.false_ne_true)
    simp only [perform, cleanWill, h]
    exact .refl b
  | nextBestEffort => exact (Local.nextBestEffort b r).interest
  | nextGuaranteed => exact (Local.nextGuaranteed b r).interest
  | acknowledge id => exact (Local.acknowledge b r id).interest
  | requeue => exact (Local.requeue b r).interest
  | close => exact (Local.closeSession b r).interest

/-- A call writes no record but that of its session. -/
theorem perform_writes (b : Broker) (r : SessionRef) (c : Call) : Writes r b (b.perform r c) := by
  cases hc : c.writes with
  | false => exact .inl (perform_same (.inl hc)).records
  | true =>
    obtain ⟨b₁, hstore, heq⟩ := perform_persists b r hc
    rw [heq]
    exact writes_persistSession hstore r

/-- A call that writes leaves the record of the session as it is then. -/
theorem perform_records (hs : b.session? r = some s) (c : Call) : (b.perform r c).store.sessions
    = if c.writes then SessionRecords.written b.store.sessions (s.interest.after c).info else b.store.sessions := by
  cases hc : c.writes with
  | false => exact (perform_same (.inl hc)).records
  | true =>
    obtain ⟨s', hs', heq⟩ := (perform_wants b r c).session? hs
    obtain ⟨b₁, hstore, hpersist⟩ := perform_persists b r hc
    rw [hpersist, session?_persistSession] at hs'
    rw [hpersist, records_persistSession hs', hstore, if_pos rfl]
    exact congrArg (SessionRecords.written _ ·.info) heq

theorem records_dismiss (b : Broker) (id : String) (r : SessionRef) :
    (b.dismiss id r).store.sessions = b.store.sessions := by
  show ((b.unbindAll r).closeSession r).store.sessions = _
  rw [(Local.closeSession (b.unbindAll r) r).interest.records, store_unbindAll]

/-! ## Bindings -/

theorem exchange_accept (b : Broker) (r : SessionRef) (subs : List Subscription) :
    (b.accept r subs).exchange = b.exchange := by
  unfold accept
  split <;> rfl

theorem exchange_persistSession (b : Broker) (r : SessionRef) : (b.persistSession r).exchange = b.exchange := by
  unfold persistSession
  split <;> rfl

theorem exchange_registerAll (hs : b.session? r = some s) :
    (b.registerAll r).exchange = b.exchange.bindAll s.info.subscriptions.keys s.info.id r := by
  unfold registerAll
  rw [hs]
  rfl

theorem exchange_forgetAll (hs : b.session? r = some s) (filters : List String) :
    (b.forgetAll r filters).exchange = b.exchange.unbindAll filters s.info.id r := by
  unfold forgetAll
  rw [hs]
  rfl

theorem exchange_subscribe (hs : b.session? r = some s) (sub : Subscription) (subs : List Subscription)
    (authorize : Option Authorize) : (b.perform r (.subscribe (sub :: subs) authorize)).exchange
      = (b.exchange.bindAll (s.interest.binds (.subscribe (sub :: subs) authorize)) s.info.id r).unbindAll
          (s.interest.unbinds (.subscribe (sub :: subs) authorize)) s.info.id r := by
  obtain ⟨t, ht, htinterest⟩ := (Wants.accept b r (sub :: subs)).session? hs
  have htinfo : t.info = (s.interest.accept (sub :: subs)).info := congrArg Interest.info htinterest
  obtain ⟨u, hu, huinterest⟩ := (Wants.registerAll (b.accept r (sub :: subs)) r).session? ht
  have huid : u.info.id = s.info.id := (congrArg (·.info.id) huinterest).trans (congrArg Info.id htinfo)
  have hbound : ((b.accept r (sub :: subs)).registerAll r).exchange
      = b.exchange.bindAll (s.interest.accept (sub :: subs)).info.subscriptions.keys s.info.id r := by
    rw [exchange_registerAll ht, exchange_accept, htinfo]
    rfl
  cases authorize with
  | none =>
    rw [show b.perform r (.subscribe (sub :: subs) none) = ((b.accept r (sub :: subs)).registerAll r).persistSession r by
      simp only [perform, subscribe, hs], exchange_persistSession]
    exact hbound
  | some allowed =>
    obtain ⟨ns, heq⟩ := subscribe_asked hs sub subs allowed
    have hu' : (((b.accept r (sub :: subs)).registerAll r).report ns).session? r = some u := hu
    rw [show b.perform r (.subscribe (sub :: subs) (some allowed)) = _ from heq, exchange_persistSession,
      exchange_forgetAll hu', huid]
    exact congrArg (Exchange.unbindAll · _ _ _) hbound

/-- A call binds and unbinds filters of its session only. -/
theorem perform_exchange (hs : b.session? r = some s) (c : Call) : (b.perform r c).exchange
    = (b.exchange.bindAll (s.interest.binds c) s.info.id r).unbindAll (s.interest.unbinds c) s.info.id r := by
  cases c with
  | subscribe subs authorize =>
    cases subs with
    | nil => rfl
    | cons sub subs => exact exchange_subscribe hs sub subs authorize
  | unsubscribe filters =>
    cases filters with
    | nil => rfl
    | cons f filters => exact (exchange_persistSession _ r).trans (exchange_forgetAll hs _)
  | update info => simp only [perform, update, hs, exchange_persistSession]; rfl
  | cleanWill => simp only [perform, cleanWill, hs, exchange_persistSession]; rfl
  | push | nextBestEffort | nextGuaranteed | acknowledge | requeue | close => exact (perform_same (.inl rfl)).exchange

theorem exchange_dismiss (hs : b.session? r = some s) (id : String) :
    (b.dismiss id r).exchange = b.exchange.unbindAll s.info.subscriptions.keys s.info.id r := by
  show ((b.unbindAll r).closeSession r).exchange = _
  rw [(Local.closeSession (b.unbindAll r) r).interest.exchange]
  unfold unbindAll
  rw [hs]
  rfl

/-- A dismissed session still wants what it wanted. -/
theorem dismiss_wants (b : Broker) (id' : String) (r : SessionRef) : Wants r id b (b.dismiss id' r) := by
  have hclose := Local.closeSession (b.unbindAll r) r
  refine ⟨(hclose.interest.interest r).trans ?_, fun r' hr => (hclose.others r' hr).trans (session?_unbindAll b r r')⟩
  rw [session?_unbindAll]
  rfl

end Broker

end PubSub
