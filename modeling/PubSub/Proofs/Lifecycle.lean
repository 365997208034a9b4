import PubSub.Proofs.Frame
import PubSub.Proofs.Records
import PubSub.Proofs.Runs
/-!
# How sessions come to be

A session comes to be when a client connects (`enrol`) and when a broker is opened on records
(`restoreAll`), which enrols the sessions recorded one after the other and registers the
subscriptions of each. What every enrolment keeps therefore holds of a broker that was just opened
(`reopen_induction`).
-/

namespace PubSub

/-! ## Bindings -/

namespace Exchange

variable {x : Exchange} {y : Binding} {fs : List String} {id : String} {r : SessionRef}

theorem isSome_bound? {f : String} : (x.bound? f id).isSome ↔ ∃ z ∈ x.bindings, z.filter = f ∧ z.id = id := by
  simp [bound?, List.find?_isSome]

/-- A binding takes the place of the one that was there under its filter and id. -/
theorem mem_bind {f : String} : y ∈ (x.bind f id r).bindings ↔
    y ∈ x.bindings ∧ ¬ (y.filter = f ∧ y.id = id) ∨ y.filter = f ∧ y.id = id ∧ y.session = r := by
  unfold bind
  dsimp only
  split
  · next hbound =>
    obtain ⟨w, hw, hwf, hwid⟩ := isSome_bound?.1 hbound
    rw [List.mem_map]
    constructor
    · rintro ⟨z, hz, rfl⟩
      split
      · next hf => exact .inr ⟨hf.1, hf.2, rfl⟩
      · next hf => exact .inl ⟨hz, hf⟩
    · rintro (⟨hy, hno⟩ | ⟨hf, hid, hr⟩)
      · exact ⟨y, hy, if_neg hno⟩
      · refine ⟨w, hw, ?_⟩
        rw [if_pos ⟨hwf, hwid⟩, hwf, hwid, ← hf, ← hid, ← hr]
  · next hfree =>
    -- Nothing stands under the filter and the id, so no other binding is lost.
    have hno : y ∈ x.bindings → ¬ (y.filter = f ∧ y.id = id) := fun hy hf => hfree (isSome_bound?.2 ⟨y, hy, hf⟩)
    have hnew : y = ⟨f, id, r⟩ ↔ y.filter = f ∧ y.id = id ∧ y.session = r := by
      cases y
      simp only [Binding.mk.injEq]
    rw [List.mem_append, List.mem_singleton, hnew, and_iff_left_of_imp hno]

theorem mem_bindAll : y ∈ (x.bindAll fs id r).bindings ↔
    y ∈ x.bindings ∧ ¬ (y.filter ∈ fs ∧ y.id = id) ∨ y.filter ∈ fs ∧ y.id = id ∧ y.session = r := by
  induction fs generalizing x with
  | nil => simp [bindAll]
  | cons f fs ih =>
    have hstep : x.bindAll (f :: fs) id r = (x.bind f id r).bindAll fs id r := rfl
    rw [hstep, ih, mem_bind, List.mem_cons]
    grind

theorem bindings_unbindAll (x : Exchange) (fs : List String) (id : String) (r : SessionRef) :
    (x.unbindAll fs id r).bindings = x.bindings.filter fun y => ¬ (y.filter ∈ fs ∧ y.id = id ∧ y.session = r) := by
  induction fs generalizing x with
  | nil => simp [unbindAll]
  | cons f fs ih =>
    refine (ih (x.unbind f id r)).trans ?_
    rw [unbind, List.filter_filter]
    refine List.filter_congr fun y _ => ?_
    grind

theorem mem_unbindAll :
    y ∈ (x.unbindAll fs id r).bindings ↔ y ∈ x.bindings ∧ ¬ (y.filter ∈ fs ∧ y.id = id ∧ y.session = r) := by
  rw [bindings_unbindAll, List.mem_filter, decide_eq_true_eq]

end Exchange

/-! ## Stored sessions -/

namespace SessionRecords

/-- Every record is what is known of a session, under the session's id. -/
def Recorded (k : Keyspace) : Prop :=
  ∀ e ∈ k.entries, ∃ info : Info, usableName info.id = true ∧ e = (Text.bytes info.id, info.encode)

theorem recorded_empty : Recorded ({} : Store).sessions := fun _ he => absurd he List.not_mem_nil

theorem Recorded.remove {k : Keyspace} (h : Recorded k) (id : String) : Recorded (remove k id) :=
  fun e he => h e (List.mem_filter.1 he).1

theorem Recorded.save {k : Keyspace} (h : Recorded k) {info : Info} (hu : usableName info.id = true) :
    Recorded (save k info.id info) := by
  intro e he
  rcases OrderedMap.mem_insertEntry he with rfl | he
  · exact ⟨info, hu, rfl⟩
  · exact h e he

theorem load_of_recorded {k : Keyspace} {info : Info} (h : (Text.bytes info.id, info.encode) ∈ k.entries) :
    load k (Text.bytes info.id) = some (.ok { info with clean := false }) := by
  have hget : OrderedMap.get? k (Text.bytes info.id) = some info.encode := OrderedMap.get?_eq_some_iff.2 h
  simp only [load, Text.lossy_bytes, get, hget, Info.decode_encode]

/-- The sessions recorded are loaded, each once and not clean. -/
theorem loadAll_of_recorded {k : Keyspace} (h : Recorded k) :
    k.entries = (loadAll k).1.map (fun i => (Text.bytes i.id, i.encode)) ∧
      (∀ i ∈ (loadAll k).1, i.clean = false ∧ usableName i.id = true) ∧
      (loadAll k).1.Pairwise (fun i j => i.id ≠ j.id) := by
  have hload (es : List (Bytes × Bytes)) (hes : ∀ e ∈ es, e ∈ k.entries) : ∃ infos : List Info,
      (es.map (·.1)).filterMap (load k) = infos.map .ok ∧ es = infos.map (fun i => (Text.bytes i.id, i.encode)) ∧
      ∀ i ∈ infos, i.clean = false ∧ usableName i.id = true := by
    induction es with
    | nil => exact ⟨[], rfl, rfl, fun i hi => absurd hi List.not_mem_nil⟩
    | cons e es ih =>
      obtain ⟨infos, hfound, hentries, hinfos⟩ := ih fun d hd => hes d (List.mem_cons_of_mem e hd)
      obtain ⟨info, hu, rfl⟩ := h e (hes e List.mem_cons_self)
      have hone := load_of_recorded (hes _ List.mem_cons_self)
      -- A record does not keep the clean flag, so every session loaded is not clean.
      refine ⟨{ info with clean := false } :: infos, ?_, ?_, ?_⟩
      · rw [List.map_cons, List.filterMap_cons, hone, hfound]
        rfl
      · rw [List.map_cons, ← hentries]
        rfl
      · intro i hi
        rcases List.mem_cons.1 hi with rfl | hi
        · exact ⟨rfl, hu⟩
        · exact hinfos i hi
  obtain ⟨infos, hfound, hentries, hinfos⟩ := hload k.entries fun _ he => he
  have hall : (loadAll k).1 = infos := by
    have hkeys : k.keys.filterMap (load k) = infos.map .ok := hfound
    simp only [loadAll, hkeys, List.filterMap_map]
    exact List.filterMap_some
  rw [hall]
  refine ⟨hentries, hinfos, ?_⟩
  have hasc := k.ascending
  rw [hentries, List.pairwise_map] at hasc
  exact hasc.imp fun hlt he => absurd (he ▸ hlt) (KeyOrder.irrefl _)

end SessionRecords

/-! ## Enrolment -/

namespace Broker

variable {b : Broker} {info : Info} {bucket : Bucket}

/-- A fresh session under a client's id; its subscriptions are not registered. -/
def enrol (b : Broker) (info : Info) : Except StoreError SessionRef × Broker :=
  match b.create info with
  | (.error e, b) => (.error e, b)
  | (.ok r, b) => (.ok r, b.register info.id r)

/-- The session made for a client. -/
def newSession (b : Broker) (info : Info) (bucket : Bucket) : Session :=
  Session.new info bucket b.settings.maxBestEffort b.settings.maxGuaranteed b.store.queue

/-- The broker with a fresh session over a bucket. -/
def enrolled (b : Broker) (info : Info) (bucket : Bucket) : Broker :=
  persist { b with
    sessions := b.sessions ++ [b.newSession info bucket]
    registry := b.registry.insert info.id b.sessions.length } info

theorem enrol_of_bucket (b : Broker) (h : bucket.name = info.id) :
    ∃ ns, b.enrol info = (.ok b.sessions.length, (b.enrolled info bucket).report ns) := by
  obtain ⟨name, hname⟩ := bucket
  obtain rfl : name = info.id := h
  have hbucket : Bucket.ofName info.id = .ok ⟨info.id, hname⟩ := dif_pos hname
  unfold enrol create
  rw [hbucket]
  exact ⟨_, rfl⟩

theorem enrol_of_usable (b : Broker) (h : usableName info.id = true) : ∃ (bucket : Bucket) (ns : List Notice),
    bucket.name = info.id ∧ b.enrol info = (.ok b.sessions.length, (b.enrolled info bucket).report ns) := by
  obtain ⟨ns, heq⟩ := enrol_of_bucket b (show (⟨info.id, h⟩ : Bucket).name = info.id from rfl)
  exact ⟨⟨info.id, h⟩, ns, rfl, heq⟩

theorem enrol_of_unusable (b : Broker) (h : ¬ usableName info.id = true) :
    ∃ e ns, b.enrol info = (.error e, b.report ns) := by
  have hbucket : Bucket.ofName info.id = .error (.invalidBucket info.id) := dif_neg h
  unfold enrol create
  rw [hbucket]
  exact ⟨_, _, rfl⟩

theorem queue_enrol (b : Broker) (info : Info) : (b.enrol info).2.store.queue = b.store.queue := by
  by_cases hu : usableName info.id = true
  · obtain ⟨bucket, ns, -, heq⟩ := enrol_of_usable b hu
    rw [heq]
    rfl
  · obtain ⟨e, ns, heq⟩ := enrol_of_unusable b hu
    rw [heq]
    rfl

theorem settings_enrol (b : Broker) (info : Info) : (b.enrol info).2.settings = b.settings := by
  by_cases hu : usableName info.id = true
  · obtain ⟨bucket, ns, -, heq⟩ := enrol_of_usable b hu
    rw [heq]
    rfl
  · obtain ⟨e, ns, heq⟩ := enrol_of_unusable b hu
    rw [heq]
    rfl

/-- Connecting enrols a fresh session unless there is one to be resumed. -/
theorem connect_eq (b : Broker) (info : Info) : b.connect info = match b.registry.get? info.id with
    | none => b.enrol info
    | some r =>
      if info.clean then
        (((b.report [.sessionDiscarded info.id]).update r { info with will := none }).dismiss info.id r).enrol info
      else (.ok r, (b.report [.sessionResumed info.id]).update r info) := rfl

/-- A broker with room for a fresh session of a client. -/
def cleared (b : Broker) (info : Info) : Broker :=
  match b.registry.get? info.id with
  | none => b
  | some r => ((b.report [.sessionDiscarded info.id]).update r { info with will := none }).dismiss info.id r

theorem connect_fresh (h : b.registry.get? info.id = none ∨ info.clean = true) :
    b.connect info = (b.cleared info).enrol info := by
  rw [connect_eq, cleared]
  cases hr : b.registry.get? info.id with
  | none => rfl
  | some r =>
    have hclean : info.clean = true := h.resolve_left (by rw [hr]; exact nofun)
    exact if_pos hclean

theorem connect_resumed {r : SessionRef} (hr : b.registry.get? info.id = some r) (hclean : info.clean = false) :
    b.connect info = (.ok r, (b.report [.sessionResumed info.id]).update r info) := by
  rw [connect_eq, hr]
  exact if_neg (by rw [hclean]; exact Bool.false_ne_true)

/-- A client that connects gets a fresh session or the one it has. -/
theorem connect_cases (b : Broker) (info : Info) :
    (b.registry.get? info.id = none ∨ info.clean = true) ∧ b.connect info = (b.cleared info).enrol info ∨
      ∃ r, b.registry.get? info.id = some r ∧ info.clean = false ∧
        b.connect info = (.ok r, (b.report [.sessionResumed info.id]).update r info) := by
  by_cases hfresh : b.registry.get? info.id = none ∨ info.clean = true
  · exact .inl ⟨hfresh, connect_fresh hfresh⟩
  · obtain ⟨hr, hclean⟩ := not_or.1 hfresh
    obtain ⟨r, hr⟩ := Option.ne_none_iff_exists'.1 hr
    have hclean : info.clean = false := Bool.eq_false_iff.2 hclean
    exact .inr ⟨r, hr, hclean, connect_resumed hr hclean⟩

theorem registerAll_register (b : Broker) (id : String) (r : SessionRef) :
    (b.registerAll r).register id r = (b.register id r).registerAll r := by
  have hsession : (b.register id r).session? r = b.session? r := rfl
  unfold registerAll
  rw [hsession]
  cases b.session? r <;> rfl

theorem restoreAll_cons (h : usableName info.id = true) (rest : List Info) :
    b.restoreAll (info :: rest) = ((b.enrol info).2.registerAll b.sessions.length).restoreAll rest := by
  have hbucket : Bucket.ofName info.id = .ok ⟨info.id, h⟩ := dif_pos h
  rw [restoreAll]
  unfold enrol create
  rw [hbucket]
  exact congrArg (restoreAll · rest) (registerAll_register _ _ _)

/-- Restoring fails at the first session that has no bucket. -/
theorem restoreAll_answer (b : Broker) (infos : List Info) : (b.restoreAll infos).1 =
    match infos.find? (fun i => !usableName i.id) with
    | none => .ok ()
    | some info => .error (.invalidBucket info.id) := by
  induction infos generalizing b with
  | nil => rfl
  | cons info infos ih =>
    cases hu : usableName info.id with
    | true =>
      rw [restoreAll_cons hu, ih, List.find?_cons_of_neg (by rw [hu]; exact Bool.false_ne_true)]
    | false =>
      have hbucket : Bucket.ofName info.id = .error (.invalidBucket info.id) := dif_neg (Bool.eq_false_iff.1 hu)
      rw [List.find?_cons_of_pos (by rw [hu]; rfl), restoreAll, create, hbucket]

/-! ## Opening -/

/-- What every enrolment keeps, told apart by the sessions enrolled so far, holds after all. -/
theorem restoreAll_induction {I : List Info → Broker → Prop} {infos : List Info}
    (hstep : ∀ done b info rest, infos = done ++ info :: rest → I done b → usableName info.id = true →
      I (done ++ [info]) ((b.enrol info).2.registerAll b.sessions.length))
    (hb : I [] b) (husable : ∀ i ∈ infos, usableName i.id = true) : I infos (b.restoreAll infos).2 := by
  have hrest (done rest : List Info) (b : Broker) (hall : infos = done ++ rest) (hb : I done b) :
      I infos (b.restoreAll rest).2 := by
    induction rest generalizing b done with
    | nil =>
      rw [List.append_nil] at hall
      exact hall ▸ hb
    | cons info rest ih =>
      have hu := husable info (hall ▸ List.mem_append_right done List.mem_cons_self)
      rw [restoreAll_cons hu]
      exact ih (done ++ [info]) _ (by rw [hall, List.append_assoc]; rfl) (hstep done b info rest hall hb hu)
  exact hrest [] infos b rfl hb

/-- A broker before any session is restored. -/
def opening (settings : Settings) (store : Store) (events : EventTable) : Broker :=
  { settings, store, events }

section

variable {settings : Settings} {store : Store} {events : EventTable}

/-- A broker opens on settings without a flaw only. -/
theorem flaw_of_openOn (h : (openOn settings (.database store) events).1 = .ok ()) : settings.flaw = none := by
  cases hflaw : settings.flaw with
  | none => rfl
  | some flaw =>
    rw [openOn, openOver, Settings.check_of_flaw_some hflaw] at h
    cases h

/-- Opening restores every session that is loaded, and reports what it did. -/
theorem openOver_eq (hflaw : settings.flaw = none) (exchange : Exchange) (sessions : List Session) (store : Store)
    (events : EventTable) : ∃ ns ns',
    let found : Broker := { settings, store, exchange, sessions, events }
    let restored := (found.report ns).restoreAll (SessionRecords.loadAll store.sessions).1
    openOver exchange sessions settings (.database store) events
      = (restored.1.mapError .store, restored.2.report ns') := by
  refine ⟨[.storeOpened] ++ (SessionRecords.loadAll store.sessions).2, ?_⟩
  unfold openOver restore
  simp only [Settings.check_of_flaw_none hflaw, Location.load, report, List.nil_append]
  rcases restoreAll _ (SessionRecords.loadAll store.sessions).1 with ⟨e | _, b⟩
  · exact ⟨[], by rw [List.append_nil]; rfl⟩
  · exact ⟨_, rfl⟩

theorem openOn_eq (hflaw : settings.flaw = none) (store : Store) (events : EventTable) : ∃ ns ns',
    let restored := ((opening settings store events).report ns).restoreAll (SessionRecords.loadAll store.sessions).1
    openOn settings (.database store) events = (restored.1.mapError .store, restored.2.report ns') :=
  openOver_eq hflaw {} [] store events

/-- Opening fails on the first session loaded that has no bucket, and on nothing else. -/
theorem openOn_answer (hflaw : settings.flaw = none) : (openOn settings (.database store) events).1 =
    match (SessionRecords.loadAll store.sessions).1.find? (fun i => !usableName i.id) with
    | none => .ok ()
    | some info => .error (.store (.invalidBucket info.id)) := by
  obtain ⟨ns, ns', heq⟩ := openOn_eq hflaw store events
  rw [heq, restoreAll_answer]
  cases (SessionRecords.loadAll store.sessions).1.find? fun i => !usableName i.id <;> rfl

theorem openOn_ok_iff (hflaw : settings.flaw = none) : (openOn settings (.database store) events).1 = .ok () ↔
    ∀ i ∈ (SessionRecords.loadAll store.sessions).1, usableName i.id = true := by
  rw [openOn_answer hflaw]
  cases hfind : (SessionRecords.loadAll store.sessions).1.find? fun i => !usableName i.id with
  | none => simpa using hfind
  | some info =>
    refine iff_of_false nofun fun hall => ?_
    have hu := List.find?_some hfind
    rw [hall info (List.mem_of_find?_eq_some hfind)] at hu
    exact Bool.false_ne_true hu

theorem openOn_induction {I : List Info → Broker → Prop} (hreport : ∀ done b ns, I done b → I done (b.report ns))
    (hstep : ∀ done b info rest, (SessionRecords.loadAll store.sessions).1 = done ++ info :: rest → I done b →
      usableName info.id = true → I (done ++ [info]) ((b.enrol info).2.registerAll b.sessions.length))
    (hflaw : settings.flaw = none) (husable : ∀ i ∈ (SessionRecords.loadAll store.sessions).1, usableName i.id = true)
    (hfirst : I [] (opening settings store events)) :
    I (SessionRecords.loadAll store.sessions).1 (openOn settings (.database store) events).2 := by
  obtain ⟨ns, ns', heq⟩ := openOn_eq hflaw store events
  rw [heq]
  exact hreport _ _ ns' (restoreAll_induction hstep (hreport _ _ ns hfirst) husable)

end

/-- The broker a crash leaves: only what is stored, and what is known of events. -/
theorem reopen_eq (b : Broker) (settings : Settings) (orderly : Bool) :
    ∃ events, b.reopen settings orderly
      = openOn settings (.database (if orderly then b.close else b).store) events := ⟨_, rfl⟩

end Broker

end PubSub
