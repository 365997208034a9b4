import PubSub.Proofs.Interests
import PubSub.Proofs.SavedSessions
/-!
# Opening on any stored data

Whatever is stored, a record that cannot be read under the text of its key is passed over, and each other
record comes to a session that is registered under its id with its subscriptions bound (`Reinstated`). A
session needs a bucket though: a record under an id that is no name for one is not passed over, it makes
opening fail for all (`opened_on_any_store`).
-/

namespace PubSub

/-- The session that a record comes to when a broker is opened. -/
def Info.renewed (info : Info) (bucket : Bucket) (settings : Settings) (queue : Keyspace) : Session :=
  (Session.new info bucket settings.maxBestEffort settings.maxGuaranteed queue).register info.subscriptions.entries

theorem SessionRecords.mem_keys_of_get {k : Keyspace} {id : String} {info : Info} (h : get k id = .ok (some info)) :
    Text.bytes id ∈ k.keys := by
  rw [OrderedMap.mem_keys_iff, ← Option.ne_none_iff_isSome]
  intro hnone
  rw [get, hnone] at h
  cases h

/-- A session is loaded under each id whose record can be read, and under no other. -/
theorem SessionRecords.mem_loadAll {k : Keyspace} {info : Info} :
    info ∈ (loadAll k).1 ↔ ∃ i, get k info.id = .ok (some i) ∧ info = i.loadedAs info.id := by
  have hload (key : Bytes) : load k key = some (.ok info) ↔
      info.id = Text.lossy key ∧ ∃ i, get k info.id = .ok (some i) ∧ info = i.loadedAs info.id := by
    unfold load
    dsimp only
    constructor
    · intro h
      split at h
      · cases h
      · next i hget =>
        obtain rfl := Except.ok.inj (Option.some.inj h)
        exact ⟨rfl, i, hget, rfl⟩
      · cases h
    · rintro ⟨hid, i, hget, hinfo⟩
      rw [← hid, hget, hinfo]
      rfl
  have hmem : info ∈ (loadAll k).1 ↔ ∃ key ∈ k.keys, load k key = some (.ok info) := by
    simp only [loadAll, List.mem_filterMap]
    constructor
    · rintro ⟨_, ⟨key, hkey, hfound⟩, hinfo⟩
      split at hinfo
      · obtain rfl := Option.some.inj hinfo
        exact ⟨key, hkey, hfound⟩
      · cases hinfo
    · rintro ⟨key, hkey, hfound⟩
      exact ⟨.ok info, ⟨key, hkey, hfound⟩, rfl⟩
  rw [hmem]
  constructor
  · rintro ⟨key, -, hfound⟩
    exact ((hload key).1 hfound).2
  · rintro ⟨i, hget, hinfo⟩
    -- A record that is read is stored under the very bytes of the id.
    exact ⟨Text.bytes info.id, mem_keys_of_get hget, (hload _).2 ⟨(Text.lossy_bytes _).symm, i, hget, hinfo⟩⟩

/-- Keys that come to the same text come to the same session. -/
theorem SessionRecords.eq_of_mem_loadAll {k : Keyspace} {i j : Info} (hi : i ∈ (loadAll k).1) (hj : j ∈ (loadAll k).1)
    (hid : i.id = j.id) : i = j := by
  obtain ⟨i', hget, hi⟩ := mem_loadAll.1 hi
  obtain ⟨j', hget', hj⟩ := mem_loadAll.1 hj
  rw [hid, hget'] at hget
  rw [hi, hj, hid, Option.some.inj (Except.ok.inj hget)]

namespace Broker

variable {b : Broker} {info : Info} {settings : Settings} {store : Store} {events : EventTable} {done : List Info}

/-! ## One session restored -/

section

variable {bucket : Bucket} {r : SessionRef} {s : Session}

theorem session?_restored (hb : bucket.name = info.id) :
    ((b.enrol info).2.registerAll b.sessions.length).session? b.sessions.length
      = some ((b.newSession info bucket).register info.subscriptions.entries) := by
  obtain ⟨ns, heq⟩ := enrol_of_bucket b hb
  have hnew : ((b.enrolled info bucket).report ns).session? b.sessions.length = some (b.newSession info bucket) :=
    session?_enrolled_new
  rw [heq]
  unfold registerAll
  rw [hnew]
  exact session?_setSession_self hnew

theorem session?_restored_other (hu : usableName info.id = true) (hs : b.session? r = some s) :
    ((b.enrol info).2.registerAll b.sessions.length).session? r = some s := by
  obtain ⟨bucket, ns, -, heq⟩ := enrol_of_usable b hu
  rw [heq, (Wants.registerAll _ b.sessions.length).others r (session?_ne_length hs)]
  exact session?_enrolled.2 (.inl hs)

theorem mem_bindings_restored (hu : usableName info.id = true) {x : Binding} :
    x ∈ ((b.enrol info).2.registerAll b.sessions.length).exchange.bindings ↔
      x ∈ b.exchange.bindings ∧ ¬ (x.filter ∈ info.subscriptions.keys ∧ x.id = info.id) ∨
        x.filter ∈ info.subscriptions.keys ∧ x.id = info.id ∧ x.session = b.sessions.length := by
  obtain ⟨bucket, ns, -, heq⟩ := enrol_of_usable b hu
  have hnew : ((b.enrolled info bucket).report ns).session? b.sessions.length = some (b.newSession info bucket) :=
    session?_enrolled_new
  rw [heq, exchange_registerAll hnew, Exchange.mem_bindAll]
  rfl

theorem records_restored (hu : usableName info.id = true) (r : SessionRef) :
    ((b.enrol info).2.registerAll r).store.sessions = SessionRecords.written b.store.sessions info := by
  obtain ⟨bucket, ns, -, heq⟩ := enrol_of_usable b hu
  rw [heq, store_registerAll]
  rfl

end

/-! ## All sessions restored -/

/-- The sessions with these records are back as they are made when a broker is opened, and no others. -/
structure Reinstated (settings : Settings) (store : Store) (done : List Info) (b : Broker) : Prop where
  back : ∀ info ∈ done, ∀ bucket : Bucket, bucket.name = info.id →
    ∃ r, b.registry.get? info.id = some r ∧ b.session? r = some (info.renewed bucket settings store.queue)
  only : ∀ {id}, (b.registry.get? id).isSome → ∃ info ∈ done, info.id = id
  bound : ∀ x, x ∈ b.exchange.bindings ↔ ∃ info ∈ done, x.id = info.id ∧ x.filter ∈ info.subscriptions.keys ∧
    b.registry.get? x.id = some x.session
  records : ∀ info ∈ done, OrderedMap.get? b.store.sessions (Text.bytes info.id) = some info.encode
  untouched : ∀ key, (∀ info ∈ done, key ≠ Text.bytes info.id) →
    OrderedMap.get? b.store.sessions key = OrderedMap.get? store.sessions key
  settings : b.settings = settings
  queue : b.store.queue = store.queue

namespace Reinstated

theorem report (h : Reinstated settings store done b) (ns : List Notice) : Reinstated settings store done (b.report ns) :=
  ⟨h.back, h.only, h.bound, h.records, h.untouched, h.settings, h.queue⟩

theorem opening : Reinstated settings store [] (opening settings store events) where
  back _ hi := absurd hi List.not_mem_nil
  only hid := by cases hid
  bound x := ⟨fun hx => absurd hx List.not_mem_nil, fun ⟨_, hi, _⟩ => absurd hi List.not_mem_nil⟩
  records _ hi := absurd hi List.not_mem_nil
  untouched _ _ := rfl
  settings := rfl
  queue := rfl

/-- One more session is reinstated, in place of one made from the same record if there is one. -/
theorem restore (h : Reinstated settings store done b) (hu : usableName info.id = true) (hclean : info.clean = false)
    (hsame : ∀ d ∈ done, d.id = info.id → d = info) :
    Reinstated settings store (done ++ [info]) ((b.enrol info).2.registerAll b.sessions.length) := by
  -- Whatever is done under another id was done before.
  have hbefore {i : Info} (hi : i ∈ done ++ [info]) (hid : i.id ≠ info.id) : i ∈ done :=
    (List.mem_append.1 hi).resolve_right fun h => hid (by rw [List.mem_singleton.1 h])
  have hthis {i : Info} (hi : i ∈ done ++ [info]) (hid : i.id = info.id) : i = info :=
    (List.mem_append.1 hi).elim (hsame i · hid) List.mem_singleton.1
  constructor
  · intro i hi bucket hb
    by_cases hid : i.id = info.id
    · obtain rfl := hthis hi hid
      refine ⟨b.sessions.length, (registry_restored hu i.id).trans (if_pos rfl), ?_⟩
      rw [session?_restored hb, newSession, h.settings, h.queue]
      rfl
    · obtain ⟨r, hr, hs⟩ := h.back i (hbefore hi hid) bucket hb
      exact ⟨r, (registry_restored hu i.id).trans ((if_neg hid).trans hr), session?_restored_other hu hs⟩
  · intro id hid
    rw [registry_restored hu] at hid
    split at hid
    · next he => exact ⟨info, List.mem_append_right done List.mem_cons_self, he.symm⟩
    · obtain ⟨i, hi, he⟩ := h.only hid
      exact ⟨i, List.mem_append_left _ hi, he⟩
  · intro x
    rw [mem_bindings_restored hu, h.bound, registry_restored hu]
    by_cases hid : x.id = info.id
    · rw [if_pos hid]
      constructor
      · rintro (⟨⟨i, hi, hxi, hf, -⟩, hno⟩ | ⟨hf, -, hr⟩)
        · exact absurd ⟨hsame i hi (hxi.symm.trans hid) ▸ hf, hid⟩ hno
        · exact ⟨info, List.mem_append_right done List.mem_cons_self, hid, hf, congrArg some hr.symm⟩
      · rintro ⟨i, hi, hxi, hf, hr⟩
        exact .inr ⟨hthis hi (hxi.symm.trans hid) ▸ hf, hid, (Option.some.inj hr).symm⟩
    · rw [if_neg hid]
      constructor
      · rintro (⟨⟨i, hi, hxi, hf, hr⟩, -⟩ | ⟨-, he, -⟩)
        · exact ⟨i, List.mem_append_left _ hi, hxi, hf, hr⟩
        · exact absurd he hid
      · rintro ⟨i, hi, hxi, hf, hr⟩
        exact .inl ⟨⟨i, hbefore hi (hxi ▸ hid), hxi, hf, hr⟩, fun he => hid he.2⟩
  · intro i hi
    rw [records_restored hu]
    by_cases hid : i.id = info.id
    · rw [hthis hi hid, SessionRecords.get?_written_self, hclean, if_neg Bool.false_ne_true]
    · rw [SessionRecords.get?_written_other (Ne.symm hid)]
      exact h.records i (hbefore hi hid)
  · intro key hkey
    rw [records_restored hu, SessionRecords.get?_written,
      if_neg (hkey info (List.mem_append_right done List.mem_cons_self))]
    exact h.untouched key fun i hi => hkey i (List.mem_append_left _ hi)
  · rw [(SameMail.registerAll _ _).settings, settings_enrol]
    exact h.settings
  · rw [store_registerAll, queue_enrol]
    exact h.queue

/-- Each id whose record can be read has the session made of it, bound under what it subscribes to. -/
theorem of_record (h : Reinstated settings store (SessionRecords.loadAll store.sessions).1 b) (bucket : Bucket)
    (hget : SessionRecords.get store.sessions bucket.name = .ok (some info)) :
    ∃ r, b.registry.get? bucket.name = some r ∧
      b.session? r = some ((info.loadedAs bucket.name).renewed bucket settings store.queue) ∧
      ∀ f r', ⟨f, bucket.name, r'⟩ ∈ b.exchange.bindings ↔ f ∈ info.subscriptions.keys ∧ r' = r := by
  have hloaded : info.loadedAs bucket.name ∈ (SessionRecords.loadAll store.sessions).1 :=
    SessionRecords.mem_loadAll.2 ⟨info, hget, rfl⟩
  obtain ⟨r, hr, hs⟩ := h.back _ hloaded bucket rfl
  refine ⟨r, hr, hs, fun f r' => ?_⟩
  rw [h.bound]
  constructor
  · rintro ⟨i, hi, hid, hf, hr'⟩
    obtain rfl := SessionRecords.eq_of_mem_loadAll hloaded hi hid
    exact ⟨hf, Option.some.inj (hr'.symm.trans hr)⟩
  · rintro ⟨hf, rfl⟩
    exact ⟨_, hloaded, rfl, hf, hr⟩

/-- No other id has a session or is bound. -/
theorem of_no_record (h : Reinstated settings store (SessionRecords.loadAll store.sessions).1 b) {id : String}
    (hget : ∀ info, SessionRecords.get store.sessions id ≠ .ok (some info)) :
    b.registry.get? id = none ∧ ∀ x ∈ b.exchange.bindings, x.id ≠ id := by
  have habsent {i : Info} (hi : i ∈ (SessionRecords.loadAll store.sessions).1) : i.id ≠ id := by
    rintro rfl
    obtain ⟨info, hinfo, -⟩ := SessionRecords.mem_loadAll.1 hi
    exact hget info hinfo
  refine ⟨Option.not_isSome_iff_eq_none.1 fun hr => ?_, fun x hx => ?_⟩
  · obtain ⟨i, hi, hid⟩ := h.only hr
    exact habsent hi hid
  · obtain ⟨i, hi, hid, -⟩ := (h.bound x).1 hx
    exact hid ▸ habsent hi

end Reinstated

/-- Opening on sessions that all have a bucket reinstates each of them. -/
theorem reinstated_openOn (hflaw : settings.flaw = none)
    (husable : ∀ i ∈ (SessionRecords.loadAll store.sessions).1, usableName i.id = true) (events : EventTable) :
    Reinstated settings store (SessionRecords.loadAll store.sessions).1 (openOn settings (.database store) events).2 := by
  refine openOn_induction (I := Reinstated settings store) (fun _ _ ns h => h.report ns) ?_ hflaw husable .opening
  intro done b info rest hall h hu
  have hinfo : info ∈ (SessionRecords.loadAll store.sessions).1 := hall ▸ List.mem_append_right done List.mem_cons_self
  have hclean : info.clean = false := by
    obtain ⟨i, -, hi⟩ := SessionRecords.mem_loadAll.1 hinfo
    rw [hi]
    rfl
  exact h.restore hu hclean fun d hd => SessionRecords.eq_of_mem_loadAll (hall ▸ List.mem_append_left _ hd) hinfo

/-- Opening fails on a record that can be read under an id with a zero character, which is no name for a bucket,
and on nothing else. When there is none, each id whose record can be read gets a session made of that record and
of what its bucket holds, with its subscriptions bound; no other id is registered, and no other record is written. -/
theorem opened_on_any_store (hflaw : settings.flaw = none) (hkeys : [] ∉ store.sessions.keys)
    (hroom : ∀ bucket : Bucket, ∀ seq ∈ bucket.sequences store.queue, seq.toNat + 1 < 2 ^ 64) (events : EventTable) :
    let opened := openOn settings (.database store) events
    (opened.1 = .ok () ↔ ∀ id info, SessionRecords.get store.sessions id = .ok (some info) → '\x00' ∉ id.toList) ∧
    (∀ e, opened.1 = .error e → ∃ id info, SessionRecords.get store.sessions id = .ok (some info) ∧
      '\x00' ∈ id.toList ∧ e = .store (.invalidBucket id)) ∧
    (opened.1 = .ok () →
      (∀ id info, SessionRecords.get store.sessions id = .ok (some info) → ∃ r s bucket, bucket.name = id ∧
        opened.2.registry.get? id = some r ∧ opened.2.session? r = some s ∧
        s = (info.loadedAs id).renewed bucket settings store.queue ∧
        (∀ seq ∈ bucket.sequences store.queue, seq ∈ s.durable.pending ∧ seq < s.durable.next) ∧
        ∀ f r', ⟨f, id, r'⟩ ∈ opened.2.exchange.bindings ↔ f ∈ info.subscriptions.keys ∧ r' = r) ∧
      (∀ id, (∀ info, SessionRecords.get store.sessions id ≠ .ok (some info)) →
        opened.2.registry.get? id = none ∧ ∀ x ∈ opened.2.exchange.bindings, x.id ≠ id) ∧
      (∀ key, (∀ id info, SessionRecords.get store.sessions id = .ok (some info) → key ≠ Text.bytes id) →
        OrderedMap.get? opened.2.store.sessions key = OrderedMap.get? store.sessions key) ∧
      opened.2.store.queue = store.queue) := by
  have hloaded {id : String} {info : Info} (hget : SessionRecords.get store.sessions id = .ok (some info)) :
      info.loadedAs id ∈ (SessionRecords.loadAll store.sessions).1 := SessionRecords.mem_loadAll.2 ⟨info, hget, rfl⟩
  have hread {info : Info} (hinfo : info ∈ (SessionRecords.loadAll store.sessions).1) :
      ∃ i, SessionRecords.get store.sessions info.id = .ok (some i) := by
    obtain ⟨i, hget, -⟩ := SessionRecords.mem_loadAll.1 hinfo
    exact ⟨i, hget⟩
  have husable {id : String} {info : Info} (hget : SessionRecords.get store.sessions id = .ok (some info)) :
      usableName id = true ↔ '\x00' ∉ id.toList := by
    have hid : id ≠ "" := by
      rintro rfl
      exact hkeys (SessionRecords.mem_keys_of_get hget)
    rw [usableName, decide_eq_true_iff, and_iff_right hid]
  refine ⟨?_, fun e he => ?_, fun hok => ?_⟩
  · rw [openOn_ok_iff hflaw]
    constructor
    · exact fun hall id info hget => (husable hget).1 (hall _ (hloaded hget))
    · intro hall i hi
      obtain ⟨info, hget⟩ := hread hi
      exact (husable hget).2 (hall i.id info hget)
  · rw [openOn_answer hflaw] at he
    split at he
    · cases he
    · next info hfind =>
      obtain ⟨i, hget⟩ := hread (List.mem_of_find?_eq_some hfind)
      have hu : ¬ usableName info.id = true := by simpa using List.find?_some hfind
      exact ⟨info.id, i, hget, not_not.1 fun hno => hu ((husable hget).2 hno), (Except.error.inj he).symm⟩
  · have hall := (openOn_ok_iff hflaw).1 hok
    have h := reinstated_openOn hflaw hall events
    refine ⟨fun id info hget => ?_, fun id hget => h.of_no_record hget, fun key hkey => ?_, h.queue⟩
    · let bucket : Bucket := ⟨id, hall _ (hloaded hget)⟩
      obtain ⟨r, hr, hs, hbound⟩ := h.of_record bucket hget
      exact ⟨r, _, bucket, rfl, hr, hs, rfl,
        fun seq hseq => ⟨hseq, DurableQueue.lt_next_new (hroom bucket) settings.maxGuaranteed seq hseq⟩, hbound⟩
    · refine h.untouched key fun i hi => ?_
      obtain ⟨info, hget⟩ := hread hi
      exact hkey i.id info hget

/-- A record under an id that holds a zero character can be saved, and keeps all clients out. -/
theorem closed_to_all_by_one_record : ∃ changes : List RecordChange,
    changes = [.save "a\x00b" {}, .save "c1" { id := "c1", subscriptions := .ofList [("t", .atLeastOnce)] }] ∧
    let store : Store := { sessions := changes.foldl RecordChange.apply .empty }
    SessionRecords.get store.sessions "c1"
      = .ok (some { id := "c1", subscriptions := .ofList [("t", .atLeastOnce)] }) ∧ usableName "c1" = true ∧
    (openOn {} (.database store) {}).1 = .error (.store (.invalidBucket "a\x00b")) := by
  refine ⟨_, rfl, ?_⟩
  intro store
  have hget (id : String) : SessionRecords.get store.sessions id
      = .ok (if id = "c1" then some { id := "c1", subscriptions := .ofList [("t", .atLeastOnce)] }
        else if id = "a\x00b" then some {} else none) := by
    rw [(SessionRecords.holds_lastSaved _).get id]
    simp only [lastSaved, List.foldl_cons, List.foldl_nil, RecordChange.note]
    split
    · rfl
    · split <;> rfl
  have hkeys : [] ∉ store.sessions.keys := by decide
  obtain ⟨hok, herror, -⟩ := opened_on_any_store (show ({} : Settings).flaw = none by decide) hkeys
    (fun _ _ hseq => absurd hseq List.not_mem_nil) {}
  refine ⟨hget "c1", by decide, ?_⟩
  cases hanswer : (openOn {} (.database store) {}).1 with
  | ok => exact absurd (hok.1 hanswer "a\x00b" {} (hget _)) (by decide)
  | error e =>
    obtain ⟨id, info, hfound, hzero, rfl⟩ := herror e hanswer
    rw [hget id] at hfound
    split at hfound
    · next hid =>
      rw [hid] at hzero
      exact absurd hzero (by decide)
    · split at hfound
      · next hid => rw [hid]
      · cases hfound

end Broker

end PubSub
