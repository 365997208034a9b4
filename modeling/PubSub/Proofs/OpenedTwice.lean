import PubSub.Proofs.CleanStart
import PubSub.Proofs.Requests
/-!
# Opening once more

Opening writes anew each session record that can be read, under the id of its key, and leaves everything
else that is stored alone (`SessionRecords.Renewed`). Once that is done the same sessions are loaded as before, so
opening is idempotent: a second time the same sessions are registered with the same messages to hand out, and
nothing that is stored says anything else (`opened_twice`). Closing in between is no different, since no session
that was loaded is clean.
-/

namespace PubSub

/-- What a session is registered with: what is known of it, and the numbers it has to hand out, each with what is
read under it. -/
def Session.kept (queue : Keyspace) (s : Session) : Info × List (UInt64 × Except StoreError (Option Message)) :=
  (s.info, s.durable.pending.map fun seq => (seq, s.durable.bucket.read queue Binary.readMessage seq))

namespace SessionRecords

variable {k k' : Keyspace} {id : String} {record : Bytes} {info : Info}

theorem get_eq_some_iff : get k id = .ok (some info) ↔
    ∃ record, OrderedMap.get? k (Text.bytes id) = some record ∧ Info.decode record = .ok info := by
  unfold get
  cases OrderedMap.get? k (Text.bytes id) with
  | none => simp
  | some record =>
    cases hdecode : Info.decode record <;> simp [hdecode]

/-- The same is read under every id as before, but for the id in it, and no key has come or gone. -/
structure Renewed (k k' : Keyspace) : Prop where
  keys : k'.keys = k.keys
  read : ∀ id, get k' id = (get k id).map (Option.map (·.loadedAs id))

/-- Loading does not tell records from those they are renewed to. -/
theorem Renewed.loadAll (h : Renewed k k') : loadAll k' = loadAll k := by
  have hload : load k' = load k := by
    funext key
    rw [load, load, h.read]
    rcases get k (Text.lossy key) with _ | _ | _ <;> rfl
  rw [SessionRecords.loadAll, SessionRecords.loadAll, h.keys, hload]

/-- The ids are the same under which there is something to read. -/
theorem Renewed.readable_iff (h : Renewed k k') :
    (∃ info, get k' id = .ok (some info)) ↔ ∃ info, get k id = .ok (some info) := by
  rw [h.read]
  rcases get k id with _ | _ | info
  · exact iff_of_false nofun nofun
  · exact iff_of_false nofun nofun
  · exact iff_of_true ⟨_, rfl⟩ ⟨_, rfl⟩

end SessionRecords

namespace Broker

variable {b : Broker} {settings : Settings} {store : Store} {events : EventTable} {r : SessionRef} {id : String} {info : Info}

/-! ## Closing sessions that are not clean -/

/-- A session that is not clean loses nothing of what is stored with its end. -/
theorem store_dismiss (h : ∀ s, b.session? r = some s → s.info.clean = false) (id : String) :
    (b.dismiss id r).store = b.store := by
  have hqueue : (b.dismiss id r).store.queue = b.store.queue := by
    cases hs : b.session? r with
    | none => simp [dismiss, unbindAll, closeSession, unregister, hs]
    | some s =>
      rw [queue_dismiss hs, h s hs]
      unfold DurableQueue.close
      split <;> rfl
  calc (b.dismiss id r).store = ⟨(b.dismiss id r).store.sessions, (b.dismiss id r).store.queue⟩ := rfl
    _ = b.store := by rw [records_dismiss, hqueue]

theorem info_dismiss {q : SessionRef} {s : Session} (hs : (b.dismiss id r).session? q = some s) :
    ∃ t, b.session? q = some t ∧ s.info = t.info := by
  obtain ⟨t, ht, heq⟩ := (Local.closeSession (b.unbindAll r) r).interest.session?_back hs
  exact ⟨t, (session?_unbindAll b r q).symm.trans ht, congrArg Interest.info heq⟩

theorem store_close (h : ∀ id r s, b.registry.get? id = some r → b.session? r = some s → s.info.clean = false) :
    b.close.store = b.store := by
  have hfold (es : List (String × SessionRef)) (b : Broker)
      (h : ∀ e ∈ es, ∀ s, b.session? e.2 = some s → s.info.clean = false) :
      (es.foldl (fun b e => b.dismiss e.1 e.2) b).store = b.store := by
    induction es generalizing b with
    | nil => rfl
    | cons e es ih =>
      obtain ⟨hfirst, hrest⟩ := List.forall_mem_cons.1 h
      refine (ih _ fun d hd s hs => ?_).trans (store_dismiss hfirst e.1)
      -- The end of one session leaves what is known of the others.
      obtain ⟨t, ht, hinfo⟩ := info_dismiss hs
      rw [hinfo]
      exact hrest d hd t ht
  exact hfold _ b fun e he s => h e.1 e.2 s (OrderedMap.get?_eq_some_iff.2 he)

/-! ## Opening -/

/-- A broker opens on records only if all that can be read have a bucket. -/
theorem bucket_of_get (hu : ∀ i ∈ (SessionRecords.loadAll store.sessions).1, usableName i.id = true)
    (hget : SessionRecords.get store.sessions id = .ok (some info)) : ∃ bucket : Bucket, bucket.name = id :=
  ⟨⟨id, hu (info.loadedAs id) (SessionRecords.mem_loadAll.2 ⟨info, hget, rfl⟩)⟩, rfl⟩

namespace Reinstated

variable (h : Reinstated settings store (SessionRecords.loadAll store.sessions).1 b)
include h

/-- A record that can be read is written anew under the id of its key. -/
theorem rewritten (hget : SessionRecords.get store.sessions id = .ok (some info)) :
    OrderedMap.get? b.store.sessions (Text.bytes id) = some (info.loadedAs id).encode :=
  h.records (info.loadedAs id) (SessionRecords.mem_loadAll.2 ⟨info, hget, rfl⟩)

/-- No other record is written. -/
theorem spared {key : Bytes} (hkey : ∀ id info, key = Text.bytes id → SessionRecords.get store.sessions id ≠ .ok (some info)) :
    OrderedMap.get? b.store.sessions key = OrderedMap.get? store.sessions key := by
  refine h.untouched key fun info hinfo hid => ?_
  obtain ⟨i, hget, -⟩ := SessionRecords.mem_loadAll.1 hinfo
  exact hkey info.id i hid hget

/-- A record that cannot be read is left as it is, and so is one under a key that is no text. -/
theorem spared_of_unreadable {key record : Bytes} (hrecord : OrderedMap.get? store.sessions key = some record)
    (hno : Text.ofBytes? key = none ∨ ∀ info, Info.decode record ≠ .ok info) :
    OrderedMap.get? b.store.sessions key = some record := by
  rw [← hrecord]
  refine h.spared fun id info hid hget => ?_
  subst hid
  obtain ⟨record', hrecord', hdecode⟩ := SessionRecords.get_eq_some_iff.1 hget
  obtain rfl := Option.some.inj (hrecord.symm.trans hrecord')
  rcases hno with hno | hno
  · rw [Text.ofBytes?_bytes] at hno
    cases hno
  · exact hno info hdecode

theorem renewed : SessionRecords.Renewed store.sessions b.store.sessions where
  keys := by
    refine OrderedMap.keys_congr fun key => ?_
    by_cases hkey : ∃ id info, key = Text.bytes id ∧ SessionRecords.get store.sessions id = .ok (some info)
    · obtain ⟨id, info, rfl, hget⟩ := hkey
      obtain ⟨record, hrecord, -⟩ := SessionRecords.get_eq_some_iff.1 hget
      rw [h.rewritten hget, hrecord]
      rfl
    · rw [h.spared fun id info hid hget => hkey ⟨id, info, hid, hget⟩]
  read id := by
    by_cases hget : ∃ info, SessionRecords.get store.sessions id = .ok (some info)
    · obtain ⟨info, hget⟩ := hget
      rw [hget, SessionRecords.get_of_get? (h.rewritten hget)]
      rfl
    · have hspared : OrderedMap.get? b.store.sessions (Text.bytes id) = OrderedMap.get? store.sessions (Text.bytes id) :=
        h.spared fun id' info hid hinfo => hget ⟨info, Text.bytes_injective hid ▸ hinfo⟩
      have hsame : SessionRecords.get b.store.sessions id = SessionRecords.get store.sessions id := by
        rw [SessionRecords.get, SessionRecords.get, hspared]
      rw [hsame]
      rcases hfound : SessionRecords.get store.sessions id with _ | _ | info
      · rfl
      · rfl
      · exact absurd ⟨info, hfound⟩ hget

theorem client?_of_record (bucket : Bucket) (hget : SessionRecords.get store.sessions bucket.name = .ok (some info)) :
    b.client? bucket.name = some ((info.loadedAs bucket.name).renewed bucket settings store.queue) := by
  obtain ⟨r, hr, hs, -⟩ := h.of_record bucket hget
  exact client?_of hr hs

variable (hu : ∀ i ∈ (SessionRecords.loadAll store.sessions).1, usableName i.id = true)
include hu

theorem registered_iff :
    (b.registry.get? id).isSome ↔ ∃ info, SessionRecords.get store.sessions id = .ok (some info) := by
  by_cases hget : ∃ info, SessionRecords.get store.sessions id = .ok (some info)
  · obtain ⟨info, hget⟩ := hget
    obtain ⟨bucket, rfl⟩ := bucket_of_get hu hget
    obtain ⟨r, hr, -⟩ := h.of_record bucket hget
    exact iff_of_true (Option.isSome_iff_exists.2 ⟨r, hr⟩) ⟨info, hget⟩
  · have hfree := (h.of_no_record fun info hinfo => hget ⟨info, hinfo⟩).1
    refine iff_of_false ?_ hget
    rw [hfree]
    exact Bool.false_ne_true

theorem store_close : b.close.store = b.store := by
  refine Broker.store_close fun id r s hr hs => ?_
  obtain ⟨info, hget⟩ := (h.registered_iff hu).1 (Option.isSome_iff_exists.2 ⟨r, hr⟩)
  obtain ⟨bucket, rfl⟩ := bucket_of_get hu hget
  have hclient := h.client?_of_record bucket hget
  rw [client?_of hr hs] at hclient
  rw [Option.some.inj hclient]
  rfl

theorem reopen (settings' : Settings) (orderly : Bool) (hflaw : settings'.flaw = none) :
    (∀ i ∈ (SessionRecords.loadAll b.store.sessions).1, usableName i.id = true) ∧
      (b.reopen settings' orderly).1 = .ok () ∧
      Reinstated settings' b.store (SessionRecords.loadAll b.store.sessions).1 (b.reopen settings' orderly).2 := by
  obtain ⟨events, heq⟩ := reopen_eq b settings' orderly
  have hstore : (if orderly then b.close else b).store = b.store := by
    split
    · exact h.store_close hu
    · rfl
  have hu' : ∀ i ∈ (SessionRecords.loadAll b.store.sessions).1, usableName i.id = true := by
    rw [h.renewed.loadAll]
    exact hu
  rw [heq, hstore]
  exact ⟨hu', (openOn_ok_iff hflaw).2 hu', reinstated_openOn hflaw hu' events⟩

variable {settings' : Settings} {b' : Broker}
  (h' : Reinstated settings' b.store (SessionRecords.loadAll b.store.sessions).1 b')
include h'

/-- The sessions are the same as before, and so are the messages they have to hand out. -/
theorem client?_again (id : String) :
    (b'.client? id).map (Session.kept b'.store.queue) = (b.client? id).map (Session.kept b.store.queue) := by
  by_cases hget : ∃ info, SessionRecords.get store.sessions id = .ok (some info)
  · obtain ⟨info, hget⟩ := hget
    obtain ⟨bucket, rfl⟩ := bucket_of_get hu hget
    have hread := h.renewed.read bucket.name
    rw [hget] at hread
    rw [h.client?_of_record bucket hget, h'.client?_of_record bucket hread, h'.queue, h.queue]
    -- Only the limits can differ, and they have no part in this.
    rfl
  · have hget' := mt h.renewed.readable_iff.1 hget
    rw [not_exists] at hget hget'
    rw [client?_free (h.of_no_record hget).1, client?_free (h'.of_no_record hget').1]
    rfl

/-- What was written anew is written once more as it is. -/
theorem records_again : b'.store.sessions = b.store.sessions := by
  have hloaded := h.renewed.loadAll
  refine (Restored.of_reinstated h' (fun i hi => ?_) fun i hi => ?_).records <;> rw [hloaded] at hi
  · exact hu i hi
  · exact h.records i hi

end Reinstated

/-- Whatever is stored, opening leaves the queue records and the keys of the session records as they are, and
every session record that cannot be read, or is under a key that is no text. A record that can be read is written
anew with its will and its subscriptions, and with the id of its key, and its session is registered with just that.
To open a second time, whether or not the broker was closed in between, succeeds with any valid settings. It
registers the same sessions with what is known of them and the messages they have to hand out, and no session record
says anything else afterwards. -/
theorem opened_twice (hok : (openOn settings (.database store) events).1 = .ok ()) :
    let b := (openOn settings (.database store) events).2
    (b.store.queue = store.queue ∧ b.store.sessions.keys = store.sessions.keys ∧
      (∀ key record, OrderedMap.get? store.sessions key = some record →
        Text.ofBytes? key = none ∨ (∀ info, Info.decode record ≠ .ok info) →
          OrderedMap.get? b.store.sessions key = some record) ∧
      ∀ id record info, OrderedMap.get? store.sessions (Text.bytes id) = some record → Info.decode record = .ok info →
        (∃ record', OrderedMap.get? b.store.sessions (Text.bytes id) = some record' ∧
          Info.decode record' = .ok { info with id, clean := false }) ∧
        (b.client? id).map (·.info) = some { info with id, clean := false }) ∧
    ∀ (settings' : Settings) (orderly : Bool), settings'.flaw = none →
      let again := b.reopen settings' orderly
      again.1 = .ok () ∧ again.2.registry.keys = b.registry.keys ∧
      (∀ id, (again.2.client? id).map (Session.kept again.2.store.queue) = (b.client? id).map (Session.kept b.store.queue)) ∧
      again.2.store.queue = b.store.queue ∧
      ∀ key, (OrderedMap.get? again.2.store.sessions key).map Info.decode
        = (OrderedMap.get? b.store.sessions key).map Info.decode := by
  intro b
  have hflaw := flaw_of_openOn hok
  have hu := (openOn_ok_iff hflaw).1 hok
  have h : Reinstated settings store (SessionRecords.loadAll store.sessions).1 b := reinstated_openOn hflaw hu events
  refine ⟨⟨h.queue, h.renewed.keys, fun key record => h.spared_of_unreadable, ?_⟩, ?_⟩
  · intro id record info hrecord hdecode
    have hget := SessionRecords.get_eq_some_iff.2 ⟨record, hrecord, hdecode⟩
    obtain ⟨bucket, rfl⟩ := bucket_of_get hu hget
    refine ⟨⟨(info.loadedAs bucket.name).encode, h.rewritten hget, Info.decode_encode _⟩, ?_⟩
    rw [h.client?_of_record bucket hget]
    rfl
  · intro settings' orderly hflaw' again
    obtain ⟨hu', hok', h'⟩ := h.reopen hu settings' orderly hflaw'
    refine ⟨hok', ?_, h.client?_again hu h', h'.queue, ?_⟩
    · refine OrderedMap.keys_congr fun id => Bool.eq_iff_iff.2 ?_
      rw [h.registered_iff hu, h'.registered_iff hu', h.renewed.readable_iff]
    · intro key
      rw [h.records_again hu h']

/-- A record with another id in it, one that cannot be read, one under a key that is no text, and a key in the
bucket that has no number. -/
theorem opened_twice_on_spoiled_records :
    let m : Message := { topic := "t", payload := [7], qos := .atLeastOnce }
    let bucket : Bucket := ⟨"c", by decide⟩
    let info : Info := { id := "old", subscriptions := .ofList [("t", .atLeastOnce)] }
    let store : Store := {
      sessions := .ofList [([99], info.encode), ([100], [123]), ([255], info.encode)]
      queue := .ofList [(bucket.key 5, Binary.encodeMessage m), (bucket.start ++ [1, 2], [])] }
    let b := (openOn {} (.database store) {}).2
    (openOn {} (.database store) {}).1 = .ok () ∧ ({} : Settings).flaw = none ∧
    OrderedMap.get? b.store.sessions [100] = some [123] ∧ OrderedMap.get? b.store.sessions [255] = some info.encode ∧
    (∃ record, OrderedMap.get? b.store.sessions (Text.bytes "c") = some record ∧
      Info.decode record = .ok { info with id := "c" }) ∧
    ((b.reopen {} true).2.client? "c").map (Session.kept (b.reopen {} true).2.store.queue)
      = some ({ info with id := "c" }, [(5, .ok (some m))]) := by
  intro m bucket info store b
  have hok : (openOn {} (.database store) {}).1 = .ok () := by decide +kernel
  have hflaw : ({} : Settings).flaw = none := by decide
  obtain ⟨⟨-, -, hspared, hrewritten⟩, hagain⟩ := opened_twice hok
  obtain ⟨-, -, hkept, -⟩ := hagain {} true hflaw
  refine ⟨hok, hflaw, hspared [100] [123] (by decide +kernel) (.inr ?_),
    hspared [255] info.encode (by decide +kernel) (.inl (by decide +kernel)),
    (hrewritten "c" info.encode info (by decide +kernel) (Info.decode_encode info)).1, ?_⟩
  · intro i hi
    have hfault : Info.decode [123] = .error .truncated := by decide +kernel
    rw [hfault] at hi
    cases hi
  · rw [hkept]
    decide +kernel

end Broker

end PubSub
