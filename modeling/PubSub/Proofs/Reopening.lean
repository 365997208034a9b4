import PubSub.Proofs.Opening
/-!
# What opening brings back

A broker is opened on the records that were left. It has a session for each record, with just what was
recorded registered and bound, and no other session; and it leaves all that is stored as it was
(`reopened`). Closing a broker first changes no session record.
-/

namespace PubSub

namespace SessionRecords

variable {k : Keyspace} {info : Info} {id : String}

/-- The sessions loaded are those whose records can be read under their ids. -/
theorem Recorded.get_eq_some (h : Recorded k) : get k id = .ok (some info) ↔ info ∈ (loadAll k).1 ∧ info.id = id := by
  obtain ⟨hentries, hinfos, -⟩ := loadAll_of_recorded h
  have hfound {i : Info} (hi : i ∈ (loadAll k).1) : get k i.id = .ok (some i) := by
    have hget : OrderedMap.get? k (Text.bytes i.id) = some i.encode := by
      rw [OrderedMap.get?_eq_some_iff, hentries]
      exact List.mem_map.2 ⟨i, hi, rfl⟩
    rw [get_of_get? hget, ← (hinfos i hi).1]
  constructor
  · intro hget
    -- A record that is read is an entry, so it was loaded as well.
    cases hrecord : OrderedMap.get? k (Text.bytes id) with
    | none =>
      rw [get, hrecord] at hget
      cases hget
    | some record =>
      rw [OrderedMap.get?_eq_some_iff, hentries] at hrecord
      obtain ⟨i, hi, heq⟩ := List.mem_map.1 hrecord
      obtain rfl : i.id = id := Text.bytes_injective (congrArg Prod.fst heq)
      rw [hfound hi] at hget
      obtain rfl := Option.some.inj (Except.ok.inj hget)
      exact ⟨hi, rfl⟩
  · rintro ⟨hi, rfl⟩
    exact hfound hi

theorem Recorded.get_eq_ok (h : Recorded k) (id : String) : ∃ found, get k id = .ok found := by
  cases hrecord : OrderedMap.get? k (Text.bytes id) with
  | none => exact ⟨none, by rw [get, hrecord]⟩
  | some record =>
    obtain ⟨i, -, heq⟩ := h _ (OrderedMap.get?_eq_some_iff.1 hrecord)
    obtain ⟨hid, rfl⟩ := Prod.mk.inj heq
    exact ⟨_, get_of_get? hrecord⟩

end SessionRecords

namespace Broker

variable {b : Broker} {r : SessionRef} {s : Session} {info : Info} {id : String} {settings : Settings} {k queue : Keyspace}
  {done : List Info}

/-! ## Closing -/

theorem records_close (hb : Sound b) : b.close.store.sessions = b.store.sessions :=
  (hb.dismissRegistered (I := fun b' => b'.store.sessions = b.store.sessions)
    (fun _ h _ => (records_dismiss _ _ _).trans h) rfl).2

/-- No session is registered with a broker that is closed. -/
theorem registry_close (b : Broker) (id : String) : b.close.registry.get? id = none := by
  have hfold (es : List (String × SessionRef)) (b : Broker) : (es.foldl (fun b e => b.dismiss e.1 e.2) b).registry
      = (es.map (·.1)).foldl OrderedMap.erase b.registry := by
    induction es generalizing b with
    | nil => rfl
    | cons e es ih => rw [List.foldl_cons, ih, registry_dismiss]; rfl
  show (b.registry.entries.foldl (fun b e => b.dismiss e.1 e.2) b).registry.get? id = none
  rw [hfold, OrderedMap.get?_foldl_erase]
  split
  · rfl
  · next hid =>
    exact Option.not_isSome_iff_eq_none.1 fun hr => hid (OrderedMap.mem_keys_iff.2 hr)

/-! ## Opening -/

/-- The sessions with these records are back, on a store that is as it was. -/
structure Restored (k queue : Keyspace) (done : List Info) (b : Broker) : Prop where
  records : b.store.sessions = k
  queue : b.store.queue = queue
  only : ∀ {id}, (b.registry.get? id).isSome → ∃ info ∈ done, info.id = id
  back : ∀ info ∈ done, ∃ r s, b.registry.get? info.id = some r ∧ b.session? r = some s ∧
    s.interest = (Interest.mk info {}).register
  bound : ∀ x, x ∈ b.exchange.bindings ↔ ∃ info ∈ done, x.id = info.id ∧ x.filter ∈ info.subscriptions.keys ∧
    b.registry.get? x.id = some x.session

namespace Restored

/-- Where every session was recorded as it is loaded, nothing is written anew. -/
theorem of_reinstated {store : Store} (h : Reinstated settings store done b)
    (husable : ∀ i ∈ done, usableName i.id = true)
    (hrecord : ∀ i ∈ done, OrderedMap.get? store.sessions (Text.bytes i.id) = some i.encode) :
    Restored store.sessions store.queue done b where
  records := by
    apply OrderedMap.ext_get?
    intro key
    by_cases hkey : ∃ i ∈ done, key = Text.bytes i.id
    · obtain ⟨i, hi, rfl⟩ := hkey
      rw [h.records i hi, hrecord i hi]
    · exact h.untouched key fun i hi he => hkey ⟨i, hi, he⟩
  queue := h.queue
  only := h.only
  back i hi := by
    obtain ⟨r, hr, hs⟩ := h.back i hi ⟨i.id, husable i hi⟩ rfl
    exact ⟨r, _, hr, hs, rfl⟩
  bound := h.bound

/-- Which sessions are back can be told from the records. -/
theorem session (h : Restored k queue (SessionRecords.loadAll k).1 b) (hk : SessionRecords.Recorded k)
    (hget : SessionRecords.get k id = .ok (some info)) :
    ∃ r s, b.registry.get? id = some r ∧ b.session? r = some s ∧ s.interest = (Interest.mk info {}).register := by
  obtain ⟨hi, rfl⟩ := hk.get_eq_some.1 hget
  exact h.back info hi

theorem absent (h : Restored k queue (SessionRecords.loadAll k).1 b) (hk : SessionRecords.Recorded k)
    (hget : SessionRecords.get k id = .ok none) : b.registry.get? id = none := by
  apply Option.not_isSome_iff_eq_none.1
  intro hr
  obtain ⟨i, hi, hid⟩ := h.only hr
  rw [hk.get_eq_some.2 ⟨hi, hid⟩] at hget
  cases hget

end Restored

theorem restored_openOn {store : Store} {events : EventTable} (hflaw : settings.flaw = none)
    (h : SessionRecords.Recorded store.sessions) : (openOn settings (.database store) events).1 = .ok () ∧
      Restored store.sessions store.queue (SessionRecords.loadAll store.sessions).1
        (openOn settings (.database store) events).2 := by
  obtain ⟨hentries, hinfos, -⟩ := SessionRecords.loadAll_of_recorded h
  have husable := fun i hi => (hinfos i hi).2
  refine ⟨(openOn_ok_iff hflaw).2 husable, .of_reinstated (reinstated_openOn hflaw husable _) husable fun i hi => ?_⟩
  rw [OrderedMap.get?_eq_some_iff, hentries]
  exact List.mem_map.2 ⟨i, hi, rfl⟩

theorem restored_start (hflaw : settings.flaw = none) :
    Restored .empty .empty (SessionRecords.loadAll .empty).1 (start settings) :=
  (restored_openOn hflaw SessionRecords.recorded_empty).2

/-- Opening a broker again succeeds, and brings back what is recorded, whether it was closed or not. -/
theorem reopened (hb : Sound b) (hflaw : settings.flaw = none) (orderly : Bool) :
    (b.reopen settings orderly).1 = .ok () ∧
      Restored b.store.sessions (if orderly then b.close else b).store.queue (SessionRecords.loadAll b.store.sessions).1
        (b.reopen settings orderly).2 := by
  obtain ⟨events, heq⟩ := reopen_eq b settings orderly
  rw [heq]
  cases orderly with
  | false => exact restored_openOn hflaw hb.recorded
  | true =>
    rw [← records_close hb]
    exact restored_openOn hflaw hb.close.recorded

end Broker

end PubSub
