import PubSub.Proofs.Opening
/-!
# Each stored session is loaded for every key that shows its id

Loading goes through the keys in order and looks each one up by its text. A key that is the bytes of a text comes to
the session stored under it. A key that is no text is shown with replacement characters, and what is looked up then is
the record under that text: where there is one, its session is loaded a second time. So each session is loaded once
exactly when no such key shows the id of a session (`loaded_for_each_key`).
-/

namespace PubSub

theorem Text.bytes_lossy {key : Bytes} (h : (ofBytes? key).isSome) : bytes (lossy key) = key := by
  obtain ⟨s, hs⟩ := Option.isSome_iff_exists.1 h
  rw [ofBytes?_eq_some_iff.1 hs, lossy_bytes]

namespace SessionRecords

/-- The session stored under a key that is the bytes of its id, if its record can be read. -/
def storedUnder? (k : Keyspace) (key : Bytes) : Option Info := do
  let id ← Text.ofBytes? key
  let record ← OrderedMap.get? k key
  let info ← (Info.decode record).toOption
  return info.loadedAs id

/-- All sessions stored, each under its own key. -/
def stored (k : Keyspace) : List Info := k.keys.filterMap (storedUnder? k)

/-- A key that is no text does not show the id of a session. -/
def Unmistaken (k : Keyspace) : Prop :=
  ∀ key ∈ k.keys, Text.ofBytes? key = none → storedUnder? k (Text.bytes (Text.lossy key)) = none

variable {k : Keyspace} {key : Bytes} {i : Info}

theorem storedUnder?_eq_some_iff : storedUnder? k key = some i ↔ key = Text.bytes i.id ∧
    ∃ record info, OrderedMap.get? k key = some record ∧ Info.decode record = .ok info ∧ i = info.loadedAs i.id := by
  have hdecode {record : Bytes} {info : Info} : (Info.decode record).toOption = some info ↔
      Info.decode record = .ok info := by
    cases Info.decode record <;> simp [Except.toOption]
  unfold storedUnder?
  simp only [Option.bind_eq_bind, Option.bind_eq_some_iff, hdecode]
  constructor
  · rintro ⟨id, hid, record, hrecord, info, hinfo, hi⟩
    obtain rfl := Option.some.inj hi
    exact ⟨Text.ofBytes?_eq_some_iff.1 hid, record, info, hrecord, hinfo, rfl⟩
  · rintro ⟨rfl, record, info, hrecord, hinfo, hi⟩
    exact ⟨i.id, Text.ofBytes?_bytes _, record, hrecord, info, hinfo, congrArg some hi.symm⟩

theorem mem_keys_of_storedUnder? (h : storedUnder? k key = some i) : key ∈ k.keys := by
  obtain ⟨-, record, -, hrecord, -⟩ := storedUnder?_eq_some_iff.1 h
  exact OrderedMap.mem_keys_iff.2 (Option.isSome_iff_exists.2 ⟨record, hrecord⟩)

/-- Loading looks every key up by its text. -/
theorem loadAll_eq (k : Keyspace) :
    (loadAll k).1 = k.keys.filterMap fun key => storedUnder? k (Text.bytes (Text.lossy key)) := by
  simp only [loadAll, List.filterMap_filterMap]
  refine List.filterMap_congr fun key _ => ?_
  simp only [load, get, storedUnder?, Text.ofBytes?_bytes, Option.bind_eq_bind, Option.bind_some]
  cases OrderedMap.get? k (Text.bytes (Text.lossy key)) with
  | none => rfl
  | some record =>
    dsimp only [Option.bind_some]
    cases Info.decode record <;> rfl

theorem mem_stored : i ∈ stored k ↔ ∃ record info, OrderedMap.get? k (Text.bytes i.id) = some record ∧
    Info.decode record = .ok info ∧ i = info.loadedAs i.id := by
  rw [stored, List.mem_filterMap]
  constructor
  · rintro ⟨key, -, hkey⟩
    obtain ⟨rfl, h⟩ := storedUnder?_eq_some_iff.1 hkey
    exact h
  · intro h
    have hkey := storedUnder?_eq_some_iff.2 ⟨rfl, h⟩
    exact ⟨_, mem_keys_of_storedUnder? hkey, hkey⟩

theorem mem_loadAll_iff_stored : i ∈ (loadAll k).1 ↔ i ∈ stored k := by
  rw [loadAll_eq, List.mem_filterMap, mem_stored]
  constructor
  · rintro ⟨key, -, hkey⟩
    obtain ⟨hid, h⟩ := storedUnder?_eq_some_iff.1 hkey
    rwa [hid] at h
  · intro h
    have hkey := storedUnder?_eq_some_iff.2 ⟨rfl, h⟩
    exact ⟨_, mem_keys_of_storedUnder? hkey, by rwa [Text.lossy_bytes]⟩

theorem stored_ascending (k : Keyspace) : (stored k).Pairwise fun i j => Text.bytes i.id < Text.bytes j.id := by
  rw [stored, List.pairwise_filterMap]
  refine k.keys_ascending.imp fun hlt i hi j hj => ?_
  rw [← (storedUnder?_eq_some_iff.1 hi).1, ← (storedUnder?_eq_some_iff.1 hj).1]
  exact hlt

theorem nodup_stored (k : Keyspace) : ((stored k).map (·.id)).Nodup := by
  refine List.pairwise_map.2 ((stored_ascending k).imp fun {i j} hlt he => ?_)
  rw [he] at hlt
  exact KeyOrder.irrefl _ hlt

/-- Looking a session up under the bytes of its id is looking for it by its id. -/
theorem find?_stored (k : Keyspace) (id : String) :
    (stored k).find? (·.id = id) = storedUnder? k (Text.bytes id) := by
  cases hfind : (stored k).find? (·.id = id) with
  | some i =>
    obtain rfl : i.id = id := by simpa using List.find?_some hfind
    exact (storedUnder?_eq_some_iff.2 ⟨rfl, mem_stored.1 (List.mem_of_find?_eq_some hfind)⟩).symm
  | none =>
    refine (Option.eq_none_iff_forall_ne_some.2 fun i hi => ?_).symm
    obtain ⟨hid, h⟩ := storedUnder?_eq_some_iff.1 hi
    obtain rfl := Text.bytes_injective hid
    simpa using List.find?_eq_none.1 hfind i (mem_stored.2 h)

/-- A session is loaded as often as there are keys that show its id. -/
theorem count_loadAll (k : Keyspace) (id : String) : ((loadAll k).1.map (·.id)).count id =
    if (storedUnder? k (Text.bytes id)).isSome then k.keys.countP (Text.lossy · = id) else 0 := by
  rw [loadAll_eq]
  generalize k.keys = keys
  induction keys with
  | nil => simp
  | cons key keys ih =>
    rw [List.countP_cons, List.filterMap_cons]
    cases hkey : storedUnder? k (Text.bytes (Text.lossy key)) with
    | none =>
      by_cases hid : Text.lossy key = id
      · rw [hid] at hkey
        simp [ih, hkey]
      · simp [ih, hid]
    | some i =>
      have hi : i.id = Text.lossy key := (Text.bytes_injective (storedUnder?_eq_some_iff.1 hkey).1).symm
      rw [List.map_cons, List.count_cons, ih, hi]
      by_cases hid : Text.lossy key = id
      · rw [hid] at hkey
        simp [hkey, hid]
      · simp [hid]

theorem Unmistaken.loadAll (h : Unmistaken k) : (loadAll k).1 = stored k := by
  rw [loadAll_eq, stored]
  refine List.filterMap_congr fun key hkey => ?_
  cases hid : Text.ofBytes? key with
  | some id => rw [Text.bytes_lossy (Option.isSome_iff_exists.2 ⟨id, hid⟩)]
  | none =>
    rw [h key hkey hid, storedUnder?, hid]
    rfl

/-- A key that shows the id of a session and is not its own brings that session a second time. -/
theorem unmistaken_of_nodup (h : ((loadAll k).1.map (·.id)).Nodup) : Unmistaken k := by
  intro key hkey hnone
  by_contra hfound
  obtain ⟨i, hi⟩ := Option.ne_none_iff_exists'.1 hfound
  have hid : Text.lossy key = i.id := Text.bytes_injective (storedUnder?_eq_some_iff.1 hi).1
  have hother : key ≠ Text.bytes (Text.lossy key) := by
    intro he
    rw [he, Text.ofBytes?_bytes] at hnone
    cases hnone
  rw [loadAll_eq, List.Nodup, List.pairwise_map, List.pairwise_filterMap] at h
  have : Std.Symm fun a b => ∀ i, storedUnder? k (Text.bytes (Text.lossy a)) = some i →
      ∀ j, storedUnder? k (Text.bytes (Text.lossy b)) = some j → i.id ≠ j.id :=
    ⟨fun _ _ hne i hi j hj => Ne.symm (hne j hj i hi)⟩
  exact h.forall hkey (mem_keys_of_storedUnder? hi) hother i hi i (by rwa [Text.lossy_bytes]) rfl

/-- The sessions stored are those whose records can be read, one for each key that is the bytes of an id, in the order
of the keys. Loading gives for each key the session stored under the text it shows: no other session, and each as often
as keys show its id. So each is loaded just once, and the ids are all different, exactly when no key that is no text
shows the id of a session. -/
theorem loaded_for_each_key (k : Keyspace) :
    ((stored k).Pairwise fun i j => Text.bytes i.id < Text.bytes j.id) ∧
    (∀ i, i ∈ stored k ↔ ∃ record info, OrderedMap.get? k (Text.bytes i.id) = some record ∧
      Info.decode record = .ok info ∧ i = { info with id := i.id, clean := false }) ∧
    (loadAll k).1 = k.keys.filterMap (fun key => (stored k).find? (·.id = Text.lossy key)) ∧
    (∀ i, i ∈ (loadAll k).1 ↔ i ∈ stored k) ∧
    (∀ i ∈ stored k, ((loadAll k).1.map (·.id)).count i.id = k.keys.countP (Text.lossy · = i.id)) ∧
    ((loadAll k).1 = stored k ↔ Unmistaken k) ∧
    (((loadAll k).1.map (·.id)).Nodup ↔ Unmistaken k) := by
  have hnodup (h : (loadAll k).1 = stored k) : ((loadAll k).1.map (·.id)).Nodup := h ▸ nodup_stored k
  refine ⟨stored_ascending k, fun i => mem_stored, ?_, fun i => mem_loadAll_iff_stored, fun i hi => ?_,
    ⟨fun h => unmistaken_of_nodup (hnodup h), Unmistaken.loadAll⟩,
    ⟨unmistaken_of_nodup, fun h => hnodup h.loadAll⟩⟩
  · rw [loadAll_eq]
    exact List.filterMap_congr fun key _ => (find?_stored k _).symm
  · rw [count_loadAll, storedUnder?_eq_some_iff.2 ⟨rfl, mem_stored.1 hi⟩, Option.isSome_some, if_pos rfl]

/-- A byte that is no text shows as the replacement character, and that is the id of a session here. -/
example :
    let k : Keyspace := .ofList [([0xff], Text.bytes "\x7b\x7d"), (Text.bytes "\ufffd", Text.bytes "\x7b\x7d")]
    (loadAll k).1.map (·.id) = ["\ufffd", "\ufffd"] := by
  decide +kernel

end SessionRecords

end PubSub
