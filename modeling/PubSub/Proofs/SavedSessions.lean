import PubSub.Proofs.Records
import PubSub.Store.SessionRecords
/-!
# Sessions are loaded as they were last saved

A record under a client id holds what was last saved there (`lastSaved`), and there is none under an
id that was never saved or was removed since. So loading gives one session for each id left, in the
order of the ids' bytes. A session saved under an id that is not its own is loaded under that id.
-/

namespace PubSub

/-- A change to the session records. -/
inductive RecordChange where
  | save (id : String) (info : Info)
  | remove (id : String)

namespace RecordChange

def apply (k : Keyspace) : RecordChange → Keyspace
  | save id info => SessionRecords.save k id info
  | remove id => SessionRecords.remove k id

/-- What is saved under an id after a change. -/
def note (id : String) (last : Option Info) : RecordChange → Option Info
  | save other info => if id = other then some info else last
  | remove other => if id = other then none else last

end RecordChange

/-- What was last saved under an id and not removed since. -/
def lastSaved (id : String) (changes : List RecordChange) : Option Info :=
  changes.foldl (fun last c => c.note id last) none

/-- What is known of a session loaded under an id. -/
def Info.loadedAs (i : Info) (id : String) : Info := { i with id, clean := false }

namespace SessionRecords

/-- The records are those of what is saved, and there are no other keys. -/
structure Holds (k : Keyspace) (saved : String → Option Info) : Prop where
  records : ∀ id, OrderedMap.get? k (Text.bytes id) = (saved id).map Info.encode
  keys : ∀ key ∈ k.keys, ∃ id, key = Text.bytes id

theorem Holds.apply {k : Keyspace} {saved : String → Option Info} (h : Holds k saved) (c : RecordChange) :
    Holds (c.apply k) (fun id => c.note id (saved id)) := by
  have hsame (id other : String) : Text.bytes id = Text.bytes other ↔ id = other :=
    ⟨Text.bytes_injective, fun e => e ▸ rfl⟩
  cases c with
  | save other info =>
    refine ⟨fun id => ?_, fun key hkey => ?_⟩
    · simp only [RecordChange.apply, save, RecordChange.note, OrderedMap.get?_insert, hsame, h.records]
      split <;> rfl
    · rw [OrderedMap.mem_keys_iff, RecordChange.apply, save, OrderedMap.get?_insert] at hkey
      split at hkey
      · next hother => exact ⟨other, hother⟩
      · exact h.keys key (OrderedMap.mem_keys_iff.2 hkey)
  | remove other =>
    refine ⟨fun id => ?_, fun key hkey => ?_⟩
    · simp only [RecordChange.apply, remove, RecordChange.note, OrderedMap.get?_erase, hsame, h.records]
      split <;> rfl
    · rw [OrderedMap.mem_keys_iff, RecordChange.apply, remove, OrderedMap.get?_erase] at hkey
      split at hkey
      · cases hkey
      · exact h.keys key (OrderedMap.mem_keys_iff.2 hkey)

theorem Holds.applyAll {k : Keyspace} {saved : String → Option Info} (h : Holds k saved)
    (changes : List RecordChange) : Holds (changes.foldl RecordChange.apply k)
      (fun id => changes.foldl (fun last c => c.note id last) (saved id)) := by
  induction changes generalizing k saved with
  | nil => exact h
  | cons c changes ih => exact ih (h.apply c)

/-- Changes to an empty store leave what was last saved. -/
theorem holds_lastSaved (changes : List RecordChange) :
    Holds (changes.foldl RecordChange.apply .empty) (lastSaved · changes) :=
  Holds.applyAll ⟨fun _ => rfl, fun _ hkey => absurd hkey List.not_mem_nil⟩ changes

/-! ## Loading -/

section Loading
variable {k : Keyspace} {saved : String → Option Info} {id : String}

theorem Holds.get (h : Holds k saved) (id : String) :
    SessionRecords.get k id = .ok ((saved id).map ({ · with clean := false })) := by
  rw [SessionRecords.get, h.records]
  cases saved id with
  | none => rfl
  | some info => simp only [Option.map_some, Info.decode_encode]

theorem Holds.load (h : Holds k saved) (id : String) :
    SessionRecords.load k (Text.bytes id) = (saved id).map fun info => .ok (info.loadedAs id) := by
  rw [SessionRecords.load, Text.lossy_bytes, h.get]
  cases saved id <;> rfl

theorem Holds.mem_keys (h : Holds k saved) : Text.bytes id ∈ k.keys ↔ (saved id).isSome := by
  rw [OrderedMap.mem_keys_iff, h.records, Option.isSome_map]

theorem Holds.found (h : Holds k saved) {keys : List Bytes} (hkeys : ∀ key ∈ keys, key ∈ k.keys) :
    ∃ infos : List Info, keys.filterMap (SessionRecords.load k) = infos.map .ok ∧
      keys = infos.map (Text.bytes ·.id) ∧ ∀ i ∈ infos, ∃ info, saved i.id = some info ∧ i = info.loadedAs i.id := by
  induction keys with
  | nil => exact ⟨[], rfl, rfl, fun i hi => absurd hi List.not_mem_nil⟩
  | cons key keys ih =>
    obtain ⟨hkey, hrest⟩ := List.forall_mem_cons.1 hkeys
    obtain ⟨infos, hfound, hids, hinfos⟩ := ih hrest
    obtain ⟨id, rfl⟩ := h.keys key hkey
    obtain ⟨info, hinfo⟩ := Option.isSome_iff_exists.1 (h.mem_keys.1 hkey)
    refine ⟨info.loadedAs id :: infos, ?_, ?_, List.forall_mem_cons.2 ⟨⟨info, hinfo, rfl⟩, hinfos⟩⟩
    · rw [List.filterMap_cons, h.load, hinfo, hfound]
      rfl
    · rw [List.map_cons, ← hids]
      rfl

/-- Loading passes over nothing: each id that is saved comes once, in the order of the keys. -/
theorem Holds.loadAll (h : Holds k saved) :
    (SessionRecords.loadAll k).1.Pairwise (fun i j => Text.bytes i.id < Text.bytes j.id) ∧
    (∀ i, i ∈ (SessionRecords.loadAll k).1 ↔ ∃ info, saved i.id = some info ∧ i = info.loadedAs i.id) ∧
    (SessionRecords.loadAll k).2 = [.sessionsLoaded (SessionRecords.loadAll k).1.length] := by
  obtain ⟨infos, hfound, hids, hinfos⟩ := h.found fun _ hkey => hkey
  have hall : (SessionRecords.loadAll k).1 = infos ∧ (SessionRecords.loadAll k).2 = [.sessionsLoaded infos.length] := by
    simp only [SessionRecords.loadAll, hfound, List.filterMap_map, Function.comp_def, List.filterMap_some,
      true_and]
    rw [List.filterMap_eq_nil_iff.2 fun _ _ => rfl]
    rfl
  rw [hall.1, hall.2]
  refine ⟨?_, fun i => ⟨hinfos i, ?_⟩, rfl⟩
  · have hascending := k.keys_ascending
    rw [hids] at hascending
    exact List.pairwise_map.1 hascending
  · rintro ⟨info, hinfo, hi⟩
    -- The id is a key, so a session was loaded under it, and that one is what was saved there.
    have hkey : Text.bytes i.id ∈ infos.map (Text.bytes ·.id) :=
      hids ▸ h.mem_keys.2 (Option.isSome_iff_exists.2 ⟨info, hinfo⟩)
    obtain ⟨j, hj, hid⟩ := List.mem_map.1 hkey
    obtain ⟨info', hinfo', hj'⟩ := hinfos j hj
    have hid : j.id = i.id := Text.bytes_injective hid
    rw [hid, hinfo, Option.some.injEq] at hinfo'
    rw [hi, hinfo', ← hid, ← hj']
    exact hj

end Loading

/-- What is known of a session is read back from its record but for the clean flag, in whatever order
its subscriptions were written, and a message is read back from its text. So after any changes to an
empty store each id left is loaded once, in key order, with what was last saved under it. -/
theorem loaded_as_last_saved :
    (∀ (i : Info) (es : List (String × QoS)), es.Perm i.subscriptions.entries →
      Info.decode (Text.bytes (i.writeInOrder es)) = .ok { i with clean := false }) ∧
    (∀ (k : Keyspace) (id : String) (i : Info), i.writeJson = i.writeInOrder i.subscriptions.entries ∧
      save k id i = k.insert (Text.bytes id) (Text.bytes i.writeJson)) ∧
    (∀ m : Message, Json.parse Message.readJson (Text.bytes m.writeJson) = .ok m) ∧
    (∀ changes : List RecordChange,
      let k := changes.foldl RecordChange.apply .empty
      (loadAll k).1.Pairwise (fun i j => Text.bytes i.id < Text.bytes j.id) ∧
      (∀ i, i ∈ (loadAll k).1 ↔ ∃ info, lastSaved i.id changes = some info ∧ i = info.loadedAs i.id) ∧
      (loadAll k).2 = [.sessionsLoaded (loadAll k).1.length] ∧
      ∀ id, get k id = .ok ((lastSaved id changes).map ({ · with clean := false }))) := by
  refine ⟨fun i es hes => Info.decode_writeInOrder hes, fun k id i => ⟨i.writeJson_eq, rfl⟩,
    Message.parse_writeJson, fun changes => ?_⟩
  have h := holds_lastSaved changes
  obtain ⟨hascending, hmem, hnotices⟩ := h.loadAll
  exact ⟨hascending, hmem, hnotices, h.get⟩

/-- A clean session with two subscriptions, written the last one first; and the same one saved under
another id, beside one that is removed. -/
theorem loaded_under_another_id :
    ∃ (i : Info) (es : List (String × QoS)) (changes : List RecordChange), i.id = "c\"1" ∧ i.clean = true ∧
      es = [("b", .atMostOnce), ("a/#", .atLeastOnce)] ∧
      changes = [.save "x" i, .save "y" { i with id := "y" }, .remove "y"] ∧
      Info.decode (Text.bytes (i.writeInOrder es)) = .ok { i with clean := false } ∧
      { i with id := "x", clean := false } ∈ (loadAll (changes.foldl RecordChange.apply .empty)).1 ∧
      ∀ j ∈ (loadAll (changes.foldl RecordChange.apply .empty)).1, j.id ≠ "y" := by
  let i : Info := { id := "c\"1", will := some ⟨"w", [0, 255], .exactlyOnce, true⟩, clean := true
                    subscriptions := .ofList [("a/#", .atLeastOnce), ("b", .atMostOnce)] }
  obtain ⟨hread, -, -, hload⟩ := loaded_as_last_saved
  obtain ⟨-, hmem, -, -⟩ := hload [.save "x" i, .save "y" { i with id := "y" }, .remove "y"]
  refine ⟨i, [("b", .atMostOnce), ("a/#", .atLeastOnce)], _, rfl, rfl, rfl, rfl,
    hread i _ (by decide +kernel), (hmem _).2 ⟨i, by simp [lastSaved, RecordChange.note], rfl⟩, fun j hj hy => ?_⟩
  obtain ⟨info, hinfo, -⟩ := (hmem j).1 hj
  rw [hy] at hinfo
  simp [lastSaved, RecordChange.note] at hinfo

end SessionRecords

end PubSub
