import PubSub.Proofs.Binary
import PubSub.Proofs.Maps
import PubSub.Proofs.Utf8
import PubSub.Store.Bucket
/-!
# A bucket is a map of its own

The records of one bucket form a map from sequence numbers to records (`Bucket.contents`), although
they lie between those of other buckets in one keyspace. Each operation on a bucket is the map
operation of the same name, and leaves the map of a bucket of another name as it is.
-/

namespace PubSub.Bucket

theorem eq_of_name (b : Bucket) {c : Bucket} (h : c.name = b.name) : c = b := by
  cases b
  cases c
  simp_all

/-! ## Keys -/

theorem isPrefixOf?_eq_some_iff {a b r : Bytes} : a.isPrefixOf? b = some r ↔ b = a ++ r := by
  induction a generalizing b with
  | nil => simp [List.isPrefixOf?, eq_comm]
  | cons x a ih =>
    cases b with
    | nil => simp [List.isPrefixOf?]
    | cons y b =>
      by_cases h : x = y
      · simp [List.isPrefixOf?, h, ih]
      · simp [List.isPrefixOf?, h, eq_comm (a := y)]

theorem length_sequenceBytes (s : UInt64) : (sequenceBytes s).length = 8 := by
  rw [sequenceBytes, List.length_reverse, Binary.length_littleEndian]

theorem ofLittleEndian_sequenceBytes (s : UInt64) :
    Binary.ofLittleEndian (sequenceBytes s).reverse = s.toNat := by
  rw [sequenceBytes, List.reverse_reverse]
  exact Binary.ofLittleEndian_littleEndian s.toNat_lt

theorem sequence?_key (b : Bucket) (s : UInt64) : b.sequence? (b.key s) = some s := by
  have hrest : b.keyRest? (b.key s) = some (sequenceBytes s) := isPrefixOf?_eq_some_iff.2 rfl
  simp [sequence?, hrest, length_sequenceBytes, ofLittleEndian_sequenceBytes]

/-- The keys of a bucket are those that have a sequence number in it. -/
theorem sequence?_eq_some_iff {b : Bucket} {key : Bytes} {s : UInt64} :
    b.sequence? key = some s ↔ key = b.key s := by
  refine ⟨fun h => ?_, fun h => h ▸ b.sequence?_key s⟩
  obtain ⟨rest, hrest, hs⟩ := Option.bind_eq_some_iff.1 h
  split at hs
  · next hlen =>
    obtain rfl := Option.some.inj hs
    have hlt := Binary.ofLittleEndian_lt rest.reverse
    have hback := Binary.littleEndian_ofLittleEndian rest.reverse
    rw [List.length_reverse, hlen] at hlt hback
    rw [isPrefixOf?_eq_some_iff.1 hrest, Bucket.key, sequenceBytes, UInt64.toNat_ofNat_of_lt' hlt, hback,
      List.reverse_reverse]
  · simp at hs

theorem key_injective (b : Bucket) {s t : UInt64} (h : b.key s = b.key t) : s = t :=
  Option.some.inj (by rw [← b.sequence?_key s, h, b.sequence?_key t])

theorem key_inj {b : Bucket} {s t : UInt64} : b.key s = b.key t ↔ s = t := ⟨b.key_injective, fun h => h ▸ rfl⟩

theorem key_lt_key (b : Bucket) {s t : UInt64} (h : s < t) : b.key s < b.key t := by
  have hne : sequenceBytes s ≠ sequenceBytes t := fun e =>
    absurd (b.key_injective (show b.key s = b.key t by rw [Bucket.key, e]; rfl)) (UInt64.ne_of_lt h)
  rcases KeyOrder.connected hne with hlt | hgt
  · exact List.append_left_lt hlt
  · have hnum := Binary.ofLittleEndian_reverse_lt (by rw [length_sequenceBytes, length_sequenceBytes]) hgt
    rw [ofLittleEndian_sequenceBytes, ofLittleEndian_sequenceBytes] at hnum
    exact absurd (UInt64.lt_iff_toNat_lt.1 h) (Nat.lt_asymm hnum)

/-- The order of the keys is the order of the numbers. -/
theorem lt_of_key_lt {b : Bucket} {s t : UInt64} (h : b.key s < b.key t) : s < t := by
  by_cases hst : s = t
  · exact absurd (hst ▸ h) (KeyOrder.irrefl _)
  · rcases KeyOrder.connected hst with hlt | hgt
    · exact hlt
    · exact absurd (KeyOrder.trans h (b.key_lt_key hgt)) (KeyOrder.irrefl _)

theorem eq_of_append_cons {α : Type} {z : α} {a b x y : List α} (ha : z ∉ a) (hb : z ∉ b)
    (h : a ++ z :: x = b ++ z :: y) : a = b := by
  induction a generalizing b with
  | nil => cases b <;> simp_all
  | cons c a ih =>
    cases b with
    | nil => simp_all
    | cons d b =>
      obtain ⟨rfl, hrest⟩ := List.cons.inj h
      rw [ih (fun hm => ha (List.mem_cons_of_mem _ hm)) (fun hm => hb (List.mem_cons_of_mem _ hm)) hrest]

/-- No key belongs to buckets of two names. -/
theorem key_ne_key {b c : Bucket} (h : b.name ≠ c.name) (s t : UInt64) : b.key s ≠ c.key t := by
  intro he
  have hb := b.usable
  have hc := c.usable
  simp only [usableName, ne_eq, decide_eq_true_eq] at hb hc
  simp only [Bucket.key, start, List.append_assoc, List.cons_append, List.nil_append] at he
  exact h (Text.bytes_injective
    (eq_of_append_cons (Text.zero_notMem_bytes hb.2) (Text.zero_notMem_bytes hc.2) he))

/-! ## The records of a bucket -/

theorem ascending_records (b : Bucket) (k : Keyspace) :
    (k.entries.filterMap fun e => (b.sequence? e.1).map (·, e.2)).Pairwise (fun x y => x.1 < y.1) := by
  refine List.pairwise_filterMap.2 (k.ascending.imp fun {x y} hxy => ?_)
  intro p hp q hq
  obtain ⟨s, hs, rfl⟩ := Option.map_eq_some_iff.1 hp
  obtain ⟨t, ht, rfl⟩ := Option.map_eq_some_iff.1 hq
  rw [sequence?_eq_some_iff.1 hs, sequence?_eq_some_iff.1 ht] at hxy
  exact lt_of_key_lt hxy

/-- The records of a bucket by their sequence numbers. -/
def contents (b : Bucket) (k : Keyspace) : OrderedMap UInt64 Bytes where
  entries := k.entries.filterMap fun e => (b.sequence? e.1).map (·, e.2)
  ascending := b.ascending_records k

theorem get?_contents (b : Bucket) (k : Keyspace) (s : UInt64) : (b.contents k).get? s = b.get? k s := by
  apply Option.ext
  intro v
  rw [Bucket.get?, OrderedMap.get?_eq_some_iff, OrderedMap.get?_eq_some_iff]
  constructor
  · intro h
    obtain ⟨e, he, hs⟩ := List.mem_filterMap.1 h
    obtain ⟨t, ht, hp⟩ := Option.map_eq_some_iff.1 hs
    obtain ⟨rfl, rfl⟩ := Prod.mk.inj hp
    rw [← sequence?_eq_some_iff.1 ht]
    exact he
  · intro h
    exact List.mem_filterMap.2 ⟨_, h, by rw [sequence?_key]; rfl⟩

theorem read_eq_none_iff {α : Type} {b : Bucket} {k : Keyspace} {value : Binary.Reader α} {s : UInt64} :
    b.read k value s = .ok none ↔ b.get? k s = none := by
  unfold read
  dsimp only
  split
  · next h => exact ⟨fun _ => h, fun _ => rfl⟩
  · next h =>
    rw [h]
    split <;> exact ⟨nofun, nofun⟩

theorem sequences_eq (b : Bucket) (k : Keyspace) : b.sequences k = (b.contents k).keys := by
  simp only [sequences, OrderedMap.keys, contents, List.filterMap_map, List.map_filterMap]
  congr 1
  funext e
  simp [Function.comp_def]

/-- The numbers of a bucket are those under which there is a record. -/
theorem mem_sequences {b : Bucket} {k : Keyspace} {s : UInt64} : s ∈ b.sequences k ↔ (b.get? k s).isSome := by
  rw [sequences_eq, OrderedMap.mem_keys_iff, get?_contents]

theorem read_ne_none {α : Type} {b : Bucket} {k : Keyspace} {s : UInt64} (h : s ∈ b.sequences k) (value : Binary.Reader α) :
    b.read k value s ≠ .ok none := by
  intro hread
  rw [mem_sequences, read_eq_none_iff.1 hread] at h
  cases h

theorem sequences_ascending (b : Bucket) (k : Keyspace) : (b.sequences k).Pairwise (· < ·) := by
  rw [sequences_eq]
  exact OrderedMap.keys_ascending _

/-! ## What the operations do -/

theorem contents_put (b : Bucket) (k : Keyspace) (s : UInt64) (v : Bytes) :
    b.contents (b.put k s v) = (b.contents k).insert s v := by
  apply OrderedMap.ext_get?
  intro t
  rw [get?_contents, Bucket.get?, put, OrderedMap.get?_insert, OrderedMap.get?_insert, get?_contents, Bucket.get?]
  simp only [key_inj]

theorem contents_delete (b : Bucket) (k : Keyspace) (s : UInt64) :
    b.contents (b.delete k s) = (b.contents k).erase s := by
  apply OrderedMap.ext_get?
  intro t
  rw [get?_contents, Bucket.get?, delete, OrderedMap.get?_erase, OrderedMap.get?_erase, get?_contents, Bucket.get?]
  simp only [key_inj]

theorem contents_put_other {b c : Bucket} (h : b.name ≠ c.name) (k : Keyspace) (s : UInt64) (v : Bytes) :
    b.contents (c.put k s v) = b.contents k := by
  apply OrderedMap.ext_get?
  intro t
  rw [get?_contents, get?_contents, Bucket.get?, put, OrderedMap.get?_insert, if_neg (key_ne_key h t s)]
  rfl

theorem contents_delete_other {b c : Bucket} (h : b.name ≠ c.name) (k : Keyspace) (s : UInt64) :
    b.contents (c.delete k s) = b.contents k := by
  apply OrderedMap.ext_get?
  intro t
  rw [get?_contents, get?_contents, Bucket.get?, delete, OrderedMap.get?_erase, if_neg (key_ne_key h t s)]
  rfl

theorem contents_foldl_delete (b : Bucket) (k : Keyspace) (seqs : List UInt64) :
    b.contents (seqs.foldl b.delete k) = seqs.foldl OrderedMap.erase (b.contents k) := by
  induction seqs generalizing k with
  | nil => rfl
  | cons s seqs ih => rw [List.foldl_cons, ih, contents_delete, List.foldl_cons]

theorem contents_clear (b : Bucket) (k : Keyspace) : b.contents (b.clear k).2 = .empty := by
  apply OrderedMap.ext_get?
  intro t
  rw [clear, contents_foldl_delete, OrderedMap.get?_foldl_erase, OrderedMap.get?_empty, sequences_eq]
  split
  · rfl
  · next h => exact Option.not_isSome_iff_eq_none.1 fun hs => h (OrderedMap.mem_keys_iff.2 hs)

theorem contents_clear_other {b c : Bucket} (h : b.name ≠ c.name) (k : Keyspace) :
    b.contents (c.clear k).2 = b.contents k := by
  have hfold (seqs : List UInt64) : b.contents (seqs.foldl c.delete k) = b.contents k := by
    induction seqs generalizing k with
    | nil => rfl
    | cons s seqs ih => rw [List.foldl_cons, ih, contents_delete_other h]
  exact hfold _

end PubSub.Bucket
