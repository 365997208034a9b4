import PubSub.Proofs.Bucket
/-!
# Buckets in use side by side

Any number of buckets are used in turn over one keyspace, which may hold keys of no bucket as well.
What is done with one of them (`Bucket.access`) has a counterpart on a map from sequence numbers to
records (`Access.alone`). A run over the keyspace answers each bucket as a run of its own calls alone
on such a map does, and ends with that map as its records.
-/

namespace PubSub

variable {α : Type}

/-- What can be done with the records of a bucket. -/
inductive Access (α : Type) where
  | put (seq : UInt64) (record : Bytes)
  | get (seq : UInt64) (value : Binary.Reader α)
  | delete (seq : UInt64)
  | sequences
  | clear

/-- What comes of it. -/
inductive Found (α : Type) where
  | done
  | value (v : Except StoreError (Option α))
  | numbers (seqs : List UInt64)
  | cleared (count : Nat)
  deriving DecidableEq

namespace Access

/-- The value of what was found under a number. -/
def valueOf (value : Binary.Reader α) : Option Bytes → Except StoreError (Option α)
  | none => .ok none
  | some bytes =>
    match Binary.decode value bytes with
    | .ok v => .ok (some v)
    | .error f => .error (.notDecoded (Bucket.faultText f))

/-- One call on a map of its own. -/
def alone (m : OrderedMap UInt64 Bytes) : Access α → Found α × OrderedMap UInt64 Bytes
  | put s record => (.done, m.insert s record)
  | get s value => (.value (valueOf value (m.get? s)), m)
  | delete s => (.done, m.erase s)
  | sequences => (.numbers m.keys, m)
  | clear => (.cleared m.size, .empty)

/-- Calls one after the other on a map of their own. -/
def allAlone : OrderedMap UInt64 Bytes → List (Access α) → List (Found α) × OrderedMap UInt64 Bytes
  | m, [] => ([], m)
  | m, a :: calls =>
    let (found, m) := a.alone m
    let (founds, m) := allAlone m calls
    (found :: founds, m)

end Access

namespace Bucket

/-- One call on a bucket. -/
def access (b : Bucket) (k : Keyspace) : Access α → Found α × Keyspace
  | .put s record => (.done, b.put k s record)
  | .get s value => (.value (b.read k value s), k)
  | .delete s => (.done, b.delete k s)
  | .sequences => (.numbers (b.sequences k), k)
  | .clear => let (count, k) := b.clear k; (.cleared count, k)

/-- Calls on any buckets one after the other, with the bucket beside each answer. -/
def accesses : Keyspace → List (Bucket × Access α) → List (Bucket × Found α) × Keyspace
  | k, [] => ([], k)
  | k, (b, a) :: calls =>
    let (found, k) := b.access k a
    let (founds, k) := accesses k calls
    ((b, found) :: founds, k)

/-- What concerns one bucket. -/
def addressed {γ : Type} (b : Bucket) (xs : List (Bucket × γ)) : List γ :=
  xs.filterMap fun x => if x.1 = b then some x.2 else none

theorem addressed_own {γ : Type} (b : Bucket) (x : γ) (xs : List (Bucket × γ)) :
    b.addressed ((b, x) :: xs) = x :: b.addressed xs :=
  List.filterMap_cons_some (if_pos rfl)

theorem addressed_other {γ : Type} {b c : Bucket} (h : c ≠ b) (x : γ) (xs : List (Bucket × γ)) :
    b.addressed ((c, x) :: xs) = b.addressed xs :=
  List.filterMap_cons_none (if_neg h)

/-! ## One call -/

theorem read_eq (b : Bucket) (k : Keyspace) (value : Binary.Reader α) (s : UInt64) :
    b.read k value s = Access.valueOf value ((b.contents k).get? s) := by
  rw [get?_contents, Bucket.read]
  cases b.get? k s <;> rfl

theorem count_clear (b : Bucket) (k : Keyspace) : (b.clear k).1 = (b.contents k).size := by
  rw [clear, sequences_eq, OrderedMap.keys, List.length_map]
  rfl

/-- A call on a bucket is the call on its records. -/
theorem access_own (b : Bucket) (k : Keyspace) (a : Access α) :
    (b.access k a).1 = (a.alone (b.contents k)).1 ∧ b.contents (b.access k a).2 = (a.alone (b.contents k)).2 := by
  cases a with
  | put s record => exact ⟨rfl, b.contents_put k s record⟩
  | get s value => exact ⟨congrArg Found.value (b.read_eq k value s), rfl⟩
  | delete s => exact ⟨rfl, b.contents_delete k s⟩
  | sequences => exact ⟨congrArg Found.numbers (b.sequences_eq k), rfl⟩
  | clear => exact ⟨congrArg Found.cleared (b.count_clear k), b.contents_clear k⟩

/-- A call on one bucket is none on the records of another. -/
theorem access_other {b c : Bucket} (h : c ≠ b) (k : Keyspace) (a : Access α) :
    b.contents (c.access k a).2 = b.contents k := by
  have hname : b.name ≠ c.name := fun e => h (b.eq_of_name e.symm)
  cases a with
  | put s record => exact contents_put_other hname k s record
  | delete s => exact contents_delete_other hname k s
  | clear => exact contents_clear_other hname k
  | get | sequences => rfl

theorem ne_key_of_sequence? {b : Bucket} {key : Bytes} (h : b.sequence? key = none) (s : UInt64) : key ≠ b.key s :=
  fun e => by rw [sequence?_eq_some_iff.2 e] at h; cases h

theorem get?_foldl_delete {b : Bucket} {key : Bytes} (h : b.sequence? key = none) (k : Keyspace) (seqs : List UInt64) :
    OrderedMap.get? (seqs.foldl b.delete k) key = OrderedMap.get? k key := by
  induction seqs generalizing k with
  | nil => rfl
  | cons s seqs ih =>
    rw [List.foldl_cons, ih, delete, OrderedMap.get?_erase, if_neg (ne_key_of_sequence? h s)]

/-- A key that is none of the bucket's stays as it is. -/
theorem get?_access {b : Bucket} {key : Bytes} (h : b.sequence? key = none) (k : Keyspace) (a : Access α) :
    OrderedMap.get? (b.access k a).2 key = OrderedMap.get? k key := by
  cases a with
  | put s record => exact (OrderedMap.get?_insert _ _ _ _).trans (if_neg (ne_key_of_sequence? h s))
  | delete s => exact (OrderedMap.get?_erase _ _ _).trans (if_neg (ne_key_of_sequence? h s))
  | clear => exact get?_foldl_delete h k _
  | get | sequences => rfl

/-! ## Many calls -/

/-- Each bucket has the answers and the records of its own calls. -/
theorem accesses_alone (b : Bucket) (k : Keyspace) (calls : List (Bucket × Access α)) :
    b.addressed (accesses k calls).1 = (Access.allAlone (b.contents k) (b.addressed calls)).1 ∧
      b.contents (accesses k calls).2 = (Access.allAlone (b.contents k) (b.addressed calls)).2 := by
  induction calls generalizing k with
  | nil => exact ⟨rfl, rfl⟩
  | cons call calls ih =>
    obtain ⟨c, a⟩ := call
    obtain ⟨hfounds, hrecords⟩ := ih (c.access k a).2
    by_cases hc : c = b
    · subst hc
      obtain ⟨hfound, hrecord⟩ := c.access_own k a
      rw [hrecord] at hfounds hrecords
      rw [addressed_own]
      exact ⟨(addressed_own _ _ _).trans (congr (congrArg _ hfound) hfounds), hrecords⟩
    · rw [access_other hc] at hfounds hrecords
      rw [addressed_other hc]
      exact ⟨(addressed_other hc _ _).trans hfounds, hrecords⟩

theorem get?_accesses {key : Bytes} {calls : List (Bucket × Access α)}
    (h : ∀ call ∈ calls, call.1.sequence? key = none) (k : Keyspace) :
    OrderedMap.get? (accesses k calls).2 key = OrderedMap.get? k key := by
  induction calls generalizing k with
  | nil => rfl
  | cons call calls ih =>
    obtain ⟨hcall, hcalls⟩ := List.forall_mem_cons.1 h
    exact (ih hcalls _).trans (get?_access hcall k call.2)

/-! ## Buckets as maps -/

theorem sequence?_eq_none_iff {b : Bucket} {key : Bytes} :
    b.sequence? key = none ↔ ∀ tail : Bytes, tail.length = 8 → key ≠ Text.bytes b.name ++ 0 :: tail := by
  have hstart (tail : Bytes) : Text.bytes b.name ++ 0 :: tail = b.start ++ tail := by simp [start]
  simp only [hstart]
  constructor
  · rintro h tail hlen rfl
    have hrest : b.keyRest? (b.start ++ tail) = some tail := isPrefixOf?_eq_some_iff.2 rfl
    rw [sequence?, hrest, Option.bind_some, if_pos hlen] at h
    cases h
  · intro h
    refine Option.eq_none_iff_forall_ne_some.2 fun s hs => h (sequenceBytes s) (length_sequenceBytes s) ?_
    exact sequence?_eq_some_iff.1 hs

theorem ofName_iff (name : String) : (∃ b, ofName name = .ok b ∧ b.name = name) ↔ name ≠ "" ∧ '\x00' ∉ name.toList := by
  have husable : usableName name = true ↔ name ≠ "" ∧ '\x00' ∉ name.toList := decide_eq_true_iff
  rw [← husable, ofName]
  constructor
  · rintro ⟨b, -, rfl⟩
    exact b.usable
  · intro h
    exact ⟨⟨name, h⟩, dif_pos h, rfl⟩

/-- Every usable name has a map of its own in the keyspace, whatever else the keyspace holds: what
is asked of one bucket is answered as from its own map, whatever is done with the others meanwhile,
and a key that is not of the form of the names used is never touched. -/
theorem map_of_its_own (k : Keyspace) (calls : List (Bucket × Access α)) :
    (∀ name, (∃ b, ofName name = .ok b ∧ b.name = name) ↔ name ≠ "" ∧ '\x00' ∉ name.toList) ∧
    (∀ (b : Bucket) s, (b.contents k).get? s = OrderedMap.get? k (Text.bytes b.name ++ 0 :: sequenceBytes s)) ∧
    (∀ b : Bucket, b.addressed (accesses k calls).1 = (Access.allAlone (b.contents k) (b.addressed calls)).1 ∧
      b.contents (accesses k calls).2 = (Access.allAlone (b.contents k) (b.addressed calls)).2) ∧
    (∀ b : Bucket, (b.sequences k).Pairwise (· < ·) ∧ (∀ s, s ∈ b.sequences k ↔ (b.get? k s).isSome) ∧
      (b.clear k).1 = (b.sequences k).length ∧ ∀ s, b.get? (b.clear k).2 s = none) ∧
    (∀ key, (∀ call ∈ calls, ∀ tail : Bytes, tail.length = 8 → key ≠ Text.bytes call.1.name ++ 0 :: tail) →
      OrderedMap.get? (accesses k calls).2 key = OrderedMap.get? k key) := by
  refine ⟨ofName_iff, fun b s => ?_, fun b => b.accesses_alone k calls,
    fun b => ⟨b.sequences_ascending k, fun s => ?_, rfl, fun s => ?_⟩, fun key h => ?_⟩
  · rw [get?_contents, Bucket.get?, Bucket.key, start, List.append_assoc]
    rfl
  · rw [sequences_eq, OrderedMap.mem_keys_iff, get?_contents]
  · rw [← get?_contents, contents_clear, OrderedMap.get?_empty]
  · exact get?_accesses (fun call hcall => sequence?_eq_none_iff.2 (h call hcall)) k

/-- A name at the start of another, over a keyspace with a key too short for the one: clearing the
one leaves the other and the short key. -/
theorem map_of_its_own_beside_longer_name :
    ∃ (a ab : Bucket) (k : Keyspace) (calls : List (Bucket × Access Bytes)), a.name = "a" ∧ ab.name = "ab" ∧
      calls = [(a, .put 300 [1]), (a, .put 2 [2]), (ab, .put 1 [3]), (a, .sequences), (a, .clear), (ab, .sequences)] ∧
      a.addressed (accesses k calls).1 = [.done, .done, .numbers [2, 300], .cleared 2] ∧
      ab.addressed (accesses k calls).1 = [.done, .numbers [1]] ∧
      OrderedMap.get? (accesses k calls).2 [97, 0, 1] = some [7] := by
  let a : Bucket := ⟨"a", by decide⟩
  let ab : Bucket := ⟨"ab", by decide⟩
  let k : Keyspace := OrderedMap.empty.insert [97, 0, 1] [7]
  let calls : List (Bucket × Access Bytes) :=
    [(a, .put 300 [1]), (a, .put 2 [2]), (ab, .put 1 [3]), (a, .sequences), (a, .clear), (ab, .sequences)]
  obtain ⟨-, -, hown, -, hkey⟩ := map_of_its_own k calls
  refine ⟨a, ab, k, calls, rfl, rfl, rfl, (hown a).1.trans (by decide), (hown ab).1.trans (by decide), ?_⟩
  refine (hkey [97, 0, 1] fun call _ tail htail he => ?_).trans (by decide)
  -- The key is shorter than any of a bucket.
  have hlen := congrArg List.length he
  simp only [List.length_append, List.length_cons, List.length_nil, htail] at hlen
  omega

end Bucket

end PubSub
