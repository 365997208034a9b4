/-!
# Ordered maps

A finite map held as its entries in ascending key order, each key once. Two maps with the same
entries are equal, so a map is determined by what it looks up. Every operation is described by
what `get?` answers afterwards.
-/

namespace PubSub

/-- Any two different keys come one before the other. -/
class KeyOrder (α : Type) [LT α] : Prop where
  irrefl (a : α) : ¬ a < a
  trans {a b c : α} : a < b → b < c → a < c
  connected {a b : α} : a ≠ b → a < b ∨ b < a

instance : KeyOrder UInt64 where
  irrefl := UInt64.lt_irrefl
  trans := UInt64.lt_trans
  connected h := by
    rcases Nat.lt_or_gt_of_ne (fun e => h (UInt64.toNat_inj.1 e)) with h | h
    · exact .inl (UInt64.lt_iff_toNat_lt.2 h)
    · exact .inr (UInt64.lt_iff_toNat_lt.2 h)

instance : KeyOrder String where
  irrefl := String.lt_irrefl
  trans := String.lt_trans
  connected {a b} h := by
    by_cases hl : a < b
    · exact .inl hl
    · by_cases hr : b < a
      · exact .inr hr
      · exact absurd (Std.Trichotomous.trichotomous (r := (· < ·)) a b hl hr) h

instance : KeyOrder (List UInt8) where
  irrefl := List.lt_irrefl
  trans := List.lt_trans
  connected {a b} h := by
    by_cases hl : a < b
    · exact .inl hl
    · by_cases hr : b < a
      · exact .inr hr
      · exact absurd (Std.Trichotomous.trichotomous (r := (· < ·)) a b hl hr) h

/-- A finite map as its entries in ascending key order. -/
structure OrderedMap (α β : Type) [LT α] where
  entries : List (α × β)
  ascending : entries.Pairwise (fun a b => a.1 < b.1)

namespace OrderedMap

variable {α β : Type} [LT α]

/-- Equal entries make equal maps. -/
theorem ext' {m n : OrderedMap α β} (h : m.entries = n.entries) : m = n := by
  cases m; cases n; simp_all

instance [DecidableEq α] [DecidableEq β] : DecidableEq (OrderedMap α β) := fun m n =>
  if h : m.entries = n.entries then isTrue (ext' h) else isFalse fun e => h (e ▸ rfl)

def empty : OrderedMap α β := ⟨[], .nil⟩

instance : Inhabited (OrderedMap α β) := ⟨empty⟩

def keys (m : OrderedMap α β) : List α := m.entries.map (·.1)

def size (m : OrderedMap α β) : Nat := m.entries.length

def isEmpty (m : OrderedMap α β) : Bool := m.entries.isEmpty

section Lookup
variable [DecidableEq α]

def get? (m : OrderedMap α β) (k : α) : Option β := m.entries.lookup k

def contains (m : OrderedMap α β) (k : α) : Bool := (m.get? k).isSome

end Lookup

/-! ## Changing a map -/

/-- The entries with those at `k` gone. -/
def eraseEntry [DecidableEq α] (k : α) (es : List (α × β)) : List (α × β) :=
  es.filter (fun e => e.1 ≠ k)

def erase [DecidableEq α] (m : OrderedMap α β) (k : α) : OrderedMap α β :=
  ⟨eraseEntry k m.entries, m.ascending.filter _⟩

/-- The entries that satisfy a test of key and value. -/
def filter (m : OrderedMap α β) (p : α → β → Bool) : OrderedMap α β :=
  ⟨m.entries.filter (fun e => p e.1 e.2), m.ascending.filter _⟩

variable [DecidableEq α] [DecidableLT α]

/-- The entries with `k` bound to `v` at its place in the order. -/
def insertEntry (k : α) (v : β) : List (α × β) → List (α × β)
  | [] => [(k, v)]
  | e :: es =>
    if k = e.1 then (k, v) :: es
    else if k < e.1 then (k, v) :: e :: es
    else e :: insertEntry k v es

theorem mem_insertEntry {k : α} {v : β} {es : List (α × β)} {e : α × β} (h : e ∈ insertEntry k v es) :
    e = (k, v) ∨ e ∈ es := by
  induction es with
  | nil => simpa [insertEntry] using h
  | cons d es ih =>
    unfold insertEntry at h
    split at h
    · simp at h ⊢; rcases h with h | h <;> simp [h]
    · split at h
      · simpa using h
      · rcases List.mem_cons.1 h with h | h
        · simp [h]
        · rcases ih h with h | h <;> simp [h]

theorem ascending_insertEntry [KeyOrder α] (k : α) (v : β) {es : List (α × β)}
    (h : es.Pairwise (fun a b => a.1 < b.1)) :
    (insertEntry k v es).Pairwise (fun a b => a.1 < b.1) := by
  induction es with
  | nil => simp [insertEntry]
  | cons d es ih =>
    have ⟨hd, hes⟩ := List.pairwise_cons.1 h
    unfold insertEntry
    split
    · next he => exact List.pairwise_cons.2 ⟨fun b hb => he ▸ hd b hb, hes⟩
    · split
      · next hlt =>
        refine List.pairwise_cons.2 ⟨fun b hb => ?_, h⟩
        rcases List.mem_cons.1 hb with rfl | hb
        · exact hlt
        · exact KeyOrder.trans hlt (hd b hb)
      · next hne hnlt =>
        refine List.pairwise_cons.2 ⟨fun b hb => ?_, ih hes⟩
        rcases mem_insertEntry hb with rfl | hb
        · exact (KeyOrder.connected hne).resolve_left hnlt
        · exact hd b hb

variable [KeyOrder α]

def insert (m : OrderedMap α β) (k : α) (v : β) : OrderedMap α β :=
  ⟨insertEntry k v m.entries, ascending_insertEntry k v m.ascending⟩

/-- Later entries replace earlier ones under the same key. -/
def ofList (es : List (α × β)) : OrderedMap α β :=
  es.foldl (fun m e => m.insert e.1 e.2) empty

/-! ## What is found afterwards -/

omit [DecidableLT α] [KeyOrder α] in
theorem get?_empty (k : α) : (empty : OrderedMap α β).get? k = none := rfl

omit [LT α] [DecidableLT α] [KeyOrder α] in
theorem lookup_cons_if (e : α × β) (es : List (α × β)) (x : α) :
    (e :: es).lookup x = if x = e.1 then some e.2 else es.lookup x := by
  obtain ⟨a, b⟩ := e
  by_cases h : x = a
  · simp [h]
  · simp [List.lookup_cons, h, beq_eq_false_iff_ne.2 h]

omit [KeyOrder α] in
theorem lookup_insertEntry (k : α) (v : β) (es : List (α × β)) (x : α) :
    (insertEntry k v es).lookup x = if x = k then some v else es.lookup x := by
  induction es with
  | nil => simp [insertEntry, lookup_cons_if]
  | cons d es ih => unfold insertEntry; split <;> (try split) <;> simp only [lookup_cons_if] <;> grind

theorem get?_insert (m : OrderedMap α β) (k : α) (v : β) (x : α) :
    (m.insert k v).get? x = if x = k then some v else m.get? x :=
  lookup_insertEntry k v m.entries x

omit [DecidableLT α] [KeyOrder α] in
theorem get?_erase (m : OrderedMap α β) (k x : α) :
    (m.erase k).get? x = if x = k then none else m.get? x := by
  obtain ⟨es, h⟩ := m
  show (eraseEntry k es).lookup x = if x = k then none else es.lookup x
  clear h
  induction es with
  | nil => simp [eraseEntry]
  | cons d es ih =>
    by_cases hd : d.1 = k
    · rw [show eraseEntry k (d :: es) = eraseEntry k es by simp [eraseEntry, hd]]
      rw [lookup_cons_if]; grind
    · rw [show eraseEntry k (d :: es) = d :: eraseEntry k es by simp [eraseEntry, hd]]
      rw [lookup_cons_if, lookup_cons_if]; grind

end OrderedMap

end PubSub
