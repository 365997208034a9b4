import PubSub.Data.OrderedMap
/-!
# Ordered maps by what they look up

An entry is in a map just when looking up its key finds it, so a map is determined by its look-ups:
two ways to build a map agree when every key finds the same.
-/

namespace PubSub.OrderedMap

variable {α β : Type} [LT α]

theorem keys_ascending (m : OrderedMap α β) : m.keys.Pairwise (· < ·) := List.pairwise_map.2 m.ascending

theorem eq_empty_iff {m : OrderedMap α β} : m = .empty ↔ m.size = 0 :=
  ⟨fun h => h ▸ rfl, fun h => ext' (List.eq_nil_of_length_eq_zero h)⟩

theorem nodup_of_ascending {γ : Type} [KeyOrder α] (f : γ → α) {xs : List γ}
    (h : xs.Pairwise (fun a b => f a < f b)) : xs.Nodup :=
  h.imp fun hab he => absurd (he ▸ hab) (KeyOrder.irrefl _)

/-- Ascending lists of the same members are the same. -/
theorem eq_of_ascending {γ : Type} [KeyOrder α] (f : γ → α) {xs ys : List γ} (hx : xs.Pairwise fun a b => f a < f b)
    (hy : ys.Pairwise fun a b => f a < f b) (h : ∀ e, e ∈ xs ↔ e ∈ ys) : xs = ys := by
  have hperm : xs.Perm ys := (List.perm_ext_iff_of_nodup (nodup_of_ascending f hx) (nodup_of_ascending f hy)).2 h
  refine hperm.eq_of_pairwise (fun a b _ _ hab hba => ?_) hx hy
  exact absurd (KeyOrder.trans hab hba) (KeyOrder.irrefl _)

section Lookup
variable [DecidableEq α]

/-- What is left when many keys are erased. -/
theorem get?_foldl_erase (ks : List α) (m : OrderedMap α β) (x : α) :
    (ks.foldl OrderedMap.erase m).get? x = if x ∈ ks then none else m.get? x := by
  induction ks generalizing m with
  | nil => simp
  | cons k ks ih =>
    rw [List.foldl_cons, ih, get?_erase]
    by_cases hx : x = k <;> simp [hx]

theorem entries_erase (m : OrderedMap α β) (k : α) : (m.erase k).entries = m.entries.filter (fun e => e.1 ≠ k) :=
  rfl

variable [KeyOrder α]

theorem lookup_eq_some_iff {es : List (α × β)} (h : es.Pairwise (fun a b => a.1 < b.1)) {k : α} {v : β} :
    es.lookup k = some v ↔ (k, v) ∈ es := by
  induction es with
  | nil => simp
  | cons e es ih =>
    obtain ⟨he, hes⟩ := List.pairwise_cons.1 h
    rw [lookup_cons_if, List.mem_cons]
    split
    · next hk =>
      -- Every later key is greater, so `e` is the only entry at `k`.
      have hlater : (e.1, v) ∉ es := fun hm => KeyOrder.irrefl e.1 (he (e.1, v) hm)
      simp [hlater, Prod.ext_iff, hk, eq_comm]
    · next hk =>
      rw [ih hes]
      simp [Prod.ext_iff, hk]

theorem get?_eq_some_iff {m : OrderedMap α β} {k : α} {v : β} : m.get? k = some v ↔ (k, v) ∈ m.entries :=
  lookup_eq_some_iff m.ascending

theorem mem_keys_iff {m : OrderedMap α β} {k : α} : k ∈ m.keys ↔ (m.get? k).isSome := by
  simp only [keys, List.mem_map, Option.isSome_iff_exists, get?_eq_some_iff]
  exact ⟨fun ⟨e, he, hk⟩ => ⟨e.2, hk ▸ he⟩, fun ⟨v, hv⟩ => ⟨(k, v), hv, rfl⟩⟩

theorem get?_filter (m : OrderedMap α β) (p : α → Bool) (k : α) :
    (m.filter fun k _ => p k).get? k = if p k then m.get? k else none := by
  apply Option.ext
  intro v
  rw [get?_eq_some_iff, filter, List.mem_filter, ← get?_eq_some_iff]
  cases p k <;> simp

/-- Maps that look up the same are the same. -/
theorem ext_get? {m n : OrderedMap α β} (h : ∀ k, m.get? k = n.get? k) : m = n := by
  refine ext' (eq_of_ascending (·.1) m.ascending n.ascending ?_)
  rintro ⟨k, v⟩
  rw [← get?_eq_some_iff, ← get?_eq_some_iff, h k]

/-- Maps that find something under the same keys have the same keys. -/
theorem keys_congr {γ : Type} {m : OrderedMap α β} {n : OrderedMap α γ} (h : ∀ k, (m.get? k).isSome = (n.get? k).isSome) :
    m.keys = n.keys := by
  refine eq_of_ascending id m.keys_ascending n.keys_ascending fun k => ?_
  rw [mem_keys_iff, mem_keys_iff, h k]

end Lookup

variable [DecidableEq α] [DecidableLT α]

/-- Erasing takes away no more than was inserted. -/
theorem erase_insert [KeyOrder α] {m : OrderedMap α β} {k : α} (h : m.get? k = none) (v : β) :
    (m.insert k v).erase k = m := by
  refine ext_get? fun x => ?_
  rw [get?_erase]
  split
  · next hx => rw [hx, h]
  · next hx => rw [get?_insert, if_neg hx]

/-! ## How many entries there are -/

section Size
variable [KeyOrder α]

theorem length_insertEntry (k : α) (v : β) {es : List (α × β)} (h : es.Pairwise (fun a b => a.1 < b.1)) :
    (insertEntry k v es).length = if (es.lookup k).isSome then es.length else es.length + 1 := by
  induction es with
  | nil => rfl
  | cons e es ih =>
    obtain ⟨hfirst, hrest⟩ := List.pairwise_cons.1 h
    rw [insertEntry, lookup_cons_if]
    split
    · rfl
    · split
      · next hlt =>
        -- All later keys are greater still, so the key is nowhere.
        have hnone : es.lookup k = none := List.lookup_eq_none_iff.2 fun d hd => by
          have hne : k ≠ d.1 := by
            rintro rfl
            exact KeyOrder.irrefl d.1 (KeyOrder.trans hlt (hfirst d hd))
          simpa using hne
        rw [hnone]
        rfl
      · rw [List.length_cons, ih hrest, List.length_cons]
        split <;> rfl

theorem size_insert (m : OrderedMap α β) (k : α) (v : β) :
    (m.insert k v).size = if (m.get? k).isSome then m.size else m.size + 1 :=
  length_insertEntry k v m.ascending

theorem size_erase (m : OrderedMap α β) (k : α) :
    (m.erase k).size = if (m.get? k).isSome then m.size - 1 else m.size := by
  cases hk : m.get? k with
  | none =>
    have hsame : m.erase k = m := ext_get? fun x => by
      rw [get?_erase]
      split
      · next hx => rw [hx, hk]
      · rfl
    rw [hsame]
    rfl
  | some v =>
    -- Putting the entry back gives the map as it was.
    have hback : (m.erase k).insert k v = m := ext_get? fun x => by
      rw [get?_insert, get?_erase]
      split
      · next hx => rw [hx, hk]
      · rfl
    have hsize := size_insert (m.erase k) k v
    rw [hback, get?_erase, if_pos rfl] at hsize
    rw [hsize]
    rfl

end Size

/-! ## Adding at the end -/

theorem insertEntry_last {k : α} {v : β} {es : List (α × β)} (h : ∀ e ∈ es, ¬ k = e.1 ∧ ¬ k < e.1) :
    insertEntry k v es = es ++ [(k, v)] := by
  induction es with
  | nil => rfl
  | cons e es ih =>
    obtain ⟨hne, hnlt⟩ := h e List.mem_cons_self
    rw [insertEntry, if_neg hne, if_neg hnlt, ih fun d hd => h d (List.mem_cons_of_mem e hd)]
    rfl

/-- A key above all others goes last. -/
theorem entries_insert_last [KeyOrder α] {m : OrderedMap α β} {k : α} (v : β) (h : ∀ e ∈ m.entries, e.1 < k) :
    (m.insert k v).entries = m.entries ++ [(k, v)] := by
  refine insertEntry_last fun e he => ⟨fun hk => ?_, fun hlt => ?_⟩
  · exact KeyOrder.irrefl e.1 (hk ▸ h e he)
  · exact KeyOrder.irrefl e.1 (KeyOrder.trans (h e he) hlt)

/-! ## Inserting many -/

section Many
variable [KeyOrder α]

/-- What is found when many are inserted: the last that came under the key, or what was there. -/
theorem get?_foldl_insert {γ : Type} (key : γ → α) (value : γ → β) (xs : List γ) (m : OrderedMap α β)
    (k : α) : (xs.foldl (fun m x => m.insert (key x) (value x)) m).get? k =
      ((xs.filter fun x => key x = k).getLast?.map value).or (m.get? k) := by
  induction xs generalizing m with
  | nil => rfl
  | cons x xs ih =>
    rw [List.foldl_cons, ih, get?_insert]
    by_cases hk : key x = k
    · rw [if_pos hk.symm, List.filter_cons, if_pos (decide_eq_true hk), List.getLast?_cons]
      cases (xs.filter fun x => key x = k).getLast? <;> rfl
    · rw [if_neg (Ne.symm hk), List.filter_cons, if_neg (by simpa using hk)]

/-- A map's entries, in any order, put into one that has no other keys make the map. -/
theorem foldl_insert_of_perm {m old : OrderedMap α β} {es : List (α × β)} (h : es.Perm m.entries)
    (hold : ∀ k, (old.get? k).isSome → (m.get? k).isSome) : es.foldl (fun m e => m.insert e.1 e.2) old = m := by
  refine ext_get? fun k => ?_
  rw [get?_foldl_insert Prod.fst Prod.snd]
  cases hlast : (es.filter fun e => e.1 = k).getLast? with
  | some e =>
    obtain ⟨hmem, hkey⟩ := List.mem_filter.1 (List.mem_of_getLast? hlast)
    obtain rfl : e.1 = k := by simpa using hkey
    exact (get?_eq_some_iff.2 (h.subset hmem)).symm
  | none =>
    -- No entry is under this key, so the old map has none either.
    have hnone : m.get? k = none := by
      refine Option.eq_none_iff_forall_ne_some.2 fun v hv => ?_
      have hmem := h.symm.subset (get?_eq_some_iff.1 hv)
      simpa using List.filter_eq_nil_iff.1 (List.getLast?_eq_none_iff.1 hlast) _ hmem
    rw [hnone]
    exact Option.not_isSome_iff_eq_none.1 fun hsome => by simpa [hnone] using hold k hsome

/-- A map is the one that its entries make, in any order. -/
theorem ofList_of_perm {m : OrderedMap α β} {es : List (α × β)} (h : es.Perm m.entries) : ofList es = m := by
  refine foldl_insert_of_perm h fun k hk => ?_
  rw [get?_empty] at hk
  cases hk

end Many

end PubSub.OrderedMap
