import PubSub.Proofs.Matching
/-!
# The trie is a map of filters

A trie keeps of a filter what comes up to its first `#`, and two filters share a place just when that is
the same text (`canonical_eq_iff`). So a trie is a map from such texts: after any changes it has as many
filters as the map that the same changes make, finds the same of them, and a topic gets the service of each
entry that covers it, once (`Trie.refines_map`).
-/

namespace PubSub.Topic

/-! ## One place for one filter -/

/-- The levels up to the first `#`, which covers whatever comes after it. -/
def upToHash : List Level → List Level
  | [] => []
  | l :: rest => if l = ['#'] then [l] else l :: upToHash rest

/-- A filter without what comes after its first `#`. -/
def canonical (filter : String) : String := String.ofList (['/'].intercalate (upToHash (levels filter)))

theorem mem_of_mem_upToHash {l : Level} {ls : List Level} (h : l ∈ upToHash ls) : l ∈ ls := by
  induction ls with
  | nil => exact h
  | cons k ls ih =>
    rw [upToHash] at h
    split at h
    · exact List.mem_cons.2 (.inl (List.mem_singleton.1 h))
    · rcases List.mem_cons.1 h with rfl | h
      · exact List.mem_cons_self
      · exact List.mem_cons_of_mem k (ih h)

theorem upToHash_ne_nil {ls : List Level} (h : ls ≠ []) : upToHash ls ≠ [] := by
  cases ls with
  | nil => exact absurd rfl h
  | cons l ls =>
    rw [upToHash]
    split <;> exact List.cons_ne_nil _ _

theorem slash_notMem_level {s : String} {l : Level} (h : l ∈ levels s) : '/' ∉ l := by
  unfold levels at h
  generalize s.toList = cs at h
  induction cs generalizing l with
  | nil =>
    rw [List.splitOn_nil, List.mem_singleton] at h
    rw [h]
    exact List.not_mem_nil
  | cons c cs ih =>
    rw [List.splitOn_cons_eq_if_modifyHead] at h
    split at h
    · rcases List.mem_cons.1 h with rfl | h
      · exact List.not_mem_nil
      · exact ih h
    · next hc =>
      -- The character goes to the first level and is no slash.
      cases hcs : cs.splitOn '/' with
      | nil => exact absurd hcs (List.splitOn_ne_nil '/' cs)
      | cons k ks =>
        rw [hcs, List.modifyHead_cons] at h
        rw [hcs] at ih
        rcases List.mem_cons.1 h with rfl | h
        · intro hslash
          rcases List.mem_cons.1 hslash with rfl | hslash
          · exact hc rfl
          · exact ih List.mem_cons_self hslash
        · exact ih (List.mem_cons_of_mem k h)

theorem levels_canonical (filter : String) : levels (canonical filter) = upToHash (levels filter) := by
  unfold canonical
  rw [levels, String.toList_ofList]
  exact List.splitOn_intercalate '/' (fun l hl => slash_notMem_level (mem_of_mem_upToHash hl))
    (upToHash_ne_nil (levels_ne_nil filter))

theorem Place.ext {p q : Place} (hsteps : p.steps = q.steps) (hslot : p.slot = q.slot) : p = q := by
  cases p
  cases q
  cases hsteps
  cases hslot
  rfl

theorem ofLevels_upToHash (ls : List Level) : Place.ofLevels (upToHash ls) = Place.ofLevels ls := by
  induction ls with
  | nil => rfl
  | cons l ls ih =>
    rw [upToHash]
    by_cases hl : l = ['#']
    · rw [if_pos hl, Place.ofLevels, if_pos hl, Place.ofLevels, if_pos hl]
    · rw [if_neg hl, Place.ofLevels, Place.ofLevels, if_neg hl, if_neg hl, ih]

theorem upToHash_of_place {as bs : List Level} (h : Place.ofLevels as = Place.ofLevels bs) :
    upToHash as = upToHash bs := by
  induction as generalizing bs with
  | nil =>
    cases bs with
    | nil => rfl
    | cons b bs =>
      rw [Place.ofLevels, Place.ofLevels] at h
      split at h <;> simp at h
  | cons a as ih =>
    cases bs with
    | nil =>
      rw [Place.ofLevels, Place.ofLevels] at h
      split at h <;> simp at h
    | cons b bs =>
      rw [Place.ofLevels, Place.ofLevels] at h
      rw [upToHash, upToHash]
      -- A hash ends a place and shows in the slot, so it ends either both or neither.
      by_cases ha : a = ['#']
      · by_cases hb : b = ['#']
        · rw [if_pos ha, if_pos hb, ha, hb]
        · simp [ha, hb] at h
      · by_cases hb : b = ['#']
        · simp [ha, hb] at h
        · simp only [ha, hb, if_false, Place.mk.injEq, List.cons.injEq] at h
          obtain ⟨⟨hstep, hsteps⟩, hslot⟩ := h
          have hab : a = b := by
            unfold Step.ofLevel at hstep
            by_cases hpa : a = ['+'] <;> by_cases hpb : b = ['+'] <;> simp_all
          rw [if_neg ha, if_neg hb, hab, ih (Place.ext hsteps hslot)]

/-- Filters share a place just when they are alike up to their first `#`. -/
theorem canonical_eq_iff {f g : String} : canonical f = canonical g ↔ Place.ofFilter f = Place.ofFilter g := by
  constructor
  · intro h
    have hlevels := congrArg levels h
    rw [levels_canonical, levels_canonical] at hlevels
    unfold Place.ofFilter
    rw [← ofLevels_upToHash (levels f), hlevels, ofLevels_upToHash]
  · intro h
    apply levels_injective
    rw [levels_canonical, levels_canonical]
    exact upToHash_of_place h

theorem ofFilter_canonical (filter : String) : Place.ofFilter (canonical filter) = Place.ofFilter filter := by
  unfold Place.ofFilter
  rw [levels_canonical, ofLevels_upToHash]

theorem canonical_canonical (filter : String) : canonical (canonical filter) = canonical filter :=
  canonical_eq_iff.2 (ofFilter_canonical filter)

theorem upToHash_of_check {ls : List Level} (h : checkLevels ls = none) : upToHash ls = ls := by
  induction ls with
  | nil => rfl
  | cons l ls ih =>
    rw [checkLevels] at h
    rw [upToHash]
    split at h
    · cases h
    · next hhash =>
      split at h
      · cases h
      · split
        · next hl =>
          -- A level that is a hash is the last one.
          by_cases hls : ls = []
          · rw [hls]
          · simp [hl, hls] at hhash
        · rw [ih h]

theorem flaw_eq_none_iff {filter : String} : flaw filter = none ↔
    filter.toList ≠ [] ∧ '\x00' ∉ filter.toList ∧ checkLevels (levels filter) = none := by
  unfold flaw
  split
  · next hempty => simp [hempty]
  · next hempty =>
    split
    · next hzero => simp [hzero]
    · next hzero => simp [hempty, hzero]

theorem checkLevels_of_flaw {filter : String} (h : flaw filter = none) : checkLevels (levels filter) = none :=
  (flaw_eq_none_iff.1 h).2.2

/-- A filter in order is kept as it is. -/
theorem canonical_of_flaw {f : String} (h : flaw f = none) : canonical f = f := by
  apply levels_injective
  rw [levels_canonical, upToHash_of_check (checkLevels_of_flaw h)]

/-- No two filters in order share a place. -/
theorem ofFilter_injective {f g : String} (hf : flaw f = none) (hg : flaw g = none)
    (h : Place.ofFilter f = Place.ofFilter g) : f = g := by
  rw [← canonical_of_flaw hf, ← canonical_of_flaw hg]
  exact canonical_eq_iff.2 h

/-! ## Changes -/

/-- What can be asked of a trie. -/
inductive Change where
  | set (filter : String) (q : QoS)
  | remove (filter : String)
  deriving DecidableEq, Repr

/-- A change of a map of canonical filters. -/
def Change.record (m : OrderedMap String QoS) : Change → OrderedMap String QoS
  | set filter q => m.insert (canonical filter) q
  | remove filter => m.erase (canonical filter)

namespace Trie

def apply (t : Trie) : Change → Trie
  | .set filter q => t.set filter q
  | .remove filter => (t.remove filter).2

variable {t : Trie} {m : OrderedMap String QoS}

/-- A trie that holds the entries of a map, each at the place of its filter. -/
structure Represents (t : Trie) (m : OrderedMap String QoS) : Prop where
  sorted : t.Sorted
  size : t.size = m.size
  canonical : ∀ {f q}, m.get? f = some q → canonical f = f
  places : ∀ p q, t.root.get? p = some q ↔ ∃ f, m.get? f = some q ∧ Place.ofFilter f = p

namespace Represents

theorem empty : Represents {} .empty where
  sorted := sorted_empty
  size := rfl
  canonical := nofun
  places p q := by
    have hnone : ({} : Trie).root.get? p = none := Node.get?_empty p
    rw [hnone]
    exact ⟨nofun, fun ⟨_, hf, _⟩ => nomatch hf⟩

/-- A filter is found under its canonical form. -/
theorem get?_eq (h : Represents t m) (filter : String) : t.get? filter = m.get? (Topic.canonical filter) := by
  apply Option.ext
  intro q
  rw [Trie.get?, h.places]
  constructor
  · rintro ⟨f, hf, hplace⟩
    rw [← canonical_eq_iff.2 hplace, h.canonical hf]
    exact hf
  · intro hf
    exact ⟨_, hf, ofFilter_canonical filter⟩

/-- Filters of one place have one canonical form, so a change meets the same entry in trie and map. -/
theorem places_change (h : Represents t m) (filter : String) (o : Option QoS) (p : Place) (q : QoS) :
    (if p = Place.ofFilter filter then o else t.root.get? p) = some q ↔
      ∃ f, (if f = Topic.canonical filter then o else m.get? f) = some q ∧ Place.ofFilter f = p := by
  by_cases hp : p = Place.ofFilter filter
  · rw [if_pos hp]
    constructor
    · intro ho
      exact ⟨Topic.canonical filter, by rw [if_pos rfl, ho], (ofFilter_canonical filter).trans hp.symm⟩
    · rintro ⟨f, hf, hplace⟩
      split at hf
      · exact hf
      · next hne => exact absurd ((h.canonical hf).symm.trans (canonical_eq_iff.2 (hplace.trans hp))) hne
  · rw [if_neg hp, h.places]
    refine exists_congr fun f => and_congr_left fun hplace => ?_
    rw [if_neg]
    rintro rfl
    exact hp (hplace.symm.trans (ofFilter_canonical filter))

theorem set (h : Represents t m) (filter : String) (q : QoS) :
    Represents (t.set filter q) (m.insert (Topic.canonical filter) q) where
  sorted := h.sorted.set filter q
  size := by
    rw [OrderedMap.size_insert, ← h.get?_eq, ← h.size]
    rfl
  canonical {f q'} hf := by
    rw [OrderedMap.get?_insert] at hf
    split at hf
    · next he => rw [he, canonical_canonical]
    · exact h.canonical hf
  places p q' := by
    rw [root_set h.sorted]
    simp only [OrderedMap.get?_insert]
    exact h.places_change filter (some q) p q'

theorem remove (h : Represents t m) (filter : String) :
    Represents (t.remove filter).2 (m.erase (Topic.canonical filter)) where
  sorted := h.sorted.remove filter
  size := by
    rw [OrderedMap.size_erase, ← h.get?_eq, ← h.size, Trie.remove]
    split <;> rfl
  canonical {f q'} hf := by
    rw [OrderedMap.get?_erase] at hf
    split at hf
    · cases hf
    · exact h.canonical hf
  places p q' := by
    rw [root_remove h.sorted]
    simp only [OrderedMap.get?_erase]
    exact h.places_change filter none p q'

theorem apply (h : Represents t m) (c : Change) : Represents (t.apply c) (c.record m) := by
  cases c with
  | set filter q => exact h.set filter q
  | remove filter => exact h.remove filter

theorem applyAll (h : Represents t m) (cs : List Change) :
    Represents (cs.foldl Trie.apply t) (cs.foldl Change.record m) := by
  induction cs generalizing t m with
  | nil => exact h
  | cons c cs ih => exact ih (h.apply c)

/-- Entries of one place would have one key. -/
theorem nodup_places (h : Represents t m) : (m.entries.map fun e => (Place.ofFilter e.1, e.2)).Nodup := by
  refine List.pairwise_map.2 (m.ascending.imp_of_mem fun {d e} hd he hlt heq => ?_)
  have hkey (c : String × QoS) (hc : c ∈ m.entries) : Topic.canonical c.1 = c.1 :=
    h.canonical (OrderedMap.get?_eq_some_iff.2 hc)
  have hsame := canonical_eq_iff.2 (Prod.mk.inj heq).1
  rw [hkey d hd, hkey e he] at hsame
  exact KeyOrder.irrefl e.1 (hsame ▸ hlt)

/-- What lies along a topic are the entries that cover it, each once. -/
theorem matching_perm (h : Represents t m) (topic : String) :
    (t.matching topic).Perm ((m.entries.filter fun e => matchesFilter topic e.1).map (·.2)) := by
  have hcovering : (t.found topic).Perm
      ((m.entries.filter fun e => matchesFilter topic e.1).map fun e => (Place.ofFilter e.1, e.2)) := by
    refine (List.perm_ext_iff_of_nodup (nodup_found t topic) ?_).2 ?_
    · exact h.nodup_places.sublist (List.filter_sublist.map _)
    · rintro ⟨p, q⟩
      rw [mem_found, h.places]
      simp only [List.mem_map, List.mem_filter, matchesFilter_iff, Prod.mk.injEq, Prod.exists]
      constructor
      · rintro ⟨⟨f, hf, rfl⟩, hmatches⟩
        exact ⟨f, q, ⟨OrderedMap.get?_eq_some_iff.1 hf, hmatches⟩, rfl, rfl⟩
      · rintro ⟨f, q, ⟨he, hmatches⟩, rfl, rfl⟩
        exact ⟨⟨f, OrderedMap.get?_eq_some_iff.2 he, rfl⟩, hmatches⟩
  have hvalues := hcovering.map (·.2)
  rwa [map_found, List.map_map] at hvalues

end Represents

/-- After any changes a trie is the map that the same changes make of canonical filters. -/
theorem refines_map (cs : List Change) :
    let t := cs.foldl apply {}
    let m := cs.foldl Change.record .empty
    t.size = m.size ∧ (t.isEmpty = true ↔ m = .empty) ∧
    (∀ filter, (t.remove filter).1 = m.contains (canonical filter)) ∧
    ∀ topic,
      (t.matching topic).Perm ((m.entries.filter fun e => matchesFilter topic e.1).map (·.2)) ∧
      t.maxQoS topic = QoS.highest ((m.entries.filter fun e => matchesFilter topic e.1).map (·.2)) := by
  intro t m
  have h : Represents t m := Represents.empty.applyAll cs
  refine ⟨h.size, ?_, fun filter => ?_, fun topic => ⟨h.matching_perm topic, ?_⟩⟩
  · rw [OrderedMap.eq_empty_iff, ← h.size, isEmpty, decide_eq_true_eq]
  · rw [OrderedMap.contains, ← h.get?_eq, Trie.remove]
    cases (t.get? filter).isSome <;> rfl
  · exact QoS.highest_congr fun q => (h.matching_perm topic).mem_iff

end Trie

end PubSub.Topic
