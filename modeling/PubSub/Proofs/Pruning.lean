import PubSub.Proofs.TrieForm
/-!
# Pruned tries

A filter can be registered and removed level by level: a walk down the branches of its levels, which opens
those that are missing or stops at the first of them, and on the way back drops each node that is left empty.
That makes the same tries as a change at the filter's place (`Trie.set_eq_setAlong`,
`Trie.remove_eq_removeAlong`). A trie lists as many taken places as it counts filters (`Trie.Represents.perm_toList`),
and of two histories that leave the same filters it keeps no trace (`Trie.pruned_and_canonical`).
-/

namespace PubSub.Topic

/-! ## One branch -/

namespace Branches

variable {bs : Branches} {s : Step} {n : Node}

/-- A change only looks at the node over the step. -/
theorem change_eq_put (f : Node → Node) (h : bs.Sorted) : bs.change f s = bs.put s (f ((bs.find? s).getD {})) := by
  unfold put
  induction bs with
  | nil => rfl
  | node t here below rest _ ih =>
    obtain ⟨-, habove, hrest⟩ := h
    rw [change, change, find?]
    by_cases ht : t = s
    · rw [if_pos ht, if_pos ht, if_pos ht]
      rfl
    · rw [if_neg ht, if_neg ht, if_neg ht]
      split
      · next hlt => rw [find?_of_above (habove.trans hlt)]; rfl
      · rw [ih hrest]

/-- Putting back what is there changes nothing, since it is not empty. -/
theorem put_find? (h : bs.Sorted) (hfull : bs.Full) (hn : bs.find? s = some n) : bs.put s n = bs := by
  unfold put
  induction bs with
  | nil => cases hn
  | node t here below rest _ ih =>
    obtain ⟨-, habove, hrest⟩ := h
    rw [find?] at hn
    rw [change]
    by_cases ht : t = s
    · rw [if_pos ht] at hn ⊢
      obtain rfl := Option.some.inj hn
      rw [place, if_neg (Bool.eq_false_iff.1 hfull.1), ht]
    · rw [if_neg ht] at hn ⊢
      rw [if_neg, ih hrest hfull.2.2 hn]
      intro hlt
      rw [find?_of_above (habove.trans hlt)] at hn
      cases hn

theorem full_find? (hfull : bs.Full) (hn : bs.find? s = some n) : n.below.Full := by
  induction bs with
  | nil => cases hn
  | node t here below rest _ ih =>
    rw [find?] at hn
    split at hn
    · obtain rfl := Option.some.inj hn
      exact hfull.2.1
    · exact ih hfull.2.2 hn

end Branches

/-! ## Level by level -/

namespace Node

theorem get?_cons (n : Node) (s : Step) (steps : List Step) (slot : Slot) :
    n.get? ⟨s :: steps, slot⟩ = ((n.below.find? s).getD {}).get? ⟨steps, slot⟩ := by
  rw [get?_eq, get?_eq, slots_cons]

theorem set_cons {n : Node} (h : n.below.Sorted) (s : Step) (steps : List Step) (slot : Slot) (o : Option QoS) :
    n.set ⟨s :: steps, slot⟩ o =
      { n with below := n.below.put s (((n.below.find? s).getD {}).set ⟨steps, slot⟩ o) } := by
  rw [set, change, Branches.change_eq_put _ h]
  rfl

theorem insertAlong_eq (q : QoS) (ls : List Level) {n : Node} (h : n.below.Sorted) :
    n.insertAlong q ls = (n.get? (Place.ofLevels ls), n.set (Place.ofLevels ls) (some q)) := by
  induction ls generalizing n with
  | nil => rfl
  | cons l ls ih =>
    rw [insertAlong, Place.ofLevels]
    split
    · rfl
    · rw [ih (sorted_child h _), get?_cons, set_cons h]

theorem set_here_none (n : Node) (slot : Slot) :
    { n with here := n.here.set slot none } =
      if (n.get? ⟨[], slot⟩).isSome then n.set ⟨[], slot⟩ none else n := by
  obtain ⟨⟨exact, tail⟩, below⟩ := n
  cases slot with
  | exact => cases exact <;> rfl
  | tail => cases tail <;> rfl

/-- Where nothing is registered the walk changes nothing: the nodes on the way were not empty and are not now. -/
theorem removeAlong_eq (ls : List Level) {n : Node} (h : n.below.Sorted) (hfull : n.below.Full) :
    n.removeAlong ls = (n.get? (Place.ofLevels ls),
      if (n.get? (Place.ofLevels ls)).isSome then n.set (Place.ofLevels ls) none else n) := by
  induction ls generalizing n with
  | nil =>
    rw [removeAlong, Place.ofLevels, ← set_here_none]
    rfl
  | cons l ls ih =>
    rw [removeAlong, Place.ofLevels]
    split
    · rw [← set_here_none]
      rfl
    · rw [get?_cons, set_cons h]
      cases hfind : n.below.find? (Step.ofLevel l) with
      | none => rw [Option.getD_none, get?_empty]; rfl
      | some child =>
        rw [Option.getD_some]
        dsimp only
        rw [ih (Branches.sorted_find? h hfind) (Branches.full_find? hfull hfind)]
        dsimp only
        split
        · rfl
        · rw [Branches.put_find? h hfull hfind]

end Node

namespace Trie

variable {t t' : Trie} {m m' : OrderedMap String QoS}

theorem set_eq_setAlong (h : t.Sorted) (filter : String) (q : QoS) : t.set filter q = t.setAlong filter q := by
  rw [setAlong, Node.insertAlong_eq q _ h]
  rfl

theorem remove_eq_removeAlong (h : t.Sorted) (hfull : t.Full) (filter : String) :
    t.remove filter = t.removeAlong filter := by
  rw [removeAlong, Node.removeAlong_eq _ h hfull, remove, get?, Place.ofFilter]
  cases (t.root.get? (Place.ofLevels (levels filter))).isSome <;> rfl

end Trie

/-! ## The trie as a list -/

namespace Node

theorem get?_below (here : Slots) (below : Branches) (s : Step) (steps : List Step) (slot : Slot) :
    (⟨here, below⟩ : Node).get? ⟨s :: steps, slot⟩ = (below.slots s steps).get slot := by
  rw [get?_eq, slots_below]

/-- What the list of a node has, if that of the nodes below it is known. -/
theorem mem_toList_of_below {here : Slots} {below : Branches}
    (hbelow : ∀ p q, (p, q) ∈ below.toList ↔ (⟨{}, below⟩ : Node).get? p = some q) (p : Place) (q : QoS) :
    (p, q) ∈ (⟨here, below⟩ : Node).toList ↔ (⟨here, below⟩ : Node).get? p = some q := by
  obtain ⟨steps, slot⟩ := p
  rw [toList, List.mem_append, List.mem_append, hbelow]
  cases steps with
  | nil => cases slot <;> simp [get?_eq, slots, walk, Slots.get]
  | cons s steps => simp [get?_below]

theorem nodup_toList_of_below {here : Slots} {below : Branches}
    (hbelow : ∀ p q, (p, q) ∈ below.toList ↔ (⟨{}, below⟩ : Node).get? p = some q) (h : below.toList.Nodup) :
    (⟨here, below⟩ : Node).toList.Nodup := by
  rw [toList, List.nodup_append]
  refine ⟨?_, h, ?_⟩
  · cases here.tail <;> cases here.exact <;> simp
  · rintro ⟨⟨steps, slot⟩, q⟩ hhere _ hmem rfl
    -- Nothing below is registered at the node itself.
    obtain rfl : steps = [] := by
      rcases List.mem_append.1 hhere with hhere | hhere
      all_goals
        obtain ⟨_, -, heq⟩ := List.mem_map.1 hhere
        cases heq
        rfl
    rw [hbelow] at hmem
    cases slot <;> cases hmem

end Node

namespace Branches

theorem toList_node (s : Step) (here : Slots) (below rest : Branches) :
    (node s here below rest).toList = (⟨here, below⟩ : Node).toList.map (Node.under s) ++ rest.toList := by
  rw [toList, Node.toList, List.map_append, List.map_append, List.map_map, List.map_map]
  rfl

/-- The list of siblings has just what is registered in them and below. -/
theorem mem_toList {bs : Branches} (h : bs.Sorted) (p : Place) (q : QoS) :
    (p, q) ∈ bs.toList ↔ (⟨{}, bs⟩ : Node).get? p = some q := by
  induction bs generalizing p q with
  | nil => simp [toList, Node.get?_empty]
  | node s here below rest ihbelow ihrest =>
    obtain ⟨hbelow, habove, hrest⟩ := h
    rw [toList_node, List.mem_append, Node.mem_map_under, ihrest hrest]
    simp only [Node.mem_toList_of_below (ihbelow hbelow)]
    obtain ⟨steps, slot⟩ := p
    cases steps with
    | nil => cases slot <;> simp [Node.get?_eq, Node.slots, Node.walk, Slots.get]
    | cons t steps =>
      rw [Node.get?_below, Node.get?_below, slots_node]
      by_cases hs : s = t
      · subst hs
        rw [if_pos rfl, slots_of_above habove]
        cases slot <;> simp [Slots.get, Node.get?_eq]
      · rw [if_neg hs]
        simp [Ne.symm hs]

/-- Each taken place is listed once, since no step leads to two siblings. -/
theorem nodup_toList {bs : Branches} (h : bs.Sorted) : bs.toList.Nodup := by
  induction bs with
  | nil => exact .nil
  | node s here below rest ihbelow ihrest =>
    obtain ⟨hbelow, habove, hrest⟩ := h
    have hnode : (⟨here, below⟩ : Node).toList.Nodup := Node.nodup_toList_of_below (mem_toList hbelow) (ihbelow hbelow)
    rw [toList_node, List.nodup_append]
    refine ⟨Node.nodup_map_under hnode, ihrest hrest, ?_⟩
    rintro ⟨⟨steps, slot⟩, q⟩ hunder _ hmem rfl
    obtain ⟨steps, rfl, -⟩ := Node.mem_map_under.1 hunder
    rw [mem_toList hrest, Node.get?_below, slots_of_above habove] at hmem
    cases slot <;> cases hmem

end Branches

namespace Trie

variable {t t' : Trie} {m m' : OrderedMap String QoS}

namespace Represents

/-- What a trie lists are the entries of the map, each at the place of its filter. -/
theorem perm_toList (h : Represents t m) : t.toList.Perm (m.entries.map fun e => (Place.ofFilter e.1, e.2)) := by
  have hmem : ∀ p q, (p, q) ∈ t.toList ↔ t.root.get? p = some q :=
    Node.mem_toList_of_below (Branches.mem_toList h.sorted)
  refine (List.perm_ext_iff_of_nodup ?_ h.nodup_places).2 ?_
  · exact Node.nodup_toList_of_below (Branches.mem_toList h.sorted) (Branches.nodup_toList h.sorted)
  · rintro ⟨p, q⟩
    rw [hmem, h.places]
    simp only [List.mem_map, Prod.mk.injEq, Prod.exists, OrderedMap.get?_eq_some_iff]
    constructor
    · rintro ⟨f, hf, rfl⟩
      exact ⟨f, q, hf, rfl, rfl⟩
    · rintro ⟨f, _, hf, rfl, rfl⟩
      exact ⟨f, hf, rfl⟩

theorem size_eq_length (h : Represents t m) : t.size = t.toList.length := by
  rw [h.perm_toList.length_eq, List.length_map]
  exact h.size

theorem size_pos (h : Represents t m) {filter : String} (hheld : (t.get? filter).isSome = true) : 0 < t.size := by
  rw [h.size]
  refine Nat.pos_of_ne_zero fun hzero => ?_
  rw [h.get?_eq, OrderedMap.eq_empty_iff.2 hzero] at hheld
  cases hheld

/-- A trie tells its map. -/
theorem map_unique (h : Represents t m) (h' : Represents t m') : m = m' := by
  refine OrderedMap.ext_get? fun f => ?_
  by_cases hf : Topic.canonical f = f
  · rw [← hf, ← h.get?_eq, ← h'.get?_eq]
  · have hnone {n : OrderedMap String QoS} (hn : Represents t n) : n.get? f = none :=
      Option.eq_none_iff_forall_ne_some.2 fun q hq => hf (hn.canonical hq)
    rw [hnone h, hnone h']

end Represents

namespace Holds

theorem set_remove (h : Holds t m) {filter : String} (hfree : t.get? filter = none) (q : QoS) :
    ((t.set filter q).remove filter).2 = t := by
  have hback : Holds ((t.set filter q).remove filter).2
      ((m.insert (Topic.canonical filter) q).erase (Topic.canonical filter)) :=
    (h.apply (.set filter q)).apply (.remove filter)
  rw [OrderedMap.erase_insert (h.get?_eq filter ▸ hfree)] at hback
  exact hback.unique h

theorem eq_empty_of_removed (h : Holds t m) {filters : List String}
    (hall : ∀ f ∈ m.keys, ∃ g ∈ filters, Topic.canonical g = f) :
    filters.foldl (fun t g => (t.remove g).2) t = {} := by
  have hgone := h.applyAll (filters.map .remove)
  have hmap : (filters.map Change.remove).foldl Change.record m =
      (filters.map Topic.canonical).foldl OrderedMap.erase m := by
    rw [List.foldl_map, List.foldl_map]
    rfl
  have hempty : (filters.map Topic.canonical).foldl OrderedMap.erase m = .empty := by
    refine OrderedMap.ext_get? fun f => ?_
    rw [OrderedMap.get?_foldl_erase, OrderedMap.get?_empty]
    split
    · rfl
    · next hf =>
      refine Option.not_isSome_iff_eq_none.1 fun hheld => hf ?_
      exact List.mem_map.2 (hall f (OrderedMap.mem_keys_iff.2 hheld))
  rw [hmap, hempty, List.foldl_map] at hgone
  exact hgone.unique .empty

end Holds

/-- After any changes no node of the trie is empty, it counts the places that are taken, and the changes may be made
level by level. The trie is the same after other changes just when these leave the same filters, each cut behind its
first `#`, at the same service. So a filter that is registered where there was none and removed again leaves no trace,
and when all have been removed nothing is left. -/
theorem pruned_and_canonical (cs : List Change) :
    let t := cs.foldl apply {}
    let m := cs.foldl Change.record .empty
    t.Full ∧ t.size = t.toList.length ∧
    (∀ filter q, t.set filter q = t.setAlong filter q ∧ t.remove filter = t.removeAlong filter ∧
      ((t.remove filter).1 = true → 0 < t.size)) ∧
    (∀ cs' : List Change, cs'.foldl apply {} = t ↔ cs'.foldl Change.record .empty = m) ∧
    (∀ filter q, t.get? filter = none → ((t.set filter q).remove filter).2 = t) ∧
    ∀ filters : List String, (∀ f ∈ m.keys, ∃ g ∈ filters, canonical g = f) →
      filters.foldl (fun t g => (t.remove g).2) t = {} := by
  intro t m
  have h : Holds t m := Holds.empty.applyAll cs
  refine ⟨h.full, h.size_eq_length, fun filter q => ⟨?_, ?_, ?_⟩, fun cs' => ?_, fun filter q hfree => ?_,
    fun filters hall => ?_⟩
  · exact set_eq_setAlong h.sorted filter q
  · exact remove_eq_removeAlong h.sorted h.full filter
  · intro hremoved
    rw [remove] at hremoved
    split at hremoved
    · next hheld => exact h.size_pos hheld
    · cases hremoved
  · have h' := Holds.empty.applyAll cs'
    constructor
    · intro heq
      exact h'.map_unique (heq ▸ h.toRepresents)
    · intro heq
      rw [heq] at h'
      exact h'.unique h
  · exact h.set_remove hfree q
  · exact h.eq_empty_of_removed hall

/-- A filter that was removed again, and one that took the place of another behind a `#`. -/
theorem pruned_and_canonical_after_detour :
    let t := [Change.set "a/+/c" .atLeastOnce, .set "a/#" .atMostOnce, .set "a/#/b" .exactlyOnce, .remove "a/+/c"].foldl
      apply {}
    t = [Change.set "a/#" .exactlyOnce].foldl apply {} ∧ t.toList.length = 1 ∧ 0 < t.size ∧
      ((t.set "b/+" .atMostOnce).remove "b/+").2 = t ∧ ["a/#/x"].foldl (fun t g => (t.remove g).2) t = {} := by
  intro t
  obtain ⟨-, hsize, halong, hunique, htrace, hnothing⟩ := pruned_and_canonical
    [.set "a/+/c" .atLeastOnce, .set "a/#" .atMostOnce, .set "a/#/b" .exactlyOnce, .remove "a/+/c"]
  refine ⟨((hunique [.set "a/#" .exactlyOnce]).2 (by decide +kernel)).symm, hsize.symm.trans (by decide +kernel),
    (halong "a/#" .atMostOnce).2.2 (by decide +kernel), htrace "b/+" .atMostOnce (by decide +kernel), hnothing ["a/#/x"] ?_⟩
  decide +kernel

end Trie

end PubSub.Topic
