import PubSub.Proofs.FilterMap
/-!
# The form of a trie

A trie keeps no node that has nothing registered in it or below it (`Trie.Full`), whatever is registered
and removed. So there is one trie for each map of filters (`Trie.Holds.unique`), and neither the order in which
filters came to be held nor those that have gone again can be told from it.
-/

namespace PubSub.Topic

/-! ## No empty nodes -/

namespace Branches

/-- Every node has something registered in it or below it. -/
def Full : Branches → Prop
  | nil => True
  | node _ here below rest => Node.isEmpty ⟨here, below⟩ = false ∧ below.Full ∧ rest.Full

/-- What is registered at the end of a walk from here. -/
def slots (bs : Branches) (s : Step) (steps : List Step) : Slots := ((bs.find? s).getD {}).slots steps

theorem full_place {step : Step} {n : Node} {rest : Branches} (hn : n.below.Full) (h : rest.Full) :
    (place step n rest).Full := by
  unfold place
  split
  · exact h
  · next hempty => exact ⟨Bool.eq_false_iff.2 hempty, hn, h⟩

theorem full_change {f : Node → Node} (hf : ∀ n : Node, n.below.Full → (f n).below.Full) (step : Step)
    {bs : Branches} (h : bs.Full) : (bs.change f step).Full := by
  induction bs with
  | nil => exact full_place (hf {} trivial) trivial
  | node s here below rest _ ih =>
    obtain ⟨hempty, hbelow, hrest⟩ := h
    rw [change]
    split
    · exact full_place (hf ⟨here, below⟩ hbelow) hrest
    · split
      · exact full_place (hf {} trivial) ⟨hempty, hbelow, hrest⟩
      · exact ⟨hempty, hbelow, ih hrest⟩

theorem slots_node (s : Step) (here : Slots) (below rest : Branches) (t : Step) (steps : List Step) :
    (node s here below rest).slots t steps =
      if s = t then (⟨here, below⟩ : Node).slots steps else rest.slots t steps := by
  unfold slots
  rw [find?]
  split <;> rfl

theorem slots_nil (s : Step) (steps : List Step) : nil.slots s steps = {} := Node.slots_empty steps

theorem slots_of_above {s : Step} {bs : Branches} (h : bs.Above s) (steps : List Step) : bs.slots s steps = {} := by
  rw [slots, find?_of_above h]
  exact Node.slots_empty steps

end Branches

namespace Node

theorem full_change (f : Slots → Slots) (steps : List Step) {n : Node} (h : n.below.Full) :
    (n.change f steps).below.Full := by
  induction steps generalizing n with
  | nil => exact h
  | cons s steps ih => exact Branches.full_change (fun _ hm => ih hm) s h

theorem slots_below (here : Slots) (below : Branches) (s : Step) (steps : List Step) :
    (⟨here, below⟩ : Node).slots (s :: steps) = below.slots s steps := slots_cons _ s steps

/-- A node that is not empty has something registered in it or below it. -/
theorem exists_slots {here : Slots} {below : Branches} (hbelow : below.Full)
    (h : Node.isEmpty ⟨here, below⟩ = false) : ∃ steps, (⟨here, below⟩ : Node).slots steps ≠ {} := by
  induction below generalizing here with
  | nil =>
    refine ⟨[], fun hnone : here = {} => ?_⟩
    subst hnone
    cases h
  | node s here' below' rest ih _ =>
    obtain ⟨hempty, hbelow', -⟩ := hbelow
    obtain ⟨steps, hsteps⟩ := ih hbelow' hempty
    refine ⟨s :: steps, ?_⟩
    rwa [slots_below, Branches.slots_node, if_pos rfl]

end Node

/-! ## One form -/

namespace Branches

theorem exists_slots {s : Step} {here : Slots} {below rest : Branches} (h : (node s here below rest).Full) :
    ∃ steps, (node s here below rest).slots s steps ≠ {} := by
  obtain ⟨steps, hsteps⟩ := Node.exists_slots h.2.1 h.1
  refine ⟨steps, ?_⟩
  rwa [slots_node, if_pos rfl]

/-- Siblings in order and without empty nodes are those that what is registered makes. -/
theorem ext_slots {as bs : Branches} (ha : as.Sorted) (hb : bs.Sorted) (hfa : as.Full) (hfb : bs.Full)
    (h : ∀ s steps, as.slots s steps = bs.slots s steps) : as = bs := by
  induction as generalizing bs with
  | nil =>
    cases bs with
    | nil => rfl
    | node t here below rest =>
      obtain ⟨steps, hsteps⟩ := exists_slots hfb
      exact absurd ((h t steps).symm.trans (slots_nil t steps)) hsteps
  | node s here below rest ihbelow ihrest =>
    cases bs with
    | nil =>
      obtain ⟨steps, hsteps⟩ := exists_slots hfa
      exact absurd ((h s steps).trans (slots_nil s steps)) hsteps
    | node t here' below' rest' =>
      obtain ⟨hbelow, habove, hrest⟩ := ha
      obtain ⟨hbelow', habove', hrest'⟩ := hb
      -- The first sibling of either is registered in the other, so neither comes before the other.
      have hst : s = t := by
        refine Decidable.byContradiction fun hne => ?_
        rcases KeyOrder.connected hne with hlt | hlt
        · obtain ⟨steps, hsteps⟩ := exists_slots hfa
          have hnone : (node t here' below' rest').Above s := ⟨hlt, habove'.trans hlt⟩
          exact hsteps ((h s steps).trans (slots_of_above hnone steps))
        · obtain ⟨steps, hsteps⟩ := exists_slots hfb
          have hnone : (node s here below rest).Above t := ⟨hlt, habove.trans hlt⟩
          exact hsteps ((h t steps).symm.trans (slots_of_above hnone steps))
      subst hst
      have hfirst (steps : List Step) : (⟨here, below⟩ : Node).slots steps = (⟨here', below'⟩ : Node).slots steps := by
        have hs := h s steps
        rwa [slots_node, slots_node, if_pos rfl, if_pos rfl] at hs
      have hhere : here = here' := hfirst []
      have hsame : below = below' := by
        refine ihbelow hbelow hbelow' hfa.2.1 hfb.2.1 fun u steps => ?_
        rw [← Node.slots_below here, ← Node.slots_below here', hfirst]
      have hothers : rest = rest' := by
        refine ihrest hrest hrest' hfa.2.2 hfb.2.2 fun u steps => ?_
        by_cases hu : s = u
        · subst hu
          rw [slots_of_above habove, slots_of_above habove']
        · have hs := h u steps
          rwa [slots_node, slots_node, if_neg hu, if_neg hu] at hs
      rw [hhere, hsame, hothers]

end Branches

theorem Slots.ext_get {s t : Slots} (h : ∀ slot, s.get slot = t.get slot) : s = t := by
  obtain ⟨exact, tail⟩ := s
  obtain ⟨exact', tail'⟩ := t
  obtain rfl : exact = exact' := h .exact
  obtain rfl : tail = tail' := h .tail
  rfl

theorem Node.ext_get? {m n : Node} (hm : m.below.Sorted) (hn : n.below.Sorted) (hfm : m.below.Full) (hfn : n.below.Full)
    (h : ∀ p, m.get? p = n.get? p) : m = n := by
  have hslots (steps : List Step) : m.slots steps = n.slots steps := Slots.ext_get fun slot => by
    rw [← get?_eq m ⟨steps, slot⟩, ← get?_eq n ⟨steps, slot⟩, h]
  obtain ⟨here, below⟩ := m
  obtain ⟨here', below'⟩ := n
  obtain rfl : here = here' := hslots []
  obtain rfl : below = below' := Branches.ext_slots hm hn hfm hfn fun s steps => by
    rw [← Node.slots_below here, ← Node.slots_below here, hslots]
  rfl

namespace Trie

variable {t t' : Trie} {m : OrderedMap String QoS}

def Full (t : Trie) : Prop := t.root.below.Full

theorem Full.apply (h : t.Full) (c : Change) : (t.apply c).Full := by
  cases c with
  | set filter q => exact Node.full_change _ _ h
  | remove filter =>
    rw [Trie.apply, Trie.remove]
    split
    · exact Node.full_change _ _ h
    · exact h

/-- A trie that holds the entries of a map and nothing else, not even empty nodes. -/
structure Holds (t : Trie) (m : OrderedMap String QoS) : Prop extends Represents t m where
  full : t.Full

namespace Holds

theorem empty : Holds {} .empty := ⟨.empty, trivial⟩

theorem apply (h : Holds t m) (c : Change) : Holds (t.apply c) (c.record m) := ⟨h.toRepresents.apply c, h.full.apply c⟩

theorem applyAll (h : Holds t m) (cs : List Change) : Holds (cs.foldl Trie.apply t) (cs.foldl Change.record m) := by
  induction cs generalizing t m with
  | nil => exact h
  | cons c cs ih => exact ih (h.apply c)

theorem set (h : Holds t m) {filter : String} (hvalid : flaw filter = none) (q : QoS) :
    Holds (t.set filter q) (m.insert filter q) := by
  have hset := h.apply (.set filter q)
  rwa [Change.record, canonical_of_flaw hvalid] at hset

theorem remove (h : Holds t m) {filter : String} (hvalid : flaw filter = none) :
    Holds (t.remove filter).2 (m.erase filter) := by
  have hremove := h.apply (.remove filter)
  rwa [Change.record, canonical_of_flaw hvalid] at hremove

theorem setAll (h : Holds t m) (es : List (String × QoS)) (hvalid : ∀ e ∈ es, flaw e.1 = none) :
    Holds (es.foldl (fun t e => t.set e.1 e.2) t) (es.foldl (fun m e => m.insert e.1 e.2) m) := by
  induction es generalizing t m with
  | nil => exact h
  | cons e es ih =>
    obtain ⟨he, hes⟩ := List.forall_mem_cons.1 hvalid
    exact ih (h.set he e.2) hes

theorem removeAll (h : Holds t m) (filters : List String) (hvalid : ∀ f ∈ filters, flaw f = none) :
    Holds (filters.foldl (fun t f => (t.remove f).2) t) (filters.foldl OrderedMap.erase m) := by
  induction filters generalizing t m with
  | nil => exact h
  | cons f filters ih =>
    obtain ⟨hf, hfilters⟩ := List.forall_mem_cons.1 hvalid
    exact ih (h.remove hf) hfilters

/-- There is one trie for each map. -/
theorem unique (h : Holds t m) (h' : Holds t' m) : t = t' := by
  have hroot : t.root = t'.root := by
    refine Node.ext_get? h.sorted h'.sorted h.full h'.full fun p => ?_
    apply Option.ext
    intro q
    rw [h.places, h'.places]
  obtain ⟨root, size⟩ := t
  obtain ⟨root', size'⟩ := t'
  obtain rfl : root = root' := hroot
  obtain rfl : size = size' := h.size.trans h'.size.symm
  rfl

end Holds

end Trie

end PubSub.Topic
