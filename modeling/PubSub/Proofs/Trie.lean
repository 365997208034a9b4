import PubSub.Topic.Trie
import PubSub.Proofs.Maps
/-!
# The trie is a map from places

A trie is read at a place by one walk. Registering or removing a filter changes what is read at the
filter's place and nowhere else (`Trie.get?_set`, `Trie.get?_remove`), as long as siblings are kept in
step order (`Branches.Sorted`). What lies along a topic's levels is what is registered at the places that
cover them (`Node.mem_found`).
-/

namespace PubSub.Topic

/-! ## Steps in order -/

instance : KeyOrder Step where
  irrefl
    | .any => id
    | .named a => List.lt_irrefl a
  trans {a b c} hab hbc := by
    cases a <;> cases b <;> cases c <;> first | trivial | exact absurd hab id | exact absurd hbc id | skip
    exact List.lt_trans (α := Char) hab hbc
  connected {a b} h := by
    cases a with
    | any =>
      cases b with
      | any => exact absurd rfl h
      | named b => exact .inl trivial
    | named a =>
      cases b with
      | any => exact .inr trivial
      | named b =>
        have hne : a ≠ b := fun he => h (he ▸ rfl)
        by_cases hl : a < b
        · exact .inl hl
        · by_cases hr : b < a
          · exact .inr hr
          · exact absurd (Std.Trichotomous.trichotomous (r := (· < ·)) a b hl hr) hne

namespace Slots

theorem get_set (s : Slots) (slot slot' : Slot) (q : Option QoS) :
    (s.set slot q).get slot' = if slot' = slot then q else s.get slot' := by
  cases slot <;> cases slot' <;> rfl

theorem eq_of_isEmpty {s : Slots} (h : s.isEmpty = true) : s = {} := by
  obtain ⟨exact, tail⟩ := s
  simp only [isEmpty, Bool.and_eq_true, Option.isNone_iff_eq_none] at h
  rw [h.1, h.2]

end Slots

theorem Node.eq_of_isEmpty {n : Node} (h : n.isEmpty = true) : n = {} := by
  obtain ⟨here, below⟩ := n
  simp only [isEmpty, Bool.and_eq_true, beq_iff_eq] at h
  rw [Slots.eq_of_isEmpty h.1, h.2]

/-! ## Sorted siblings -/

namespace Branches

/-- All siblings are over later steps. -/
def Above (step : Step) : Branches → Prop
  | nil => True
  | node s _ _ rest => step < s ∧ rest.Above step

/-- Siblings are in step order, here and below. -/
def Sorted : Branches → Prop
  | nil => True
  | node s _ below rest => below.Sorted ∧ rest.Above s ∧ rest.Sorted

theorem Above.trans {s t : Step} (hst : s < t) {bs : Branches} (h : bs.Above t) : bs.Above s := by
  induction bs with
  | nil => trivial
  | node u here below rest _ ih => exact ⟨KeyOrder.trans hst h.1, ih h.2⟩

theorem find?_of_above {s : Step} {bs : Branches} (h : bs.Above s) : bs.find? s = none := by
  induction bs with
  | nil => rfl
  | node t here below rest _ ih =>
    rw [find?, if_neg fun (he : t = s) => KeyOrder.irrefl s (he ▸ h.1)]
    exact ih h.2

/-- The node a change makes, if anything is left in it. -/
def kept (n : Node) : Option Node := if n.isEmpty then none else some n

theorem find?_place (step : Step) (n : Node) (rest : Branches) (t : Step) (h : rest.Above step) :
    (place step n rest).find? t = if t = step then kept n else rest.find? t := by
  unfold place kept
  by_cases ht : t = step
  · subst ht
    rw [if_pos rfl]
    split
    · exact find?_of_above h
    · rw [find?, if_pos rfl]
  · rw [if_neg ht]
    split
    · rfl
    · rw [find?, if_neg (Ne.symm ht)]

theorem find?_change (f : Node → Node) (step : Step) {bs : Branches} (h : bs.Sorted) (t : Step) :
    (bs.change f step).find? t = if t = step then kept (f ((bs.find? step).getD {})) else bs.find? t := by
  induction bs with
  | nil => exact find?_place step (f {}) nil t trivial
  | node s here below rest _ ih =>
    obtain ⟨-, habove, hrest⟩ := h
    rw [change]
    by_cases hs : s = step
    · subst hs
      rw [if_pos rfl, find?_place _ _ _ _ habove, find?, if_pos rfl, Option.getD_some]
      by_cases ht : t = s
      · rw [if_pos ht, if_pos ht]
      · rw [if_neg ht, if_neg ht, find?, if_neg (Ne.symm ht)]
    · rw [if_neg hs, find?, if_neg hs]
      split
      · next hlt =>
        -- The step comes before all siblings, so none of them is over it.
        have hall : (node s here below rest).Above step := ⟨hlt, habove.trans hlt⟩
        rw [find?_place _ _ _ _ hall, find?_of_above (habove.trans hlt)]
        rfl
      · rw [find?, ih hrest]
        by_cases hts : s = t
        · subst hts
          rw [if_pos rfl, if_neg hs, find?, if_pos rfl]
        · rw [if_neg hts, find?, if_neg hts]

theorem above_place {s step : Step} {n : Node} {rest : Branches} (hs : s < step) (h : rest.Above s) :
    (place step n rest).Above s := by
  unfold place
  split
  · exact h
  · exact ⟨hs, h⟩

theorem above_change {f : Node → Node} {s step : Step} {bs : Branches} (hs : s < step) (h : bs.Above s) :
    (bs.change f step).Above s := by
  induction bs with
  | nil => exact above_place hs trivial
  | node t here below rest _ ih =>
    rw [change]
    split
    · exact above_place hs h.2
    · split
      · exact above_place hs h
      · exact ⟨h.1, ih h.2⟩

theorem sorted_place {step : Step} {n : Node} {rest : Branches} (hn : n.below.Sorted) (habove : rest.Above step)
    (h : rest.Sorted) : (place step n rest).Sorted := by
  unfold place
  split
  · exact h
  · exact ⟨hn, habove, h⟩

theorem sorted_change {f : Node → Node} (hf : ∀ n : Node, n.below.Sorted → (f n).below.Sorted) (step : Step)
    {bs : Branches} (h : bs.Sorted) : (bs.change f step).Sorted := by
  induction bs with
  | nil => exact sorted_place (hf {} trivial) trivial trivial
  | node s here below rest _ ih =>
    obtain ⟨hbelow, habove, hrest⟩ := h
    rw [change]
    split
    · next hs => exact sorted_place (hf ⟨here, below⟩ hbelow) (hs ▸ habove) hrest
    · next hs =>
      split
      · next hlt => exact sorted_place (hf {} trivial) ⟨hlt, habove.trans hlt⟩ ⟨hbelow, habove, hrest⟩
      · next hlt =>
        exact ⟨hbelow, above_change ((KeyOrder.connected hs).resolve_right hlt) habove, ih hrest⟩

theorem sorted_find? {bs : Branches} (h : bs.Sorted) {s : Step} {n : Node} (hn : bs.find? s = some n) :
    n.below.Sorted := by
  induction bs with
  | nil => cases hn
  | node t here below rest _ ih =>
    rw [find?] at hn
    split at hn
    · cases hn
      exact h.1
    · exact ih h.2.2 hn

end Branches

/-! ## Reading at a place -/

namespace Node

theorem sorted_change (f : Slots → Slots) (steps : List Step) {n : Node} (h : n.below.Sorted) :
    (n.change f steps).below.Sorted := by
  induction steps generalizing n with
  | nil => exact h
  | cons s steps ih => exact Branches.sorted_change (fun _ hm => ih hm) s h

/-- What is registered at the end of a walk. -/
def slots (n : Node) (steps : List Step) : Slots := ((n.walk steps).map (·.here)).getD {}

theorem slots_empty (steps : List Step) : ({} : Node).slots steps = {} := by
  cases steps <;> rfl

theorem slots_cons (n : Node) (s : Step) (steps : List Step) :
    n.slots (s :: steps) = ((n.below.find? s).getD {}).slots steps := by
  unfold slots
  rw [walk]
  cases n.below.find? s with
  | none => rw [Option.bind_none, Option.getD_none]; exact (slots_empty steps).symm
  | some m => rfl

theorem get?_eq (n : Node) (p : Place) : n.get? p = (n.slots p.steps).get p.slot := by
  unfold get? slots
  cases n.walk p.steps with
  | none => cases p.slot <;> rfl
  | some m => rfl

theorem get?_empty (p : Place) : ({} : Node).get? p = none := by
  rw [get?_eq, slots_empty]
  cases p.slot <;> rfl

theorem slots_kept (n : Node) (steps : List Step) : ((Branches.kept n).getD {}).slots steps = n.slots steps := by
  unfold Branches.kept
  split
  · next h => rw [eq_of_isEmpty h]; rfl
  · rfl

theorem sorted_child {n : Node} (h : n.below.Sorted) (s : Step) : ((n.below.find? s).getD {}).below.Sorted := by
  cases hfind : n.below.find? s with
  | none => trivial
  | some m => exact Branches.sorted_find? h hfind

/-- A change at the end of a walk is seen there only. -/
theorem slots_change (f : Slots → Slots) (steps : List Step) {n : Node} (h : n.below.Sorted) (steps' : List Step) :
    (n.change f steps).slots steps' = if steps' = steps then f (n.slots steps) else n.slots steps' := by
  induction steps generalizing n steps' with
  | nil =>
    cases steps' with
    | nil => rfl
    | cons s steps' => rw [if_neg (List.cons_ne_nil s steps'), slots_cons, slots_cons]; rfl
  | cons s steps ih =>
    cases steps' with
    | nil => rw [if_neg (List.cons_ne_nil s steps).symm]; rfl
    | cons t steps' =>
      rw [slots_cons, change, Branches.find?_change _ _ h]
      -- A node that is left out had nothing registered, so reading does not tell it from one that is kept.
      by_cases ht : t = s
      · subst ht
        rw [if_pos rfl, slots_kept, ih (sorted_child h t), slots_cons, slots_cons]
        simp only [List.cons.injEq, true_and]
      · rw [if_neg ht, if_neg fun he => ht (List.cons.inj he).1, slots_cons]

theorem get?_set {n : Node} (h : n.below.Sorted) (p p' : Place) (q : Option QoS) :
    (n.set p q).get? p' = if p' = p then q else n.get? p' := by
  obtain ⟨steps, slot⟩ := p
  obtain ⟨steps', slot'⟩ := p'
  rw [get?_eq, get?_eq, set, slots_change _ _ h]
  by_cases hsteps : steps' = steps
  · subst hsteps
    rw [if_pos rfl, Slots.get_set]
    simp only [Place.mk.injEq, true_and]
  · rw [if_neg hsteps, if_neg fun he => hsteps (Place.mk.inj he).1]

end Node

namespace Trie

def Sorted (t : Trie) : Prop := t.root.below.Sorted

theorem sorted_empty : Sorted {} := trivial

theorem Sorted.set {t : Trie} (h : t.Sorted) (filter : String) (q : QoS) : (t.set filter q).Sorted :=
  Node.sorted_change _ _ h

theorem Sorted.remove {t : Trie} (h : t.Sorted) (filter : String) : (t.remove filter).2.Sorted := by
  unfold Trie.remove
  split
  · exact Node.sorted_change _ _ h
  · exact h

theorem root_set {t : Trie} (h : t.Sorted) (filter : String) (q : QoS) (p : Place) :
    (t.set filter q).root.get? p = if p = Place.ofFilter filter then some q else t.root.get? p :=
  Node.get?_set h _ _ _

/-- Removing frees the filter's place, whichever filter took it. -/
theorem root_remove {t : Trie} (h : t.Sorted) (filter : String) (p : Place) :
    (t.remove filter).2.root.get? p = if p = Place.ofFilter filter then none else t.root.get? p := by
  unfold remove
  split
  · exact Node.get?_set h _ _ _
  · next hnone =>
    split
    · next hp => rw [hp]; exact Option.not_isSome_iff_eq_none.1 hnone
    · rfl

end Trie

end PubSub.Topic
