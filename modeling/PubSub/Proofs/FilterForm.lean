import PubSub.Proofs.Coverage
import PubSub.Proofs.FilterMap
/-!
# Filters in order

The check accepts a text just when each of its levels stands where the grammar of filters allows it
(`checkLevels_eq_none_iff`). Two filters that pass it never share a place, so registering or removing one
leaves the other as it was (`accepted_apart`).
-/

namespace PubSub.Topic

/-- Each level is a `+`, or holds no wildcard, or is a `#` with nothing after it. -/
def WellFormed (ls : List Level) : Prop :=
  ∀ before l after, ls = before ++ l :: after →
    l = ['+'] ∨ ('+' ∉ l ∧ '#' ∉ l) ∨ (l = ['#'] ∧ after = [])

theorem wellFormed_cons {l : Level} {rest : List Level} : WellFormed (l :: rest) ↔
    (l = ['+'] ∨ ('+' ∉ l ∧ '#' ∉ l) ∨ (l = ['#'] ∧ rest = [])) ∧ WellFormed rest := by
  constructor
  · intro h
    refine ⟨h [] l rest rfl, fun before k after hrest => ?_⟩
    exact h (l :: before) k after (by rw [hrest]; rfl)
  · rintro ⟨hl, hrest⟩ before k after heq
    cases before with
    | nil =>
      obtain ⟨rfl, rfl⟩ := List.cons.inj heq
      exact hl
    | cons _ before =>
      obtain ⟨-, rfl⟩ := List.cons.inj heq
      exact hrest before k after rfl

/-- What the two rules leave of one level. -/
theorem level_in_order {l : Level} {rest : List Level} :
    (('#' ∈ l → l = ['#'] ∧ rest = []) ∧ ('+' ∈ l → l = ['+'])) ↔
      l = ['+'] ∨ ('+' ∉ l ∧ '#' ∉ l) ∨ (l = ['#'] ∧ rest = []) := by
  constructor
  · rintro ⟨hhash, hplus⟩
    by_cases hp : '+' ∈ l
    · exact .inl (hplus hp)
    · by_cases hh : '#' ∈ l
      · exact .inr (.inr (hhash hh))
      · exact .inr (.inl ⟨hp, hh⟩)
  · rintro (rfl | ⟨hp, hh⟩ | ⟨rfl, rfl⟩)
    · simp
    · exact ⟨fun h => absurd h hh, fun h => absurd h hp⟩
    · simp

theorem checkLevels_eq_none_iff {ls : List Level} : checkLevels ls = none ↔ WellFormed ls := by
  induction ls with
  | nil => simp [checkLevels, WellFormed]
  | cons l rest ih => rw [checkLevels_cons, ← and_assoc, level_in_order, ih, wellFormed_cons]

theorem check_eq_ok_iff {filter : String} : check filter = .ok () ↔ flaw filter = none := by
  unfold check
  cases flaw filter <;> simp

/-- The check accepts just the texts of the grammar. Two filters it accepts have places of their own: in any
trie that the operations can make, registering or removing the one changes what is registered for the one
and nothing for the other. -/
theorem accepted_apart :
    (∀ filter, check filter = .ok () ↔
      filter ≠ "" ∧ '\x00' ∉ filter.toList ∧ WellFormed (levels filter)) ∧
    (∀ cs : List Change, (cs.foldl Trie.apply {}).Sorted) ∧
    ∀ f g, check f = .ok () → check g = .ok () → f ≠ g → Place.ofFilter f ≠ Place.ofFilter g ∧
      ∀ t : Trie, t.Sorted → ∀ q,
        (t.set f q).get? f = some q ∧ (t.set f q).get? g = t.get? g ∧
        (t.remove f).2.get? f = none ∧ (t.remove f).2.get? g = t.get? g := by
  refine ⟨fun filter => ?_, fun cs => (Trie.Represents.empty.applyAll cs).sorted, fun f g hf hg hne => ?_⟩
  · rw [check_eq_ok_iff, flaw_eq_none_iff, checkLevels_eq_none_iff, ne_eq, ne_eq, String.toList_eq_nil_iff]
  · have hplace : Place.ofFilter f ≠ Place.ofFilter g := fun h =>
      hne (ofFilter_injective (check_eq_ok_iff.1 hf) (check_eq_ok_iff.1 hg) h)
    refine ⟨hplace, fun t ht q => ⟨?_, ?_, ?_, ?_⟩⟩
    · exact (Trie.root_set ht f q _).trans (if_pos rfl)
    · exact (Trie.root_set ht f q _).trans (if_neg hplace.symm)
    · exact (Trie.root_remove ht f _).trans (if_pos rfl)
    · exact (Trie.root_remove ht f _).trans (if_neg hplace.symm)

/-- A filter and the one that goes on from it with a `#` are registered at one node, each in a slot of its own. -/
theorem accepted_apart_at_one_node :
    let t := [Change.set "a" .atMostOnce, .set "a/#" .exactlyOnce].foldl Trie.apply {}
    check "a" = .ok () ∧ check "a/#" = .ok () ∧ t.Sorted ∧
      (Place.ofFilter "a").steps = (Place.ofFilter "a/#").steps ∧
      (t.remove "a").2.get? "a/#" = some .exactlyOnce ∧ (t.set "a/#" .atMostOnce).get? "a" = some .atMostOnce := by
  intro t
  obtain ⟨-, hsorted, hapart⟩ := accepted_apart
  have ha : check "a" = .ok () := by decide +kernel
  have hb : check "a/#" = .ok () := by decide +kernel
  obtain ⟨-, hremove⟩ := hapart "a" "a/#" ha hb (by decide)
  obtain ⟨-, hset⟩ := hapart "a/#" "a" hb ha (by decide)
  refine ⟨ha, hb, hsorted _, by decide +kernel, ?_, ?_⟩
  · exact (hremove t (hsorted _) .atMostOnce).2.2.2.trans (by decide +kernel)
  · exact (hset t (hsorted _) .atMostOnce).2.1.trans (by decide +kernel)

end PubSub.Topic
