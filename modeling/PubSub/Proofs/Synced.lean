import PubSub.Proofs.FilterMap
import PubSub.Proofs.Interests
/-!
# What a session matches by

The filters a session matches by are those it is known to hold, but for the ones whose place was freed
by a text that it never held (`Interest.Synced`): a place stands for a filter only up to the first `#`,
and unsubscribing takes any text. Subscribing again registers all that is held.
-/

namespace PubSub

namespace Topic

/-! ## Registering many filters -/

/-- What is registered after many filters are: theirs, and elsewhere what was. -/
theorem Trie.root_foldl_set {es : List (String × QoS)} {t : Trie} (ht : t.Sorted) (hvalid : ∀ e ∈ es, flaw e.1 = none)
    (hne : es.Pairwise (fun d e => d.1 ≠ e.1)) {p : Place} {q : QoS} :
    (es.foldl (fun t e => t.set e.1 e.2) t).root.get? p = some q ↔
      (∃ e ∈ es, Place.ofFilter e.1 = p ∧ e.2 = q) ∨ (∀ e ∈ es, Place.ofFilter e.1 ≠ p) ∧ t.root.get? p = some q := by
  induction es generalizing t with
  | nil => simp
  | cons e es ih =>
    obtain ⟨hfirst, hrest⟩ := List.pairwise_cons.1 hne
    have hvalid' : ∀ d ∈ es, flaw d.1 = none := fun d hd => hvalid d (List.mem_cons_of_mem e hd)
    rw [List.foldl_cons, ih (ht.set e.1 e.2) hvalid' hrest, root_set ht]
    by_cases hp : p = Place.ofFilter e.1
    · subst hp
      -- The filters after this one are others, so they leave its place alone.
      have hother : ∀ d ∈ es, Place.ofFilter d.1 ≠ Place.ofFilter e.1 := fun d hd he =>
        hfirst d hd (ofFilter_injective (hvalid' d hd) (hvalid e List.mem_cons_self) he).symm
      rw [if_pos rfl, Option.some.injEq]
      constructor
      · rintro (⟨d, hd, hplace, -⟩ | ⟨-, rfl⟩)
        · exact absurd hplace (hother d hd)
        · exact .inl ⟨e, List.mem_cons_self, rfl, rfl⟩
      · rintro (⟨d, hd, hplace, rfl⟩ | ⟨hno, -⟩)
        · rcases List.mem_cons.1 hd with rfl | hd
          · exact .inr ⟨hother, rfl⟩
          · exact absurd hplace (hother d hd)
        · exact absurd rfl (hno e List.mem_cons_self)
    · rw [if_neg hp]
      simp only [List.mem_cons, exists_eq_or_imp, forall_eq_or_imp, ne_eq, Ne.symm hp, false_and, false_or, not_false_eq_true,
        true_and]

theorem Trie.Sorted.foldl_set {es : List (String × QoS)} {t : Trie} (ht : t.Sorted) :
    (es.foldl (fun t e => t.set e.1 e.2) t).Sorted := by
  induction es generalizing t with
  | nil => exact ht
  | cons e es ih => exact ih (ht.set e.1 e.2)

end Topic

open Topic

/-- The texts taken out of a session by unsubscribing, as long as it does not subscribe again. -/
def Call.taken (gone : List String) : Call → List String
  | .subscribe (_ :: _) _ => []
  | .unsubscribe filters => gone ++ filters
  | _ => gone

namespace Interest

/-- The filters match what is known to be held, where no text taken out has freed their place. -/
structure Synced (gone : List String) (i : Interest) : Prop where
  sorted : i.filters.Sorted
  valid : ∀ {f q}, i.info.subscriptions.get? f = some q → flaw f = none
  places : ∀ p q, i.filters.root.get? p = some q ↔
    ∃ f, i.info.subscriptions.get? f = some q ∧ Place.ofFilter f = p ∧ ∀ g ∈ gone, Place.ofFilter g ≠ p
  lost : ∀ g ∈ gone, i.info.subscriptions.get? g = none

/-- The places of what a session is known to hold. -/
theorem places_register {i : Interest} (ht : i.filters.Sorted)
    (hvalid : ∀ {f q}, i.info.subscriptions.get? f = some q → flaw f = none)
    (p : Place) (q : QoS) : i.register.filters.root.get? p = some q ↔
      (∃ f, i.info.subscriptions.get? f = some q ∧ Place.ofFilter f = p) ∨
        (∀ f, (i.info.subscriptions.get? f).isSome → Place.ofFilter f ≠ p) ∧ i.filters.root.get? p = some q := by
  have hne : i.info.subscriptions.entries.Pairwise (fun d e => d.1 ≠ e.1) :=
    i.info.subscriptions.ascending.imp fun hlt he => absurd (he ▸ hlt) (KeyOrder.irrefl _)
  have hentries : ∀ e ∈ i.info.subscriptions.entries, flaw e.1 = none := fun e he =>
    hvalid (OrderedMap.get?_eq_some_iff.2 (show (e.1, e.2) ∈ _ from he))
  rw [register, Trie.root_foldl_set ht hentries hne]
  refine or_congr ⟨?_, ?_⟩ (and_congr_left' ⟨?_, ?_⟩)
  · rintro ⟨e, he, hplace, rfl⟩
    exact ⟨e.1, OrderedMap.get?_eq_some_iff.2 he, hplace⟩
  · rintro ⟨f, hf, hplace⟩
    exact ⟨(f, q), OrderedMap.get?_eq_some_iff.1 hf, hplace, rfl⟩
  · intro h f hf
    obtain ⟨q', hq'⟩ := Option.isSome_iff_exists.1 hf
    exact h (f, q') (OrderedMap.get?_eq_some_iff.1 hq')
  · intro h e he
    exact h e.1 (by rw [OrderedMap.get?_eq_some_iff.2 (show (e.1, e.2) ∈ _ from he)]; rfl)

/-- Nothing is registered but what is held, though not all of that may be. -/
structure Within (i : Interest) : Prop where
  sorted : i.filters.Sorted
  valid : ∀ {f q}, i.info.subscriptions.get? f = some q → flaw f = none
  within : ∀ {p q}, i.filters.root.get? p = some q → ∃ f, (i.info.subscriptions.get? f).isSome ∧ Place.ofFilter f = p

namespace Within

variable {i : Interest}

/-- Registering all that is held puts every filter in its place. -/
theorem register (h : Within i) : Synced [] i.register := by
  refine ⟨Trie.Sorted.foldl_set h.sorted, h.valid, fun p q => ?_, nofun⟩
  rw [places_register h.sorted h.valid]
  constructor
  · rintro (⟨f, hf, hplace⟩ | ⟨hno, hq⟩)
    · exact ⟨f, hf, hplace, nofun⟩
    · obtain ⟨f, hf, hplace⟩ := h.within hq
      exact absurd hplace (hno f hf)
  · rintro ⟨f, hf, hplace, -⟩
    exact .inl ⟨f, hf, hplace⟩

/-- What is held stays held when subscriptions are taken in, and their filters are in order. -/
theorem accept (h : Within i) (subs : List Subscription) : Within (i.accept subs) := by
  have hvalid : ∀ f ∈ i.info.subscriptions.keys, flaw f = none := fun f hf => by
    obtain ⟨q, hq⟩ := Option.isSome_iff_exists.1 (OrderedMap.mem_keys_iff.1 hf)
    exact h.valid hq
  refine ⟨h.sorted, fun {f q} hf => ?_, fun hq => ?_⟩
  · exact valid_accept hvalid subs f (OrderedMap.mem_keys_iff.2 (Option.isSome_iff_exists.2 ⟨q, hf⟩))
  · obtain ⟨f, hf, hplace⟩ := h.within hq
    exact ⟨f, OrderedMap.mem_keys_iff.1 (keys_accept (OrderedMap.mem_keys_iff.2 hf) subs), hplace⟩

/-- A session before anything is registered. -/
theorem fresh {info : Info} (hvalid : ∀ {f q}, info.subscriptions.get? f = some q → flaw f = none) :
    Within ⟨info, {}⟩ where
  sorted := Trie.sorted_empty
  valid := hvalid
  within {p q} hq := by
    have hnone : (⟨info, {}⟩ : Interest).filters.root.get? p = none := Node.get?_empty p
    rw [hnone] at hq
    cases hq

end Within

namespace Synced

variable {gone : List String} {i : Interest}

theorem to_within (h : Synced gone i) : Within i where
  sorted := h.sorted
  valid := h.valid
  within hq := by
    obtain ⟨f, hf, hplace, -⟩ := (h.places _ _).1 hq
    exact ⟨f, by rw [hf]; rfl, hplace⟩

/-- A text taken out frees its place, and what is held under its own name. -/
theorem forget (h : Synced gone i) (f : String) : Synced (gone ++ [f]) (i.forget f) where
  sorted := h.sorted.remove f
  valid {g q} hg := by
    have hg' : (i.info.subscriptions.erase f).get? g = some q := hg
    rw [OrderedMap.get?_erase] at hg'
    split at hg'
    · cases hg'
    · exact h.valid hg'
  places p q := by
    show (i.filters.remove f).2.root.get? p = some q ↔ ∃ g, (i.info.subscriptions.erase f).get? g = some q ∧ _
    rw [Trie.root_remove h.sorted]
    simp only [OrderedMap.get?_erase, List.mem_append, List.mem_singleton]
    -- At the place of the text nothing is left, whichever filter had it.
    by_cases hp : p = Place.ofFilter f
    · rw [if_pos hp]
      constructor
      · intro h
        cases h
      · rintro ⟨g, -, -, hno⟩
        exact absurd hp.symm (hno f (.inr rfl))
    · rw [if_neg hp, h.places]
      constructor
      · rintro ⟨g, hg, hplace, hno⟩
        refine ⟨g, ?_, hplace, ?_⟩
        · rw [if_neg fun (he : g = f) => hp (he ▸ hplace.symm)]
          exact hg
        · rintro d (hd | rfl)
          · exact hno d hd
          · exact Ne.symm hp
      · rintro ⟨g, hg, hplace, hno⟩
        split at hg
        · cases hg
        · exact ⟨g, hg, hplace, fun d hd => hno d (.inl hd)⟩
  lost g hg := by
    show (i.info.subscriptions.erase f).get? g = none
    rw [OrderedMap.get?_erase]
    split
    · rfl
    · next hne => exact h.lost g ((List.mem_append.1 hg).resolve_right fun hf => hne (List.mem_singleton.1 hf))

/-- Taking out a filter frees no other's place. -/
theorem forget_valid (h : Synced gone i) {f : String} (hf : flaw f = none) : Synced gone (i.forget f) := by
  have hforget := h.forget f
  refine ⟨hforget.sorted, hforget.valid, fun p q => ?_, fun g hg => hforget.lost g (List.mem_append_left _ hg)⟩
  rw [hforget.places]
  refine exists_congr fun g => and_congr_right fun hg => and_congr_right fun hplace => ?_
  constructor
  · intro hno d hd
    exact hno d (List.mem_append_left _ hd)
  · intro hno d hd
    rcases List.mem_append.1 hd with hd | hd
    · exact hno d hd
    · -- The only filter with its place is itself, which is no longer held.
      rw [List.mem_singleton.1 hd, ← hplace]
      intro he
      have hfg : f = g := ofFilter_injective hf (hforget.valid hg) he
      have hgone := hforget.lost f (List.mem_append_right gone List.mem_cons_self)
      subst hfg
      rw [hg] at hgone
      cases hgone

theorem forgetAll (h : Synced gone i) (filters : List String) :
    Synced (gone ++ filters) (filters.foldl Interest.forget i) := by
  induction filters generalizing gone i with
  | nil => rwa [List.append_nil]
  | cons f filters ih =>
    have hall := ih (h.forget f)
    rwa [List.append_assoc] at hall

theorem forgetAll_valid (h : Synced gone i) {filters : List String} (hf : ∀ f ∈ filters, flaw f = none) :
    Synced gone (filters.foldl Interest.forget i) := by
  induction filters generalizing i with
  | nil => exact h
  | cons f filters ih =>
    exact ih (h.forget_valid (hf f List.mem_cons_self)) fun g hg => hf g (List.mem_cons_of_mem f hg)

/-- Subscribing registers all that is held, and what is denied is taken out again. -/
theorem of_subscribe (h : Within i) (sub : Subscription) (subs : List Subscription) (authorize : Option Authorize) :
    Synced [] (i.after (.subscribe (sub :: subs) authorize)) := by
  have hheld : Synced [] (i.accept (sub :: subs)).register := (h.accept _).register
  cases authorize with
  | none => exact hheld
  | some allowed =>
    refine hheld.forgetAll_valid fun f hf => ?_
    obtain ⟨q, hq⟩ := Option.isSome_iff_exists.1 (OrderedMap.mem_keys_iff.1 (List.mem_filter.1 hf).1)
    exact hheld.valid hq

/-- Every call keeps the filters as synced as what was taken out allows. -/
theorem after (h : Synced gone i) (c : Call) : Synced (c.taken gone) (i.after c) := by
  cases c with
  | subscribe subs authorize =>
    cases subs with
    | nil => exact h
    | cons sub subs => exact of_subscribe h.to_within sub subs authorize
  | unsubscribe filters => exact h.forgetAll filters
  | update info => exact ⟨h.sorted, h.valid, h.places, h.lost⟩
  | cleanWill => exact ⟨h.sorted, h.valid, h.places, h.lost⟩
  | _ => exact h

/-- A fresh session that holds nothing matches nothing. -/
theorem fresh {info : Info} (h : info.subscriptions = .empty) (gone : List String) : Synced gone ⟨info, {}⟩ where
  sorted := Trie.sorted_empty
  valid hf := by
    rw [h] at hf
    cases hf
  places p q := by
    have hnone : (⟨info, {}⟩ : Interest).filters.root.get? p = none := Node.get?_empty p
    rw [hnone]
    constructor
    · exact nofun
    · rintro ⟨f, hf, -⟩
      rw [h] at hf
      cases hf
  lost g _ := by
    rw [h]
    rfl

/-- A session restored from a record matches by what the record holds. -/
theorem restored {info : Info} (hvalid : ∀ {f q}, info.subscriptions.get? f = some q → flaw f = none) :
    Synced [] (Interest.register ⟨info, {}⟩) :=
  (Within.fresh hvalid).register

/-- A topic gets the strongest service of the filters that are held, cover it and have their place. -/
theorem maxQoS (h : Synced gone i) (topic : String) : i.filters.maxQoS topic = QoS.highest
    ((i.info.subscriptions.entries.filter fun e =>
      matchesFilter topic e.1 && gone.all fun g => Place.ofFilter g ≠ Place.ofFilter e.1).map (·.2)) := by
  refine QoS.highest_congr fun q => ?_
  rw [Trie.mem_matching]
  simp only [List.mem_map, List.mem_filter, Bool.and_eq_true, List.all_eq_true, decide_eq_true_eq, matchesFilter_iff]
  constructor
  · rintro ⟨p, hp, hmatches⟩
    obtain ⟨f, hf, rfl, hno⟩ := (h.places p q).1 hp
    exact ⟨(f, q), ⟨OrderedMap.get?_eq_some_iff.1 hf, hmatches, hno⟩, rfl⟩
  · rintro ⟨e, ⟨he, hmatches, hno⟩, rfl⟩
    exact ⟨Place.ofFilter e.1, (h.places _ _).2 ⟨e.1, OrderedMap.get?_eq_some_iff.2 he, rfl, hno⟩, hmatches⟩

end Synced

end Interest

end PubSub
