import PubSub.Proofs.Trie
import PubSub.Topic.Filter
/-!
# Walking the trie is matching filters

A walk along a topic finds what is registered at the places that match the topic, each place once
(`Trie.mem_found`, `Trie.nodup_found`), and a place matches just when its filter does (`matchesFilter_iff`).
So the service a topic gets is the strongest of those registered at the places of filters that cover it.
-/

namespace PubSub

/-! ## The strongest service -/

namespace QoS

theorem toNat_max (a b : QoS) : (max a b).toNat = Nat.max a.toNat b.toNat := by
  cases a <;> cases b <;> rfl

theorem max_mem (a b : QoS) : max a b = a ∨ max a b = b := by
  cases a <;> cases b <;> first | exact .inl rfl | exact .inr rfl

theorem foldl_max (qs : List QoS) (q : QoS) :
    qs.foldl max q ∈ q :: qs ∧ ∀ p ∈ q :: qs, p.toNat ≤ (qs.foldl max q).toNat := by
  induction qs generalizing q with
  | nil => exact ⟨List.mem_cons_self, fun p hp => Nat.le_of_eq (congrArg toNat (List.mem_singleton.1 hp))⟩
  | cons p qs ih =>
    obtain ⟨hmem, hle⟩ := ih (max q p)
    have hmax := hle _ List.mem_cons_self
    rw [toNat_max] at hmax
    rw [List.foldl_cons]
    constructor
    · rcases List.mem_cons.1 hmem with heq | hmem
      · rw [heq]
        rcases max_mem q p with h | h <;> simp [h]
      · exact List.mem_cons_of_mem q (List.mem_cons_of_mem p hmem)
    · intro t ht
      rcases List.mem_cons.1 ht with rfl | ht
      · exact Nat.le_trans (Nat.le_max_left _ _) hmax
      · rcases List.mem_cons.1 ht with rfl | ht
        · exact Nat.le_trans (Nat.le_max_right _ _) hmax
        · exact hle t (List.mem_cons_of_mem _ ht)

theorem highest_eq_none_iff {qs : List QoS} : highest qs = none ↔ qs = [] := by
  cases qs <;> simp [highest]

theorem highest_eq_some_iff {qs : List QoS} {q : QoS} : highest qs = some q ↔ q ∈ qs ∧ ∀ p ∈ qs, p.toNat ≤ q.toNat := by
  cases qs with
  | nil => simp [highest]
  | cons p qs =>
    obtain ⟨hmem, hle⟩ := foldl_max qs p
    rw [highest, Option.some.injEq]
    constructor
    · rintro rfl
      exact ⟨hmem, hle⟩
    · rintro ⟨hq, hall⟩
      exact toNat_injective (Nat.le_antisymm (hall _ hmem) (hle q hq))

/-- Only which levels there are counts. -/
theorem highest_congr {ps qs : List QoS} (h : ∀ q, q ∈ ps ↔ q ∈ qs) : highest ps = highest qs := by
  apply Option.ext
  intro q
  simp only [highest_eq_some_iff, h]

end QoS

namespace Topic

/-! ## Places that match -/

/-- Whether a walk along these steps goes along a topic's levels. -/
def Covers : List Step → Slot → List Level → Prop
  | [], .tail, _ => True
  | [], .exact, ls => ls = []
  | _ :: _, _, [] => False
  | s :: steps, slot, l :: ls => (s = .any ∨ s = .named l) ∧ Covers steps slot ls

/-- Whether the filters at a place cover a topic. No leading wildcard covers a reserved one. -/
def Place.Matches (p : Place) (topic : String) : Prop :=
  Covers p.steps p.slot (levels topic) ∧ (isReserved topic = true → ∃ l, p.steps.head? = some (.named l))

namespace Node

/-- A place seen from the node before. -/
def under (s : Step) (e : Place × QoS) : Place × QoS := (⟨s :: e.1.steps, e.1.slot⟩, e.2)

/-- What lies along a topic's levels, each with the place where it is registered. -/
def found (n : Node) : List Level → List (Place × QoS)
  | [] => n.here.tail.toList.map (⟨[], .tail⟩, ·) ++ n.here.exact.toList.map (⟨[], .exact⟩, ·)
  | l :: rest =>
    n.here.tail.toList.map (⟨[], .tail⟩, ·)
      ++ (((n.below.find? .any).getD {}).found rest).map (under .any)
      ++ (((n.below.find? (.named l)).getD {}).found rest).map (under (.named l))

/-- As `found`, but without the wildcards of the node itself. -/
def foundNamed (n : Node) : List Level → List (Place × QoS)
  | [] => n.here.exact.toList.map (⟨[], .exact⟩, ·)
  | l :: rest => (((n.below.find? (.named l)).getD {}).found rest).map (under (.named l))

theorem collect_empty (ls : List Level) : ({} : Node).collect ls = [] := by
  cases ls <;> rfl

theorem collect_below (n : Node) (s : Step) (ls : List Level) :
    ((n.below.find? s).map (·.collect ls)).getD [] = ((n.below.find? s).getD {}).collect ls := by
  cases n.below.find? s with
  | none => exact (collect_empty ls).symm
  | some m => rfl

theorem map_under (s : Step) (es : List (Place × QoS)) : (es.map (under s)).map (·.2) = es.map (·.2) := by
  rw [List.map_map]
  rfl

theorem map_found (n : Node) (ls : List Level) : (n.found ls).map (·.2) = n.collect ls := by
  have hplace (p : Place) (o : Option QoS) : (o.toList.map (p, ·)).map (·.2) = o.toList := by
    cases o <;> rfl
  induction ls generalizing n with
  | nil => rw [found, List.map_append, hplace, hplace, collect]
  | cons l ls ih =>
    rw [found, List.map_append, List.map_append, hplace, map_under, map_under, ih, ih, collect, collect_below, collect_below]

theorem map_foundNamed (n : Node) (ls : List Level) : (n.foundNamed ls).map (·.2) = n.collectNamed ls := by
  cases ls with
  | nil =>
    rw [foundNamed, collectNamed, List.map_map]
    exact List.map_id _
  | cons l ls => rw [foundNamed, map_under, map_found, collectNamed, collect_below]

theorem mem_map_under {s : Step} {es : List (Place × QoS)} {p : Place} {q : QoS} :
    (p, q) ∈ es.map (under s) ↔ ∃ steps, p.steps = s :: steps ∧ (⟨steps, p.slot⟩, q) ∈ es := by
  rw [List.mem_map]
  constructor
  · rintro ⟨e, he, heq⟩
    obtain ⟨rfl, rfl⟩ := Prod.mk.inj heq
    exact ⟨e.1.steps, rfl, he⟩
  · rintro ⟨steps, hsteps, he⟩
    refine ⟨_, he, ?_⟩
    rw [under, ← hsteps]

/-- A walk finds what is registered at the places it comes by. -/
theorem mem_found {n : Node} {ls : List Level} {p : Place} {q : QoS} :
    (p, q) ∈ n.found ls ↔ n.get? p = some q ∧ Covers p.steps p.slot ls := by
  obtain ⟨steps, slot⟩ := p
  rw [get?_eq]
  induction ls generalizing n steps with
  | nil => cases steps <;> cases slot <;> simp [found, Covers, slots, walk, Slots.get]
  | cons l ls ih =>
    simp only [found, List.mem_append, mem_map_under]
    cases steps with
    | nil => cases slot <;> simp [Covers, slots, walk, Slots.get]
    | cons s steps =>
      have hbelow (t : Step) :
          (∃ rest, s :: steps = t :: rest ∧ (⟨rest, slot⟩, q) ∈ ((n.below.find? t).getD {}).found ls) ↔
            s = t ∧ (n.slots (s :: steps)).get slot = some q ∧ Covers steps slot ls := by
        rw [slots_cons]
        constructor
        · rintro ⟨rest, heq, hrest⟩
          obtain ⟨rfl, rfl⟩ := List.cons.inj heq
          exact ⟨rfl, (ih steps).1 hrest⟩
        · rintro ⟨rfl, hrest⟩
          exact ⟨steps, rfl, (ih steps).2 hrest⟩
      have hhere : (⟨s :: steps, slot⟩, q) ∉ n.here.tail.toList.map (Prod.mk (⟨[], .tail⟩ : Place)) := by simp
      rw [hbelow, hbelow, or_iff_right hhere, Covers, ← or_and_right, and_left_comm]

theorem nodup_map_under {s : Step} {es : List (Place × QoS)} (h : es.Nodup) : (es.map (under s)).Nodup := by
  refine List.Pairwise.map _ (fun a b hne heq => hne ?_) h
  obtain ⟨hplace, hq⟩ := Prod.mk.inj heq
  obtain ⟨hsteps, hslot⟩ := Place.mk.inj hplace
  exact Prod.ext (by rw [← show Place.mk a.1.steps a.1.slot = a.1 from rfl, (List.cons.inj hsteps).2, hslot]) hq

/-- A walk comes by each place once. -/
theorem nodup_found (n : Node) (ls : List Level) : (n.found ls).Nodup := by
  induction ls generalizing n with
  | nil =>
    cases ht : n.here.tail <;> cases he : n.here.exact <;> simp [found, ht, he]
  | cons l ls ih =>
    rw [found, List.append_assoc, List.nodup_append, List.nodup_append]
    refine ⟨?_, ⟨nodup_map_under (ih _), nodup_map_under (ih _), ?_⟩, ?_⟩
    · cases n.here.tail <;> simp
    · rintro ⟨p, q⟩ hany _ hnamed rfl
      obtain ⟨steps, hsteps, -⟩ := mem_map_under.1 hany
      obtain ⟨steps', hsteps', -⟩ := mem_map_under.1 hnamed
      rw [hsteps] at hsteps'
      cases hsteps'
    · rintro ⟨p, q⟩ hhere _ hbelow rfl
      obtain ⟨q', -, heq⟩ := List.mem_map.1 hhere
      obtain ⟨rfl, -⟩ := Prod.mk.inj heq
      rcases List.mem_append.1 hbelow with h | h <;> obtain ⟨steps, hsteps, -⟩ := mem_map_under.1 h <;> cases hsteps

end Node

/-! ## First levels -/

/-- A text and its first level start alike, unless the text starts with a slash. -/
theorem head?_levels (s : String) {c : Char} (hc : c ≠ '/') :
    ((levels s).headD []).head? = some c ↔ s.toList.head? = some c := by
  unfold levels
  cases s.toList with
  | nil => simp
  | cons a as =>
    rw [List.splitOn, List.splitOnP_cons_eq_if_modifyHead]
    split
    · next h =>
      have ha : a = '/' := by simpa using h
      simp [ha, Ne.symm hc]
    · cases h : as.splitOnP (· == '/') with
      | nil => exact absurd h (List.splitOnP_ne_nil _ _)
      | cons l ls => simp

theorem isReserved_iff (topic : String) : isReserved topic = true ↔ ((levels topic).headD []).head? = some '$' := by
  rw [head?_levels topic (by decide)]
  simp [isReserved]

namespace Trie

/-- What lies along a topic, each with the place where it is registered. -/
def found (t : Trie) (topic : String) : List (Place × QoS) :=
  if isReserved topic then t.root.foundNamed (levels topic) else t.root.found (levels topic)

theorem map_found (t : Trie) (topic : String) : (t.found topic).map (·.2) = t.matching topic := by
  unfold found matching
  simp only [isReserved_iff]
  split
  · exact Node.map_foundNamed _ _
  · exact Node.map_found _ _

theorem nodup_found (t : Trie) (topic : String) : (t.found topic).Nodup := by
  unfold found
  split
  · cases levels topic with
    | nil => cases h : t.root.here.exact <;> simp [Node.foundNamed, h]
    | cons l ls => exact Node.nodup_map_under (Node.nodup_found _ ls)
  · exact Node.nodup_found _ _

/-- What lies along a topic is what is registered at the places that match it. -/
theorem mem_found {t : Trie} {topic : String} {p : Place} {q : QoS} :
    (p, q) ∈ t.found topic ↔ t.root.get? p = some q ∧ p.Matches topic := by
  unfold found Place.Matches
  by_cases hr : isReserved topic = true
  · rw [if_pos hr]
    cases hl : levels topic with
    | nil => exact absurd hl (levels_ne_nil topic)
    | cons l ls =>
      obtain ⟨steps, slot⟩ := p
      rw [Node.foundNamed, Node.mem_map_under, Node.get?_eq]
      -- A place that matches a reserved topic has a named first step: the first level of the topic.
      constructor
      · rintro ⟨rest, rfl, hrest⟩
        rw [Node.mem_found, Node.get?_eq, ← Node.slots_cons] at hrest
        exact ⟨hrest.1, ⟨.inr rfl, hrest.2⟩, fun _ => ⟨l, rfl⟩⟩
      · rintro ⟨hget, hcovers, hnamed⟩
        obtain ⟨l', hl'⟩ := hnamed hr
        cases steps with
        | nil => cases hl'
        | cons s rest =>
          obtain rfl : s = .named l' := Option.some.inj hl'
          obtain ⟨hany | hsame, hrest⟩ := hcovers
          · cases hany
          · rw [hsame, Node.slots_cons] at hget
            refine ⟨rest, by rw [hsame], ?_⟩
            rw [Node.mem_found, Node.get?_eq]
            exact ⟨hget, hrest⟩
  · rw [if_neg hr, Node.mem_found, and_iff_left fun h => absurd h hr]

theorem mem_matching {t : Trie} {topic : String} {q : QoS} :
    q ∈ t.matching topic ↔ ∃ p : Place, t.root.get? p = some q ∧ p.Matches topic := by
  simp only [← map_found, List.mem_map, Prod.exists, mem_found, exists_eq_right]

end Trie

/-! ## Filters -/

theorem covers_ofLevels (fs ts : List Level) :
    Covers (Place.ofLevels fs).steps (Place.ofLevels fs).slot ts ↔ levelsMatch fs ts = true := by
  induction fs generalizing ts with
  | nil => cases ts <;> simp [Place.ofLevels, Covers, levelsMatch]
  | cons f fs ih =>
    rw [Place.ofLevels]
    by_cases hf : f = ['#']
    · rw [if_pos hf]
      subst hf
      cases ts <;> simp [Covers, levelsMatch]
    · rw [if_neg hf]
      cases ts with
      | nil => simp [Covers, levelsMatch, hf]
      | cons t ts =>
        have hstep : (Step.ofLevel f = .any ∨ Step.ofLevel f = .named t) ↔ (f = ['+'] ∨ f = t) := by
          unfold Step.ofLevel
          by_cases hp : f = ['+'] <;> simp [hp]
        simp only [Covers, hstep, ih, levelsMatch, if_neg hf]
        by_cases hft : f = ['+'] ∨ f = t <;> simp [hft]

/-- A filter that covers a reserved topic starts with a wildcard just when its place does. -/
theorem named_iff {topic filter : String} (hr : isReserved topic = true)
    (h : levelsMatch (levels filter) (levels topic) = true) :
    (∃ l, (Place.ofLevels (levels filter)).steps.head? = some (.named l)) ↔
      ¬ (filter.toList.head? = some '+' ∨ filter.toList.head? = some '#') := by
  have hplus := head?_levels filter (show '+' ≠ '/' by decide)
  have hhash := head?_levels filter (show '#' ≠ '/' by decide)
  have hdollar := head?_levels filter (show '$' ≠ '/' by decide)
  cases hf : levels filter with
  | nil => exact absurd hf (levels_ne_nil filter)
  | cons f fs =>
    rw [hf, List.headD_cons] at hplus hhash hdollar
    rw [Place.ofLevels]
    by_cases hh : f = ['#']
    · simp [hh, ← hhash]
    · by_cases hp : f = ['+']
      · simp [hp, ← hplus, Step.ofLevel]
      · refine ⟨fun _ hwild => ?_, fun _ => ⟨f, by simp [hh, hp, Step.ofLevel]⟩⟩
        -- A named first level is the topic's own, which starts with a dollar sign.
        have hfirst := (isReserved_iff topic).1 hr
        cases ht : levels topic with
        | nil => exact absurd ht (levels_ne_nil topic)
        | cons t ts =>
          rw [hf, ht, levelsMatch, if_neg hh] at h
          rw [ht, List.headD_cons] at hfirst
          have hft : f = t := by
            by_cases hft : f = t
            · exact hft
            · simp [hp, hft] at h
          have hhead := hdollar.1 (hft ▸ hfirst)
          rw [hhead] at hwild
          rcases hwild with h | h <;> cases h

/-- A filter covers a topic just when its place matches. -/
theorem matchesFilter_iff (topic filter : String) :
    matchesFilter topic filter = true ↔ (Place.ofFilter filter).Matches topic := by
  unfold Place.Matches Place.ofFilter
  rw [covers_ofLevels]
  unfold matchesFilter
  dsimp only
  by_cases hr : isReserved topic = true
  · simp only [hr, true_and, true_implies]
    split
    · next hwild =>
      exact ⟨fun h => absurd h Bool.false_ne_true, fun h => absurd hwild ((named_iff hr h.1).1 h.2)⟩
    · next hwild => exact ⟨fun h => ⟨h, (named_iff hr h).2 hwild⟩, And.left⟩
  · rw [if_neg fun h => hr h.1]
    exact ⟨fun h => ⟨h, fun hr' => absurd hr' hr⟩, And.left⟩

end Topic

end PubSub
