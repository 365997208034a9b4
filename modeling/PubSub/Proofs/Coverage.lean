import Mathlib.Data.List.Basic
import Mathlib.Data.Nat.Basic
import PubSub.Topic.Filter
import PubSub.Proofs.FilterMap
/-!
# What a filter covers

A filter that passes its check covers the topics its levels say: level for level, or up to a `#`
at its end (`Topic.matched_level_by_level`). The same answer comes from a scan that stands at a
level of each text and moves one on in both at a time; it reads no level that is not there.
-/

namespace PubSub.Topic

/-! ## The rule -/

/-- Level for level, where `+` goes with any; a `#` at the end goes with whatever is left, also
with nothing. -/
def Covering (fs ts : List Level) : Prop :=
  (fs.getLast? ≠ some ['#'] ∧ fs.length = ts.length ∧ ∀ i < fs.length, fs[i]? = some ['+'] ∨ fs[i]? = ts[i]?) ∨
    (fs.getLast? = some ['#'] ∧ fs.length ≤ ts.length + 1 ∧
      ∀ i, i + 1 < fs.length → fs[i]? = some ['+'] ∨ fs[i]? = ts[i]?)

theorem checkLevels_cons {l : Level} {rest : List Level} :
    checkLevels (l :: rest) = none ↔
      ('#' ∈ l → l = ['#'] ∧ rest = []) ∧ ('+' ∈ l → l = ['+']) ∧ checkLevels rest = none := by
  rw [checkLevels]
  split
  · grind
  · split <;> grind

theorem getLast?_cons_of_ne {f : Level} (fs : List Level) (hf : f ≠ ['#']) :
    (f :: fs).getLast? = some ['#'] ↔ fs.getLast? = some ['#'] := by
  cases fs with
  | nil => simp [hf]
  | cons g gs => rw [List.getLast?_cons_cons]

theorem not_covering_nil {f : Level} {fs : List Level} (hf : f ≠ ['#']) : ¬ Covering (f :: fs) [] := by
  rintro (⟨-, hlen, -⟩ | ⟨hlast, hlen, -⟩)
  · cases hlen
  · obtain rfl : fs = [] := List.eq_nil_of_length_eq_zero (by simpa using hlen)
    exact hf (Option.some.inj hlast)

theorem covering_cons {f t : Level} {fs ts : List Level} (hf : f ≠ ['#']) :
    Covering (f :: fs) (t :: ts) ↔ (f = ['+'] ∨ f = t) ∧ Covering fs ts := by
  unfold Covering
  simp only [ne_eq, getLast?_cons_of_ne fs hf, List.length_cons, Nat.add_right_cancel_iff, Nat.add_le_add_iff_right,
    Nat.add_lt_add_iff_right, Nat.forall_lt_succ_left, List.getElem?_cons_zero, List.getElem?_cons_succ, Option.some.injEq]
  -- With a `#` at its end a filter goes on after its first level.
  have hrest (hlast : fs.getLast? = some ['#']) :
      (∀ i < fs.length, (f :: fs)[i]? = some ['+'] ∨ (f :: fs)[i]? = (t :: ts)[i]?) ↔
        (f = ['+'] ∨ f = t) ∧ ∀ i, i + 1 < fs.length → fs[i]? = some ['+'] ∨ fs[i]? = ts[i]? := by
    cases fs with
    | nil => cases hlast
    | cons g gs => simp only [List.length_cons, Nat.forall_lt_succ_left, Nat.add_lt_add_iff_right,
        List.getElem?_cons_zero, List.getElem?_cons_succ, Option.some.injEq]
  constructor
  · rintro (⟨hlast, hlen, hfirst, hall⟩ | ⟨hlast, hlen, hall⟩)
    · exact ⟨hfirst, .inl ⟨hlast, hlen, hall⟩⟩
    · exact ⟨((hrest hlast).1 hall).1, .inr ⟨hlast, hlen, ((hrest hlast).1 hall).2⟩⟩
  · rintro ⟨hfirst, ⟨hlast, hlen, hall⟩ | ⟨hlast, hlen, hall⟩⟩
    · exact .inl ⟨hlast, hlen, hfirst, hall⟩
    · exact .inr ⟨hlast, hlen, (hrest hlast).2 ⟨hfirst, hall⟩⟩

theorem levelsMatch_iff {fs : List Level} (h : checkLevels fs = none) (ts : List Level) :
    levelsMatch fs ts = true ↔ Covering fs ts := by
  induction fs generalizing ts with
  | nil => cases ts <;> simp [levelsMatch, Covering]
  | cons f fs ih =>
    obtain ⟨hhash, -, hrest⟩ := checkLevels_cons.1 h
    by_cases hf : f = ['#']
    · obtain ⟨-, rfl⟩ := hhash (by simp [hf])
      simp [levelsMatch, Covering, hf]
    · cases ts with
      | nil => simp [levelsMatch, hf, not_covering_nil hf]
      | cons t ts =>
        rw [covering_cons hf, ← ih hrest, levelsMatch, if_neg hf]
        simp

/-- A text that starts with a wildcard and passes the check has it as its whole first level. -/
theorem wildcard_first {filter : String} (h : flaw filter = none) :
    (filter.toList.head? = some '+' ∨ filter.toList.head? = some '#') ↔
      (levels filter).head? = some ['+'] ∨ (levels filter).head? = some ['#'] := by
  have hcheck := checkLevels_of_flaw h
  rw [← head?_levels filter (show '+' ≠ '/' by decide), ← head?_levels filter (show '#' ≠ '/' by decide)]
  cases hl : levels filter with
  | nil => exact absurd hl (levels_ne_nil filter)
  | cons l rest =>
    rw [hl] at hcheck
    obtain ⟨hhash, hplus, -⟩ := checkLevels_cons.1 hcheck
    simp only [List.headD_cons, List.head?_cons, Option.some.injEq]
    constructor
    · rintro (hfirst | hfirst)
      · exact .inl (hplus (List.mem_of_head? hfirst))
      · exact .inr (hhash (List.mem_of_head? hfirst)).1
    · rintro (rfl | rfl) <;> simp

/-! ## The scan -/

namespace Scan

/-- What a scan has come to: both positions are in their lists, and what is left to compare decides
the answer. -/
def Sound (fs ts : List Level) : Scan → Prop
  | standing i j => i ≤ fs.length ∧ j ≤ ts.length ∧ levelsMatch (fs.drop i) (ts.drop j) = levelsMatch fs ts
  | found covered => covered = levelsMatch fs ts

/-- Where both have a level left, these agree and so does what is left after them. -/
theorem levelsMatch_drop {fs ts : List Level} {i j : Nat} (hi : i < fs.length) (hj : j < ts.length)
    (hhash : fs[i] ≠ ['#']) : levelsMatch (fs.drop i) (ts.drop j) =
      if fs[i] = ['+'] ∨ fs[i] = ts[j] then levelsMatch (fs.drop (i + 1)) (ts.drop (j + 1)) else false := by
  rw [List.drop_eq_getElem_cons hi, List.drop_eq_getElem_cons hj, levelsMatch, if_neg hhash]

theorem levelsMatch_drop_of_hash {fs : List Level} {i : Nat} (hi : i < fs.length) (hhash : fs[i] = ['#'])
    (ts : List Level) : levelsMatch (fs.drop i) ts = true := by
  rw [List.drop_eq_getElem_cons hi]
  cases ts <;> rw [levelsMatch, if_pos hhash]

theorem levelsMatch_drop_of_topic_ended {fs ts : List Level} {i j : Nat} (hi : i < fs.length) (hj : ts.length ≤ j)
    (hhash : fs[i] ≠ ['#']) : levelsMatch (fs.drop i) (ts.drop j) = false := by
  rw [List.drop_eq_getElem_cons hi, List.drop_of_length_le hj, levelsMatch, if_neg hhash]

/-- Past the filter's last level it covers what the topic has left only if that is nothing. -/
theorem levelsMatch_drop_of_filter_ended {fs ts : List Level} {i j : Nat} (hi : fs.length ≤ i) (hj : j ≤ ts.length) :
    levelsMatch (fs.drop i) (ts.drop j) = decide (j = ts.length) := by
  rw [List.drop_of_length_le hi]
  rcases Nat.lt_or_eq_of_le hj with hjlt | rfl
  · rw [List.drop_eq_getElem_cons hjlt, levelsMatch]
    exact (decide_eq_false (Nat.ne_of_lt hjlt)).symm
  · rw [List.drop_length, levelsMatch]
    exact (decide_eq_true rfl).symm

/-- A turn reads levels that are there, and either moves one on or has the answer. -/
theorem turn_sound {fs ts : List Level} {s : Scan} (h : s.Sound fs ts) :
    ∃ t, s.turn fs ts = some t ∧ t.Sound fs ts ∧ ∀ i j, t = standing i j → ∃ i' j', s = standing i' j' ∧ i = i' + 1 := by
  have hended (c : Bool) : ∀ i j, found c = standing i j → ∃ i' j', s = standing i' j' ∧ i = i' + 1 := by
    intro i j hsame
    cases hsame
  cases s with
  | found covered => exact ⟨_, rfl, h, hended covered⟩
  | standing i j =>
    obtain ⟨hi, hj, hleft⟩ := h
    have hon : ∀ i' j', standing (i + 1) (j + 1) = standing i' j' →
        ∃ i₀ j₀, standing i j = standing i₀ j₀ ∧ i' = i₀ + 1 := by
      intro i' j' hsame
      exact ⟨i, j, rfl, (Scan.standing.inj hsame).1.symm⟩
    rw [turn]
    by_cases hlt : i < fs.length
    · rw [if_pos hlt, List.getElem?_eq_getElem hlt, Option.bind_some]
      by_cases hhash : fs[i] = ['#']
      · rw [if_pos hhash]
        exact ⟨_, rfl, (levelsMatch_drop_of_hash hlt hhash _).symm.trans hleft, hended _⟩
      · rw [if_neg hhash]
        by_cases hend : ts.length ≤ j
        · rw [if_pos hend]
          exact ⟨_, rfl, (levelsMatch_drop_of_topic_ended hlt hend hhash).symm.trans hleft, hended _⟩
        · have hjlt := Nat.lt_of_not_le hend
          rw [levelsMatch_drop hlt hjlt hhash] at hleft
          rw [if_neg hend, List.getElem?_eq_getElem hjlt, Option.map_some]
          by_cases hplus : fs[i] = ['+']
          · rw [if_pos (.inl hplus)] at hleft
            rw [if_pos hplus]
            exact ⟨_, rfl, ⟨hlt, hjlt, hleft⟩, hon⟩
          · rw [if_neg hplus]
            by_cases hsame : fs[i] = ts[j]
            · rw [if_pos (.inr hsame)] at hleft
              rw [if_pos hsame]
              exact ⟨_, rfl, ⟨hlt, hjlt, hleft⟩, hon⟩
            · rw [if_neg (not_or.2 ⟨hplus, hsame⟩)] at hleft
              rw [if_neg hsame]
              exact ⟨_, rfl, hleft, hended _⟩
    · rw [if_neg hlt]
      exact ⟨_, rfl, (levelsMatch_drop_of_filter_ended (Nat.le_of_not_lt hlt) hj).symm.trans hleft, hended _⟩

/-- However many turns: no read has failed, and each turn that did not end the scan moved it on. -/
theorem after_sound (fs ts : List Level) (k : Nat) :
    ∃ s, after fs ts k = some s ∧ s.Sound fs ts ∧ ∀ i j, s = standing i j → i = k := by
  induction k with
  | zero => exact ⟨_, rfl, ⟨Nat.zero_le _, Nat.zero_le _, rfl⟩, fun i j h => (Scan.standing.inj h).1.symm⟩
  | succ k ih =>
    obtain ⟨s, hs, hsound, hpos⟩ := ih
    obtain ⟨t, ht, htsound, hon⟩ := turn_sound hsound
    refine ⟨t, by rw [after, hs, Option.bind_some, ht], htsound, fun i j htij => ?_⟩
    obtain ⟨i', j', hs', rfl⟩ := hon i j htij
    rw [hpos i' j' hs']

theorem ends (fs ts : List Level) : after fs ts (fs.length + 1) = some (found (levelsMatch fs ts)) := by
  obtain ⟨s, hs, hsound, hpos⟩ := after_sound fs ts (fs.length + 1)
  cases s with
  | standing i j =>
    have hi := hpos i j rfl
    exact absurd hsound.1 (by omega)
  | found covered => rw [hs, ← hsound]

end Scan

/-- A filter that passes the check covers just the topics the rule names: no topic with a leading
dollar sign under a leading wildcard, and otherwise level for level or up to the last `#`. The scan
that finds this stands in both lists of levels at every turn, reads none that is not there, and has
its answer one turn after the filter's last level at the latest. -/
theorem matched_level_by_level (topic filter : String) (h : flaw filter = none) :
    (matchesFilter topic filter = true ↔
      ¬ (topic.toList.head? = some '$' ∧
          ((levels filter).head? = some ['+'] ∨ (levels filter).head? = some ['#'])) ∧
        Covering (levels filter) (levels topic)) ∧
    (∀ k, ∃ s, Scan.after (levels filter) (levels topic) k = some s ∧
      ∀ i j, s = .standing i j → i ≤ (levels filter).length ∧ j ≤ (levels topic).length) ∧
    Scan.after (levels filter) (levels topic) ((levels filter).length + 1) =
      some (.found (levelsMatch (levels filter) (levels topic))) := by
  refine ⟨?_, fun k => ?_, Scan.ends _ _⟩
  · rw [← levelsMatch_iff (checkLevels_of_flaw h), ← wildcard_first h, matchesFilter]
    by_cases hr : topic.toList.head? = some '$' <;> simp [isReserved, hr]
  · obtain ⟨s, hs, hsound, -⟩ := Scan.after_sound (levels filter) (levels topic) k
    refine ⟨s, hs, ?_⟩
    rintro i j rfl
    exact ⟨hsound.1, hsound.2.1⟩

/-- A topic is its own `#`'s parent: the filter goes one level on. -/
theorem matched_level_by_level_parent :
    flaw "a/+/#" = none ∧ matchesFilter "a/" "a/+/#" = true ∧
      Covering (levels "a/+/#") (levels "a/") := by
  have h : flaw "a/+/#" = none := by decide +kernel
  have hmatch : matchesFilter "a/" "a/+/#" = true := by decide +kernel
  exact ⟨h, hmatch, ((matched_level_by_level "a/" "a/+/#" h).1.1 hmatch).2⟩

end PubSub.Topic
