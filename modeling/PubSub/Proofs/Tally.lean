import Mathlib.Logic.Function.Basic
import PubSub.Proofs.Events
/-!
# Events counted against their past

An event can be split, and so can its copies, as often as somebody refers to them. What was done with them so
far is kept apart from how completing one event completes those it was split from (`Past`). What is known of
an event agrees with that (`Tally`): each split of it waits for as many copies as are not settled, and it is
complete if one waits for none. Where an event is due, completing it makes up for that, however far up the
events go that are completed with it (`Tally.finish`).
-/

namespace PubSub

/-! ## What is done with events -/

/-- What can be done with a reference to an event. -/
inductive EventUse where
  | share
  | complete
  | split (n : Nat)
  | drop
  deriving DecidableEq, Repr

/-- An event is published, or one that is referred to is used. -/
inductive EventCall where
  | publish (m : Message)
  | use (e : EventId) (u : EventUse)
  deriving DecidableEq, Repr

namespace EventTable

/-- Whether anybody has a reference to an event. -/
def held (t : EventTable) (e : EventId) : Bool := (t.get? e).any (0 < ·.holders)

def use (t : EventTable) (e : EventId) : EventUse → EventTable
  | .share => t.update e fun s => { s with holders := s.holders + 1 }
  | .complete => t.finish e
  | .split n => (t.split e n).2
  | .drop => t.drop e

/-- Nothing can be done with an event that nobody refers to. -/
def perform (t : EventTable) : EventCall → EventTable
  | .publish m => (t.publish m true).2
  | .use e u => if t.held e then t.use e u else t

end EventTable

/-- What was done with each event so far: how many references to it are left, whether it was completed by a
call on it, and how many copies each split of it made. -/
structure Past where
  published : Nat := 0
  references : EventId → Nat := fun _ => 0
  called : EventId → Bool := fun _ => false
  splits : EventId → List Nat := fun _ => []

namespace Past

def use (p : Past) (e : EventId) : EventUse → Past
  | .share => { p with references := Function.update p.references e (p.references e + 1) }
  | .complete => { p with called := Function.update p.called e true }
  | .split n =>
    { p with
      splits := Function.update p.splits e (p.splits e ++ [n])
      references := fun x => if ∃ place < n, x = .copy e (p.splits e).length place then 1 else p.references x }
  | .drop => { p with references := Function.update p.references e (p.references e - 1) }

def note (p : Past) : EventCall → Past
  | .publish _ =>
    { p with published := p.published + 1, references := Function.update p.references (.published p.published) 1 }
  | .use e u => if 0 < p.references e then p.use e u else p

/-- A copy is finished when it was completed by a call, when all copies of one split of it are finished, or
when nobody refers to it any more and no split of it waits for a copy. -/
inductive Finished (p : Past) : EventId → Prop
  | called {e : EventId} (h : p.called e = true) : Finished p e
  | split {e : EventId} {i n : Nat} (h : (p.splits e)[i]? = some n)
      (hall : ∀ place < n, Finished p (.copy e i place)) : Finished p e
  | gone {e : EventId} (h : p.references e = 0)
      (hall : ∀ i n, (p.splits e)[i]? = some n → ∀ place < n, Finished p (.copy e i place)) : Finished p e

/-- An event is done when it was completed by a call or all copies of one split of it are finished. -/
def Done (p : Past) (e : EventId) : Prop :=
  p.called e = true ∨ ∃ i n, (p.splits e)[i]? = some n ∧ ∀ place < n, p.Finished (.copy e i place)

theorem finished_iff {p : Past} {e : EventId} : p.Finished e ↔ p.Done e ∨
    p.references e = 0 ∧ ∀ i n, (p.splits e)[i]? = some n → ∀ place < n, p.Finished (.copy e i place) := by
  constructor
  · intro h
    cases h with
    | called h => exact .inl (.inl h)
    | split h hall => exact .inl (.inr ⟨_, _, h, hall⟩)
    | gone h hall => exact .inr ⟨h, hall⟩
  · rintro ((h | ⟨i, n, h, hall⟩) | ⟨h, hall⟩)
    · exact .called h
    · exact .split h hall
    · exact .gone h hall

end Past

/-! ## Names -/

namespace EventId

theorem copy_ne_source {source : EventId} {split place : Nat} : copy source split place ≠ source := by
  intro h
  have hmem : source ∈ (copy source split place).sources := List.mem_cons_self
  rw [h] at hmem
  exact source.notMem_sources_self hmem

/-- Of the events that one was split from there is one at each depth. -/
theorem eq_of_mem_sources {e x y : EventId} (hx : x ∈ e :: e.sources) (hy : y ∈ e :: e.sources)
    (h : x.sources.length = y.sources.length) : x = y := by
  induction e with
  | published n =>
    rw [List.mem_singleton.1 hx, List.mem_singleton.1 hy]
  | copy source split place ih =>
    have hdeep {z : EventId} (hz : z ∈ source :: source.sources) :
        z.sources.length < (copy source split place).sources.length := length_sources_lt (e := .copy source split place) hz
    rcases List.mem_cons.1 hx with rfl | hx
    · rcases List.mem_cons.1 hy with rfl | hy
      · rfl
      · exact absurd h (Nat.ne_of_gt (hdeep hy))
    · rcases List.mem_cons.1 hy with rfl | hy
      · exact absurd h (Nat.ne_of_lt (hdeep hx))
      · exact ih hx hy

end EventId

/-! ## Copies that are not settled -/

/-- A copy in this state has no more to do with its split. -/
def EventState.settled (s : EventState) : Bool := s.completion.completed || (s.holders = 0 && s.splits.isEmpty)

theorem EventState.settled_of_splits {s : EventState} (h : s.splits ≠ []) : s.settled = s.completion.completed := by
  have hsplits : s.splits.isEmpty = false := List.isEmpty_eq_false_iff.2 h
  rw [settled, hsplits, Bool.and_false, Bool.or_false]

theorem EventState.settled_of_holders {s : EventState} (h : 0 < s.holders) : s.settled = s.completion.completed := by
  rw [settled, decide_eq_false (Nat.ne_of_gt h), Bool.false_and, Bool.or_false]

theorem countP_range_flip {p q : Nat → Bool} {n k : Nat} (hk : k < n) (hp : p k = true) (hq : q k = false)
    (hsame : ∀ i < n, i ≠ k → p i = q i) : (List.range n).countP p = (List.range n).countP q + 1 := by
  induction n with
  | zero => cases hk
  | succ n ih =>
    simp only [List.range_succ, List.countP_append, List.countP_singleton]
    rcases Nat.lt_or_eq_of_le (Nat.le_of_lt_succ hk) with hk | rfl
    · have hlast := hsame n (Nat.lt_succ_self n) (Nat.ne_of_gt hk)
      have hrest := ih hk fun i hi => hsame i (Nat.lt_succ_of_lt hi)
      rw [hlast]
      omega
    · have hrest : (List.range k).countP p = (List.range k).countP q := by
        refine List.countP_congr fun i hi => ?_
        have hi := List.mem_range.1 hi
        rw [hsame i (Nat.lt_succ_of_lt hi) (Nat.ne_of_lt hi)]
      rw [hp, hq, hrest]
      rfl

namespace EventTable

def settled (t : EventTable) (c : EventId) : Bool := (t.get? c).any EventState.settled

/-- How many copies of a split into `n` are not settled. -/
def left (t : EventTable) (e : EventId) (i n : Nat) : Nat :=
  (List.range n).countP fun place => !t.settled (.copy e i place)

variable {t t' : EventTable} {e c source : EventId} {s : EventState} {i n place : Nat} {p p' : Past}
  {due due' : Option EventId} {f : EventState → EventState}

theorem left_eq_zero_iff : t.left e i n = 0 ↔ ∀ place < n, t.settled (.copy e i place) = true := by
  simp [left, List.countP_eq_zero]

theorem left_congr (h : ∀ place < n, t'.settled (.copy e i place) = t.settled (.copy e i place)) :
    t'.left e i n = t.left e i n := by
  refine List.countP_congr fun place hplace => ?_
  rw [h place (List.mem_range.1 hplace)]

theorem settled_of_get? (h : t.get? c = some s) : t.settled c = s.settled := by
  rw [settled, h, Option.any_some]

theorem settled_congr {x : EventId} (h : t'.get? x = t.get? x) : t'.settled x = t.settled x := by
  rw [settled, settled, h]

theorem settled_update (h : t.get? e = some s) (hf : (f s).settled = s.settled) (x : EventId) :
    (t.update e f).settled x = t.settled x := by
  by_cases hx : x = e
  · subst hx
    rw [settled_of_get? h, ← hf]
    apply settled_of_get?
    rw [get?_update, if_pos rfl, h]
    rfl
  · exact settled_congr (get?_update_other hx f)

/-- What is known of an event agrees with the past, but that it may be due to be completed. -/
structure Agrees (p : Past) (t : EventTable) (due : Option EventId) (e : EventId) (s : EventState) : Prop where
  holders : s.holders = p.references e
  splits : ∀ i : Nat, s.splits[i]? = (p.splits e)[i]?.map (t.left e i)
  notifies : s.completion.notifies = true
  fired : s.completion.fired = if s.completion.completed then 1 else 0
  sound : s.completion.completed = true → p.called e = true ∨ 0 ∈ s.splits
  complete : due ≠ some e → p.called e = true ∨ 0 ∈ s.splits → s.completion.completed = true

/-- Every event agrees with the past, and there are the events that the past made. -/
structure Tally (p : Past) (t : EventTable) (due : Option EventId) : Prop where
  published : t.published = p.published
  known : ∀ {e s}, t.get? e = some s → t.Agrees p due e s
  unknown : ∀ {e}, t.get? e = none → p.references e = 0 ∧ p.called e = false ∧ p.splits e = []
  roots : ∀ {n s}, t.get? (.published n) = some s → n < t.published
  copies : ∀ {e i place}, (t.get? (.copy e i place)).isSome ↔ ∃ n, (p.splits e)[i]? = some n ∧ place < n

/-- Only the references to one event and the calls on it differ. -/
structure SameBut (e : EventId) (p p' : Past) : Prop where
  published : p'.published = p.published
  splits : p'.splits = p.splits
  others : ∀ x, x ≠ e → p'.references x = p.references x ∧ p'.called x = p.called x

theorem SameBut.refl (e : EventId) (p : Past) : SameBut e p p := ⟨rfl, rfl, fun _ _ => ⟨rfl, rfl⟩⟩

/-- The copies that a split of an event made are as they were. -/
def CopiesKept (p : Past) (t t' : EventTable) (e : EventId) : Prop :=
  ∀ i n place, (p.splits e)[i]? = some n → place < n → t'.settled (.copy e i place) = t.settled (.copy e i place)

theorem Agrees.splits_congr (h : t.Agrees p due e s) (hp : p'.splits e = p.splits e) (hkept : CopiesKept p t t' e)
    (i : Nat) : s.splits[i]? = (p'.splits e)[i]?.map (t'.left e i) := by
  rw [h.splits, hp]
  cases hn : (p.splits e)[i]? with
  | none => rfl
  | some n => exact congrArg some (left_congr fun place hplace => hkept i n place hn hplace).symm

theorem Agrees.congr (h : t.Agrees p due e s) (hreferences : p'.references e = p.references e)
    (hcalled : p'.called e = p.called e) (hsplits : p'.splits e = p.splits e) (hkept : CopiesKept p t t' e)
    (hdue : due' ≠ some e → due ≠ some e) : t'.Agrees p' due' e s where
  holders := h.holders.trans hreferences.symm
  splits := h.splits_congr hsplits hkept
  notifies := h.notifies
  fired := h.fired
  sound := by
    rw [hcalled]
    exact h.sound
  complete hno := by
    rw [hcalled]
    exact h.complete (hdue hno)

/-- An event that just came to be. -/
theorem Agrees.fresh (hreferences : p.references e = 1) (hcalled : p.called e = false) (hsplits : p.splits e = [])
    (t : EventTable) (due : Option EventId) (m : Message) : t.Agrees p due e { message := m, completion := {} } where
  holders := hreferences.symm
  splits i := by
    rw [hsplits]
    rfl
  notifies := rfl
  fired := rfl
  sound h := nomatch h
  complete _ := by
    rw [hcalled]
    rintro (h | h) <;> cases h

theorem Agrees.length_splits (h : t.Agrees p due e s) : s.splits.length = (p.splits e).length := by
  have heq : s.splits = (p.splits e).mapIdx (t.left e) := List.ext_getElem? fun i => by
    rw [h.splits, List.getElem?_mapIdx]
  rw [heq, List.length_mapIdx]

/-- Where no event is due, one that there is a cause to complete is complete. -/
theorem Agrees.complete_of_cause (h : t.Agrees p none e s) (hcause : p.called e = true ∨ 0 ∈ s.splits) :
    s.completion.completed = true := h.complete (Option.some_ne_none e).symm hcause

/-- An event that there is a cause to complete is completed. -/
theorem Agrees.completed (h : t.Agrees p due e s) (hcause : p.called e = true ∨ 0 ∈ s.splits) (hkept : CopiesKept p t t' e) :
    t'.Agrees p due' e { s with completion := s.completion.complete.2 } where
  holders := h.holders
  splits := h.splits_congr rfl hkept
  notifies := by
    unfold Completion.complete
    split <;> exact h.notifies
  fired := by
    rw [if_pos (Completion.completed_complete _)]
    have hfired := h.fired
    have hnotifies := h.notifies
    cases hcompleted : s.completion.completed <;> simp_all [Completion.complete]
  sound _ := hcause
  complete _ _ := Completion.completed_complete _

namespace Tally

theorem empty : Tally {} {} none where
  published := rfl
  known h := nomatch h
  unknown _ := ⟨rfl, rfl, rfl⟩
  roots h := nomatch h
  copies := by simp [get?]

theorem unsettled_eq (h : Tally p t due) (hs : t.get? e = some s) (hn : (p.splits e)[i]? = some n) :
    t.unsettled e i = t.left e i n := by
  have hsplits := (h.known hs).splits i
  rw [hn] at hsplits
  rw [unsettled, hs, Option.bind_some, hsplits]
  rfl

/-- The same events are known, and all agree with a past that differs at a known event only. -/
theorem rebuild (h : Tally p t due) (he : (t.get? e).isSome) (hp : SameBut e p p') (hpublished : t'.published = t.published)
    (hsame : ∀ x, (t'.get? x).isSome = (t.get? x).isSome)
    (hknown : ∀ {x s'}, t'.get? x = some s' → t'.Agrees p' due' x s') : Tally p' t' due' where
  published := by rw [hpublished, hp.published, h.published]
  known := hknown
  unknown {x} hx := by
    have hold : t.get? x = none := by
      rw [← Option.not_isSome_iff_eq_none, ← hsame, hx]
      exact Bool.false_ne_true
    have hne : x ≠ e := by
      rintro rfl
      rw [hold] at he
      cases he
    obtain ⟨hreferences, hcalled⟩ := hp.others x hne
    rw [hreferences, hcalled, hp.splits]
    exact h.unknown hold
  roots {n s'} hx := by
    have hold : (t.get? (.published n)).isSome := by rw [← hsame, hx]; rfl
    obtain ⟨s, hs⟩ := Option.isSome_iff_exists.1 hold
    rw [hpublished]
    exact h.roots hs
  copies {x i place} := by rw [hsame, hp.splits, h.copies]

/-- An event that was left alone agrees with the past as it did, if its copies did not change. -/
theorem agrees_other (h : Tally p t due) (hp : SameBut e p p') {x : EventId} {sx : EventState} (hne : x ≠ e)
    (hx : t.get? x = some sx) (hkept : CopiesKept p t t' x) (hdue : due' ≠ some x → due ≠ some x) :
    t'.Agrees p' due' x sx := by
  obtain ⟨hreferences, hcalled⟩ := hp.others x hne
  exact (h.known hx).congr hreferences hcalled (congrFun hp.splits x) hkept hdue

/-- One event has changed, without a copy getting settled. -/
theorem change (h : Tally p t due) (hs : t.get? e = some s) (hp : SameBut e p p') (hpublished : t'.published = t.published)
    (hget : ∀ x, x ≠ e → t'.get? x = t.get? x) {s' : EventState} (hs' : t'.get? e = some s')
    (hsettled : ∀ source i place, t'.settled (.copy source i place) = t.settled (.copy source i place))
    (hdue : ∀ x, x ≠ e → due' ≠ some x → due ≠ some x) (hagrees : t'.Agrees p' due' e s') : Tally p' t' due' := by
  refine h.rebuild (Option.isSome_iff_exists.2 ⟨s, hs⟩) hp hpublished (fun x => ?_) fun {x sx} hx => ?_
  · by_cases hne : x = e
    · rw [hne, hs, hs']
      rfl
    · rw [hget x hne]
  · by_cases hne : x = e
    · subst hne
      rwa [← Option.some.inj (hs'.symm.trans hx)]
    · exact h.agrees_other hp hne ((hget x hne).symm.trans hx) (fun i n place _ _ => hsettled x i place) (hdue x hne)

end Tally

/-! ## Settling a copy -/

/-- A copy has changed, and its source waits for one copy less. -/
structure Settling (source : EventId) (i place : Nat) (f : EventState → EventState) (t t' : EventTable) : Prop where
  published : t'.published = t.published
  copy : t'.get? (.copy source i place) = (t.get? (.copy source i place)).map f
  origin : t'.get? source = (t.get? source).map fun s => { s with splits := s.splits.modify i (· - 1) }
  others : ∀ x, x ≠ .copy source i place → x ≠ source → t'.get? x = t.get? x

theorem settling (t : EventTable) (source : EventId) (i place : Nat) (f : EventState → EventState) :
    Settling source i place f t ((t.update (.copy source i place) f).settle source i) where
  published := rfl
  copy := by rw [settle, get?_update_other EventId.copy_ne_source, get?_update, if_pos rfl]
  origin := by rw [settle, get?_update, if_pos rfl, get?_update_other EventId.copy_ne_source.symm]
  others x hx hsource := by rw [settle, get?_update_other hsource, get?_update_other hx]

namespace Settling

/-- Nothing but the copy gets settled: its source had a split before and has it still. -/
theorem kept (h : Settling source i place f t t') {ss : EventState} (hss : t.get? source = some ss)
    (hne : ss.splits ≠ []) {x : EventId} (hx : x ≠ .copy source i place) : t'.settled x = t.settled x := by
  by_cases hxs : x = source
  · subst hxs
    have hss' := h.origin
    rw [hss, Option.map_some] at hss'
    rw [settled_of_get? hss', settled_of_get? hss, EventState.settled_of_splits hne]
    exact EventState.settled_of_splits (by simpa using hne)
  · exact settled_congr (h.others x hx hxs)

/-- A split that waits for a copy less. -/
theorem splits (h : Settling source i place f t t') {ss : EventState} (hss : t.get? source = some ss)
    (hsplits : ∀ j : Nat, ss.splits[j]? = (p.splits source)[j]?.map (t.left source j)) (hn : (p.splits source)[i]? = some n)
    (hplace : place < n) (hs : t.get? (.copy source i place) = some s) (hopen : s.settled = false)
    (hsettled : (f s).settled = true) (j : Nat) :
    (ss.splits.modify i (· - 1))[j]? = (p.splits source)[j]?.map (t'.left source j) := by
  have hi : ss.splits[i]? = some (t.left source i n) := by
    rw [hsplits, hn]
    rfl
  have hne : ss.splits ≠ [] := by
    intro he
    rw [he] at hi
    cases hi
  have hcopy : t'.settled (.copy source i place) = true := by
    have hs' := h.copy
    rw [hs, Option.map_some] at hs'
    rw [settled_of_get? hs', hsettled]
  rw [List.getElem?_modify]
  by_cases hj : i = j
  · subst hj
    have hleft : t.left source i n = t'.left source i n + 1 := by
      refine countP_range_flip hplace ?_ ?_ fun k _ hk => ?_
      · rw [settled_of_get? hs, hopen]
        rfl
      · rw [hcopy]
        rfl
      · rw [h.kept hss hne fun he => hk (EventId.copy.inj he).2.2]
    rw [hi, hn, hleft]
    simp
  · simp only [if_neg hj, id_map', hsplits]
    cases (p.splits source)[j]? with
    | none => rfl
    | some m =>
      refine congrArg some (left_congr fun k _ => ?_).symm
      exact h.kept hss hne fun he => hj (EventId.copy.inj he).2.1.symm

end Settling

namespace Tally

theorem source_known (h : Tally p t due) (hs : t.get? (.copy source i place) = some s) :
    ∃ ss n, t.get? source = some ss ∧ (p.splits source)[i]? = some n ∧ place < n := by
  obtain ⟨n, hn, hplace⟩ := h.copies.1 (Option.isSome_iff_exists.2 ⟨s, hs⟩)
  cases hsource : t.get? source with
  | some ss => exact ⟨ss, n, rfl, hn, hplace⟩
  | none =>
    rw [(h.unknown hsource).2.2] at hn
    cases hn

/-- A source that waits for one copy less agrees with the past as it did, and is due if that was the last copy. -/
theorem agrees_source (h : Tally p t due) (hp : SameBut (.copy source i place) p p')
    (h' : Settling source i place f t t') (hs : t.get? (.copy source i place) = some s) (hopen : s.settled = false)
    (hsettled : (f s).settled = true) (hdue : due ≠ some source) {ss : EventState} (hss : t.get? source = some ss) :
    t'.Agrees p' (if t'.unsettled source i = 0 then some source else none) source
      { ss with splits := ss.splits.modify i (· - 1) } := by
  obtain ⟨ss', n, hss', hn, hplace⟩ := h.source_known hs
  obtain rfl := Option.some.inj (hss.symm.trans hss')
  have hold := h.known hss
  have hsplits := h'.splits hss hold.splits hn hplace hs hopen hsettled
  obtain ⟨hreferences, hcalled⟩ := hp.others source EventId.copy_ne_source.symm
  refine ⟨hold.holders.trans hreferences.symm, ?_, hold.notifies, hold.fired, fun hcompleted => ?_, fun hne hcause => ?_⟩
  · rw [hp.splits]
    exact hsplits
  · rw [hcalled]
    refine (hold.sound hcompleted).imp_right fun hmem => ?_
    obtain ⟨j, hj⟩ := List.mem_iff_getElem?.1 hmem
    refine List.mem_iff_getElem?.2 ⟨j, ?_⟩
    rw [List.getElem?_modify, hj]
    by_cases hji : i = j <;> simp [hji]
  · rw [hcalled] at hcause
    refine hold.complete hdue (hcause.imp_right fun hmem => ?_)
    -- The split that a copy was settled of waits for more, so it is another one that waits for none.
    obtain ⟨j, hj⟩ := List.mem_iff_getElem?.1 hmem
    have hji : i ≠ j := by
      rintro rfl
      refine hne (if_pos ?_)
      rw [unsettled, h'.origin, hss, Option.map_some, Option.bind_some, hj]
      rfl
    rw [List.getElem?_modify] at hj
    simp only [if_neg hji, id_map'] at hj
    exact List.mem_iff_getElem?.2 ⟨j, hj⟩

/-- A copy is settled and counted as such. -/
theorem settle (h : Tally p t due) (hp : SameBut (.copy source i place) p p') (h' : Settling source i place f t t')
    (hs : t.get? (.copy source i place) = some s) (hopen : s.settled = false) (hsettled : (f s).settled = true)
    (hdue : ∀ x, x ≠ .copy source i place → due ≠ some x)
    (hagrees : ∀ due', CopiesKept p t t' (.copy source i place) → t'.Agrees p' due' (.copy source i place) (f s)) :
    Tally p' t' (if t'.unsettled source i = 0 then some source else none) := by
  obtain ⟨ss, n, hss, hn, hplace⟩ := h.source_known hs
  have hne : ss.splits ≠ [] := by
    intro he
    have hi := (h.known hss).splits i
    rw [he, hn] at hi
    cases hi
  have hcopy : t'.get? (.copy source i place) = some (f s) := by rw [h'.copy, hs]; rfl
  have hsource : t'.get? source = some { ss with splits := ss.splits.modify i (· - 1) } := by rw [h'.origin, hss]; rfl
  refine h.rebuild (Option.isSome_iff_exists.2 ⟨s, hs⟩) hp h'.published (fun x => ?_) fun {x s'} hx => ?_
  · by_cases hxc : x = .copy source i place
    · rw [hxc, hcopy, hs]
      rfl
    · by_cases hxs : x = source
      · rw [hxs, hsource, hss]
        rfl
      · rw [h'.others x hxc hxs]
  · by_cases hxc : x = .copy source i place
    · subst hxc
      rw [← Option.some.inj (hcopy.symm.trans hx)]
      exact hagrees _ fun j m k _ _ => h'.kept hss hne EventId.copy_ne_source
    · by_cases hxs : x = source
      · subst hxs
        rw [← Option.some.inj (hsource.symm.trans hx)]
        exact h.agrees_source hp h' hs hopen hsettled (hdue x hxc) hss
      · refine h.agrees_other hp hxc ((h'.others x hxc hxs).symm.trans hx) (fun j m k _ _ => ?_) fun _ => hdue x hxc
        exact h'.kept hss hne fun he => hxs (EventId.copy.inj he).1

/-- Once a copy is settled, its source is completed if it was the last one. -/
theorem settleLast (h : Tally p t due) (hp : SameBut (.copy source i place) p p')
    (hs : t.get? (.copy source i place) = some s) (hopen : s.settled = false) (hsettled : (f s).settled = true)
    (hdue : ∀ x, x ≠ .copy source i place → due ≠ some x)
    (hagrees : ∀ t' due', CopiesKept p t t' (.copy source i place) → t'.Agrees p' due' (.copy source i place) (f s))
    (hfinish : ∀ {t' ss}, Tally p' t' (some source) → t'.get? source = some ss → 0 ∈ ss.splits →
      Tally p' (t'.finish source) none) :
    Tally p' ((t.update (.copy source i place) f).settleLast source i) none := by
  have h' := settling t source i place f
  have hsettle := h.settle hp h' hs hopen hsettled hdue (hagrees _)
  unfold EventTable.settleLast
  by_cases hlast : ((t.update (.copy source i place) f).settle source i).unsettled source i = 0
  · rw [if_pos hlast] at hsettle ⊢
    obtain ⟨ss, n, hss, hn, hplace⟩ := hsettle.source_known (h'.copy.trans (congrArg _ hs))
    refine hfinish hsettle hss ?_
    rw [hsettle.unsettled_eq hss hn] at hlast
    have hi := (hsettle.known hss).splits i
    rw [hn, Option.map_some, hlast] at hi
    exact List.mem_iff_getElem?.2 ⟨i, hi⟩
  · rw [if_neg hlast] at hsettle ⊢
    exact hsettle

/-- An event that is complete is not due. -/
theorem not_due (h : Tally p t (some e)) (hs : t.get? e = some s) (hcompleted : s.completion.completed = true) :
    Tally p t none := by
  refine h.rebuild (Option.isSome_iff_exists.2 ⟨s, hs⟩) (.refl e p) rfl (fun _ => rfl) fun {x sx} hx => ?_
  have hold := h.known hx
  refine ⟨hold.holders, hold.splits, hold.notifies, hold.fired, hold.sound, fun _ hcause => ?_⟩
  by_cases hxe : x = e
  · subst hxe
    rwa [← Option.some.inj (hs.symm.trans hx)]
  · exact hold.complete (fun heq => hxe (Option.some.inj heq).symm) hcause

/-- Completing an event that is due, and with it the events that it was the last copy of. -/
theorem finish (h : Tally p t (some e)) (hs : t.get? e = some s) (hcause : p.called e = true ∨ 0 ∈ s.splits)
    (hopen : s.settled = s.completion.completed) : Tally p (t.finish e) none := by
  induction e generalizing t s with
  | published n =>
    have hget : (t.finish (.published n)).get? (.published n) = some { s with completion := s.completion.complete.2 } := by
      rw [EventTable.finish, get?_update, if_pos rfl, hs]
      rfl
    refine h.change hs (.refl _ p) rfl (fun x hx => get?_update_other hx _) hget (fun source i place => ?_)
      (fun x hx _ heq => hx (Option.some.inj heq).symm) ?_
    · exact settled_congr (get?_update_other EventId.published_ne_copy.symm _)
    · refine (h.known hs).completed hcause fun i k place _ _ => ?_
      exact settled_congr (get?_update_other EventId.published_ne_copy.symm _)
  | copy source i place ih =>
    cases hcompleted : s.completion.completed with
    | true =>
      have hdone : t.isDone (.copy source i place) = true := by
        rw [isDone, hs]
        exact hcompleted
      rw [EventTable.finish, if_pos hdone]
      exact h.not_due hs hcompleted
    | false =>
      rw [finish_copy hs hcompleted]
      refine h.settleLast (.refl _ p) hs (hopen.trans hcompleted) ?_ (fun x hx heq => hx (Option.some.inj heq).symm)
        (fun t' due' hkept => (h.known hs).completed hcause hkept) fun {t' ss} htally hss hzero => ?_
      · rw [EventState.settled, Completion.completed_complete, Bool.true_or]
      · exact ih htally hss (.inr hzero) (EventState.settled_of_splits (List.ne_nil_of_mem hzero))

end Tally

end EventTable

end PubSub
