import PubSub.Proofs.Tally
/-!
# Events that are split again and again

Whatever is done with references to events and their copies keeps the count (`Tally.perform`). So which events
are complete can be told from the past alone (`Tally.isDone_iff`), and one call never completes two copies of
one event (`completed_by_calls`).
-/

namespace PubSub

namespace EventTable

variable {t t' : EventTable} {e c source : EventId} {s : EventState} {i n place : Nat} {p p' : Past}
  {due due' : Option EventId}

/-! ## References -/

theorem get?_of_held (h : t.held e = true) : ∃ s, t.get? e = some s ∧ 0 < s.holders := by
  unfold held at h
  cases hs : t.get? e with
  | none =>
    rw [hs] at h
    cases h
  | some s =>
    rw [hs] at h
    exact ⟨s, rfl, by simpa using h⟩

/-- An event that is dropped without getting settled. -/
theorem drop_unsettled (hs : t.get? e = some s) (h : ∀ source i place, e = .copy source i place → ¬ Pending s) :
    t.drop e = t.update e fun s => { s with holders := s.holders - 1 } := by
  unfold EventTable.drop
  rw [hs]
  cases e with
  | published n => rfl
  | copy source i place =>
    refine if_neg fun hlast => h source i place rfl ⟨Bool.eq_false_iff.2 hlast.2.1, hlast.1, hlast.2.2⟩

namespace Tally

theorem sameBut_references (p : Past) (e : EventId) (n : Nat) :
    SameBut e p { p with references := Function.update p.references e n } :=
  ⟨rfl, rfl, fun _ hx => ⟨Function.update_of_ne hx _ _, rfl⟩⟩

/-- The references to an event change, without a copy getting settled. -/
theorem refer (h : Tally p t none) (hs : t.get? e = some s) (count : Nat → Nat)
    (hsettled : ∀ source i place, e = .copy source i place →
      ({ s with holders := count s.holders } : EventState).settled = s.settled) :
    Tally { p with references := Function.update p.references e (count (p.references e)) }
      (t.update e fun s => { s with holders := count s.holders }) none := by
  have hold := h.known hs
  have hget : (t.update e fun s => { s with holders := count s.holders }).get? e
      = some { s with holders := count s.holders } := by
    rw [get?_update, if_pos rfl, hs]
    rfl
  have hcopies (source : EventId) (i place : Nat) :
      (t.update e fun s => { s with holders := count s.holders }).settled (.copy source i place)
        = t.settled (.copy source i place) := by
    by_cases he : e = .copy source i place
    · exact settled_update (f := fun s => { s with holders := count s.holders }) hs (hsettled source i place he) _
    · exact settled_congr (get?_update_other (Ne.symm he) _)
  refine h.change hs (sameBut_references p e _) rfl (fun x hx => get?_update_other hx _) hget hcopies (fun _ _ => id) ?_
  have hkept : CopiesKept p t (t.update e fun s => { s with holders := count s.holders }) e :=
    fun i n place _ _ => hcopies e i place
  refine ⟨?_, hold.splits_congr rfl hkept, hold.notifies, hold.fired, hold.sound, hold.complete⟩
  show count s.holders = Function.update p.references e _ e
  rw [Function.update_self, ← hold.holders]

theorem share (h : Tally p t none) (hheld : t.held e = true) : Tally (p.use e .share) (t.use e .share) none := by
  obtain ⟨s, hs, hpos⟩ := get?_of_held hheld
  refine h.refer hs (· + 1) fun _ _ _ _ => ?_
  rw [EventState.settled_of_holders hpos]
  exact EventState.settled_of_holders (Nat.succ_pos _)

theorem complete (h : Tally p t none) (hheld : t.held e = true) : Tally (p.use e .complete) (t.use e .complete) none := by
  obtain ⟨s, hs, hpos⟩ := get?_of_held hheld
  have hold := h.known hs
  have hcalled : (p.use e .complete).called e = true := Function.update_self _ _ _
  have hdue : Tally (p.use e .complete) t (some e) := by
    refine h.change hs ⟨rfl, rfl, fun x hx => ⟨rfl, Function.update_of_ne hx _ _⟩⟩ rfl (fun _ _ => rfl) hs
      (fun _ _ _ => rfl) (fun _ _ _ => nofun) ?_
    exact ⟨hold.holders, hold.splits, hold.notifies, hold.fired, fun _ => .inl hcalled, fun hno => absurd rfl hno⟩
  exact hdue.finish hs (.inl hcalled) (EventState.settled_of_holders hpos)

theorem drop (h : Tally p t none) (hheld : t.held e = true) : Tally (p.use e .drop) (t.use e .drop) none := by
  obtain ⟨s, hs, hpos⟩ := get?_of_held hheld
  have hold := h.known hs
  by_cases hlast : ∃ source i place, e = .copy source i place ∧ Pending s
  · obtain ⟨source, i, place, rfl, hpending⟩ := hlast
    have hopen : s.settled = false := (EventState.settled_of_holders hpos).trans hpending.incomplete
    have hgone : s.holders - 1 = 0 := by rw [hpending.holders]
    rw [EventTable.use, drop_pending hs hpending]
    refine h.settleLast (sameBut_references p _ _) hs hopen ?_ (fun x _ => (Option.some_ne_none x).symm) (fun t' due' hkept => ?_) ?_
    · simp [EventState.settled, hgone, hpending.splits]
    · refine ⟨?_, hold.splits_congr rfl hkept, hold.notifies, hold.fired, hold.sound, fun _ => hold.complete_of_cause⟩
      show s.holders - 1 = Function.update p.references _ _ _
      rw [Function.update_self, ← hold.holders]
    · intro t' ss htally hss hzero
      exact htally.finish hss (.inr hzero) (EventState.settled_of_splits (List.ne_nil_of_mem hzero))
  · have hdrop := drop_unsettled hs fun source i place he hpending => hlast ⟨source, i, place, he, hpending⟩
    rw [EventTable.use, hdrop]
    refine h.refer hs (· - 1) fun source i place he => ?_
    -- It was completed, or is referred to still, or waits for copies of its own.
    rw [EventState.settled_of_holders hpos]
    by_cases hone : s.holders = 1
    · by_cases hsplits : s.splits = []
      · have hcompleted : s.completion.completed = true := by
          by_contra hopen
          exact hlast ⟨source, i, place, he, Bool.eq_false_iff.2 hopen, hone, hsplits⟩
        rw [EventState.settled, hcompleted, Bool.true_or]
      · exact EventState.settled_of_splits hsplits
    · exact EventState.settled_of_holders (by dsimp only; omega)

theorem publish (h : Tally p t none) (m : Message) : Tally (p.note (.publish m)) (t.perform (.publish m)) none := by
  have hfresh : t.get? (.published t.published) = none := by
    rw [← Option.not_isSome_iff_eq_none, Option.isSome_iff_exists]
    rintro ⟨s, hs⟩
    exact Nat.lt_irrefl _ (h.roots hs)
  obtain ⟨hreferences, hcalled, hsplits⟩ := h.unknown hfresh
  have hget := get?_publish t m true
  have hold {x : EventId} (hx : x ≠ .published t.published) : (t.perform (.publish m)).get? x = t.get? x :=
    (hget x).trans (if_neg hx)
  have hsame {x : EventId} (hx : x ≠ .published t.published) : (p.note (.publish m)).references x = p.references x := by
    refine Function.update_of_ne ?_ _ _
    rwa [← h.published]
  constructor
  · exact congrArg (· + 1) h.published
  · intro x s hx
    by_cases hnew : x = .published t.published
    · subst hnew
      rw [← Option.some.inj ((get?_publish_self t m true).symm.trans hx)]
      have hone : (p.note (.publish m)).references (.published t.published) = 1 := by
        rw [h.published]
        exact Function.update_self _ _ _
      exact .fresh hone hcalled hsplits _ _ m
    · refine (h.known ((hold hnew).symm.trans hx)).congr (hsame hnew) rfl rfl (fun i n place _ _ => ?_) id
      exact settled_congr (hold EventId.published_ne_copy.symm)
  · intro x hx
    have hnew : x ≠ .published t.published := by
      rintro rfl
      rw [show (t.perform (.publish m)).get? _ = _ from get?_publish_self t m true] at hx
      cases hx
    rw [hsame hnew]
    exact h.unknown ((hold hnew).symm.trans hx)
  · intro k s hs
    by_cases hnew : EventId.published k = .published t.published
    · rw [EventId.published.inj hnew]
      exact Nat.lt_succ_self _
    · exact Nat.lt_succ_of_lt (h.roots ((hold hnew).symm.trans hs))
  · intro x i place
    rw [hold EventId.published_ne_copy.symm]
    exact h.copies

end Tally

/-! ## Splitting -/

/-- An event was split into new copies, which nobody knew before. -/
structure Splitting (e : EventId) (k n : Nat) (s : EventState) (t t' : EventTable) : Prop where
  published : t'.published = t.published
  self : t'.get? e = some { s with splits := s.splits ++ [n] }
  copies : ∀ place < n, t'.get? (.copy e k place) = some { message := s.message, completion := {} }
  others : ∀ x, x ≠ e → (∀ place < n, x ≠ .copy e k place) → t'.get? x = t.get? x

theorem splitting (hs : t.get? e = some s) (n : Nat) : Splitting e s.splits.length n s t
    ((t.update e fun s => { s with splits := s.splits ++ [n] }).add (copies e s.splits.length n s.message)) where
  published := rfl
  self := by
    rw [get?_add_of_notMem, get?_update, if_pos rfl, hs]
    · rfl
    · intro c hc
      obtain ⟨place, -, rfl⟩ := mem_copies.1 hc
      exact EventId.copy_ne_source
  copies place hplace := get?_add_copies hplace _
  others x hx hnew := by
    rw [get?_add_of_notMem, get?_update_other hx]
    intro c hc he
    obtain ⟨place, hplace, rfl⟩ := mem_copies.1 hc
    exact hnew place hplace he.symm

namespace Splitting

variable {k : Nat}

/-- Whoever splits an event refers to it, so it does not get settled by that. -/
theorem kept (h : Splitting e k n s t t') (hs : t.get? e = some s) (hpos : 0 < s.holders) {x : EventId}
    (hnew : ∀ place < n, x ≠ .copy e k place) : t'.settled x = t.settled x := by
  by_cases hx : x = e
  · subst hx
    rw [settled_of_get? h.self, settled_of_get? hs, EventState.settled_of_holders hpos]
    exact EventState.settled_of_holders hpos
  · exact settled_congr (h.others x hx hnew)

/-- The events that are known afterwards. -/
theorem isSome_get? (h : Splitting e k n s t t') (hs : t.get? e = some s) (x : EventId) :
    (t'.get? x).isSome ↔ (t.get? x).isSome ∨ ∃ place < n, x = .copy e k place := by
  by_cases hnew : ∃ place < n, x = .copy e k place
  · refine iff_of_true ?_ (.inr hnew)
    obtain ⟨place, hplace, rfl⟩ := hnew
    rw [h.copies place hplace]
    rfl
  · rw [or_iff_left hnew]
    by_cases hx : x = e
    · rw [hx, h.self, hs]
      rfl
    · rw [h.others x hx fun place hplace he => hnew ⟨place, hplace, he⟩]

theorem left_new (h : Splitting e k n s t t') : t'.left e k n = n := by
  have hopen : ∀ place ∈ List.range n, (!t'.settled (.copy e k place)) = true := fun place hplace => by
    rw [settled_of_get? (h.copies place (List.mem_range.1 hplace))]
    rfl
  rw [left, List.countP_eq_length.2 hopen, List.length_range]

/-- The event that was split agrees with the past, and is due if there are no copies to wait for. -/
theorem agrees_self (h : Splitting e k n s t t') (hold : t.Agrees p none e s) (hk : k = (p.splits e).length)
    (hs : t.get? e = some s) (hpos : 0 < s.holders) :
    t'.Agrees (p.use e (.split n)) (if n = 0 then some e else none) e { s with splits := s.splits ++ [n] } where
  holders := by
    refine hold.holders.trans (if_neg ?_).symm
    rintro ⟨place, -, he⟩
    exact EventId.copy_ne_source he.symm
  splits j := by
    have hlength := hold.length_splits
    show (s.splits ++ [n])[j]? = (Function.update p.splits e (p.splits e ++ [n]) e)[j]?.map (t'.left e j)
    rw [Function.update_self, List.getElem?_append, List.getElem?_append, hlength]
    split
    · next hj =>
      rw [hold.splits]
      cases (p.splits e)[j]? with
      | none => rfl
      | some m =>
        refine congrArg some (left_congr fun place _ => h.kept hs hpos fun _ _ he => ?_).symm
        rw [(EventId.copy.inj he).2.1, hk] at hj
        exact Nat.lt_irrefl _ hj
    · next hj =>
      by_cases hjk : j = k
      · subst hjk
        rw [hk, Nat.sub_self, List.getElem?_cons_zero, Option.map_some, ← hk, h.left_new]
      · rw [List.getElem?_eq_none]
        · rfl
        · rw [List.length_singleton]
          omega
  notifies := hold.notifies
  fired := hold.fired
  sound hcompleted := (hold.sound hcompleted).imp_right (List.mem_append_left _)
  complete hno hcause := by
    refine hold.complete_of_cause (hcause.imp_right fun hmem => (List.mem_append.1 hmem).resolve_right fun hzero => ?_)
    rw [List.mem_singleton.1 hzero] at hno
    exact hno (if_pos rfl)

end Splitting

namespace Tally

theorem splits_other {x : EventId} (hx : x ≠ e) (p : Past) (n : Nat) : (p.use e (.split n)).splits x = p.splits x :=
  Function.update_of_ne hx _ _

theorem references_other {x : EventId} (hx : ∀ place < n, x ≠ .copy e (p.splits e).length place) :
    (p.use e (.split n)).references x = p.references x :=
  if_neg fun ⟨place, hplace, he⟩ => hx place hplace he

theorem getElem?_splits_self {j m : Nat} (p : Past) : ((p.use e (.split n)).splits e)[j]? = some m ↔
    (p.splits e)[j]? = some m ∨ j = (p.splits e).length ∧ m = n := by
  have hself : (p.use e (.split n)).splits e = p.splits e ++ [n] := Function.update_self _ _ _
  rw [hself, List.getElem?_append]
  split
  · next hj => exact (or_iff_left fun hlast => Nat.ne_of_lt hj hlast.1).symm
  · next hj =>
    rw [List.getElem?_eq_none (Nat.le_of_not_lt hj), List.getElem?_singleton]
    grind

/-- The copies that are known after a split are those the past made. -/
theorem copies_spread (h : Tally p t none) (hs : t.get? e = some s)
    (h' : Splitting e (p.splits e).length n s t t') (x : EventId) (j place : Nat) :
    (t'.get? (.copy x j place)).isSome ↔ ∃ m, ((p.use e (.split n)).splits x)[j]? = some m ∧ place < m := by
  rw [h'.isSome_get? hs, h.copies]
  by_cases hx : x = e
  · subst hx
    simp only [getElem?_splits_self, EventId.copy.injEq, true_and]
    constructor
    · rintro (⟨m, hm, hlt⟩ | ⟨_, hlt, hj, rfl⟩)
      · exact ⟨m, .inl hm, hlt⟩
      · exact ⟨n, .inr ⟨hj, rfl⟩, hlt⟩
    · rintro ⟨m, hm | ⟨hj, rfl⟩, hlt⟩
      · exact .inl ⟨m, hm, hlt⟩
      · exact .inr ⟨place, hlt, hj, rfl⟩
  · rw [splits_other hx, or_iff_left]
    rintro ⟨_, -, he⟩
    exact hx (EventId.copy.inj he).1

/-- An event is split. -/
theorem spread {k : Nat} (h : Tally p t none) (hs : t.get? e = some s) (hpos : 0 < s.holders)
    (h' : Splitting e k n s t t') (hk : k = (p.splits e).length) :
    Tally (p.use e (.split n)) t' (if n = 0 then some e else none) := by
  subst hk
  have hold {x : EventId} (hx : t.get? x = none) : x ≠ e := by
    rintro rfl
    rw [hs] at hx
    cases hx
  constructor
  · exact h'.published.trans h.published
  · intro x sx hx
    by_cases hxe : x = e
    · subst hxe
      rw [← Option.some.inj (h'.self.symm.trans hx)]
      exact h'.agrees_self (h.known hs) rfl hs hpos
    · by_cases hnew : ∃ place < n, x = .copy e (p.splits e).length place
      · obtain ⟨place, hplace, rfl⟩ := hnew
        have hunknown : t.get? (.copy e (p.splits e).length place) = none := by
          rw [← Option.not_isSome_iff_eq_none, h.copies, List.getElem?_eq_none (Nat.le_refl _)]
          nofun
        obtain ⟨-, hcalled, hsplits⟩ := h.unknown hunknown
        rw [← Option.some.inj ((h'.copies place hplace).symm.trans hx)]
        have hone : (p.use e (.split n)).references (.copy e (p.splits e).length place) = 1 :=
          if_pos ⟨place, hplace, rfl⟩
        exact .fresh hone hcalled ((splits_other hxe p n).trans hsplits) _ _ _
      · have hnew : ∀ place < n, x ≠ .copy e (p.splits e).length place := fun place hplace he => hnew ⟨place, hplace, he⟩
        refine (h.known ((h'.others x hxe hnew).symm.trans hx)).congr (references_other hnew) rfl (splits_other hxe p n)
          (fun j m place _ _ => ?_) fun _ => nofun
        exact h'.kept hs hpos fun _ _ he => hxe (EventId.copy.inj he).1
  · intro x hx
    obtain ⟨hbefore, hnew⟩ := not_or.1 (mt (h'.isSome_get? hs x).2 (Option.not_isSome_iff_eq_none.2 hx))
    rw [Option.not_isSome_iff_eq_none] at hbefore
    rw [references_other fun place hplace he => hnew ⟨place, hplace, he⟩, splits_other (hold hbefore)]
    exact h.unknown hbefore
  · intro m sx hx
    rw [h'.published]
    have hbefore := (h'.isSome_get? hs _).1 (Option.isSome_iff_exists.2 ⟨sx, hx⟩)
    obtain ⟨s', hs'⟩ := Option.isSome_iff_exists.1 (hbefore.resolve_right fun ⟨_, _, he⟩ => EventId.published_ne_copy he)
    exact h.roots hs'
  · exact fun {x j place} => h.copies_spread hs h' x j place

theorem split (h : Tally p t none) (hheld : t.held e = true) (n : Nat) :
    Tally (p.use e (.split n)) (t.use e (.split n)) none := by
  obtain ⟨s, hs, hpos⟩ := get?_of_held hheld
  have h' := splitting hs n
  have hspread := h.spread hs hpos h' (h.known hs).length_splits
  rw [EventTable.use, split_eq hs]
  dsimp only
  by_cases hn : n = 0
  · rw [if_pos hn] at hspread ⊢
    refine hspread.finish h'.self (.inr ?_) (EventState.settled_of_holders hpos)
    rw [hn]
    exact List.mem_append_right _ List.mem_cons_self
  · rw [if_neg hn] at hspread ⊢
    exact hspread

theorem perform (h : Tally p t none) (c : EventCall) : Tally (p.note c) (t.perform c) none := by
  cases c with
  | publish m => exact h.publish m
  | use e u =>
    have hheld : t.held e = true ↔ 0 < p.references e := by
      unfold held
      cases hs : t.get? e with
      | none => simp [(h.unknown hs).1]
      | some s => simp [← (h.known hs).holders]
    unfold EventTable.perform Past.note
    dsimp only
    by_cases hpos : 0 < p.references e
    · rw [if_pos (hheld.2 hpos), if_pos hpos]
      cases u with
      | share => exact h.share (hheld.2 hpos)
      | complete => exact h.complete (hheld.2 hpos)
      | split n => exact h.split (hheld.2 hpos) n
      | drop => exact h.drop (hheld.2 hpos)
    · rw [if_neg fun hh => hpos (hheld.1 hh), if_neg hpos]
      exact h

theorem performAll (h : Tally p t none) (calls : List EventCall) :
    Tally (calls.foldl Past.note p) (calls.foldl EventTable.perform t) none := by
  induction calls generalizing p t with
  | nil => exact h
  | cons c calls ih => exact ih (h.perform c)

/-! ### What is done -/

/-- A split that waits for no copy is one whose copies are all settled. -/
theorem zero_mem_iff (h : Tally p t due) (hs : t.get? e = some s) :
    0 ∈ s.splits ↔ ∃ i n, (p.splits e)[i]? = some n ∧ ∀ place < n, t.settled (.copy e i place) = true := by
  have hsplits := (h.known hs).splits
  rw [List.mem_iff_getElem?]
  refine exists_congr fun i => ?_
  rw [hsplits, Option.map_eq_some_iff]
  exact exists_congr fun n => and_congr_right fun _ => left_eq_zero_iff

theorem copy_known (h : Tally p t due) (hn : (p.splits e)[i]? = some n) (hplace : place < n) :
    (t.get? (.copy e i place)).isSome := h.copies.2 ⟨n, hn, hplace⟩

theorem settled_of_finished (h : Tally p t none) (hc : p.Finished c) (hknown : (t.get? c).isSome) : t.settled c = true := by
  have hcompleted {e : EventId} {s : EventState} (hs : t.get? e = some s)
      (hcause : p.called e = true ∨ 0 ∈ s.splits) : t.settled e = true := by
    rw [settled_of_get? hs, EventState.settled, (h.known hs).complete_of_cause hcause, Bool.true_or]
  induction hc with
  | @called e hcalled =>
    obtain ⟨s, hs⟩ := Option.isSome_iff_exists.1 hknown
    exact hcompleted hs (.inl hcalled)
  | @split e i n hn _ ih =>
    obtain ⟨s, hs⟩ := Option.isSome_iff_exists.1 hknown
    refine hcompleted hs (.inr ((h.zero_mem_iff hs).2 ⟨i, n, hn, fun place hplace => ?_⟩))
    exact ih place hplace (h.copy_known hn hplace)
  | @gone e hgone _ ih =>
    obtain ⟨s, hs⟩ := Option.isSome_iff_exists.1 hknown
    have hagrees := h.known hs
    cases hsplits : p.splits e with
    | nil =>
      have hnil : s.splits = [] := List.eq_nil_of_length_eq_zero (by rw [hagrees.length_splits, hsplits]; rfl)
      rw [settled_of_get? hs, EventState.settled, hnil, hagrees.holders, hgone]
      exact Bool.or_true _
    | cons n ns =>
      -- If it was split at all, its first split has all copies settled, so it is complete.
      have hn : (p.splits e)[0]? = some n := by rw [hsplits]; rfl
      refine hcompleted hs (.inr ((h.zero_mem_iff hs).2 ⟨0, n, hn, fun place hplace => ?_⟩))
      exact ih 0 n hn place hplace (h.copy_known hn hplace)

/-- Copies of copies are known up to some depth only. -/
theorem exists_depth (t : EventTable) : ∃ depth, ∀ x, (t.get? x).isSome → x.sources.length ≤ depth := by
  unfold get?
  induction t.states with
  | nil => exact ⟨0, nofun⟩
  | cons entry states ih =>
    obtain ⟨depth, hdepth⟩ := ih
    refine ⟨max entry.1.sources.length depth, fun x hx => ?_⟩
    rw [List.lookup_cons] at hx
    split at hx
    · next heq => rw [eq_of_beq heq]; exact Nat.le_max_left _ _
    · exact Nat.le_trans (hdepth x hx) (Nat.le_max_right _ _)

theorem finished_of_settled (h : Tally p t none) (hc : t.settled c = true) : p.Finished c := by
  obtain ⟨depth, hdepth⟩ := exists_depth t
  -- Each copy is one level deeper, and no level is deeper than `depth`.
  induction hlevel : depth - c.sources.length using Nat.strongRecOn generalizing c with
  | ind level ih =>
    cases hs : t.get? c with
    | none =>
      rw [settled, hs] at hc
      cases hc
    | some s =>
      rw [settled_of_get? hs, EventState.settled, Bool.or_eq_true] at hc
      have hagrees := h.known hs
      have hcopies {i n : Nat} (hn : (p.splits c)[i]? = some n)
          (hall : ∀ place < n, t.settled (.copy c i place) = true) (place : Nat) (hplace : place < n) :
          p.Finished (.copy c i place) := by
        have hdeeper := hdepth _ (h.copy_known hn hplace)
        refine ih _ ?_ (hall place hplace) rfl
        rw [← hlevel]
        simp only [EventId.sources, List.length_cons] at hdeeper ⊢
        omega
      rcases hc with hcompleted | hgone
      · rcases hagrees.sound hcompleted with hcalled | hzero
        · exact .called hcalled
        · obtain ⟨i, n, hn, hall⟩ := (h.zero_mem_iff hs).1 hzero
          exact .split hn (hcopies hn hall)
      · simp only [Bool.and_eq_true, decide_eq_true_eq, List.isEmpty_iff] at hgone
        refine .gone (hagrees.holders.symm.trans hgone.1) fun i n hn => ?_
        have hnil : p.splits c = [] := List.eq_nil_of_length_eq_zero (by rw [← hagrees.length_splits, hgone.2]; rfl)
        rw [hnil] at hn
        cases hn

/-- The events that are complete are those that are done by the past. -/
theorem isDone_iff (h : Tally p t none) (e : EventId) : t.isDone e = true ↔ p.Done e := by
  unfold isDone Past.Done
  cases hs : t.get? e with
  | none =>
    obtain ⟨-, hcalled, hsplits⟩ := h.unknown hs
    simp [hcalled, hsplits]
  | some s =>
    have hagrees := h.known hs
    have hcompleted : s.completion.completed = true ↔ p.called e = true ∨ 0 ∈ s.splits :=
      ⟨hagrees.sound, hagrees.complete_of_cause⟩
    rw [Option.map_some, Option.getD_some, hcompleted, h.zero_mem_iff hs]
    refine or_congr_right (exists_congr fun i => exists_congr fun n => and_congr_right fun hn => ?_)
    refine forall_congr' fun place => forall_congr' fun hplace => ⟨h.finished_of_settled, fun hfinished => ?_⟩
    exact h.settled_of_finished hfinished (h.copy_known hn hplace)

end Tally

/-! ## What one call completes -/

theorem isDone_eq (t : EventTable) (x : EventId) : t.isDone x = ((t.completion? x).map (·.completed)).getD false := by
  unfold isDone completion?
  rw [Option.map_map]
  rfl

theorem isDone_congr {x : EventId} (h : t'.completion? x = t.completion? x) : t'.isDone x = t.isDone x := by
  rw [isDone_eq, isDone_eq, h]

/-- Using an event concerns that event and those it was split from; and it may be split. -/
theorem isDone_use {x : EventId} (hx : x ∉ e :: e.sources) (t : EventTable) (u : EventUse) :
    (t.use e u).isDone x = t.isDone x ∨ (∃ i place, x = .copy e i place) ∧ (t.use e u).isDone x = false := by
  obtain ⟨hne, hsources⟩ := not_or.1 fun h => hx (List.mem_cons.2 h)
  cases u with
  | share => exact .inl (isDone_congr (completion?_update t e (fun s => { s with holders := s.holders + 1 }) (fun _ => rfl) x))
  | complete => exact .inl (isDone_congr (by rw [use, completion?_finish hsources, if_neg hne]))
  | drop => exact .inl (isDone_congr (completion?_drop hsources t))
  | split n =>
    cases hs : t.get? e with
    | none =>
      refine .inl ?_
      rw [use, EventTable.split, hs]
    | some s =>
      have h' := splitting hs n
      have hsame : (t.use e (.split n)).isDone x = ((t.update e fun s => { s with splits := s.splits ++ [n] }).add
          (copies e s.splits.length n s.message)).isDone x := by
        rw [use, split_eq hs]
        dsimp only
        split
        · exact isDone_congr (by rw [completion?_finish hsources, if_neg hne])
        · rfl
      by_cases hnew : ∃ place < n, x = .copy e s.splits.length place
      · obtain ⟨place, hplace, rfl⟩ := hnew
        refine .inr ⟨⟨_, place, rfl⟩, ?_⟩
        rw [hsame, isDone, h'.copies place hplace]
        rfl
      · refine .inl ?_
        rw [hsame, isDone, isDone, h'.others x hne fun place hplace he => hnew ⟨place, hplace, he⟩]

/-- One call does not complete two copies of one event. -/
theorem isDone_sibling {i' place' : Nat} (hne : EventId.copy source i place ≠ .copy source i' place') (call : EventCall)
    (h : t.isDone (.copy source i place) = false) (h' : (t.perform call).isDone (.copy source i place) = true) :
    (t.perform call).isDone (.copy source i' place') = t.isDone (.copy source i' place') := by
  cases call with
  | publish m =>
    refine isDone_congr ?_
    unfold completion? perform
    rw [get?_publish, if_neg EventId.published_ne_copy.symm]
  | use e u =>
    unfold perform at h' ⊢
    dsimp only at h' ⊢
    split at h'
    · next hheld =>
      rw [if_pos hheld]
      have hmem : .copy source i place ∈ e :: e.sources := by
        by_contra hno
        rcases isDone_use hno t u with hsame | ⟨-, hfalse⟩
        · rw [hsame, h] at h'
          cases h'
        · rw [hfalse] at h'
          cases h'
      -- The other copy is at the same depth, so the event was not split from it, nor it from the event.
      have hother : .copy source i' place' ∉ e :: e.sources := fun hmem' => hne (EventId.eq_of_mem_sources hmem hmem' rfl)
      refine (isDone_use hother t u).resolve_right ?_
      rintro ⟨⟨j, k, he⟩, -⟩
      obtain ⟨rfl, -, -⟩ := EventId.copy.inj he
      rcases List.mem_cons.1 hmem with hself | hmem
      · exact EventId.copy_ne_source hself
      · have hdeep := EventId.length_sources_lt hmem
        simp only [EventId.sources, List.length_cons] at hdeep
        omega
    · next hheld => rw [if_neg hheld]

/-- Whatever is done with events and their copies, an event is complete just when it was completed by a call or
all copies of one split of it are finished, where a copy is finished once it is complete or nobody refers to it any
more and none of its splits waits for a copy. Each notification is sent once, when the event is complete; one of an
event that was only shared and dropped is not sent. No call completes two copies of one event. -/
theorem completed_by_calls (calls : List EventCall) :
    let t := calls.foldl perform {}
    let p := calls.foldl Past.note {}
    (∀ e, t.isDone e = true ↔ p.Done e) ∧
    (∀ c, p.Finished c ↔ p.Done c ∨
      p.references c = 0 ∧ ∀ i n, (p.splits c)[i]? = some n → ∀ place < n, p.Finished (.copy c i place)) ∧
    (∀ e s, t.get? e = some s → s.holders = p.references e ∧ s.completion.notifies = true ∧
      s.completion.fired ≤ 1 ∧ (s.completion.fired = 1 ↔ p.Done e)) ∧
    (∀ k s, t.get? (.published k) = some s → p.called (.published k) = false → p.splits (.published k) = [] →
      s.completion.fired = 0) ∧
    ∀ call source i place i' place', EventId.copy source i place ≠ .copy source i' place' →
      t.isDone (.copy source i place) = false → (t.perform call).isDone (.copy source i place) = true →
      (t.perform call).isDone (.copy source i' place') = t.isDone (.copy source i' place') := by
  intro t p
  have h : Tally p t none := Tally.empty.performAll calls
  have hfired {e : EventId} {s : EventState} (hs : t.get? e = some s) :
      s.completion.fired = if s.completion.completed then 1 else 0 := (h.known hs).fired
  have hdone {e : EventId} {s : EventState} (hs : t.get? e = some s) : s.completion.completed = true ↔ p.Done e := by
    rw [← h.isDone_iff, isDone, hs]
    rfl
  refine ⟨h.isDone_iff, fun c => Past.finished_iff, fun e s hs => ?_, fun k s hs hcalled hsplits => ?_,
    fun call source i place i' place' hne => isDone_sibling hne call⟩
  · refine ⟨(h.known hs).holders, (h.known hs).notifies, ?_, ?_⟩
    · rw [hfired hs]
      split <;> decide
    · rw [hfired hs, ← hdone hs]
      cases s.completion.completed <;> decide
  · have hopen : ¬ p.Done (.published k) := by
      rintro (hcall | ⟨i, n, hn, -⟩)
      · rw [hcalled] at hcall
        cases hcall
      · rw [hsplits] at hn
        cases hn
    rw [hfired hs, if_neg fun hcompleted => hopen ((hdone hs).1 hcompleted)]

/-- An event is split, and its first copy is split again. The two copies of that copy are completed and dropped,
which completes it though nobody refers to it any more; the other copy is dropped, and that completes the event. -/
theorem completed_by_nested_copies :
    let e := EventId.published 0
    let first := EventId.copy e 0 0
    let calls : List EventCall := [.publish ⟨"t", [], .atLeastOnce, false⟩, .use e (.split 2), .use e .drop,
      .use first (.split 2), .use first .drop, .use (.copy first 0 0) .complete, .use (.copy first 0 1) .drop,
      .use (.copy e 0 1) .drop]
    let p := calls.foldl Past.note {}
    p.called e = false ∧ p.called first = false ∧ p.Done first ∧ p.Done e ∧
      ∃ s, (calls.foldl perform {}).get? e = some s ∧ s.completion.fired = 1 := by
  intro e first calls p
  obtain ⟨hdone, -, hstate, -⟩ := completed_by_calls calls
  have he : p.Done e := (hdone e).1 (by decide +kernel)
  obtain ⟨s, hs⟩ := Option.isSome_iff_exists.1 (show ((calls.foldl perform {}).get? e).isSome by decide +kernel)
  exact ⟨by decide +kernel, by decide +kernel, (hdone first).1 (by decide +kernel), he, s, hs, (hstate e s hs).2.2.2.2 he⟩

end EventTable

end PubSub
