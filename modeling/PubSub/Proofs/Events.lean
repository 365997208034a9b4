import PubSub.Event
/-!
# Events by what is known of them

What is done with an event changes only what is known of events that come from the same published
one (`EventTable.Within`). Of an event that was split once, settling a copy takes one off the count of
copies that are not settled, and the last one completes it (`get?_settleLast`). A copy is settled when
it is released and also when it is dropped. Of events that were not split from each other each is completed
on its own (`completion?_releaseAll`).
-/

namespace PubSub

/-- The number of the published event that an event comes from. -/
def EventId.root : EventId → Nat
  | published n => n
  | copy source _ _ => source.root

theorem EventId.published_ne_copy {n split place : Nat} {source : EventId} :
    EventId.published n ≠ .copy source split place := nofun

namespace EventTable

variable {t t' t'' : EventTable} {e x : EventId} {n : Nat}

/-! ## Changes to one event -/

theorem get?_update (t : EventTable) (e : EventId) (f : EventState → EventState) (x : EventId) :
    (t.update e f).get? x = if x = e then (t.get? x).map f else t.get? x := by
  obtain ⟨states, published⟩ := t
  show (states.map _).lookup x = if x = e then (states.lookup x).map f else states.lookup x
  induction states with
  | nil => simp
  | cons s states ih =>
    obtain ⟨y, s⟩ := s
    rw [List.map_cons]
    by_cases hx : x = y
    · subst hx
      by_cases he : x = e <;> simp [he]
    · have hbeq : (x == y) = false := beq_eq_false_iff_ne.2 hx
      have hname : (if y = e then (y, f s) else (y, s)).1 = y := by split <;> rfl
      rw [List.lookup_cons, List.lookup_cons, hname, hbeq]
      exact ih

theorem get?_update_other (h : x ≠ e) (f : EventState → EventState) : (t.update e f).get? x = t.get? x := by
  rw [get?_update, if_neg h]

/-! ## New events -/

/-- The copies of a split with their names. -/
def copies (source : EventId) (split k : Nat) (m : Message) : List Event :=
  (List.range k).map fun place => ⟨.copy source split place, m⟩

/-- Events as they are when they come to be. -/
def add (t : EventTable) (es : List Event) : EventTable :=
  { t with states := es.map (fun c => (c.id, { message := c.message, completion := {} })) ++ t.states }

theorem get?_add (t : EventTable) (es : List Event) (x : EventId) : (t.add es).get? x
    = ((es.find? (·.id = x)).map fun c => { message := c.message, completion := {} }).or (t.get? x) := by
  unfold add get?
  rw [List.lookup_append]
  congr 1
  induction es with
  | nil => rfl
  | cons c es ih =>
    rw [List.map_cons, List.lookup_cons, List.find?_cons]
    by_cases hx : c.id = x
    · rw [beq_iff_eq.2 hx.symm, decide_eq_true hx]
      rfl
    · rw [beq_eq_false_iff_ne.2 (Ne.symm hx), decide_eq_false hx]
      exact ih

theorem get?_add_of_notMem {es : List Event} (h : ∀ c ∈ es, c.id ≠ x) (t : EventTable) :
    (t.add es).get? x = t.get? x := by
  have hnone : es.find? (·.id = x) = none := by
    simpa using h
  rw [get?_add, hnone]
  rfl

theorem mem_copies {source : EventId} {split k : Nat} {m : Message} {c : Event} :
    c ∈ copies source split k m ↔ ∃ place < k, c = ⟨.copy source split place, m⟩ := by
  simp only [copies, List.mem_map, List.mem_range, eq_comm]

theorem get?_add_copies {source : EventId} {split k place : Nat} {m : Message} (h : place < k) (t : EventTable) :
    (t.add (copies source split k m)).get? (.copy source split place) = some { message := m, completion := {} } := by
  have hsome : ((copies source split k m).find? (·.id = .copy source split place)).isSome :=
    List.find?_isSome.2 ⟨_, mem_copies.2 ⟨place, h, rfl⟩, decide_eq_true rfl⟩
  obtain ⟨c, hc⟩ := Option.isSome_iff_exists.1 hsome
  obtain ⟨other, -, rfl⟩ := mem_copies.1 (List.mem_of_find?_eq_some hc)
  rw [get?_add, hc]
  rfl

theorem split_eq {s : EventState} (h : t.get? e = some s) (k : Nat) : t.split e k
    = (copies e s.splits.length k s.message,
      let t := (t.update e fun s => { s with splits := s.splits ++ [k] }).add (copies e s.splits.length k s.message)
      if k = 0 then t.finish e else t) := by
  unfold split
  rw [h]
  rfl

theorem get?_publish (t : EventTable) (m : Message) (notifies : Bool) (x : EventId) : (t.publish m notifies).2.get? x
    = if x = .published t.published then some { message := m, completion := { notifies } } else t.get? x := by
  unfold publish get?
  dsimp only
  rw [List.lookup_cons]
  by_cases hx : x = .published t.published
  · rw [if_pos hx, beq_iff_eq.2 hx]
  · rw [if_neg hx, beq_eq_false_iff_ne.2 hx]

theorem get?_publish_self (t : EventTable) (m : Message) (notifies : Bool) :
    (t.publish m notifies).2.get? (.published t.published) = some { message := m, completion := { notifies } } := by
  rw [get?_publish, if_pos rfl]

/-- The copies of an event that was just published. -/
theorem copies_publish (t : EventTable) (m : Message) (notifies : Bool) (k : Nat) :
    ((t.publish m notifies).2.split (t.publish m notifies).1.id k).1 = copies (.published t.published) 0 k m :=
  congrArg Prod.fst (split_eq (get?_publish_self t m notifies) k)

/-! ## What is left alone -/

/-- Only what is known of events that come from event `n` has changed. -/
structure Within (n : Nat) (t t' : EventTable) : Prop where
  published : t'.published = t.published
  others : ∀ x : EventId, x.root ≠ n → t'.get? x = t.get? x

namespace Within

theorem refl (n : Nat) (t : EventTable) : Within n t t := ⟨rfl, fun _ _ => rfl⟩

theorem trans (h : Within n t t') (h' : Within n t' t'') : Within n t t'' :=
  ⟨h'.published.trans h.published, fun x hx => (h'.others x hx).trans (h.others x hx)⟩

theorem update (t : EventTable) (e : EventId) (f : EventState → EventState) : Within e.root t (t.update e f) :=
  ⟨rfl, fun _ hx => get?_update_other (fun he => hx (congrArg EventId.root he)) f⟩

theorem settle (t : EventTable) (e : EventId) (split : Nat) : Within e.root t (t.settle e split) := update t e _

theorem finish (e : EventId) (t : EventTable) : Within e.root t (t.finish e) := by
  induction e generalizing t with
  | published n => exact update t _ _
  | copy source split place ih =>
    unfold EventTable.finish
    dsimp only
    split
    · exact refl _ t
    · have hsettled : Within source.root t (((t.update (.copy source split place) fun s =>
          { s with completion := s.completion.complete.2 })).settle source split) :=
        (update t (.copy source split place) _).trans (settle _ source split)
      split
      · exact hsettled.trans (ih _)
      · exact hsettled

theorem drop (e : EventId) (t : EventTable) : Within e.root t (t.drop e) := by
  unfold EventTable.drop
  split
  · exact refl _ t
  · cases e with
    | published n => exact update t _ _
    | copy source split place =>
      have hless := update t (.copy source split place) fun s => { s with holders := s.holders - 1 }
      dsimp only
      split
      · have hsettled := hless.trans (settle _ source split)
        split
        · exact hsettled.trans (finish source _)
        · exact hsettled
      · exact hless

theorem release (e : EventId) (t : EventTable) : Within e.root t (t.release e) := (finish e t).trans (drop e _)

theorem split (e : EventId) (k : Nat) (t : EventTable) : Within e.root t (t.split e k).2 := by
  cases h : t.get? e with
  | none =>
    unfold EventTable.split
    rw [h]
    exact refl _ t
  | some s =>
    rw [split_eq h]
    have hadded : Within e.root t ((t.update e fun s => { s with splits := s.splits ++ [k] }).add
        (copies e s.splits.length k s.message)) := by
      refine (update t e _).trans ⟨rfl, fun x hx => get?_add_of_notMem (fun c hc he => hx ?_) _⟩
      obtain ⟨place, -, rfl⟩ := mem_copies.1 hc
      rw [← he]
      rfl
    dsimp only
    split
    · exact hadded.trans (finish e _)
    · exact hadded

end Within

/-! ## Settling a copy -/

/-- Settles one copy of a split; the last one completes the event that was split. -/
def settleLast (source : EventId) (split : Nat) (t : EventTable) : EventTable :=
  if (t.settle source split).unsettled source split = 0 then (t.settle source split).finish source
  else t.settle source split

/-- An event that is not complete, with one reference left and no copies of its own. -/
structure Pending (s : EventState) : Prop where
  incomplete : s.completion.completed = false
  holders : s.holders = 1
  splits : s.splits = []

variable {s sc : EventState} {source : EventId} {split place c : Nat}

theorem finish_copy (h : t.get? (.copy source split place) = some s) (hs : s.completion.completed = false) :
    t.finish (.copy source split place) = (t.update (.copy source split place) fun s =>
      { s with completion := s.completion.complete.2 }).settleLast source split := by
  have hopen : t.isDone (.copy source split place) = false := by
    rw [isDone, h]
    exact hs
  rw [finish, if_neg (by rw [hopen]; exact Bool.false_ne_true)]
  rfl

theorem drop_pending (h : t.get? (.copy source split place) = some s) (hs : Pending s) :
    t.drop (.copy source split place) = (t.update (.copy source split place) fun s =>
      { s with holders := s.holders - 1 }).settleLast source split := by
  have hlast : s.holders = 1 ∧ ¬ s.completion.completed ∧ s.splits = [] :=
    ⟨hs.holders, Bool.eq_false_iff.1 hs.incomplete, hs.splits⟩
  rw [drop, h]
  dsimp only
  rw [if_pos hlast]
  rfl

theorem drop_completed (h : t.get? (.copy source split place) = some s) (hs : s.completion.completed = true) :
    t.drop (.copy source split place) = t.update (.copy source split place) fun s =>
      { s with holders := s.holders - 1 } := by
  rw [drop, h]
  dsimp only
  exact if_neg fun hlast => hlast.2.1 hs

/-- An event with `c` copies of its only split left to wait for. -/
def waitingFor (s : EventState) (c : Nat) : EventState :=
  { s with splits := [c], completion := if c = 0 then s.completion.complete.2 else s.completion }

theorem get?_settleLast (h : t.get? (.published n) = some s) (hs : s.splits = [c + 1]) (x : EventId) :
    (t.settleLast (.published n) 0).get? x = if x = .published n then some (waitingFor s c) else t.get? x := by
  have hsettled : (t.settle (.published n) 0).get? (.published n) = some { s with splits := [c] } := by
    rw [settle, get?_update, if_pos rfl, h, Option.map_some, hs]
    rfl
  have hcount : (t.settle (.published n) 0).unsettled (.published n) 0 = c := by
    rw [unsettled, hsettled]
    rfl
  rw [settleLast, hcount]
  unfold waitingFor
  by_cases hx : x = .published n
  · subst hx
    rw [if_pos rfl]
    split
    · rw [finish, get?_update, if_pos rfl, hsettled]
      rfl
    · exact hsettled
  · have hother : (t.settle (.published n) 0).get? x = t.get? x := get?_update_other hx _
    rw [if_neg hx]
    split
    · rw [finish, get?_update_other hx, hother]
    · exact hother

/-- One copy of the only split of event `n` is settled, and `c` copies are left. -/
structure Settles (n place c : Nat) (s : EventState) (t t' : EventTable) : Prop where
  source : t'.get? (.published n) = some (waitingFor s c)
  others : ∀ x, x ≠ .published n → x ≠ .copy (.published n) 0 place → t'.get? x = t.get? x

section Settles
variable (h : t.get? (.published n) = some s) (hs : s.splits = [c + 1])
include h hs

theorem settles_update (f : EventState → EventState) :
    Settles n place c s t ((t.update (.copy (.published n) 0 place) f).settleLast (.published n) 0) := by
  have hsource : (t.update (.copy (.published n) 0 place) f).get? (.published n) = some s :=
    (get?_update_other EventId.published_ne_copy f).trans h
  refine ⟨?_, fun x hx hcopy => ?_⟩
  · rw [get?_settleLast hsource hs, if_pos rfl]
  · rw [get?_settleLast hsource hs, if_neg hx, get?_update_other hcopy]

variable (hcopy : t.get? (.copy (.published n) 0 place) = some sc) (hsc : Pending sc)
include hcopy hsc

theorem settles_drop : Settles n place c s t (t.drop (.copy (.published n) 0 place)) := by
  rw [drop_pending hcopy hsc]
  exact settles_update h hs _

/-- A copy that is released is settled as it is completed, and not again as it is dropped. -/
theorem settles_release : Settles n place c s t (t.release (.copy (.published n) 0 place)) := by
  have hfinish := finish_copy hcopy hsc.incomplete
  have hsource : (t.update (.copy (.published n) 0 place) fun s =>
      { s with completion := s.completion.complete.2 }).get? (.published n) = some s :=
    (get?_update_other EventId.published_ne_copy _).trans h
  have hdone : (t.finish (.copy (.published n) 0 place)).get? (.copy (.published n) 0 place)
      = some { sc with completion := sc.completion.complete.2 } := by
    rw [hfinish, get?_settleLast hsource hs, if_neg EventId.published_ne_copy.symm, get?_update, if_pos rfl, hcopy]
    rfl
  have hcompleted : sc.completion.complete.2.completed = true := by
    rw [Completion.complete, if_neg (by rw [hsc.incomplete]; exact Bool.false_ne_true)]
  obtain ⟨hsource', hothers⟩ : Settles n place c s t ((t.update (.copy (.published n) 0 place) fun s =>
      { s with completion := s.completion.complete.2 }).settleLast (.published n) 0) := settles_update h hs _
  rw [release, drop_completed hdone hcompleted, hfinish]
  refine ⟨(get?_update_other EventId.published_ne_copy _).trans hsource', fun x hx hother => ?_⟩
  rw [get?_update_other hother, hothers x hx hother]

end Settles

end EventTable

/-! ## Completing events that have no part in each other -/

/-- The events that an event was split from, the nearest first. -/
def EventId.sources : EventId → List EventId
  | published _ => []
  | copy source _ _ => source :: source.sources

theorem EventId.length_sources_lt {x e : EventId} (h : x ∈ e.sources) : x.sources.length < e.sources.length := by
  induction e with
  | published n => cases h
  | copy source split place ih =>
    rcases List.mem_cons.1 h with rfl | h
    · exact Nat.lt_succ_self _
    · exact Nat.lt_succ_of_lt (ih h)

theorem EventId.notMem_sources_self (e : EventId) : e ∉ e.sources := fun h => Nat.lt_irrefl _ (length_sources_lt h)

theorem Completion.complete_of_completed {c : Completion} (h : c.completed = true) : c.complete.2 = c := by
  rw [complete, if_pos h]

theorem Completion.completed_complete (c : Completion) : c.complete.2.completed = true := by
  unfold complete
  split
  · assumption
  · rfl

namespace EventTable

variable {t : EventTable} {e x : EventId}

def completion? (t : EventTable) (e : EventId) : Option Completion := (t.get? e).map (·.completion)

theorem completion?_update (t : EventTable) (e : EventId) (f : EventState → EventState)
    (hf : ∀ s, (f s).completion = s.completion) (x : EventId) : (t.update e f).completion? x = t.completion? x := by
  rw [completion?, completion?, get?_update]
  split
  · rw [Option.map_map]
    congr 1
    funext s
    exact hf s
  · rfl

theorem completion?_complete (t : EventTable) (e x : EventId) :
    (t.update e fun s => { s with completion := s.completion.complete.2 }).completion? x =
      if x = e then (t.completion? x).map (·.complete.2) else t.completion? x := by
  rw [completion?, completion?, get?_update]
  split
  · rw [Option.map_map, Option.map_map]
    rfl
  · rfl

theorem completion?_settle (t : EventTable) (e : EventId) (split : Nat) (x : EventId) :
    (t.settle e split).completion? x = t.completion? x := 
  completion?_update t e (fun s => { s with splits := s.splits.modify split (· - 1) }) (fun _ => rfl) x

theorem completion?_of_done (h : t.isDone e = true) : (t.completion? e).map (·.complete.2) = t.completion? e := by
  unfold isDone at h
  unfold completion?
  cases hs : t.get? e with
  | none => rfl
  | some s =>
    rw [hs] at h
    exact congrArg some (Completion.complete_of_completed h)

/-- Finishing an event completes it and leaves all others as they are but for those it was split from. -/
theorem completion?_finish (h : x ∉ e.sources) (t : EventTable) :
    (t.finish e).completion? x = if x = e then (t.completion? x).map (·.complete.2) else t.completion? x := by
  induction e generalizing t with
  | published n => exact completion?_complete t _ x
  | copy source split place ih =>
    obtain ⟨hsource, hsources⟩ := not_or.1 fun hx => h (List.mem_cons.2 hx)
    rw [EventTable.finish]
    split
    · next hdone =>
      split
      · next hx => rw [hx, completion?_of_done hdone]
      · rfl
    · dsimp only
      have hsettled := completion?_settle (t.update (.copy source split place) fun s =>
        { s with completion := s.completion.complete.2 }) source split x
      rw [completion?_complete] at hsettled
      split
      · rw [ih hsources, if_neg hsource, hsettled]
      · exact hsettled

theorem completion?_drop (h : x ∉ e.sources) (t : EventTable) : (t.drop e).completion? x = t.completion? x := by
  unfold EventTable.drop
  split
  · rfl
  · have hless := completion?_update t e (fun s => { s with holders := s.holders - 1 }) (fun _ => rfl) x
    cases e with
    | published n => exact hless
    | copy source split place =>
      obtain ⟨hsource, hsources⟩ := not_or.1 fun hx => h (List.mem_cons.2 hx)
      dsimp only
      split
      · split
        · rw [completion?_finish hsources, if_neg hsource, completion?_settle, hless]
        · rw [completion?_settle, hless]
      · exact hless

theorem completion?_release (h : x ∉ e.sources) (t : EventTable) :
    (t.release e).completion? x = if x = e then (t.completion? x).map (·.complete.2) else t.completion? x := by
  rw [release, completion?_drop h, completion?_finish h]

/-- An event that is released is complete. -/
theorem isDone_release (h : (t.get? e).isSome) : (t.release e).isDone e = true := by
  obtain ⟨s, hs⟩ := Option.isSome_iff_exists.1 h
  have hreleased := completion?_release e.notMem_sources_self t
  rw [if_pos rfl, completion?, completion?, hs] at hreleased
  obtain ⟨s', hs', hcompletion⟩ := Option.map_eq_some_iff.1 hreleased
  simp [isDone, hs', hcompletion, Completion.completed_complete]

/-- Releases events one after the other. -/
def releaseAll (t : EventTable) (es : List Event) : EventTable := es.foldl (fun t e => t.release e.id) t

theorem completion?_releaseAll {es : List Event} (h : ∀ e ∈ es, x ∉ e.id.sources) (t : EventTable) :
    (t.releaseAll es).completion? x =
      if x ∈ es.map (·.id) then (t.completion? x).map (·.complete.2) else t.completion? x := by
  induction es generalizing t with
  | nil => rfl
  | cons e es ih =>
    obtain ⟨he, hes⟩ := List.forall_mem_cons.1 h
    rw [releaseAll, List.foldl_cons]
    refine (ih hes (t.release e.id)).trans ?_
    rw [completion?_release he]
    by_cases hx : x = e.id
    · -- Completing once more changes nothing.
      have htwice : ((t.completion? x).map (·.complete.2)).map (·.complete.2) = (t.completion? x).map (·.complete.2) := by
        cases t.completion? x with
        | none => rfl
        | some c => exact congrArg some (Completion.complete_of_completed c.completed_complete)
      rw [if_pos hx, hx, List.map_cons, if_pos List.mem_cons_self, ← hx, htwice, ite_self]
    · simp [hx]

end EventTable

end PubSub
