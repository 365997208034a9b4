import Mathlib
import PubSub.Proofs.Events
/-!
# Events in somebody's hands

An event that was published is in the hands of somebody who has it still to settle: a copy that is on
its way to a session, or an event that waits in a queue. Traffic goes on in few ways (`Traffic.Step`):
an event is published, with copies or without; one is settled by whoever has it, or let go unsettled.
An event that was published to be split is complete just when none of its copies is in anybody's hands
any more (`Tracks`).
-/

namespace PubSub

namespace EventTable

variable {t : EventTable} {m : Message} {k : Nat}

/-- An event is published and split at once. -/
def splitUp (t : EventTable) (m : Message) (k : Nat) : EventTable :=
  ((t.publish m true).2.split (.published t.published) k).2

/-- Publishes an event for its copies alone. -/
def spread (t : EventTable) (m : Message) (k : Nat) : List Event × EventTable :=
  (((t.publish m true).2.split (.published t.published) k).1, (t.splitUp m k).drop (.published t.published))

theorem spread_copies (t : EventTable) (m : Message) (k : Nat) :
    (t.spread m k).1 = copies (.published t.published) 0 k m := copies_publish t m true k

theorem within_spread (t : EventTable) (m : Message) (k : Nat) :
    Within t.published (t.publish m true).2 (t.spread m k).2 :=
  (Within.split (.published t.published) k _).trans (Within.drop (.published t.published) _)

theorem published_spread (t : EventTable) (m : Message) (k : Nat) : (t.spread m k).2.published = t.published + 1 :=
  (within_spread t m k).published

theorem get?_spread_other {x : EventId} (hx : x.root ≠ t.published) : (t.spread m k).2.get? x = t.get? x := by
  rw [(within_spread t m k).others x hx, get?_publish, if_neg]
  exact fun he => hx (congrArg EventId.root he)

/-- With no copies to wait for the event is complete. -/
theorem splitUp_eq (t : EventTable) (m : Message) (k : Nat) : ∃ t' : EventTable,
    t.splitUp m k = (if k = 0 then t'.finish (.published t.published) else t') ∧
    t'.get? (.published t.published) = some { message := m, completion := {}, splits := [k] } ∧
    ∀ place < k, t'.get? (.copy (.published t.published) 0 place) = some { message := m, completion := {} } := by
  have hsplit := split_eq (get?_publish_self t m true) k
  refine ⟨_, congrArg Prod.snd hsplit, ?_, fun place hplace => get?_add_copies hplace _⟩
  rw [get?_add_of_notMem, get?_update, if_pos rfl, get?_publish_self]
  · rfl
  · intro c hc
    obtain ⟨place, -, rfl⟩ := mem_copies.1 hc
    exact EventId.published_ne_copy.symm

theorem get?_splitUp_source (t : EventTable) (m : Message) (k : Nat) : (t.splitUp m k).get? (.published t.published)
    = some (waitingFor { message := m, completion := {} } k) := by
  obtain ⟨t', heq, hsource, -⟩ := splitUp_eq t m k
  rw [heq]
  unfold waitingFor
  split
  · rw [finish, get?_update, if_pos rfl, hsource]
    rfl
  · exact hsource

theorem get?_splitUp_copy {place : Nat} (h : place < k) (t : EventTable) (m : Message) :
    (t.splitUp m k).get? (.copy (.published t.published) 0 place) = some { message := m, completion := {} } := by
  obtain ⟨t', heq, -, hcopies⟩ := splitUp_eq t m k
  rw [heq]
  split
  · rw [finish, get?_update_other EventId.published_ne_copy.symm, hcopies place h]
  · exact hcopies place h

/-- The publisher lets go of the event that it has split. -/
theorem drop_splitUp (t : EventTable) (m : Message) (k : Nat) : (t.spread m k).2
    = (t.splitUp m k).update (.published t.published) fun s => { s with holders := s.holders - 1 } := by
  unfold spread drop
  rw [get?_splitUp_source]

theorem get?_spread_source (t : EventTable) (m : Message) (k : Nat) : (t.spread m k).2.get? (.published t.published)
    = some { waitingFor { message := m, completion := {} } k with holders := 0 } := by
  rw [drop_splitUp, get?_update, if_pos rfl, get?_splitUp_source]
  rfl

theorem get?_spread_copy {place : Nat} (h : place < k) (t : EventTable) (m : Message) :
    (t.spread m k).2.get? (.copy (.published t.published) 0 place) = some { message := m, completion := {} } := by
  rw [drop_splitUp, get?_update_other EventId.published_ne_copy.symm, get?_splitUp_copy h]

end EventTable

/-- The events that somebody has still to settle, and what is known of all events. -/
structure Traffic where
  held : Multiset EventId
  events : EventTable

namespace Traffic

/-- What can happen to events. -/
inductive Step : Traffic → Traffic → Prop
  | publish {held : Multiset EventId} {t : EventTable} (m : Message) :
      Step ⟨held, t⟩ ⟨(t.publish m true).1.id ::ₘ held, (t.publish m true).2⟩
  | spread {held : Multiset EventId} {t : EventTable} (m : Message) (k : Nat) :
      Step ⟨held, t⟩ ⟨((t.spread m k).1.map (·.id) : List EventId) + held, (t.spread m k).2⟩
  | release {held : Multiset EventId} {t : EventTable} (e : EventId) : Step ⟨e ::ₘ held, t⟩ ⟨held, t.release e⟩
  | drop {held : Multiset EventId} {t : EventTable} (e : EventId) : Step ⟨e ::ₘ held, t⟩ ⟨held, t.drop e⟩
  /-- An event that was not split is left as it is. -/
  | leave {held : Multiset EventId} {t : EventTable} (n : Nat) : Step ⟨.published n ::ₘ held, t⟩ ⟨held, t⟩

/-- Traffic that goes on from one state to another. -/
abbrev Goes : Traffic → Traffic → Prop := Relation.ReflTransGen Step

/-- The traffic with more events in other hands. -/
def beside (x : Traffic) (held : Multiset EventId) : Traffic := ⟨held + x.held, x.events⟩

theorem beside_beside (x : Traffic) (held more : Multiset EventId) :
    (x.beside held).beside more = x.beside (more + held) := congrArg (Traffic.mk · x.events) (add_assoc _ _ _).symm

variable {x y : Traffic} {m : Message} {n : Nat}

theorem Step.beside (h : Step x y) (held : Multiset EventId) : Step (x.beside held) (y.beside held) := by
  cases h with
  | publish m =>
    unfold Traffic.beside
    rw [Multiset.add_cons]
    exact .publish m
  | spread m k =>
    unfold Traffic.beside
    rw [add_left_comm]
    exact .spread m k
  | release e =>
    unfold Traffic.beside
    rw [Multiset.add_cons]
    exact .release e
  | drop e =>
    unfold Traffic.beside
    rw [Multiset.add_cons]
    exact .drop e
  | leave n =>
    unfold Traffic.beside
    rw [Multiset.add_cons]
    exact .leave n

/-- What goes on does not depend on events in other hands. -/
theorem Goes.beside (h : Goes x y) (held : Multiset EventId) : Goes (x.beside held) (y.beside held) :=
  h.lift (·.beside held) fun _ _ hstep => hstep.beside held

/-! ## Every event has a number -/

/-- No event comes from one that was not published yet. -/
def Known (x : Traffic) : Prop := ∀ e ∈ x.held, e.root < x.events.published

theorem root_of_mem_spread {t : EventTable} {k : Nat} {e : EventId} (h : e ∈ (t.spread m k).1.map (·.id)) :
    e.root = t.published := by
  rw [EventTable.spread_copies] at h
  obtain ⟨c, hc, rfl⟩ := List.mem_map.1 h
  obtain ⟨place, -, rfl⟩ := EventTable.mem_copies.1 hc
  rfl

theorem Known.step (hx : Known x) (h : Step x y) : Known y := by
  intro e he
  cases h with
  | publish m =>
    rcases Multiset.mem_cons.1 he with rfl | he
    · exact Nat.lt_succ_self _
    · exact Nat.lt_succ_of_lt (hx e he)
  | spread m k =>
    show e.root < (EventTable.spread _ m k).2.published
    rw [EventTable.published_spread]
    rcases Multiset.mem_add.1 he with he | he
    · rw [root_of_mem_spread (Multiset.mem_coe.1 he)]
      exact Nat.lt_succ_self _
    · exact Nat.lt_succ_of_lt (hx e he)
  | release e' =>
    show e.root < (EventTable.release e' _).published
    rw [(EventTable.Within.release e' _).published]
    exact hx e (Multiset.mem_cons_of_mem he)
  | drop e' =>
    show e.root < (EventTable.drop e' _).published
    rw [(EventTable.Within.drop e' _).published]
    exact hx e (Multiset.mem_cons_of_mem he)
  | leave n => exact hx e (Multiset.mem_cons_of_mem he)

theorem Known.goes (hx : Known x) (h : Goes x y) : Known y := by
  induction h with
  | refl => exact hx
  | tail _ hstep ih => exact ih.step hstep

/-! ## A published event and its copies -/

/-- What comes from event `n` of all that is in anybody's hands. -/
def copies (x : Traffic) (n : Nat) : Multiset EventId := x.held.filter (·.root = n)

/-- The notification of an event with so many copies left. -/
def notification (left : Nat) : Completion := if left = 0 then { completed := true, fired := 1 } else {}

/-- Event `n` is complete just when none of its copies is left, and each copy left can be settled once. -/
structure Tracks (m : Message) (n : Nat) (x : Traffic) : Prop where
  published : n < x.events.published
  source : ∃ s, x.events.get? (.published n) = some s ∧ s.message = m ∧ s.splits = [(x.copies n).card] ∧
    s.completion = notification (x.copies n).card
  pending : ∀ e ∈ x.copies n, ∃ place s, e = .copy (.published n) 0 place ∧ x.events.get? e = some s ∧
    EventTable.Pending s
  once : (x.copies n).Nodup

theorem mem_copies {e : EventId} : e ∈ x.copies n ↔ e ∈ x.held ∧ e.root = n := Multiset.mem_filter

theorem copies_cons_own {held : Multiset EventId} {t t' : EventTable} {e : EventId} (h : e.root = n) :
    (⟨e ::ₘ held, t⟩ : Traffic).copies n = e ::ₘ (⟨held, t'⟩ : Traffic).copies n := Multiset.filter_cons_of_pos _ h

theorem copies_cons_other {held : Multiset EventId} {t t' : EventTable} {e : EventId} (h : e.root ≠ n) :
    (⟨e ::ₘ held, t⟩ : Traffic).copies n = (⟨held, t'⟩ : Traffic).copies n := Multiset.filter_cons_of_neg _ h

namespace Tracks

/-- What concerns other events only. -/
theorem of_other (hx : Tracks m n x) (hcopies : y.copies n = x.copies n)
    (hpublished : x.events.published ≤ y.events.published)
    (hget : ∀ e : EventId, e.root = n → y.events.get? e = x.events.get? e) : Tracks m n y where
  published := Nat.lt_of_lt_of_le hx.published hpublished
  source := by
    rw [hcopies, hget (.published n) rfl]
    exact hx.source
  pending e he := by
    rw [hcopies] at he
    rw [hget e (mem_copies.1 he).2]
    exact hx.pending e he
  once := hcopies ▸ hx.once

/-- A copy is settled: the event is complete if it was the last one. -/
theorem of_settles {held : Multiset EventId} {t t' : EventTable} {e : EventId} (hx : Tracks m n ⟨e ::ₘ held, t⟩)
    (he : e.root = n) (hpublished : t'.published = t.published)
    (hsettles : ∀ {place c s sc}, t.get? (.published n) = some s → s.splits = [c + 1] →
      e = .copy (.published n) 0 place → t.get? e = some sc → EventTable.Pending sc →
      EventTable.Settles n place c s t t') : Tracks m n ⟨held, t'⟩ := by
  have hcopies : (⟨e ::ₘ held, t⟩ : Traffic).copies n = e ::ₘ (⟨held, t'⟩ : Traffic).copies n := copies_cons_own he
  obtain ⟨s, hs, hmessage, hsplits, hcompletion⟩ := hx.source
  rw [hcopies, Multiset.card_cons] at hsplits hcompletion
  obtain ⟨place, sc, hcopy, hsc, hpending⟩ := hx.pending e (hcopies ▸ Multiset.mem_cons_self _ _)
  obtain ⟨hsource, hothers⟩ := hsettles hs hsplits hcopy hsc hpending
  obtain ⟨hnot, honce⟩ := Multiset.nodup_cons.1 (hcopies ▸ hx.once)
  refine ⟨hpublished ▸ hx.published, ⟨_, hsource, hmessage, rfl, ?_⟩, fun d hd => ?_, honce⟩
  · unfold EventTable.waitingFor notification
    dsimp only
    rw [hcompletion]
    split <;> rfl
  · obtain ⟨place', sd, hd', hsd, hpending'⟩ := hx.pending d (hcopies ▸ Multiset.mem_cons_of_mem hd)
    refine ⟨place', sd, hd', ?_, hpending'⟩
    refine (hothers d ?_ fun hde => hnot ?_).trans hsd
    · rw [hd']
      exact EventId.published_ne_copy.symm
    · rw [← hcopy] at hde
      exact hde ▸ hd

theorem step (hx : Tracks m n x) (h : Step x y) : Tracks m n y := by
  have hpublished := hx.published
  cases h with
  | publish m' =>
    have hne : EventId.root (.published _) ≠ n := Nat.ne_of_gt hpublished
    refine hx.of_other (copies_cons_other hne) (Nat.le_succ _) fun e he => ?_
    dsimp only
    rw [EventTable.get?_publish, if_neg]
    rintro rfl
    exact hne he
  | @spread held t m' k =>
    have hne {e : EventId} (he : e ∈ (t.spread m' k).1.map (·.id)) : e.root ≠ n := by
      rw [root_of_mem_spread he]
      exact Nat.ne_of_gt hpublished
    refine hx.of_other ?_ ?_ fun e he => EventTable.get?_spread_other ?_
    · unfold copies
      rw [Multiset.filter_add, Multiset.filter_eq_nil.2 fun e he => hne (Multiset.mem_coe.1 he), zero_add]
    · dsimp only
      rw [EventTable.published_spread]
      exact Nat.le_succ _
    · rw [he]
      exact Nat.ne_of_lt hpublished
  | release e =>
    have hwithin := EventTable.Within.release e
    by_cases he : e.root = n
    · refine hx.of_settles he (hwithin _).published fun hs hsplits hcopy hsc hpending => ?_
      subst hcopy
      exact EventTable.settles_release hs hsplits hsc hpending
    · exact hx.of_other (copies_cons_other he).symm (Nat.le_of_eq (hwithin _).published.symm)
        fun d hd => (hwithin _).others d fun hde => he (hde.symm.trans hd)
  | drop e =>
    have hwithin := EventTable.Within.drop e
    by_cases he : e.root = n
    · refine hx.of_settles he (hwithin _).published fun hs hsplits hcopy hsc hpending => ?_
      subst hcopy
      exact EventTable.settles_drop hs hsplits hsc hpending
    · exact hx.of_other (copies_cons_other he).symm (Nat.le_of_eq (hwithin _).published.symm)
        fun d hd => (hwithin _).others d fun hde => he (hde.symm.trans hd)
  | leave k =>
    have hne : EventId.root (.published k) ≠ n := by
      intro he
      -- Whatever is left of the event is a copy.
      obtain ⟨place, s, hcopy, -⟩ := hx.pending (.published k) (mem_copies.2 ⟨Multiset.mem_cons_self _ _, he⟩)
      exact EventId.published_ne_copy hcopy
    exact hx.of_other (copies_cons_other hne).symm (Nat.le_refl _) fun _ _ => rfl

theorem goes (hx : Tracks m n x) (h : Goes x y) : Tracks m n y := by
  induction h with
  | refl => exact hx
  | tail _ hstep ih => exact ih.step hstep

/-- An event that is spread is tracked from then on. -/
theorem spread {held : Multiset EventId} {t : EventTable} (h : Known ⟨held, t⟩) (m : Message) (k : Nat) :
    Tracks m t.published ⟨((t.spread m k).1.map (·.id) : List EventId) + held, (t.spread m k).2⟩ := by
  have hcopies : (⟨((t.spread m k).1.map (·.id) : List EventId) + held, (t.spread m k).2⟩ : Traffic).copies t.published
      = ((List.range k).map (.copy (.published t.published) 0) : List EventId) := by
    have hown : ∀ e ∈ (((t.spread m k).1.map (·.id) : List EventId) : Multiset EventId), e.root = t.published :=
      fun e he => root_of_mem_spread (Multiset.mem_coe.1 he)
    have hother : ∀ e ∈ held, ¬ e.root = t.published := fun e he => Nat.ne_of_lt (h e he)
    unfold copies
    rw [Multiset.filter_add, Multiset.filter_eq_self.2 hown, Multiset.filter_eq_nil.2 hother, add_zero,
      EventTable.spread_copies, EventTable.copies, List.map_map]
    rfl
  refine ⟨?_, ⟨_, EventTable.get?_spread_source t m k, rfl, ?_, ?_⟩, fun e he => ?_, ?_⟩
  · show t.published < (t.spread m k).2.published
    rw [EventTable.published_spread]
    exact Nat.lt_succ_self _
  · rw [hcopies, Multiset.coe_card, List.length_map, List.length_range]
    rfl
  · rw [hcopies, Multiset.coe_card, List.length_map, List.length_range]
    unfold notification EventTable.waitingFor
    dsimp only
    split <;> rfl
  · rw [hcopies, Multiset.mem_coe, List.mem_map] at he
    obtain ⟨place, hplace, rfl⟩ := he
    exact ⟨place, _, rfl, EventTable.get?_spread_copy (List.mem_range.1 hplace) t m, rfl, rfl, rfl⟩
  · rw [hcopies, Multiset.coe_nodup]
    exact List.nodup_range.map fun i j hij => (EventId.copy.inj hij).2.2

/-- The publisher is told at most once, and was told just when no copy is left. -/
theorem told (hx : Tracks m n x) : ∃ s, x.events.get? (.published n) = some s ∧ s.message = m ∧
    s.completion.fired ≤ 1 ∧ (s.completion.fired = 1 ↔ ∀ e ∈ x.held, e.root ≠ n) := by
  obtain ⟨s, hs, hmessage, -, hcompletion⟩ := hx.source
  have hnone : (∀ e ∈ x.held, e.root ≠ n) ↔ (x.copies n).card = 0 := by
    rw [Multiset.card_eq_zero, copies, Multiset.filter_eq_nil]
  refine ⟨s, hs, hmessage, ?_⟩
  rw [hnone, hcompletion, notification]
  split
  · next h => simp [h]
  · next h => simp [h]

end Tracks

end Traffic

end PubSub
