import PubSub.Proofs.Lifecycle
/-!
# The exchange by filters

The bindings of an exchange make a table of the filters that are bound, each with the sessions bound to it by
client id. Binding and unbinding change the table filter by filter, and a filter that loses its last session
is taken out (`Exchange.table_bind`, `Exchange.table_unbind`). So the two stay in step for good
(`Exchange.Functional.table_changes`).
-/

namespace PubSub.Exchange

namespace Table

/-- Every filter has a session. -/
def Pruned (t : Table) : Prop := ∀ filter sessions, t.get? filter = some sessions → sessions ≠ .empty

variable {t t' : Table} {f g id q : String} {r : SessionRef}

theorem bound?_bind : (t.bind f id r).bound? g q = if g = f ∧ q = id then some r else t.bound? g q := by
  unfold bound? bind
  rw [OrderedMap.get?_insert]
  by_cases hg : g = f
  · subst hg
    rw [if_pos rfl, Option.bind_some, OrderedMap.get?_insert]
    by_cases hq : q = id
    · simp [hq]
    · cases h : t.get? g <;> simp [hq, OrderedMap.get?_empty]
  · simp [hg]

theorem bound?_unbind : (t.unbind f id r).bound? g q
    = if g = f ∧ q = id ∧ t.bound? f id = some r then none else t.bound? g q := by
  unfold unbind
  cases hf : t.get? f with
  | none => simp [bound?, hf]
  | some sessions =>
    have hbound : t.bound? f id = sessions.get? id := by rw [bound?, hf, Option.bind_some]
    rw [hbound]
    by_cases hr : sessions.get? id = some r
    · -- Whether the filter goes or stays, what is left of its sessions is found.
      have hleft : Table.bound? (if (sessions.erase id).isEmpty then t.erase f else t.insert f (sessions.erase id)) g q
          = if g = f then (sessions.erase id).get? q else t.bound? g q := by
        by_cases hempty : (sessions.erase id).isEmpty = true
        · rw [if_pos hempty]
          have hnone : sessions.erase id = .empty := OrderedMap.ext' (List.isEmpty_iff.1 hempty)
          rw [hnone, OrderedMap.get?_empty]
          unfold bound?
          rw [OrderedMap.get?_erase]
          split <;> rfl
        · rw [if_neg hempty]
          unfold bound?
          rw [OrderedMap.get?_insert]
          split <;> rfl
      simp only [hr, if_true, and_true]
      rw [hleft, OrderedMap.get?_erase]
      by_cases hg : g = f
      · subst hg
        by_cases hq : q = id <;> simp [hq, bound?, hf]
      · simp [hg]
    · simp [hr]

theorem Pruned.bind (h : Pruned t) : Pruned (t.bind f id r) := by
  intro g sessions hg
  unfold Table.bind at hg
  rw [OrderedMap.get?_insert] at hg
  split at hg
  · rintro rfl
    have hid := congrArg (OrderedMap.get? · id) (Option.some.inj hg)
    rw [OrderedMap.get?_insert, if_pos rfl] at hid
    cases hid
  · exact h g sessions hg

theorem Pruned.unbind (h : Pruned t) : Pruned (t.unbind f id r) := by
  intro g sessions hg
  unfold Table.unbind at hg
  split at hg
  · exact h g sessions hg
  · split at hg
    · split at hg
      · rw [OrderedMap.get?_erase] at hg
        split at hg
        · cases hg
        · exact h g sessions hg
      · next hleft =>
        rw [OrderedMap.get?_insert] at hg
        split at hg
        · obtain rfl := Option.some.inj hg
          intro hnone
          rw [hnone] at hleft
          exact hleft rfl
        · exact h g sessions hg
    · exact h g sessions hg

/-- A filter is in a pruned table when something is bound to it. -/
theorem Pruned.mem_keys_iff (h : Pruned t) : f ∈ t.keys ↔ ∃ id r, t.bound? f id = some r := by
  rw [OrderedMap.mem_keys_iff]
  constructor
  · intro hf
    obtain ⟨sessions, hsessions⟩ := Option.isSome_iff_exists.1 hf
    cases hentries : sessions.entries with
    | nil => exact absurd (OrderedMap.ext' hentries) (h f sessions hsessions)
    | cons e es =>
      refine ⟨e.1, e.2, ?_⟩
      rw [bound?, hsessions, Option.bind_some, OrderedMap.get?_eq_some_iff, hentries]
      exact List.mem_cons_self
  · rintro ⟨id, r, hbound⟩
    obtain ⟨sessions, hsessions, -⟩ := Option.bind_eq_some_iff.1 hbound
    rw [hsessions]
    rfl

/-- Pruned tables are the same when the same is bound. -/
theorem Pruned.ext (h : Pruned t) (h' : Pruned t') (hsame : ∀ f id, t.bound? f id = t'.bound? f id) : t = t' := by
  have hkeys (f : String) : f ∈ t.keys ↔ f ∈ t'.keys := by
    rw [h.mem_keys_iff, h'.mem_keys_iff]
    simp only [hsame]
  apply OrderedMap.ext_get?
  intro f
  have hisSome : (t.get? f).isSome = (t'.get? f).isSome := by
    rw [Bool.eq_iff_iff, ← OrderedMap.mem_keys_iff, ← OrderedMap.mem_keys_iff, hkeys]
  have hbound := hsame f
  unfold bound? at hbound
  revert hisSome hbound
  cases t.get? f <;> cases t'.get? f <;> intro hisSome hbound
  · rfl
  · cases hisSome
  · cases hisSome
  · exact congrArg some (OrderedMap.ext_get? hbound)

end Table

/-- No filter is bound twice under one client id. -/
def Functional (x : Exchange) : Prop :=
  ∀ y ∈ x.bindings, ∀ z ∈ x.bindings, y.filter = z.filter → y.id = z.id → y.session = z.session

variable {x : Exchange} {f id : String} {r : SessionRef}

theorem pruned_table (x : Exchange) : x.table.Pruned := by
  have hfold (bs : List Binding) (t : Table) (ht : t.Pruned) :
      (bs.foldl (fun t b => t.bind b.filter b.id b.session) t).Pruned := by
    induction bs generalizing t with
    | nil => exact ht
    | cons b bs ih => exact ih _ ht.bind
  exact hfold x.bindings .empty nofun

namespace Functional

theorem bind (h : Functional x) : Functional (x.bind f id r) := by
  intro y hy z hz hf hid
  rw [mem_bind] at hy hz
  grind [Functional]

theorem unbind (h : Functional x) : Functional (x.unbind f id r) := fun y hy z hz =>
  h y (List.mem_filter.1 hy).1 z (List.mem_filter.1 hz).1

theorem bound?_eq_some_iff (h : Functional x) : x.bound? f id = some r ↔ ⟨f, id, r⟩ ∈ x.bindings := by
  unfold bound?
  constructor
  · intro hbound
    obtain ⟨y, hy, rfl⟩ := Option.map_eq_some_iff.1 hbound
    obtain ⟨rfl, rfl⟩ : y.filter = f ∧ y.id = id := by simpa using List.find?_some hy
    exact List.mem_of_find?_eq_some hy
  · intro hmem
    have hsome : (x.bindings.find? fun b => b.filter = f ∧ b.id = id).isSome :=
      List.find?_isSome.2 ⟨_, hmem, decide_eq_true ⟨rfl, rfl⟩⟩
    obtain ⟨y, hy⟩ := Option.isSome_iff_exists.1 hsome
    obtain ⟨hf, hid⟩ : y.filter = f ∧ y.id = id := by simpa using List.find?_some hy
    rw [hy, Option.map_some]
    exact congrArg some (h y (List.mem_of_find?_eq_some hy) _ hmem hf hid)

/-- The table has what is bound. -/
theorem bound?_table (h : Functional x) (f id : String) : x.table.bound? f id = x.bound? f id := by
  have hfold (bs : List Binding) (t : Table)
      (hbs : ∀ y ∈ bs, ∀ z ∈ bs, y.filter = z.filter → y.id = z.id → y.session = z.session) :
      (bs.foldl (fun t b => t.bind b.filter b.id b.session) t).bound? f id
        = ((bs.find? fun b => b.filter = f ∧ b.id = id).map (·.session)).or (t.bound? f id) := by
    induction bs generalizing t with
    | nil => rfl
    | cons b bs ih =>
      rw [List.foldl_cons, ih _ fun y hy z hz => hbs y (List.mem_cons_of_mem b hy) z (List.mem_cons_of_mem b hz),
        Table.bound?_bind, List.find?_cons]
      by_cases hb : b.filter = f ∧ b.id = id
      · rw [decide_eq_true hb, if_pos ⟨hb.1.symm, hb.2.symm⟩]
        cases hlater : bs.find? fun b => b.filter = f ∧ b.id = id with
        | none => rfl
        | some c =>
          -- A later binding of the filter and id is to the same session.
          obtain ⟨hf, hid⟩ : c.filter = f ∧ c.id = id := by simpa using List.find?_some hlater
          have hmem := List.mem_cons_of_mem b (List.mem_of_find?_eq_some hlater)
          exact congrArg some (hbs c hmem b List.mem_cons_self (hf.trans hb.1.symm) (hid.trans hb.2.symm))
      · rw [decide_eq_false hb, if_neg fun he => hb ⟨he.1.symm, he.2.symm⟩]
  rw [table, hfold x.bindings .empty h, show Table.bound? .empty f id = none from rfl, Option.or_none]
  rfl

end Functional

/-- Binding changes the table as it says. -/
theorem table_bind (h : Functional x) : (x.bind f id r).table = x.table.bind f id r := by
  refine (pruned_table _).ext (pruned_table x).bind fun g q => ?_
  apply Option.ext
  intro p
  rw [h.bind.bound?_table, h.bind.bound?_eq_some_iff, mem_bind, Table.bound?_bind, h.bound?_table]
  split
  · next he => simp [he, eq_comm]
  · next he =>
    rw [h.bound?_eq_some_iff, or_iff_left fun hnew => he ⟨hnew.1, hnew.2.1⟩, and_iff_left he]

/-- Unbinding changes the table as it says. -/
theorem table_unbind (h : Functional x) : (x.unbind f id r).table = x.table.unbind f id r := by
  refine (pruned_table _).ext (pruned_table x).unbind fun g q => ?_
  apply Option.ext
  intro p
  have hmem : ⟨g, q, p⟩ ∈ (x.unbind f id r).bindings ↔ ⟨g, q, p⟩ ∈ x.bindings ∧ ¬ (g = f ∧ q = id ∧ p = r) := by
    simp only [Exchange.unbind, List.mem_filter, decide_eq_true_eq]
  rw [h.unbind.bound?_table, h.unbind.bound?_eq_some_iff, hmem, Table.bound?_unbind, h.bound?_table, h.bound?_table]
  split
  · next he =>
    obtain ⟨rfl, rfl, hr⟩ := he
    rw [← h.bound?_eq_some_iff, hr]
    simp [eq_comm]
  · next he =>
    rw [h.bound?_eq_some_iff, and_iff_left_iff_imp]
    rintro hbound ⟨rfl, rfl, rfl⟩
    exact he ⟨rfl, rfl, h.bound?_eq_some_iff.2 hbound⟩

/-- A filter that is bound or unbound under a client id. -/
inductive Change where
  | bind (filter id : String) (session : SessionRef)
  | unbind (filter id : String) (session : SessionRef)
  deriving DecidableEq, Repr

def change (x : Exchange) : Change → Exchange
  | .bind filter id session => x.bind filter id session
  | .unbind filter id session => x.unbind filter id session

def Table.change (t : Table) : Change → Table
  | .bind filter id session => t.bind filter id session
  | .unbind filter id session => t.unbind filter id session

namespace Functional

theorem change (h : Functional x) : (c : Change) → Functional (x.change c)
  | .bind .. => h.bind
  | .unbind .. => h.unbind

theorem table_change (h : Functional x) : (c : Change) → (x.change c).table = x.table.change c
  | .bind .. => table_bind h
  | .unbind .. => table_unbind h

/-- Whatever is bound and unbound, the table changes as it says. -/
theorem table_changes (h : Functional x) (cs : List Change) :
    (cs.foldl Exchange.change x).table = cs.foldl Table.change x.table := by
  induction cs generalizing x with
  | nil => rfl
  | cons c cs ih => rw [List.foldl_cons, List.foldl_cons, ih (h.change c), h.table_change]

end Functional

/-! ## How many filters are bound -/

theorem mem_filters : f ∈ x.filters ↔ ∃ y ∈ x.bindings, y.filter = f := by
  rw [filters, List.mem_eraseDups, List.mem_map]

theorem nodup_eraseDups {α : Type} [DecidableEq α] : (as : List α) → as.eraseDups.Nodup
  | [] => .nil
  | a :: as => by
    rw [List.eraseDups_cons, List.nodup_cons]
    refine ⟨fun ha => ?_, nodup_eraseDups _⟩
    rw [List.mem_eraseDups, List.mem_filter] at ha
    simp at ha
  termination_by as => as.length
  decreasing_by exact Nat.lt_succ_of_le (List.length_filter_le _ as)

theorem length_eraseDups_congr {α : Type} [DecidableEq α] {as bs : List α} (h : ∀ a, a ∈ as ↔ a ∈ bs) :
    as.eraseDups.length = bs.eraseDups.length := by
  refine ((List.perm_ext_iff_of_nodup (nodup_eraseDups as) (nodup_eraseDups bs)).2 fun a => ?_).length_eq
  rw [List.mem_eraseDups, List.mem_eraseDups, h]

/-- The table has the filters that are bound, each once. -/
theorem size_table (h : Functional x) : x.table.size = x.filters.length := by
  have hnodup : x.filters.Nodup := nodup_eraseDups _
  have hkeys : x.table.keys.Perm x.filters := by
    refine (List.perm_ext_iff_of_nodup (OrderedMap.nodup_of_ascending id x.table.keys_ascending) hnodup).2 fun f => ?_
    rw [(pruned_table x).mem_keys_iff, mem_filters]
    simp only [h.bound?_table, h.bound?_eq_some_iff]
    exact ⟨fun ⟨_, _, hy⟩ => ⟨_, hy, rfl⟩, fun ⟨y, hy, he⟩ => ⟨y.id, y.session, he ▸ hy⟩⟩
  have hlength := hkeys.length_eq
  rwa [OrderedMap.keys, List.length_map] at hlength

end PubSub.Exchange
