import PubSub.Proofs.Clients
/-!
# One session along a run

A session keeps its place for as long as its broker is open, and an operation asks at most one job of its
mail (`step_mail`), whatever else it does to the client or to others.
-/

namespace PubSub

/-- The job an act asks of one session. -/
def Act.job? (r : SessionRef) : Act → Option Job
  | .job q j => if q = r then some j else none
  | _ => none

/-- What becomes of a mail that is asked these jobs, each over some records. -/
inductive Mail.Worked : Mail → List Job → Mail → Prop
  | nil {m : Mail} : Worked m [] m
  | cons {m m' : Mail} {j : Job} {js : List Job} (k : Keyspace) : Worked (m.run k j).1 js m' → Worked m (j :: js) m'

theorem Mail.Worked.short {m m' : Mail} {js : List Job} (h : m.Worked js m') (hone : js.length ≤ 1) :
    m' = m ∨ ∃ j ∈ js, ∃ k, m' = (m.run k j).1 := by
  cases h with
  | nil => exact .inl rfl
  | @cons _ _ j js k hrest =>
    cases hrest with
    | nil => exact .inr ⟨j, List.mem_cons_self, k, rfl⟩
    | cons => simp only [List.length_cons] at hone; omega

theorem Mail.Worked.single {m m' : Mail} {j : Job} (h : m.Worked [j] m') : ∃ k, m' = (m.run k j).1 := by
  cases h with
  | cons k hrest =>
    cases hrest with
    | nil => exact ⟨k, rfl⟩

namespace Broker

variable {b b' : Broker} {id : String} {xs : List Act} {r : SessionRef} {s : Session} {op : Op}

theorem Acts.worked (h : Acts id b xs b') (hs : b.session? r = some s) (hid : s.info.id = id) :
    ∃ s', b'.session? r = some s' ∧ s.mail.Worked (xs.filterMap (Act.job? r)) s'.mail := by
  induction h generalizing s with
  | same hsame =>
    obtain ⟨s', hs', heq⟩ := hsame.mail hs hid
    exact ⟨s', hs', heq ▸ .nil⟩
  | @act b b₁ b₂ b' a xs hsame he _ ih =>
    obtain ⟨s₁, hs₁, heq⟩ := hsame.mail hs hid
    have hid₁ : s₁.info.id = id := (Mail.id_eq heq).trans hid
    rw [← heq]
    cases a with
    | job q j =>
      obtain ⟨-, -, hdoes⟩ := he
      by_cases hq : q = r
      · have hjob : Act.job? r (.job q j) = some j := if_pos hq
        subst hq
        obtain ⟨s₂, hs₂, hrun⟩ := hdoes.mail s₁ hs₁
        have hmail : s₂.mail = (s₁.mail.run b₁.store.queue j).1 := congrArg Prod.fst hrun
        obtain ⟨t, ht, hinterest, -⟩ := hdoes.frame.session?_back hs₂
        obtain rfl := Option.some.inj (hs₁.symm.trans ht)
        obtain ⟨s', hs', hworked⟩ := ih hs₂ ((Interest.id_eq hinterest).trans hid₁)
        refine ⟨s', hs', ?_⟩
        rw [List.filterMap_cons_some hjob]
        exact .cons b₁.store.queue (hmail ▸ hworked)
      · have hs₂ : b₂.session? r = some s₁ := (hdoes.frame.others r (Ne.symm hq)).trans hs₁
        rw [List.filterMap_cons_none (show Act.job? r (.job q j) = none from if_neg hq)]
        exact ih hs₂ hid₁
    | free =>
      obtain rfl := he
      exact ih hs₁ hid₁
    | enrol q info =>
      obtain ⟨-, -, -, -, bucket, -, rfl⟩ := he
      exact ih (session?_enrolled.2 (.inl hs₁)) hid₁

theorem jobs_dismissActs (b : Broker) (q : SessionRef) : ((b.dismissActs q).filterMap (Act.job? r)).length ≤ 1 := by
  unfold dismissActs
  split
  · exact Nat.zero_le 1
  · rw [List.filterMap_cons, List.filterMap_cons]
    split <;> exact Nat.le_of_ble_eq_true rfl

/-- An operation asks one job of a session at most. -/
theorem jobs_acts (b : Broker) (id : String) (r : SessionRef) (op : Op) :
    ((b.acts id op).filterMap (Act.job? r)).length ≤ 1 := by
  have hshort {xs : List Act} (h : xs.length ≤ 1) : (xs.filterMap (Act.job? r)).length ≤ 1 :=
    Nat.le_trans (List.length_filterMap_le _ _) h
  unfold acts
  cases op with
  | connect info =>
    dsimp only
    split
    · split
      · exact hshort (Nat.le_refl 1)
      · split
        · rw [List.filterMap_cons]
          split <;> exact Nat.le_of_ble_eq_true rfl
        · exact hshort (Nat.zero_le 1)
    · exact hshort (Nat.zero_le 1)
  | disconnect id' =>
    dsimp only
    split
    · split
      · exact hshort (Nat.zero_le 1)
      · split
        · exact b.jobs_dismissActs _
        · exact hshort (Nat.le_refl 1)
    · exact hshort (Nat.zero_le 1)
  | route m =>
    dsimp only [storeActs]
    split
    · exact hshort (Nat.zero_le 1)
    · split
      · exact hshort (Nat.zero_le 1)
      · split
        · exact hshort (Nat.le_refl 1)
        · exact hshort (Nat.zero_le 1)
  | call q c =>
    dsimp only
    split
    · exact hshort (Nat.zero_le 1)
    · next s hs =>
      split
      · refine hshort ?_
        cases s.job? c <;> exact Nat.le_of_ble_eq_true rfl
      · exact hshort (Nat.zero_le 1)
  | close =>
    dsimp only
    split
    · exact hshort (Nat.zero_le 1)
    · exact b.jobs_dismissActs _
  | reopen settings orderly => exact hshort (Nat.zero_le 1)

/-- An operation leaves the mail of a session alone or does one job with it. -/
theorem step_mail (hb : Sound b) (hop : ∀ settings orderly, op ≠ .reopen settings orderly)
    (hs : b.session? r = some s) : ∃ s', (b.step op).session? r = some s' ∧
      (s'.mail = s.mail ∨ ∃ j k, Asks b s.info.id r op j ∧ s'.mail = (s.mail.run k j).1) := by
  obtain ⟨s', hs', hworked⟩ := (acts_step hb (hb.usable hs) hop).worked hs rfl
  refine ⟨s', hs', ?_⟩
  rcases hworked.short (b.jobs_acts s.info.id r op) with hsame | ⟨j, hj, k, hrun⟩
  · exact .inl hsame
  · obtain ⟨a, ha, hjob⟩ := List.mem_filterMap.1 hj
    refine .inr ⟨j, k, ?_, hrun⟩
    cases a with
    | job q i =>
      rw [Act.job?] at hjob
      split at hjob
      · next hq =>
        obtain rfl := Option.some.inj hjob
        exact asks_of_mem_acts (hq ▸ ha)
      · cases hjob
    | free | enrol => cases hjob

end Broker

end PubSub
