import PubSub.Data.OrderedMap
/-!
# The environment

Variables that the program is started with, by name. They are kept as lines that hold a name, an
equals sign and a value, and a look-up goes by the start of the line. So `A=B` finds what follows
`B=` in the value of `A`; for a name without an equals sign it is the value under that name.
-/

namespace PubSub

abbrev Environment := OrderedMap String String

namespace Environment

/-- A variable as a line. -/
def line (e : String × String) : List Char := e.1.toList ++ '=' :: e.2.toList

/-- What follows a name and an equals sign at the start of a line. -/
def find? (env : Environment) (name : List Char) : Option (List Char) :=
  env.entries.findSome? fun e => (name ++ ['=']).isPrefixOf? (line e)

/-- Names without an equals sign do not get mixed up. -/
theorem isPrefixOf?_line {name key more value : List Char} (hn : '=' ∉ name) (hk : '=' ∉ key) :
    (name ++ '=' :: more).isPrefixOf? (key ++ '=' :: value) = if name = key then more.isPrefixOf? value else none := by
  have step (a b : Char) (as bs : List Char) :
      (a :: as).isPrefixOf? (b :: bs) = if a == b then as.isPrefixOf? bs else none := rfl
  induction name generalizing key with
  | nil =>
    cases key with
    | nil => simp [step]
    | cons b key =>
      have : '=' ≠ b := fun e => hk (e ▸ List.mem_cons_self)
      simp [step, this]
  | cons a name ih =>
    cases key with
    | nil =>
      have : a ≠ '=' := fun e => hn (by simp [e])
      simp [step, this]
    | cons b key =>
      have tail := @ih key (fun h => hn (by simp [h])) (fun h => hk (by simp [h]))
      by_cases h : a = b <;> simp [step, h, tail]

/-- Only the line of the name itself can start with it. -/
theorem findSome?_line (env : Environment) (name : String) (more : List Char) (hn : '=' ∉ name.toList)
    (henv : ∀ e ∈ env.entries, '=' ∉ e.1.toList) :
    (env.entries.findSome? fun e => (name.toList ++ '=' :: more).isPrefixOf? (line e)) =
      (env.get? name).bind fun v => more.isPrefixOf? v.toList := by
  obtain ⟨entries, ascending⟩ := env
  simp only [OrderedMap.get?, line] at henv ⊢
  induction entries with
  | nil => rfl
  | cons e entries ih =>
    obtain ⟨hfirst, hrest⟩ := List.pairwise_cons.1 ascending
    have hlater : ∀ d ∈ entries, '=' ∉ d.1.toList := fun d hd => henv d (List.mem_cons_of_mem e hd)
    rw [List.findSome?_cons, isPrefixOf?_line hn (henv e List.mem_cons_self), OrderedMap.lookup_cons_if]
    by_cases h : name = e.1
    · rw [if_pos h, if_pos (congrArg String.toList h), Option.bind_some]
      have hnone : (entries.findSome? fun d => (name.toList ++ '=' :: more).isPrefixOf? (d.1.toList ++ '=' :: d.2.toList))
          = none := by
        refine List.findSome?_eq_none_iff.2 fun d hd => ?_
        rw [isPrefixOf?_line hn (hlater d hd), if_neg]
        exact fun he => KeyOrder.irrefl e.1 ((h.symm.trans (String.toList_inj.1 he)) ▸ hfirst d hd)
      rw [hnone]
      cases more.isPrefixOf? e.2.toList <;> rfl
    · rw [if_neg h, if_neg fun he => h (String.toList_inj.1 he)]
      exact ih hrest hlater

theorem find?_eq_get? (env : Environment) (name : String) (hn : '=' ∉ name.toList)
    (henv : ∀ e ∈ env.entries, '=' ∉ e.1.toList) :
    env.find? name.toList = (env.get? name).map String.toList := by
  rw [find?, findSome?_line env name [] hn henv]
  cases env.get? name with
  | none => rfl
  | some v =>
    show [].isPrefixOf? v.toList = some v.toList
    cases v.toList <;> rfl

/-- A name with an equals sign is looked for in the value of the variable that it starts with. -/
theorem find?_of_equals (env : Environment) (name : String) (more : List Char) (hn : '=' ∉ name.toList)
    (henv : ∀ e ∈ env.entries, '=' ∉ e.1.toList) :
    env.find? (name.toList ++ '=' :: more) = (env.get? name).bind fun v => (more ++ ['=']).isPrefixOf? v.toList := by
  rw [find?, ← findSome?_line env name (more ++ ['=']) hn henv, List.append_assoc, List.cons_append]

end Environment

end PubSub
