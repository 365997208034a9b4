/-!
# Entries by name

Named values in the order in which they were first given. A change keeps the place of a name that is
there and puts a new name last, so no name comes to stand twice.
-/

namespace PubSub.Entries

variable {α : Type}

/-- Changes what stands under a name, or adds it. -/
def alterM {m : Type → Type} [Monad m] (name : String) (change : Option α → m α) :
    List (String × α) → m (List (String × α))
  | [] => do return [(name, ← change none)]
  | e :: rest => do
    if e.1 = name then return (name, ← change (some e.2)) :: rest
    else return e :: (← alterM name change rest)

def alter (name : String) (change : Option α → α) (es : List (String × α)) : List (String × α) :=
  Id.run (alterM name change es)

theorem alter_nil (name : String) (change : Option α → α) : alter name change [] = [(name, change none)] := rfl

theorem alter_cons (name : String) (change : Option α → α) (e : String × α) (es : List (String × α)) :
    alter name change (e :: es)
      = if e.1 = name then (name, change (some e.2)) :: es else e :: alter name change es := by
  by_cases h : e.1 = name
  · simp [alter, alterM, h]; rfl
  · simp [alter, alterM, h]

/-- A change is seen under its own name only. -/
theorem lookup_alter (name : String) (change : Option α → α) (es : List (String × α)) (x : String) :
    (alter name change es).lookup x
      = if x = name then some (change (es.lookup name)) else es.lookup x := by
  induction es with
  | nil => by_cases h : x = name <;> simp [alter_nil, List.lookup_cons, h, beq_false_of_ne]
  | cons e es ih =>
    obtain ⟨k, v⟩ := e
    rw [alter_cons]
    by_cases hk : k = name
    · subst hk
      by_cases h : x = k <;> simp [List.lookup_cons, h, beq_false_of_ne]
    · by_cases h : x = name
      · subst h
        simp [hk, List.lookup_cons, beq_false_of_ne (Ne.symm hk), ih]
      · by_cases hx : x = k <;> simp [hk, h, List.lookup_cons, hx, beq_false_of_ne, ih]

end PubSub.Entries
