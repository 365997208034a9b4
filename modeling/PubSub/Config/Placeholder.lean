import PubSub.Config.Environment
/-!
# Placeholders

A configuration may name variables: `${NAME}` stands for the value of a variable, and
`${NAME:-FALLBACK}` for the fallback where it is not set. A text is gone through once, from left to
right, and what comes in for a placeholder is not looked at again.
-/

namespace PubSub

/-- The name of a variable, and what stands for it when it is not set. -/
structure Placeholder where
  name : List Char
  fallback : List Char
  deriving DecidableEq, Repr

namespace Placeholder

/-- What the placeholder stands for. A variable that is set to nothing is set. -/
def value (p : Placeholder) (env : Environment) : List Char :=
  (env.find? p.name).getD p.fallback

/-- A character that the name of a variable may hold. -/
def isNameChar (c : Char) : Bool := c ≠ '\x7d' ∧ c ≠ ':'

/-- The placeholder at the front of a text, and what comes after it. -/
def read? : List Char → Option (Placeholder × List Char)
  | '$' :: '\x7b' :: rest =>
    let name := rest.takeWhile isNameChar
    if name = [] then none
    else match rest.dropWhile isNameChar with
      | '\x7d' :: after => some (⟨name, []⟩, after)
      | ':' :: '-' :: rest =>
        match rest.dropWhile (· ≠ '\x7d') with
        | _ :: after => some (⟨name, rest.takeWhile (· ≠ '\x7d')⟩, after)
        | [] => none
      | _ => none
  | _ => none

/-- Expands a text, of which the first `passed` characters belong to a placeholder already. -/
def expandFrom (env : Environment) (passed : Nat) : List Char → List Char
  | [] => []
  | c :: rest =>
    match passed with
    | n + 1 => expandFrom env n rest
    | 0 =>
      match read? (c :: rest) with
      | some (p, after) => p.value env ++ expandFrom env (rest.length - after.length) rest
      | none => c :: expandFrom env 0 rest

/-- The text with every placeholder replaced by what it stands for. -/
def expand (env : Environment) (s : String) : String := String.ofList (expandFrom env 0 s.toList)

theorem expandFrom_eq_drop (env : Environment) (n : Nat) (cs : List Char) :
    expandFrom env n cs = expandFrom env 0 (cs.drop n) := by
  induction cs generalizing n with
  | nil => simp [expandFrom]
  | cons c cs ih =>
    cases n with
    | zero => rfl
    | succ n => simpa [expandFrom] using ih n

/-- A character that starts no placeholder stays. -/
theorem expandFrom_cons {env : Environment} {c : Char} {cs : List Char} (h : read? (c :: cs) = none) :
    expandFrom env 0 (c :: cs) = c :: expandFrom env 0 cs := by
  simp [expandFrom, h]

end Placeholder

end PubSub
