import PubSub.Number.Decimal
/-!
# Reading TOML: characters, blanks, comments

TOML is read from characters, by readers that answer with a value and the characters after it. A
text that is no TOML has no value, whatever is wrong with it.
-/

namespace PubSub.Toml

abbrev Reader (α : Type) := StateT (List Char) Option α

def peek : Reader (Option Char) := fun cs => some (cs.head?, cs)

def discard : Reader Unit := fun cs => some ((), cs.drop 1)

/-- Passes over exactly these characters. -/
def expect : List Char → Reader Unit
  | [] => pure ()
  | c :: rest => do
    guard ((← peek) = some c)
    discard
    expect rest

/-- Passes over a character if it comes next, and tells whether it did. -/
def passed (c : Char) : Reader Bool := do
  if (← peek) = some c then discard; return true else return false

/-- The longest run of characters of a kind. -/
def run (p : Char → Bool) : Reader (List Char) := fun cs => some (cs.takeWhile p, cs.dropWhile p)

/-- What an item reads, again and again until it reads nothing. -/
def repeatedly {α : Type} (item : Reader (Option α)) : Nat → Reader (List α)
  | 0 => failure
  | n + 1 => do
    match ← item with
    | none => return []
    | some x => return x :: (← repeatedly item n)

/-- All items there are. As each of them takes a character at least, they are no more than the
characters. -/
def all {α : Type} (item : Reader (Option α)) : Reader (List α) := fun cs => repeatedly item (cs.length + 1) cs

/-! ## Blanks, line ends and comments -/

def isBlank (c : Char) : Bool := c = ' ' ∨ c = '\t'

def blanks : Reader Unit := fun cs => some ((), cs.dropWhile isBlank)

/-- A character that comments and strings hold as it is: any but the control characters, of which the
tabulator alone is allowed. -/
def isPlain (c : Char) : Bool := c = '\t' ∨ (' ' ≤ c ∧ c ≠ '\x7f')

/-- Passes over a line end, a carriage return being part of it, and tells whether there was one. -/
def lineEnd : Reader Bool := fun cs =>
  match cs with
  | '\n' :: rest => some (true, rest)
  | '\r' :: '\n' :: rest => some (true, rest)
  | _ => some (false, cs)

/-- Passes over a comment, and tells whether there was one. -/
def comment : Reader Bool := fun cs =>
  match cs with
  | '#' :: rest => some (true, rest.dropWhile isPlain)
  | _ => some (false, cs)

/-- What may come after the last thing on a line. -/
def endOfLine : Reader Unit := do
  blanks
  let _ ← comment
  unless ← lineEnd do guard ((← peek) = none)

/-- Blanks, line ends and comments, as between the values of an array. -/
def gap : Reader Unit := do
  let _ ← all do
    blanks
    let remark ← comment
    if ← lineEnd then return some ()
    guard ¬ remark
    return none

end PubSub.Toml
