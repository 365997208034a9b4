import PubSub.Data.Entries
import PubSub.Toml.Datetime
import PubSub.Toml.Number
/-!
# TOML values

Values of all kinds, and how they are read. A table remembers where it came from, as that decides
what may still be added to it. Arrays and inline tables nest at most 79 deep.
-/

namespace PubSub.Toml

/-- Where a table came from. -/
inductive Origin where
  /-- A header names it, or it is the whole document. -/
  | header
  /-- A header names a table within it. -/
  | parent
  /-- A dotted key names something within it. -/
  | dotted
  /-- It is written between braces. -/
  | inline
  deriving DecidableEq, Repr

/-- A value. An array is open if its items are tables with headers of their own. -/
inductive Value where
  | text (s : String)
  | integer (n : Int)
  | float (x : Binary64)
  | boolean (b : Bool)
  | datetime (d : Datetime)
  | array (isOpen : Bool) (items : List Value)
  | table (origin : Origin) (entries : List (String × Value))

/-- A key: the tables to go through, and the name within the last of them. -/
structure Key where
  path : List String
  name : String
  deriving DecidableEq, Repr

/-- A key and the value it is given. -/
structure Pair where
  key : Key
  value : Value

/-! ## Keys -/

def isBare (c : Char) : Bool := c.isAlphanum ∨ c = '_' ∨ c = '-'

/-- A name, bare or quoted. -/
def name : Reader String := do
  match ← peek with
  | some '"' => discard; String.ofList <$> shortContent doubleQuote
  | some '\x27' => discard; String.ofList <$> shortContent singleQuote
  | _ =>
    let cs ← run isBare
    guard (cs ≠ [])
    return String.ofList cs

/-- A name with blanks around it. -/
def spacedName : Reader String := do
  blanks
  let s ← name
  blanks
  return s

/-- Names with points between them, fewer than eighty. -/
def key : Reader Key := do
  let first ← spacedName
  let others ← all do if ← passed '.' then return some (← spacedName) else return none
  guard (others.length < 79)
  let names := first :: others
  return ⟨names.dropLast, others.getLastD first⟩

/-! ## Tables -/

namespace Value

/-- Changes the table at the end of a path, which is made where there is none. A dotted path leads
through tables made by dotted keys or on the way to a header, a header's path through all but inline
ones; either takes the last table of an open array. -/
def alterAt (isDotted : Bool) (change : Value → Option Value) : List String → Value → Option Value
  | [], v => change v
  | name :: path, table origin entries =>
    (Entries.alterM name (m := Option) (fun
      | none => alterAt isDotted change path (table (if isDotted then .dotted else .parent) [])
      | some (table origin entries) =>
        if origin = .inline ∨ (isDotted ∧ origin = .header) then none
        else alterAt isDotted change path (table origin entries)
      | some (array true items) => do
        let last ← alterAt isDotted change path (← items.getLast?)
        return array true (items.dropLast ++ [last])
      | some _ => none) entries).map (table origin)
  | _ :: _, _ => none

/-- Adds a value under a key. The names before the last one lead through tables made by dotted keys,
and nothing may stand there yet. -/
def add (root : Value) (p : Pair) : Option Value :=
  root.alterAt true (fun
    | table origin entries =>
      if (p.key.path ≠ [] ∧ origin ≠ .dotted) ∨ (entries.lookup p.key.name).isSome then none
      else some (table origin (entries ++ [(p.key.name, p.value)]))
    | _ => none) p.key.path

/-! ## Reading -/

/-- A key and a value, with blanks around both. -/
def pair (value : Reader Value) : Reader Pair := do
  let key ← key
  expect ['=']
  blanks
  let value ← value
  blanks
  return { key, value }

/-- The values of an array after its opening bracket, with commas between them and perhaps one more
at the end. -/
def items (value : Reader Value) : Reader (List Value) := do
  let vs ← all do
    gap
    if (← peek) = some ']' then return none
    let v ← value
    gap
    unless ← passed ',' do guard ((← peek) = some ']')
    return some v
  discard
  return vs

/-- The pairs of an inline table after its opening brace. -/
def pairs (value : Reader Value) : Reader (List Pair) := do
  blanks
  if ← passed '\x7d' then return []
  let first ← pair value
  let others ← all do if ← passed ',' then return some (← pair value) else return none
  expect ['\x7d']
  return first :: others

def truth : Reader Value := do
  if (← peek) = some 't' then expect ['t', 'r', 'u', 'e']; return boolean true
  else expect ['f', 'a', 'l', 's', 'e']; return boolean false

/-- A date, a time of day or a number; the characters after the first digits tell which. -/
def figure : Reader Value := fun cs =>
  if dateNext cs ∨ timeNext cs then (datetime <$> Toml.datetime : Reader Value) cs
  else (do
    match ← number with
    | .integer n => return integer n
    | .float x => return float x : Reader Value) cs

/-- A value that holds no other values. -/
def scalar : Reader Value := do
  match ← peek with
  | some '"' => text <$> Toml.text doubleQuote
  | some '\x27' => text <$> Toml.text singleQuote
  | some 't' | some 'f' => truth
  | _ => figure

/-- A value in which arrays and inline tables nest at most `depth` deep. -/
def read : Nat → Reader Value
  | 0 => scalar
  | depth + 1 => do
    match ← peek with
    | some '[' => discard; array false <$> items (read depth)
    | some '\x7b' =>
      discard
      let ps ← pairs (read depth)
      (ps.foldlM add (table .inline []) : Option Value)
    | _ => scalar

end Value

end PubSub.Toml
