import PubSub.Toml.Value
/-!
# TOML documents

A document is read line by line, and the lines build one table: a header makes a table and the pairs
after it go there. No table is made twice and no key is given two values.
-/

namespace PubSub.Toml

inductive Line where
  | blank
  /-- The header of a table. -/
  | table (key : Key)
  /-- The header of one more table of an open array. -/
  | item (key : Key)
  | pair (p : Pair)

/-- How deep arrays and inline tables nest. -/
def maxDepth : Nat := 79

/-- The next line, if there is one. A line that holds nothing else ends with the text, too. -/
def Line.read : Reader (Option Line) := do
  blanks
  match ← peek with
  | none => return none
  | some '[' =>
    discard
    if ← passed '[' then
      let key ← key
      expect [']', ']']
      endOfLine
      return some (item key)
    else
      let key ← key
      expect [']']
      endOfLine
      return some (table key)
  | some '#' | some '\n' | some '\r' => endOfLine; return some blank
  | some _ =>
    let p ← Value.pair (Value.read maxDepth)
    endOfLine
    return some (pair p)

/-- All lines of a text, which may start with a byte order mark. -/
def Line.readAll : Reader (List Line) := do
  let _ ← passed '\ufeff'
  all Line.read

/-- The table that has been built, and the path of the table to which pairs are added. -/
structure Document where
  root : Value := .table .header []
  current : List String := []

namespace Document

/-- Makes the table of a header, unless it is there: one made on the way to another header still
counts as new and comes last from now on. -/
def makeTable (name : String) (entries : List (String × Value)) : Option (List (String × Value)) :=
  match entries.lookup name with
  | none => some (entries ++ [(name, .table .header [])])
  | some (.table .parent inner) => some (entries.filter (·.1 ≠ name) ++ [(name, .table .header inner)])
  | some _ => none

/-- Makes one more table of an open array. -/
def makeItem (name : String) (entries : List (String × Value)) : Option (List (String × Value)) :=
  Entries.alterM name (fun
    | none => some (.array true [.table .header []])
    | some (.array true items) => some (.array true (items ++ [.table .header []]))
    | some _ => none) entries

/-- Makes what a header names and adds the next pairs to it. -/
def start (d : Document) (make : String → List (String × Value) → Option (List (String × Value))) (key : Key) :
    Option Document := do
  let root ← d.root.alterAt false (fun
    | .table origin entries => (make key.name entries).map (Value.table origin)
    | _ => none) key.path
  return { root, current := key.path ++ [key.name] }

def add (d : Document) : Line → Option Document
  | .blank => some d
  | .table key => d.start makeTable key
  | .item key => d.start makeItem key
  | .pair p => (d.root.alterAt false (·.add p) d.current).map fun root => { d with root }

end Document

/-- The table that a text describes. -/
def parse? (s : String) : Option Value := do
  let (lines, _) ← Line.readAll s.toList
  let d ← lines.foldlM Document.add {}
  return d.root

end PubSub.Toml
