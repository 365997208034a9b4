import PubSub.Config.Setting
/-!
# Paths to settings

A key of a layer leads through groups and lists: `session.limits[2]` is the third item of a member of
the group `session`. What is on the way and of another kind gives way to the group or list it has to
be. A key is read in lower case; one that is no path is a single name.
-/

namespace PubSub

/-- One step on the way to a setting. -/
inductive PathStep where
  | member (name : String)
  | item (index : Int)
  deriving DecidableEq, Repr

/-! ## Reading -/

/-- A character of a name in a path. -/
def isPathChar (c : Char) : Bool := c.isAlphanum ∨ c = '_' ∨ c = '-' ∨ c = ' '

/-- A name that a path starts with. -/
def pathName? (cs : List Char) : Option (String × List Char) :=
  match cs.takeWhile isPathChar with
  | [] => none
  | name => some (String.ofList name, cs.dropWhile isPathChar)

/-- The index in brackets after the opening one, blanks around it. -/
def pathIndex? (cs : List Char) : Option (Int × List Char) :=
  let isBlank (c : Char) : Bool := c = ' ' ∨ c = '\t'
  let cs := cs.dropWhile isBlank
  let (negative, cs) := match cs with
    | '-' :: rest => (true, rest)
    | cs => (false, cs)
  let digits := String.ofList (cs.takeWhile isDigit)
  match signedOf? (if negative then "-" ++ digits else digits), (cs.dropWhile isDigit).dropWhile isBlank with
  | some n, ']' :: rest => some (n, rest)
  | _, _ => none

/-- The steps after the first name, each a character at least. -/
def laterSteps? : Nat → List Char → Option (List PathStep)
  | _, [] => some []
  | 0, _ => none
  | fuel + 1, '.' :: cs => do
    let (name, rest) ← pathName? cs
    return .member name :: (← laterSteps? fuel rest)
  | fuel + 1, '[' :: cs => do
    let (n, rest) ← pathIndex? cs
    return .item n :: (← laterSteps? fuel rest)
  | _, _ => none

/-- The path that a key stands for: its first name and the steps after it. -/
def keyPath (key : String) : String × List PathStep :=
  let path := do
    let (name, rest) ← pathName? key.toList
    return (name, ← laterSteps? rest.length rest)
  path.getD (key, [])

/-! ## Following a path -/

namespace Setting

/-- The items of a list with as many more as an index needs, and the place it means. Negative indices
count from the end, and new items are put in front of a list that is too short for one. -/
def makeRoom (items : List Setting) (index : Int) : List Setting × Nat :=
  let more (n : Nat) := List.replicate (n - items.length) unset
  if 0 ≤ index then (items ++ more (index.toNat + 1), index.toNat)
  else (more index.natAbs ++ items, items.length - index.natAbs)

/-- Changes an item of a list. What is no list becomes one. -/
def alterItem (s : Setting) (index : Int) (change : Setting → Setting) : Setting :=
  let (items, place) := makeRoom s.items index
  list (items.modify place change)

/-- Puts a value where a path leads. -/
def putAt (v : Setting) (base : Setting) : PathStep → List PathStep → Setting
  | .member name, [] => put name v base
  | .item n, [] => base.alterItem n fun _ => v
  | .member name, next :: rest => base.alter name (fun s => putAt v s next rest) unset
  | .item n, next :: rest => base.alterItem n fun s => putAt v s next rest

/-- Puts a value under a key of a layer, which is read as a path in lower case. -/
def putKey (base : Setting) (key : String) (v : Setting) : Setting :=
  let (name, rest) := keyPath (lowerCase key)
  putAt v base (.member name) rest

/-- A layer over the settings below it. -/
def overlay (base : Setting) (layer : List (String × Setting)) : Setting :=
  layer.foldl (fun s e => s.putKey e.1 e.2) base

end Setting

end PubSub
