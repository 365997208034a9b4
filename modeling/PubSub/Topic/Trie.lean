import PubSub.QoS
import PubSub.Topic.Level
/-!
# The subscription trie

Filters are kept level by level, so that one walk along a topic's levels finds the quality of
service of every filter that covers it. A filter has a place in the trie: the steps to a node, and
which of the node's two slots it takes. `Trie.toList` lists the places that are taken.
-/

namespace PubSub.Topic

/-- One step down the trie: over any level, or over a level of a given name. -/
inductive Step where
  | any
  | named (level : Level)
  deriving DecidableEq, Repr

namespace Step

def ofLevel (l : Level) : Step := if l = ['+'] then any else named l

def lt : Step → Step → Prop
  | any, named _ => True
  | named a, named b => a < b
  | _, any => False

instance : LT Step := ⟨lt⟩

instance : DecidableLT Step
  | any, any => isFalse id
  | any, named _ => isTrue trivial
  | named _, any => isFalse id
  | named a, named b => inferInstanceAs (Decidable (a < b))

end Step

/-- Which filters a slot of a node is for: those that end at the node, or those that go on with a
`#` from there. -/
inductive Slot where
  | exact
  | tail
  deriving DecidableEq, Repr

/-- Where a filter is kept. Levels after the first `#` have no part in it. -/
structure Place where
  steps : List Step
  slot : Slot
  deriving DecidableEq, Repr

def Place.ofLevels : List Level → Place
  | [] => ⟨[], .exact⟩
  | l :: rest =>
    if l = ['#'] then ⟨[], .tail⟩
    else
      let p := ofLevels rest
      ⟨Step.ofLevel l :: p.steps, p.slot⟩

def Place.ofFilter (filter : String) : Place := ofLevels (levels filter)

/-- What is registered at a node. -/
structure Slots where
  exact : Option QoS := none
  tail : Option QoS := none
  deriving DecidableEq, Repr

namespace Slots

def get (s : Slots) : Slot → Option QoS
  | .exact => s.exact
  | .tail => s.tail

def set (s : Slots) (slot : Slot) (q : Option QoS) : Slots :=
  match slot with
  | .exact => { s with exact := q }
  | .tail => { s with tail := q }

def isEmpty (s : Slots) : Bool := s.exact.isNone && s.tail.isNone

end Slots

/-- The nodes below a node, in step order: each with its own slots, the nodes below it, and the
siblings after it. -/
inductive Branches where
  | nil
  | node (step : Step) (here : Slots) (below : Branches) (rest : Branches)
  deriving DecidableEq, Repr

/-- A node: what is registered there and what lies below. -/
structure Node where
  here : Slots := {}
  below : Branches := .nil
  deriving DecidableEq, Repr

def Node.isEmpty (n : Node) : Bool := n.here.isEmpty && n.below == .nil

namespace Branches

def find? : Branches → Step → Option Node
  | nil, _ => none
  | node s here below rest, step => if s = step then some ⟨here, below⟩ else rest.find? step

/-- Puts a node in front of its siblings, or leaves it out when nothing is registered in it. -/
def place (step : Step) (n : Node) (rest : Branches) : Branches :=
  if n.isEmpty then rest else node step n.here n.below rest

/-- Changes the node over `step`, an empty one when there is none, and keeps the step order. -/
def change (f : Node → Node) (step : Step) : Branches → Branches
  | nil => place step (f {}) nil
  | node s here below rest =>
    if s = step then place step (f ⟨here, below⟩) rest
    else if step < s then place step (f {}) (node s here below rest)
    else node s here below (change f step rest)

end Branches

namespace Node

/-- The node at the end of a walk. -/
def walk : List Step → Node → Option Node
  | [], n => some n
  | s :: rest, n => (n.below.find? s).bind (walk rest)

def get? (n : Node) (p : Place) : Option QoS := (n.walk p.steps).bind (·.here.get p.slot)

/-- Changes the slots at the end of a walk; nodes left empty on the way are dropped. -/
def change (f : Slots → Slots) : List Step → Node → Node
  | [], n => { n with here := f n.here }
  | s :: rest, n => { n with below := n.below.change (change f rest) s }

def set (n : Node) (p : Place) (q : Option QoS) : Node := n.change (·.set p.slot q) p.steps

/-- The levels of service along a topic's levels: at each node first a `#` registered there, then
what lies over any level, then what lies over the level's own name. -/
def collect (n : Node) : List Level → List QoS
  | [] => n.here.tail.toList ++ n.here.exact.toList
  | l :: rest =>
    n.here.tail.toList
      ++ ((n.below.find? .any).map (·.collect rest)).getD []
      ++ ((n.below.find? (.named l)).map (·.collect rest)).getD []

/-- As `collect`, but without the wildcards of the node itself. -/
def collectNamed (n : Node) : List Level → List QoS
  | [] => n.here.exact.toList
  | l :: rest => ((n.below.find? (.named l)).map (·.collect rest)).getD []

end Node

/-- Filters with the quality of service they were subscribed with. -/
structure Trie where
  root : Node := {}
  size : Nat := 0
  deriving DecidableEq, Repr

namespace Trie

def get? (t : Trie) (filter : String) : Option QoS := t.root.get? (Place.ofFilter filter)

/-- Registers a filter, replacing what its place held. -/
def set (t : Trie) (filter : String) (q : QoS) : Trie :=
  ⟨t.root.set (Place.ofFilter filter) (some q), if (t.get? filter).isSome then t.size else t.size + 1⟩

/-- Frees the place of a filter, and says whether it was taken. -/
def remove (t : Trie) (filter : String) : Bool × Trie :=
  if (t.get? filter).isSome then (true, ⟨t.root.set (Place.ofFilter filter) none, t.size - 1⟩)
  else (false, t)

/-- The quality of service of every filter that covers the topic. A first level that starts with
`$` is covered by no leading wildcard. -/
def matching (t : Trie) (topic : String) : List QoS :=
  let ls := levels topic
  if (ls.headD []).head? = some '$' then t.root.collectNamed ls else t.root.collect ls

/-- The strongest service among the filters that cover the topic. -/
def maxQoS (t : Trie) (topic : String) : Option QoS := QoS.highest (t.matching topic)

def isEmpty (t : Trie) : Bool := t.size = 0

end Trie

/-! ## Level by level

The same changes as a walk along a filter's levels: it opens the branches that are missing, or stops at the
first of them, and drops on its way back each node that is left empty. -/

/-- Puts a node over a step, or drops what is there if the node is empty. -/
def Branches.put (bs : Branches) (s : Step) (n : Node) : Branches := bs.change (fun _ => n) s

namespace Node

/-- Registers along a filter's levels, and says what was registered there before. -/
def insertAlong (q : QoS) : List Level → Node → Option QoS × Node
  | [], n => (n.here.exact, { n with here := n.here.set .exact (some q) })
  | l :: rest, n =>
    if l = ['#'] then (n.here.tail, { n with here := n.here.set .tail (some q) })
    else
      let r := insertAlong q rest ((n.below.find? (Step.ofLevel l)).getD {})
      (r.1, { n with below := n.below.put (Step.ofLevel l) r.2 })

/-- Removes along a filter's levels, and says what was there. Where there is no branch to go on with, all stays. -/
def removeAlong : List Level → Node → Option QoS × Node
  | [], n => (n.here.exact, { n with here := n.here.set .exact none })
  | l :: rest, n =>
    if l = ['#'] then (n.here.tail, { n with here := n.here.set .tail none })
    else match n.below.find? (Step.ofLevel l) with
      | none => (none, n)
      | some child =>
        let r := removeAlong rest child
        (r.1, { n with below := n.below.put (Step.ofLevel l) r.2 })

end Node

namespace Trie

/-- Registers a filter, and counts it if it is new. -/
def setAlong (t : Trie) (filter : String) (q : QoS) : Trie :=
  let r := t.root.insertAlong q (levels filter)
  ⟨r.2, if r.1.isSome then t.size else t.size + 1⟩

/-- Removes a filter, and says whether there was one to remove. -/
def removeAlong (t : Trie) (filter : String) : Bool × Trie :=
  let r := t.root.removeAlong (levels filter)
  (r.1.isSome, ⟨r.2, if r.1.isSome then t.size - 1 else t.size⟩)

end Trie

/-! ## The trie as a list -/

/-- The taken places below a node, each a walk from it. -/
def Branches.toList : Branches → List (Place × QoS)
  | .nil => []
  | .node s here below rest =>
    (here.tail.toList.map (⟨[s], .tail⟩, ·)) ++ (here.exact.toList.map (⟨[s], .exact⟩, ·))
      ++ (below.toList.map fun e => (⟨s :: e.1.steps, e.1.slot⟩, e.2)) ++ rest.toList

def Node.toList (n : Node) : List (Place × QoS) :=
  (n.here.tail.toList.map (⟨[], .tail⟩, ·)) ++ (n.here.exact.toList.map (⟨[], .exact⟩, ·)) ++ n.below.toList

def Trie.toList (t : Trie) : List (Place × QoS) := t.root.toList

end PubSub.Topic
