import PubSub.Topic.Level
/-!
# Topic filters

A filter is a topic that may hold wildcards: `+` stands for one level and a last `#` for any
number of them. `check` says what is wrong with a text as a filter, and `matchesFilter` whether a
topic is covered by one. Wildcards in the first level leave topics that start with `$` alone. A
`Scan` goes through the levels of both by their positions.
-/

namespace PubSub.Topic

/-- What keeps a text from being a filter. -/
inductive FilterFlaw where
  | empty
  | nul
  | misplacedHash
  | misplacedPlus
  deriving DecidableEq, Repr

def FilterFlaw.reason : FilterFlaw → String
  | empty => "empty filter"
  | nul => "contains NUL character"
  | misplacedHash => "'#' must be a whole, final level"
  | misplacedPlus => "'+' must be a whole level"

/-- A text refused as a filter. -/
structure InvalidFilter where
  filter : String
  flaw : FilterFlaw
  deriving DecidableEq, Repr

def InvalidFilter.message (e : InvalidFilter) : String :=
  s!"Invalid topic filter '{e.filter}': {e.flaw.reason}"

/-- The first level that breaks a wildcard rule, `#` before `+` within a level. -/
def checkLevels : List Level → Option FilterFlaw
  | [] => none
  | l :: rest =>
    if '#' ∈ l ∧ (l ≠ ['#'] ∨ rest ≠ []) then some .misplacedHash
    else if '+' ∈ l ∧ l ≠ ['+'] then some .misplacedPlus
    else checkLevels rest

def flaw (filter : String) : Option FilterFlaw :=
  if filter.toList = [] then some .empty
  else if '\x00' ∈ filter.toList then some .nul
  else checkLevels (levels filter)

def check (filter : String) : Except InvalidFilter Unit :=
  match flaw filter with
  | none => .ok ()
  | some f => .error ⟨filter, f⟩

/-- Whether the filter's levels cover the topic's: a `#` covers all that is left, a `+` one level
of any content, and any other level itself. -/
def levelsMatch : List Level → List Level → Bool
  | [], [] => true
  | [], _ :: _ => false
  | f :: fs, ts =>
    if f = ['#'] then true
    else match ts with
      | [] => false
      | t :: ts => if f = ['+'] ∨ f = t then levelsMatch fs ts else false

/-- A scan of two lists of levels: the position it stands at in each, or what it found. -/
inductive Scan where
  | standing (inFilter inTopic : Nat)
  | found (covered : Bool)
  deriving DecidableEq, Repr

namespace Scan

/-- One turn of the scan; `none` if it reads a level that is not there. -/
def turn (fs ts : List Level) : Scan → Option Scan
  | found covered => some (found covered)
  | standing i j =>
    if i < fs.length then
      fs[i]?.bind fun f =>
        if f = ['#'] then some (found true)
        else if ts.length ≤ j then some (found false)
        else if f = ['+'] then some (standing (i + 1) (j + 1))
        else ts[j]?.map fun t => if f = t then standing (i + 1) (j + 1) else found false
    else some (found (j = ts.length))

/-- Where the scan is after some turns. -/
def after (fs ts : List Level) : Nat → Option Scan
  | 0 => some (standing 0 0)
  | k + 1 => (after fs ts k).bind (turn fs ts)

end Scan

/-- Whether a topic starts with `$`, so that a leading wildcard does not cover it. -/
def isReserved (topic : String) : Bool := topic.toList.head? = some '$'

def matchesFilter (topic filter : String) : Bool :=
  let head := filter.toList.head?
  if isReserved topic ∧ (head = some '+' ∨ head = some '#') then false
  else levelsMatch (levels filter) (levels topic)

end PubSub.Topic
