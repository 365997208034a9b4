import PubSub.Config.Reading
import PubSub.Data.Entries
import PubSub.Number.Decimal
import PubSub.Number.Word
/-!
# Settings as layers hold them

A layer holds values without saying what they are for. They are converted when they are read: a
number may have been given as a text, a text as a number.
-/

namespace PubSub

/-- A value in a layer. -/
inductive Setting where
  | unset
  | boolean (b : Bool)
  | integer (n : Int)
  | float (x : Binary64)
  | text (s : String)
  | list (items : List Setting)
  | group (members : List (String × Setting))

/-- A character in lower case if that is a letter of ASCII. The Kelvin sign is the only one beyond
ASCII for which it is. -/
def lowerCaseChar (c : Char) : Char := if c = '\u212a' then 'k' else c.toLower

/-- A text with its letters in lower case. Letters that have none in ASCII stay as they are: no
setting has a name with such letters, nor is any word for a truth written with them. -/
def lowerCase (s : String) : String := String.ofList (s.toList.map lowerCaseChar)

/-- The integer that a text of digits with an optional sign stands for. -/
def integerOf? (s : String) : Option Int :=
  let (negative, ds) := splitSign s.toList
  if ds ≠ [] ∧ ds.all isDigit then
    some (if negative then -Int.ofNat (digitsValue ds) else Int.ofNat (digitsValue ds))
  else none

/-- The integer in a text if it fits 64 bits with a sign. -/
def signedOf? (s : String) : Option Int := (integerOf? s).filter isSignedWord

/-- The number in a text if it fits 64 bits without a sign, which may only be a plus. -/
def unsignedOf? (s : String) : Option Nat :=
  if s.toList.head? = some '-' then none
  else ((integerOf? s).map Int.toNat).filter (· ≤ maxWord)

namespace Setting

/-! ## Conversions -/

def truth? (s : String) : Option Bool :=
  if lowerCase s ∈ ["true", "on", "yes"] then some true
  else if lowerCase s ∈ ["false", "off", "no"] then some false
  else none

/-- A setting as a limit. Fractions are rounded, and truths count one and zero. -/
def limit? : Setting → Option Nat
  | integer n => if 0 ≤ n then some n.toNat else none
  | float x => some (x.toNatClamped maxWord)
  | boolean b => some b.toNat
  | text s =>
    match truth? s with
    | some b => some b.toNat
    | none => unsignedOf? s
  | unset | list _ | group _ => none

def text? : Setting → Option String
  | text s => some s
  | integer n => some (toString n)
  | boolean b => some (if b then "true" else "false")
  | float x => some x.text
  | unset | list _ | group _ => none

def asSection? : Setting → Option (Section Setting)
  | group members => some (.named members)
  | list items => some (.listed items)
  | _ => none

/-- Settings from layers, converted as needed. -/
def reading : Reading Setting := { asSection?, limit?, text? }

/-- What a value in the environment is: a truth, an integer, a number or a text. -/
def ofVariable (s : String) : Setting :=
  if lowerCase s = "true" then boolean true
  else if lowerCase s = "false" then boolean false
  else match signedOf? s with
    | some n => integer n
    | none =>
      match Binary64.ofText? s.toList with
      | some x => float x
      | none => text s

/-! ## Members -/

/-- The members of a group; anything else has none. -/
def members : Setting → List (String × Setting)
  | group ms => ms
  | _ => []

/-- The items of a list; anything else has none. -/
def items : Setting → List Setting
  | list vs => vs
  | _ => []

/-- Changes a member. What is no group becomes one. -/
def alter (s : Setting) (name : String) (change : Setting → Setting) (absent : Setting) : Setting :=
  group (Entries.alter name (fun v => change (v.getD absent)) s.members)

theorem lookup_members_alter (s : Setting) (name : String) (change : Setting → Setting) (absent : Setting)
    (x : String) :
    (s.alter name change absent).members.lookup x
      = if x = name then some (change ((s.members.lookup name).getD absent)) else s.members.lookup x :=
  Entries.lookup_alter name _ s.members x

mutual

/-- Puts a value under a name, in lower case. A group is laid over what is there, member by member,
and any other value takes its place. -/
def put (name : String) : Setting → Setting → Setting
  | group ms, base => base.alter (lowerCase name) (putAll ms) (group [])
  | v, base => base.alter (lowerCase name) (fun _ => v) unset

/-- Puts values under their names, one after the other. -/
def putAll : List (String × Setting) → Setting → Setting
  | [], base => base
  | (name, v) :: rest, base => putAll rest (put name v base)

end

end Setting

end PubSub
