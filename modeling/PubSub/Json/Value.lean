import PubSub.Json.Structure
/-!
# JSON values of any kind

A whole text read as a value, for showing what a record holds. Arrays and objects nest at most 127
deep.
-/

namespace PubSub.Json

/-- A value. Numbers keep their text, and objects every member in order. -/
inductive Value where
  | null
  | bool (b : Bool)
  | number (literal : List UInt8)
  | text (s : String)
  | array (items : List Value)
  | object (members : List (String × Value))

namespace Value

/-- A number together with its text. -/
def numberText (positive : Bool) : Reader Bytes := fun b => do
  let (_, rest) ← Json.number positive b
  return (b.take (b.length - rest.length), rest)

/-- A value in which arrays and objects nest less than `depth` deep. -/
def read : Nat → Reader Value
  | 0 => throw .malformed
  | depth + 1 => do
    let b ← needToken
    if b = ascii 'n' then discard; expect ['u', 'l', 'l']; return null
    else if b = ascii 't' then discard; expect ['r', 'u', 'e']; return bool true
    else if b = ascii 'f' then discard; expect ['a', 'l', 's', 'e']; return bool false
    else if b = ascii '-' then discard; return number (b :: (← numberText false))
    else if isDigit b then return number (← numberText true)
    else if b = ascii '"' then discard; return text (← textString)
    else if b = ascii '[' then
      discard
      if depth = 0 then throw .malformed
      return array (← arrayBody (read depth))
    else if b = ascii '\x7b' then
      discard
      if depth = 0 then throw .malformed
      let ms ← objectBody (fun name ms => do colon; return (name, ← read depth) :: ms) []
      return object ms.reverse
    else throw .malformed

/-- The value of a whole text. -/
def parse? (b : Bytes) : Option Value :=
  match parse (read 128) b with
  | .ok v => some v
  | .error _ => none

end Value

end PubSub.Json
