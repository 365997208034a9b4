import PubSub.Json.Reader
/-!
# Objects, arrays and values passed over

Objects are read member by member and arrays element by element, so that what they mean can be
decided on the way. Values nobody asked for are passed over with their form checked, however deep
they nest.
-/

namespace PubSub.Json

/-! ## Passing over a value -/

/-- Passes over the rest of a string, whose characters are not looked at. -/
def skipString : Bytes → Except Fault (Unit × Bytes)
  | [] => .error .truncated
  | b :: rest =>
    if b = ascii '"' then .ok ((), rest)
    else if b = ascii '\\' then
      match rest with
      | [] => .error .truncated
      | e :: rest =>
        if e = ascii 'u' then
          match rest with
          | h₁ :: h₂ :: h₃ :: h₄ :: rest =>
            if (hexFour h₁ h₂ h₃ h₄).isSome then skipString rest else .error .malformed
          | _ => .error .truncated
        else if (simpleEscape e).isSome then skipString rest
        else .error .malformed
    else if b < 32 then .error .malformed
    else skipString rest

/-- Passes over digits, at least one. -/
def skipDigits : Reader Unit := do
  if (← digits).isEmpty then throw .malformed

/-- Passes over a number after its sign, whatever its size. -/
def skipNumber : Reader Unit := do
  let whole ← digits
  if whole.isEmpty ∨ (whole.head? = some (ascii '0') ∧ whole.length > 1) then throw .malformed
  if (← peek) = some (ascii '.') then discard; skipDigits
  let mark ← peek
  if mark = some (ascii 'e') ∨ mark = some (ascii 'E') then
    discard
    let sign ← peek
    if sign = some (ascii '-') ∨ sign = some (ascii '+') then discard
    skipDigits

/-- What has been opened around the place of reading. -/
inductive Frame where
  | array
  | object
  deriving DecidableEq, Repr

/-- Passes over the name of a member and its colon. -/
def skipName : Reader Unit := do
  if (← needToken) ≠ ascii '"' then throw .malformed
  discard
  (skipString : Reader Unit)
  if (← needToken) ≠ ascii ':' then throw .malformed
  discard

/-- Passes over a value that is no array or object, or over the bracket that opens one. -/
def skipHead : Reader (Option Frame) := do
  let b ← needToken
  if b = ascii '[' then discard; return some .array
  else if b = ascii '\x7b' then discard; return some .object
  else if b = ascii 'n' then discard; expect ['u', 'l', 'l']
  else if b = ascii 't' then discard; expect ['r', 'u', 'e']
  else if b = ascii 'f' then discard; expect ['a', 'l', 's', 'e']
  else if b = ascii '-' then discard; skipNumber
  else if isDigit b then skipNumber
  else if b = ascii '"' then discard; (skipString : Reader Unit)
  else throw .malformed
  return none

/-- Where a pass stands: before a value, or before what may follow one. `opened` holds just after
an opening bracket, where no comma may come. -/
inductive SkipPoint where
  | value
  | after (opened : Bool)
  deriving DecidableEq, Repr

/-- Passes over a value inside the frames given, innermost first, with at most `fuel` steps. -/
def skip : Nat → SkipPoint → List Frame → Reader Unit
  | 0, _, _ => throw .truncated
  | fuel + 1, .value, frames => do
    match ← skipHead with
    | some f => skip fuel (.after true) (f :: frames)
    | none => skip fuel (.after false) frames
  | _ + 1, .after _, [] => pure ()
  | fuel + 1, .after opened, f :: frames => do
    let b ← needToken
    if (b = ascii ']' ∧ f = .array) ∨ (b = ascii '\x7d' ∧ f = .object) then
      discard
      skip fuel (.after false) frames
    else
      if ¬ opened then
        if b = ascii ',' then discard else throw .malformed
      if f = .object then skipName
      skip fuel .value (f :: frames)

/-- Passes over one value. Every two steps take at least a byte. -/
def skipValue : Reader Unit := fun b => skip (2 * b.length + 2) .value [] b

/-! ## Members of an object -/

/-- Passes over the colon after a member's name. -/
def colon : Reader Unit := do
  if (← needToken) = ascii ':' then discard else throw .malformed

/-- Reads members up to the closing brace. `member` is given each name and what was read before,
and reads on from the colon. -/
def members {σ : Type} (member : String → σ → Reader σ) : Nat → Bool → σ → Reader σ
  | 0, _, _ => throw .truncated
  | fuel + 1, first, s => do
    let b ← needToken
    if b = ascii '\x7d' then discard; return s
    else
      if ¬ first then
        if b = ascii ',' then discard else throw .malformed
      if (← needToken) ≠ ascii '"' then throw .malformed
      discard
      let name ← textString
      let s ← member name s
      members member fuel false s

/-- An object after its opening brace. -/
def objectBody {σ : Type} (member : String → σ → Reader σ) (s : σ) : Reader σ := fun b =>
  members member (b.length + 1) true s b

/-! ## Elements of an array -/

/-- Whether another element comes; the reading then stands at it, and otherwise at the closing
bracket. -/
def moreElements (first : Bool) : Reader Bool := do
  let b ← needToken
  if b = ascii ']' then return false
  else if first then return true
  else if b = ascii ',' then
    discard
    if (← needToken) = ascii ']' then throw .malformed else return true
  else throw .malformed

/-- The closing bracket, where no element may come any more. -/
def closeArray : Reader Unit := do
  if (← needToken) = ascii ']' then discard else throw .malformed

def elements {α : Type} (element : Reader α) : Nat → Bool → Reader (List α)
  | 0, _ => throw .truncated
  | fuel + 1, first => do
    if ← moreElements first then
      let x ← element
      return x :: (← elements element fuel false)
    else return []

/-- An array after its opening bracket. -/
def arrayBody {α : Type} (element : Reader α) : Reader (List α) := do
  let xs ← (fun b => elements element (b.length + 1) true b : Reader (List α))
  closeArray
  return xs

/-- The next element of an array that stands for a record, or `absent` when there is none. -/
def field {α : Type} (first : Bool) (absent : Reader α) (value : Reader α) : Reader α := do
  if ← moreElements first then value else absent

end PubSub.Json
