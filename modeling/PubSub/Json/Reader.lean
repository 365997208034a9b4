import PubSub.Number.Word
import PubSub.Text.Utf8
/-!
# Reading JSON

JSON is read from bytes in one pass, by readers that ask for a value of a certain kind, so that the
first thing wrong decides the answer: the text is no JSON, it ends too early, or it holds a value of
another kind. A reader answers with its value and the bytes after it.
-/

namespace PubSub.Json

/-- What is wrong with a text, at the first place where something is. -/
inductive Fault where
  | malformed
  | truncated
  | mismatched
  deriving DecidableEq, Repr

def Fault.message : Fault → String
  | malformed => "not JSON"
  | truncated => "JSON ends too early"
  | mismatched => "JSON of another kind"

abbrev Reader (α : Type) := StateT Bytes (Except Fault) α

/-- The byte of an ASCII character. -/
def ascii (c : Char) : UInt8 := UInt8.ofNat c.toNat

def isSpace (b : UInt8) : Bool := b = ascii ' ' ∨ b = ascii '\n' ∨ b = ascii '\r' ∨ b = ascii '\t'

def isDigit (b : UInt8) : Bool := ascii '0' ≤ b ∧ b ≤ ascii '9'

/-! ## Bytes -/

def peek : Reader (Option UInt8) := fun b => .ok (b.head?, b)

def discard : Reader Unit := fun b => .ok ((), b.drop 1)

/-- The first byte that is no space, left where it is. -/
def peekToken : Reader (Option UInt8) := fun b =>
  let b := b.dropWhile isSpace
  .ok (b.head?, b)

/-- As `peekToken`, where something has to come. -/
def needToken : Reader UInt8 := do
  match ← peekToken with
  | some b => return b
  | none => throw .truncated

/-- Passes over exactly these characters. -/
def expect : List Char → Reader Unit
  | [] => pure ()
  | c :: rest => do
    match ← peek with
    | none => throw .truncated
    | some b => if b = ascii c then discard; expect rest else throw .malformed

/-- The next digits. -/
def digits : Reader Bytes := fun b => .ok (b.takeWhile isDigit, b.dropWhile isDigit)

/-! ## Strings -/

def hexValue (b : UInt8) : Option Nat :=
  if isDigit b then some (b.toNat - 48)
  else if ascii 'a' ≤ b ∧ b ≤ ascii 'f' then some (b.toNat - 87)
  else if ascii 'A' ≤ b ∧ b ≤ ascii 'F' then some (b.toNat - 55)
  else none

/-- The number of four hexadecimal digits. -/
def hexFour (a b c d : UInt8) : Option Nat := do
  return (((← hexValue a) * 16 + (← hexValue b)) * 16 + (← hexValue c)) * 16 + (← hexValue d)

/-- The byte that a one-letter escape stands for. -/
def simpleEscape (b : UInt8) : Option UInt8 :=
  if b = ascii '"' ∨ b = ascii '\\' ∨ b = ascii '/' then some b
  else if b = ascii 'b' then some 8
  else if b = ascii 'f' then some 12
  else if b = ascii 'n' then some 10
  else if b = ascii 'r' then some 13
  else if b = ascii 't' then some 9
  else none

/-- The bytes of a code point in the pattern of UTF-8, which half a surrogate pair fits too. -/
def codeBytes (n : Nat) : Bytes :=
  if n < 0x80 then [UInt8.ofNat n]
  else if n < 0x800 then [UInt8.ofNat (0xC0 + n / 64), UInt8.ofNat (0x80 + n % 64)]
  else if n < 0x10000 then
    [UInt8.ofNat (0xE0 + n / 4096), UInt8.ofNat (0x80 + n / 64 % 64), UInt8.ofNat (0x80 + n % 64)]
  else
    [UInt8.ofNat (0xF0 + n / 262144), UInt8.ofNat (0x80 + n / 4096 % 64), UInt8.ofNat (0x80 + n / 64 % 64),
      UInt8.ofNat (0x80 + n % 64)]

def isLeading (n : Nat) : Bool := 0xD800 ≤ n ∧ n ≤ 0xDBFF

def isTrailing (n : Nat) : Bool := 0xDC00 ≤ n ∧ n ≤ 0xDFFF

/-- What is to be done with an escaped 16-bit unit after the leading half of a pair, or after none. -/
def joinUnit (strict : Bool) (half : Option Nat) (n : Nat) : Option (Bytes × Option Nat) :=
  match half with
  | some m =>
    if isTrailing n then some (codeBytes (0x10000 + (m - 0xD800) * 1024 + (n - 0xDC00)), none)
    else if strict then none
    else if isLeading n then some (codeBytes m, some n)
    else some (codeBytes m ++ codeBytes n, none)
  | none =>
    if strict ∧ isTrailing n then none
    else if isLeading n then some ([], some n)
    else some (codeBytes n, none)

/-- The content of a string after its opening quote. A strict reader refuses control characters
and halves of surrogate pairs; otherwise both are kept. `half` is the leading half of a pair that
has just been read, and `acc` the content before it, last byte first. -/
def stringContent (strict : Bool) (half : Option Nat) (acc : Bytes) : Bytes → Except Fault (Bytes × Bytes)
  | [] => .error .truncated
  | b :: rest =>
    if b = ascii '\\' then
      match rest with
      | [] => .error .truncated
      | e :: rest =>
        if e = ascii 'u' then
          match rest with
          | h₁ :: h₂ :: h₃ :: h₄ :: rest =>
            match (hexFour h₁ h₂ h₃ h₄).bind (joinUnit strict half) with
            | some (bytes, half) => stringContent strict half (bytes.reverse ++ acc) rest
            | none => .error .malformed
          | _ => .error .truncated
        else if strict ∧ half.isSome then .error .malformed
        else match simpleEscape e with
          | some x => stringContent strict none (x :: ((half.map codeBytes).getD []).reverse ++ acc) rest
          | none => .error .malformed
    else if strict ∧ half.isSome then .error .malformed
    else
      let acc := ((half.map codeBytes).getD []).reverse ++ acc
      if b = ascii '"' then .ok (acc.reverse, rest)
      else if strict ∧ b < 32 then .error .malformed
      else stringContent strict none (b :: acc) rest

/-- The content of a string, as bytes of any kind. -/
def rawString : Reader Bytes := fun b => stringContent false none [] b

/-- The content of a string, which has to be text. -/
def textString : Reader String := do
  let b ← (fun b => stringContent true none [] b : Reader Bytes)
  match Text.ofBytes? b with
  | some s => return s
  | none => throw .malformed

/-! ## Numbers -/

/-- A number as far as its kind goes: a natural number below 2^64, or any other. -/
inductive Number where
  | natural (n : Nat)
  | other
  deriving DecidableEq, Repr

/-- Adds digits to a number while it stays below 2^64: the number, and the digits left over. -/
def absorb (n : Nat) : Bytes → Nat × Bytes
  | [] => (n, [])
  | d :: ds =>
    let m := n * 10 + (d.toNat - 48)
    if m ≤ maxWord then absorb m ds else (n, d :: ds)

/-- The nearest number with at most 53 significant binary digits, an even one when there are two. -/
def nearest53 (n : Nat) : Nat :=
  let shift := n.log2 + 1 - 53
  let unit := Nat.pow 2 shift
  let low := n / unit
  let rem := n % unit
  if 2 * rem > unit ∨ (2 * rem = unit ∧ low % 2 = 1) then (low + 1) * unit else low * unit

/-- Whether significand times ten to the exponent is beyond the range of a double. -/
def outOfRange (significand : Nat) (exponent : Int) : Bool :=
  if significand = 0 ∨ exponent < 0 then false
  else if exponent > 308 then true
  else nearest53 significand * nearest53 (Nat.pow 10 exponent.toNat) ≥ Nat.pow 2 1024 - Nat.pow 2 970

/-- An exponent, after its letter: its sign and its digits. -/
def exponentPart : Reader (Bool × Bytes) := do
  let sign ← peek
  let negative := sign = some (ascii '-')
  if negative ∨ sign = some (ascii '+') then discard
  match ← peek with
  | none => throw .truncated
  | some b => if isDigit b then return (negative, ← digits) else throw .malformed

/-- The end of a number that may go on with a fraction and an exponent. -/
def numberTail (positive : Bool) (whole : Bytes) : Reader Number := do
  let (n, excess) := absorb 0 whole
  let mut significand := n
  let mut exponent := Int.ofNat excess.length
  let mut plain := excess.isEmpty
  if (← peek) = some (ascii '.') then
    discard
    plain := false
    let fraction ← digits
    if fraction.isEmpty then
      throw (if (← peek).isNone then .truncated else .malformed)
    let (m, rest) := absorb significand fraction
    significand := m
    exponent := exponent - Int.ofNat (fraction.length - rest.length)
  let mark ← peek
  if mark = some (ascii 'e') ∨ mark = some (ascii 'E') then
    discard
    plain := false
    let (negative, ds) ← exponentPart
    let size := ds.foldl (fun acc d => acc * 10 + (d.toNat - 48)) 0
    exponent := if negative then exponent - Int.ofNat size else exponent + Int.ofNat size
  if plain then return if positive then .natural n else .other
  else if outOfRange significand exponent then throw .malformed
  else return .other

/-- A number after its sign. -/
def number (positive : Bool) : Reader Number := do
  match ← peek with
  | none => throw .truncated
  | some b =>
    if ¬ isDigit b then throw .malformed
    let whole ← digits
    if b = ascii '0' ∧ whole.length > 1 then throw .malformed
    numberTail positive whole

/-! ## Values of a certain kind -/

/-- Reads what is there instead of the value asked for: a value of another kind, unless its first
token is itself at fault. -/
def mismatch {α : Type} : Reader α := do
  let b ← needToken
  if b = ascii 'n' then discard; expect ['u', 'l', 'l']
  else if b = ascii 't' then discard; expect ['r', 'u', 'e']
  else if b = ascii 'f' then discard; expect ['a', 'l', 's', 'e']
  else if b = ascii '-' then discard; discardNumber false
  else if isDigit b then discardNumber true
  else if b = ascii '"' then discard; discardText
  else if b = ascii '[' ∨ b = ascii '\x7b' then pure ()
  else throw .malformed
  throw .mismatched
where
  discardNumber (positive : Bool) : Reader Unit := do let _ ← number positive
  discardText : Reader Unit := do let _ ← textString

def text : Reader String := do
  if (← needToken) = ascii '"' then discard; textString else mismatch

/-- A natural number up to `limit`. -/
def natural (limit : Nat) : Reader Nat := do
  let b ← needToken
  if b = ascii '-' ∨ isDigit b then
    let positive := b ≠ ascii '-'
    unless positive do discard
    match ← number positive with
    | .natural n => if n ≤ limit then return n else throw .mismatched
    | .other => throw .mismatched
  else mismatch

def boolean : Reader Bool := do
  let b ← needToken
  if b = ascii 't' then discard; expect ['r', 'u', 'e']; return true
  else if b = ascii 'f' then discard; expect ['a', 'l', 's', 'e']; return false
  else mismatch

/-- A value, or none for `null`. -/
def optional {α : Type} (value : Reader α) : Reader (Option α) := do
  if (← peekToken) = some (ascii 'n') then discard; expect ['u', 'l', 'l']; return none
  else return some (← value)

/-- Reads a whole text as one value. -/
def parse {α : Type} (value : Reader α) (b : Bytes) : Except Fault α := do
  let (v, rest) ← value b
  if (rest.dropWhile isSpace).isEmpty then return v else throw .malformed

end PubSub.Json
