import PubSub.Number.Word
import PubSub.Toml.Text
/-!
# TOML numbers

Integers of 64 bits, in tens or to the bases sixteen, eight and two, and floating-point numbers.
Single underscores may stand between digits.
-/

namespace PubSub.Toml

inductive Number where
  | integer (n : Int)
  | float (x : Binary64)
  deriving DecidableEq, Repr

/-- Digits after the first one: the digits alone, and what follows them. -/
def moreDigits (p : Char → Bool) : List Char → List Char × List Char
  | [] => ([], [])
  | '_' :: d :: rest =>
    if p d then
      let (ds, after) := moreDigits p rest
      (d :: ds, after)
    else ([], '_' :: d :: rest)
  | d :: rest =>
    if p d then
      let (ds, after) := moreDigits p rest
      (d :: ds, after)
    else ([], d :: rest)

/-- One digit or more. -/
def digits (p : Char → Bool) : Reader (List Char) := fun cs =>
  match cs with
  | d :: rest =>
    if p d then
      let (ds, after) := moreDigits p rest
      some (d :: ds, after)
    else none
  | [] => none

/-- An integer, which has to fit 64 bits. -/
def integer (n : Int) : Reader Number := do
  guard (isSignedWord n)
  return .integer n

/-- The base that a letter after a zero stands for. -/
def base? (c : Char) : Option Nat :=
  match c with
  | 'x' => some 16
  | 'o' => some 8
  | 'b' => some 2
  | _ => none

/-- Whether a character is a digit to a base. -/
def isDigitIn (base : Nat) (c : Char) : Bool := (hexDigit? c).any (· < base)

/-- A sign, if there is one, and whether it is a minus. -/
def sign : Reader Bool := fun cs => some (splitSign cs)

def exponent : Reader (Option Int) := do
  let mark ← peek
  if mark = some 'e' ∨ mark = some 'E' then
    discard
    let negative ← sign
    let n := Int.ofNat (digitsValue (← digits isDigit))
    return some (if negative then -n else n)
  else return none

/-- A number in tens after its sign. A zero stands in front of no other digit of the whole part, and
a number too great for the format is none, unless it is negative. -/
def decimal (negative : Bool) : Reader Number := do
  let whole ← digits isDigit
  guard (whole.head? = some '0' → whole.length = 1)
  let fraction ← if ← passed '.' then some <$> digits isDigit else pure none
  let e ← exponent
  if fraction = none ∧ e = none then
    let n := Int.ofNat (digitsValue whole)
    integer (if negative then -n else n)
  else
    let fraction := fraction.getD []
    let x := Binary64.ofDecimal negative (digitsValue (whole ++ fraction)) (e.getD 0 - Int.ofNat fraction.length)
    guard (x ≠ .infinite false)
    return .float x

def number : Reader Number := fun cs =>
  match cs with
  | '0' :: c :: rest =>
    match base? c with
    | some base => (do integer (numeral base (← digits (isDigitIn base))) : Reader Number) rest
    | none => decimal false cs
  | _ => (do
    let negative ← sign
    match ← peek with
    | some 'i' => expect ['i', 'n', 'f']; return .float (.infinite negative)
    | some 'n' => expect ['n', 'a', 'n']; return .float .nan
    | _ => decimal negative : Reader Number) cs

end PubSub.Toml
