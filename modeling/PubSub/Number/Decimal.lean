import PubSub.Number.Binary64
/-!
# Decimal text

Numbers are written with the fewest digits that read back as the same value, and among those the
nearest ones, up in the middle. They are always written out in full, without an exponent.
-/

namespace PubSub

/-! ## Reading -/

/-- The number of a string of digits. -/
def digitsValue (ds : List Char) : Nat := ds.foldl (fun n c => n * 10 + (c.toNat - 48)) 0

def isDigit (c : Char) : Bool := '0' ≤ c ∧ c ≤ '9'

/-- A sign in front of a text: whether it is a minus, and what comes after it. -/
def splitSign : List Char → Bool × List Char
  | '-' :: rest => (true, rest)
  | '+' :: rest => (false, rest)
  | cs => (false, cs)

/-- The exponent at the end of a number, zero for none. -/
def exponent? : List Char → Option Int
  | [] => some 0
  | e :: rest =>
    let (negative, ds) := splitSign rest
    if (e = 'e' ∨ e = 'E') ∧ ds ≠ [] ∧ ds.all isDigit then
      some (if negative then -Int.ofNat (digitsValue ds) else Int.ofNat (digitsValue ds))
    else none

/-- Reads a number: a sign, digits with a point somewhere, an exponent; or the name of a value that
is no finite number, in any case. -/
def Binary64.ofText? (cs : List Char) : Option Binary64 :=
  let (negative, cs) := splitSign cs
  let name := cs.map Char.toLower
  if name = "inf".toList ∨ name = "infinity".toList then some (.infinite negative)
  else if name = "nan".toList then some .nan
  else
    let whole := cs.takeWhile isDigit
    let rest := cs.dropWhile isDigit
    let (fraction, rest) := match rest with
      | '.' :: rest => (rest.takeWhile isDigit, rest.dropWhile isDigit)
      | rest => ([], rest)
    if whole = [] ∧ fraction = [] then none
    else (exponent? rest).map fun e =>
      ofDecimal negative (digitsValue (whole ++ fraction)) (e - Int.ofNat fraction.length)

/-! ## Writing -/

/-- The decimals that read back as m · 2^q, as fractions over one denominator: the value itself, the
lower and the upper end, and whether the ends belong to them. -/
structure Readback where
  value : Nat
  low : Nat
  high : Nat
  closed : Bool
  den : Nat

/-- The interval of the value: half a unit on each side, a quarter below where the unit changes. -/
def readback (m : Nat) (q : Int) : Readback :=
  let below := if m = Nat.pow 2 52 ∧ Binary64.minExponent < q then 1 else 2
  let e := q - 2
  let scale := if 0 ≤ e then Nat.pow 2 e.toNat else 1
  { value := 4 * m * scale
    low := (4 * m - below) * scale
    high := (4 * m + 2) * scale
    closed := m % 2 = 0
    den := if 0 ≤ e then 1 else Nat.pow 2 (-e).toNat }

/-- Whether a decimal, over the same denominator, reads back as the value. -/
def Readback.contains (r : Readback) (x : Nat) : Bool :=
  if r.closed then r.low ≤ x ∧ x ≤ r.high else r.low < x ∧ x < r.high

/-- The interval with everything multiplied by ten to the power. -/
def Readback.scaled (r : Readback) (power : Nat) : Readback :=
  let factor := Nat.pow 10 power
  { r with value := r.value * factor, low := r.low * factor, high := r.high * factor }

/-- The multiple of ten to the exponent that is nearest to the value and reads back, if there is
one: of two that do, the upper one in the middle. -/
def Readback.multiple? (r : Readback) (exponent : Int) : Option Nat :=
  let r := if exponent < 0 then r.scaled (-exponent).toNat else r
  let unit := r.den * Nat.pow 10 exponent.toNat
  let c := r.value / unit
  let down := 0 < c ∧ r.contains (c * unit)
  let up := r.contains ((c + 1) * unit)
  if down ∧ up then some (if 2 * (r.value - c * unit) < unit then c else c + 1)
  else if down then some c
  else if up then some (c + 1)
  else none

/-- The first exponent, from `top` down, with a multiple that reads back. -/
def Readback.shortest (r : Readback) (top : Int) : Nat → Nat × Int
  | 0 => (0, 0)
  | steps + 1 =>
    match r.multiple? top with
    | some c => (c, top)
    | none => r.shortest (top - 1) steps

/-- The fewest digits that read back as m · 2^q, and the exponent of the last one. -/
def shortestDigits (m : Nat) (q : Int) : Nat × Int := (readback m q).shortest 309 660

/-- Digits times ten to the exponent, written out. -/
def positional (digits : Nat) (exponent : Int) : List Char :=
  let ds := Nat.toDigits 10 digits
  if 0 ≤ exponent then ds ++ List.replicate exponent.toNat '0'
  else
    let places := (-exponent).toNat
    if places < ds.length then ds.take (ds.length - places) ++ '.' :: ds.drop (ds.length - places)
    else '0' :: '.' :: List.replicate (places - ds.length) '0' ++ ds

def Binary64.text : Binary64 → String
  | nan => "NaN"
  | infinite negative => if negative then "-inf" else "inf"
  | finite negative m q =>
    let sign := if negative then ['-'] else []
    let (digits, exponent) := if m = 0 then (0, 0) else shortestDigits m q
    String.ofList (sign ++ positional digits exponent)

end PubSub
