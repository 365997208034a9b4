/-!
# Binary floating-point numbers

The values of the 64-bit binary format as exact numbers: a significand below 2^53 times a power of
two. A decimal is read as the nearest value, an even one when two are equally near.
-/

namespace PubSub

inductive Binary64 where
  | nan
  | infinite (negative : Bool)
  | finite (negative : Bool) (m : Nat) (q : Int)
  deriving DecidableEq, Repr

namespace Binary64

/-- The least exponent of the format. -/
def minExponent : Int := -1074

/-- The greatest exponent of the format. -/
def maxExponent : Int := 971

/-- The quotient rounded to the nearest integer, to the even one in the middle. -/
def roundDiv (num den : Nat) : Nat :=
  let low := num / den
  let rem := num % den
  if 2 * rem > den ∨ (2 * rem = den ∧ low % 2 = 1) then low + 1 else low

/-- A fraction divided by a power of two, as a fraction. -/
def shifted (num den : Nat) (q : Int) : Nat × Nat :=
  if 0 ≤ q then (num, den * Nat.pow 2 q.toNat) else (num * Nat.pow 2 (-q).toNat, den)

/-- The value nearest to a fraction. -/
def ofFraction (negative : Bool) (num den : Nat) : Binary64 :=
  if num = 0 then finite negative 0 minExponent
  else
    let guess := max (Int.ofNat num.log2 - Int.ofNat den.log2 - 53) minExponent
    let (n, d) := shifted num den guess
    let q := if Nat.pow 2 53 ≤ n / d then guess + 1 else guess
    let (n, d) := shifted num den q
    let m := roundDiv n d
    let (m, q) := if m = Nat.pow 2 53 then (Nat.pow 2 52, q + 1) else (m, q)
    if maxExponent < q then infinite negative else finite negative m q

/-- The value nearest to `digits` times ten to the exponent. Exponents far outside the format's
range are decided without computing the power. -/
def ofDecimal (negative : Bool) (digits : Nat) (exponent : Int) : Binary64 :=
  let size : Int := Int.ofNat (Nat.toDigits 10 digits).length + exponent
  if digits = 0 ∨ size < -330 then finite negative 0 minExponent
  else if 310 < size then infinite negative
  else if 0 ≤ exponent then ofFraction negative (digits * Nat.pow 10 exponent.toNat) 1
  else ofFraction negative digits (Nat.pow 10 (-exponent).toNat)

/-- The natural number nearest to the value, up in the middle, and kept between 0 and `limit`. -/
def toNatClamped (limit : Nat) : Binary64 → Nat
  | nan => 0
  | infinite negative => if negative then 0 else limit
  | finite negative m q =>
    if negative then 0
    else if 0 ≤ q then min limit (m * Nat.pow 2 q.toNat)
    else min limit ((2 * m + Nat.pow 2 (-q).toNat) / (2 * Nat.pow 2 (-q).toNat))

end Binary64

end PubSub
