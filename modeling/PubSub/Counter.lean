/-!
# Counters

A counter hands out numbers one after the other. After the last 64-bit number it starts again at
zero.
-/

namespace PubSub

structure Counter where
  next : UInt64 := 1
  deriving DecidableEq, Repr

namespace Counter

/-- The next number, and the counter after it. -/
def take (c : Counter) : UInt64 × Counter := (c.next, ⟨c.next + 1⟩)

/-- The next `n` numbers. -/
def takeMany (c : Counter) : Nat → List UInt64
  | 0 => []
  | n + 1 => c.take.1 :: c.take.2.takeMany n

end Counter

end PubSub
