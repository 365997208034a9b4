/-!
# Words of 64 bits

Which whole numbers fit a word, without a sign and with one.
-/

namespace PubSub

/-- The greatest number in a word without a sign. -/
def maxWord : Nat := UInt64.size - 1

/-- Whether a number fits a word with a sign. -/
def isSignedWord (n : Int) : Bool := -9223372036854775808 ≤ n ∧ n ≤ 9223372036854775807

end PubSub
