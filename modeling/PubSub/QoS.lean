/-!
# Delivery classes

A quality of service is one of three levels. They are ordered by strength, and a message is
delivered at the highest level among the subscriptions that match it.
-/

namespace PubSub

/-- How hard the broker tries to deliver a message. -/
inductive QoS where
  | atMostOnce
  | atLeastOnce
  | exactlyOnce
  deriving DecidableEq, Repr

/-- A number that names no delivery class. -/
structure InvalidQoS where
  value : Nat
  deriving DecidableEq, Repr

def InvalidQoS.message (e : InvalidQoS) : String := s!"Invalid QoS: {e.value}"

namespace QoS

def toNat : QoS → Nat
  | atMostOnce => 0
  | atLeastOnce => 1
  | exactlyOnce => 2

def ofNat? : Nat → Option QoS
  | 0 => some atMostOnce
  | 1 => some atLeastOnce
  | 2 => some exactlyOnce
  | _ => none

/-- Reads a level, keeping the number that names none. -/
def fromCode (n : Nat) : Except InvalidQoS QoS :=
  match ofNat? n with
  | some q => .ok q
  | none => .error ⟨n⟩

def name : QoS → String
  | atMostOnce => "AtMostOnce"
  | atLeastOnce => "AtLeastOnce"
  | exactlyOnce => "ExactlyOnce"

/-- Everything above best effort has to be acknowledged. -/
def isGuaranteed (q : QoS) : Bool := q != atMostOnce

instance : Max QoS where
  max a b := if a.toNat ≤ b.toNat then b else a

/-- The strongest level of a list, none for an empty one. -/
def highest : List QoS → Option QoS
  | [] => none
  | q :: qs => some (qs.foldl max q)

theorem toNat_injective {a b : QoS} (h : a.toNat = b.toNat) : a = b := by
  cases a <;> cases b <;> simp_all [toNat]

theorem ofNat?_toNat (q : QoS) : ofNat? q.toNat = some q := by cases q <;> rfl

theorem toNat_of_ofNat? {n : Nat} {q : QoS} (h : ofNat? n = some q) : q.toNat = n := by
  unfold ofNat? at h
  split at h <;> simp_all [toNat] <;> subst h <;> rfl

theorem toNat_lt (q : QoS) : q.toNat < 3 := by cases q <;> decide

end QoS

end PubSub
