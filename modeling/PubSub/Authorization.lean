/-!
# Authorization

The broker decides no permissions itself. Its callers pass a predicate that says whether an action
on a topic is allowed.
-/

namespace PubSub

inductive Action where
  | publish
  | subscribe
  deriving DecidableEq, Repr

def Action.name : Action → String
  | publish => "publish"
  | subscribe => "subscribe"

/-- Says whether an action on a topic is allowed. -/
abbrev Authorize := Action → String → Bool

end PubSub
