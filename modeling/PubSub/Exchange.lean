import PubSub.Data.OrderedMap
import PubSub.Topic.Filter
/-!
# The exchange

Which sessions want messages under which filters. A binding ties a filter and a client id to one
session; a filter is bound once for each client id, and only the session that a binding is tied to
can remove it. By filters the bindings make a `Table`.
-/

namespace PubSub

/-- The number of a session among those a broker has made. -/
abbrev SessionRef := Nat

structure Binding where
  filter : String
  id : String
  session : SessionRef
  deriving DecidableEq, Repr

/-- Something asked of the exchange. -/
inductive ExchangeCall where
  | bind (filter id : String)
  | unbind (filter id : String)
  deriving DecidableEq, Repr

/-- The bindings, and all that was asked of the exchange. -/
structure Exchange where
  bindings : List Binding := []
  calls : List ExchangeCall := []
  deriving DecidableEq, Repr

namespace Exchange

/-- The session bound to a filter under a client id. -/
def bound? (x : Exchange) (filter id : String) : Option SessionRef :=
  (x.bindings.find? fun b => b.filter = filter ∧ b.id = id).map (·.session)

/-- Binds a filter under a client id, in place of an earlier binding. -/
def bind (x : Exchange) (filter id : String) (session : SessionRef) : Exchange where
  calls := x.calls ++ [.bind filter id]
  bindings :=
    if (x.bound? filter id).isSome then
      x.bindings.map fun b => if b.filter = filter ∧ b.id = id then { b with session } else b
    else x.bindings ++ [⟨filter, id, session⟩]

/-- Removes a binding if it is tied to this very session. -/
def unbind (x : Exchange) (filter id : String) (session : SessionRef) : Exchange where
  calls := x.calls ++ [.unbind filter id]
  bindings := x.bindings.filter fun b => ¬ (b.filter = filter ∧ b.id = id ∧ b.session = session)

def bindAll (x : Exchange) (filters : List String) (id : String) (session : SessionRef) : Exchange :=
  filters.foldl (fun x f => x.bind f id session) x

def unbindAll (x : Exchange) (filters : List String) (id : String) (session : SessionRef) : Exchange :=
  filters.foldl (fun x f => x.unbind f id session) x

/-- One binding for each client id with a filter that covers the topic. -/
def targets (x : Exchange) (topic : String) : List Binding :=
  x.bindings.foldl (fun found b =>
    if Topic.matchesFilter topic b.filter ∧ found.all (·.id ≠ b.id) then found ++ [b] else found) []

/-- The filters that are bound, each once. -/
def filters (x : Exchange) : List String := (x.bindings.map (·.filter)).eraseDups

def isBound (x : Exchange) (filter id : String) : Bool := (x.bound? filter id).isSome

/-! ## By filters -/

/-- For each filter that is bound the sessions bound to it, by client id. -/
abbrev Table := OrderedMap String (OrderedMap String SessionRef)

namespace Table

def bound? (t : Table) (filter id : String) : Option SessionRef := (t.get? filter).bind (·.get? id)

def bind (t : Table) (filter id : String) (session : SessionRef) : Table :=
  t.insert filter (((t.get? filter).getD .empty).insert id session)

/-- Removes a binding if it is tied to this very session, and with its last binding the filter. -/
def unbind (t : Table) (filter id : String) (session : SessionRef) : Table :=
  match t.get? filter with
  | none => t
  | some sessions =>
    if sessions.get? id = some session then
      if (sessions.erase id).isEmpty then t.erase filter else t.insert filter (sessions.erase id)
    else t

end Table

/-- The table of an exchange. -/
def table (x : Exchange) : Table := x.bindings.foldl (fun t b => t.bind b.filter b.id b.session) .empty

end Exchange

end PubSub
