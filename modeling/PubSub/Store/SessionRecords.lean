import PubSub.Session.Info
import PubSub.Store.Bucket
/-!
# Session records

Each session that is not clean has one record under its client id. The key a record is found under
is the session's id, whatever the record says.
-/

namespace PubSub.SessionRecords

def save (k : Keyspace) (id : String) (info : Info) : Keyspace := k.insert (Text.bytes id) info.encode

def remove (k : Keyspace) (id : String) : Keyspace := k.erase (Text.bytes id)

/-- The record of a session, none where there is none. -/
def get (k : Keyspace) (id : String) : Except StoreError (Option Info) :=
  match OrderedMap.get? k (Text.bytes id) with
  | none => .ok none
  | some record =>
    match Info.decode record with
    | .ok info => .ok (some info)
    | .error f => .error (.notDecoded f.message)

/-- The session under one key, if its record can be read under the text of the key. -/
def load (k : Keyspace) (key : Bytes) : Option (Except Notice Info) :=
  let id := Text.lossy key
  match get k id with
  | .ok none => none
  | .ok (some info) => some (.ok { info with id, clean := false })
  | .error e => some (.error (.sessionNotLoaded id e))

/-- Every session with a readable record, in key order, and a notice for each that has none. -/
def loadAll (k : Keyspace) : List Info × List Notice :=
  let found := k.keys.filterMap (load k)
  let infos := found.filterMap fun r => match r with
    | .ok info => some info
    | .error _ => none
  let faults := found.filterMap fun r => match r with
    | .ok _ => none
    | .error n => some n
  (infos, faults ++ [.sessionsLoaded infos.length])

end PubSub.SessionRecords
