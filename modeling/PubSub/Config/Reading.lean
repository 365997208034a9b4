import PubSub.Config.Settings
/-!
# Settings from values

Settings are three sections of named fields: `log`, `session` and `persistence`. They are taken from
values of any kind that can be seen as sections, limits and texts; a missing field has its default,
and a field that the settings do not know is passed over.
-/

namespace PubSub

/-- A section: fields by name, or in their order. -/
inductive Section (α : Type) where
  | named (fields : List (String × α))
  | listed (fields : List α)

/-- The field with this name, which is the one at this place. -/
def Section.field? {α : Type} (s : Section α) (place : Nat) (name : String) : Option α :=
  match s with
  | named fields => fields.lookup name
  | listed fields => fields[place]?

/-- How values are seen as what the settings consist of. -/
structure Reading (α : Type) where
  asSection? : α → Option (Section α)
  limit? : α → Option Nat
  text? : α → Option String

namespace Reading

variable {α : Type}

/-- A field of a section, or its default. -/
def field {β : Type} (read : α → Option β) (s : Section α) (place : Nat) (name : String) (default : β) : Option β :=
  match s.field? place name with
  | none => some default
  | some v => read v

/-- The settings in a value, if every field is of its kind. -/
def settings? (r : Reading α) (v : α) : Option Settings := do
  let root ← r.asSection? v
  let log ← field r.asSection? root 0 "log" (.named [])
  let session ← field r.asSection? root 1 "session" (.named [])
  let persistence ← field r.asSection? root 2 "persistence" (.named [])
  let defaults : Settings := {}
  return {
    level := ← field r.text? log 0 "level" defaults.level
    maxBestEffort := ← field r.limit? session 0 "max_inflight_qos0_messages" defaults.maxBestEffort
    maxGuaranteed := ← field r.limit? session 1 "max_inflight_qos1_messages" defaults.maxGuaranteed
    path := ← field r.text? persistence 0 "path" defaults.path }

end Reading

end PubSub
