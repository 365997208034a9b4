import PubSub.Config.Layers
import PubSub.Config.Placeholder
import PubSub.Text.Utf8
/-!
# Loading settings

A text is read as it stands, with every value of its proper kind. A file is one layer between the
defaults and the environment, and its values are converted. Either way placeholders are expanded
first and the settings are checked at last.
-/

namespace PubSub

namespace Toml.Value

def limit? : Value → Option Nat
  | integer n => if 0 ≤ n then some n.toNat else none
  | _ => none

def text? : Value → Option String
  | text s => some s
  | _ => none

/-- A value as a section. A date counts as a section in which nothing is set. -/
def asSection? : Value → Option (Section Value)
  | table _ entries => some (.named entries)
  | array _ items => some (.listed items)
  | datetime _ => some (.named [])
  | _ => none

/-- Settings from a document, converted from nothing. -/
def reading : Reading Value := { asSection?, limit?, text? }

end Toml.Value

namespace Settings

/-- The document in a text whose placeholders are expanded. -/
def document? (s : String) (env : Environment) : Option Toml.Value := Toml.parse? (Placeholder.expand env s)

/-- The settings that a text gives. -/
def parse (s : String) (env : Environment) : Except ConfigError Settings :=
  match (document? s env).bind Toml.Value.reading.settings? with
  | some settings => settings.check
  | none => .error (.notToml "no settings")

/-- The layer of a configuration file; without a file there is nothing in it. -/
def fileLayer (file : Option Bytes) (env : Environment) : Except ConfigError (List (String × Setting)) :=
  match file with
  | none => .ok []
  | some b =>
    match Text.ofBytes? b with
    | none => .error (.unreadable "stream did not contain valid UTF-8")
    | some s =>
      match (document? s env).bind Layer.ofDocument? with
      | some layer => .ok layer
      | none => .error (.notLoaded "not TOML")

/-- All layers, one laid over the other. -/
def layered (file : List (String × Setting)) (env : Environment) : Setting :=
  (((Setting.group []).overlay Layer.defaults).overlay file).overlay (Layer.ofEnvironment env)

/-- The settings that a file and the environment give. -/
def load (file : Option Bytes) (env : Environment) : Except ConfigError Settings := do
  let layer ← fileLayer file env
  match Setting.reading.settings? (layered layer env) with
  | some settings => settings.check
  | none => .error (.notLoaded "no settings")

end Settings

end PubSub
