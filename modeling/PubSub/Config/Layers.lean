import PubSub.Config.KeyPath
import PubSub.Config.Environment
import PubSub.Toml.Document
/-!
# Layers of settings

Settings come from the defaults, a document and the environment, each laid over the ones before.
-/

namespace PubSub

/-- The first key of a table that stands for a date or a time, with its text as the value. -/
def datetimeKey : String := "$__toml_private_datetime"

/-- Whether a table stands for a date or a time. -/
def isDatetime (entries : List (String × Toml.Value)) : Bool := (entries.head?.map (·.1)) = some datetimeKey

/-- The date or time that a table stands for; its other entries do not count. -/
def datetimeOf? : List (String × Toml.Value) → Option Toml.Datetime
  | (_, .text s) :: _ => Toml.Datetime.ofText? s
  | _ => none

mutual

/-- A value of a document as a setting. Dates and times become texts. -/
def Setting.ofToml? : Toml.Value → Option Setting
  | .text s => some (.text s)
  | .integer n => some (.integer n)
  | .float x => some (.float x)
  | .boolean b => some (.boolean b)
  | .datetime d => some (.text d.text)
  | .array _ items => (listOfToml? items).map .list
  | .table _ entries =>
    if isDatetime entries then (datetimeOf? entries).map fun d => .text d.text
    else (groupOfToml? entries).map .group

def Setting.listOfToml? : List Toml.Value → Option (List Setting)
  | [] => some []
  | v :: rest => do return (← ofToml? v) :: (← listOfToml? rest)

def Setting.groupOfToml? : List (String × Toml.Value) → Option (List (String × Setting))
  | [] => some []
  | (name, v) :: rest => do return (name, ← ofToml? v) :: (← groupOfToml? rest)

end

namespace Layer

/-- The lowest layer. -/
def defaults : List (String × Setting) :=
  let s : Settings := {}
  [("log.level", .text s.level),
    ("session.max_inflight_qos0_messages", .integer s.maxBestEffort),
    ("session.max_inflight_qos1_messages", .integer s.maxGuaranteed),
    ("persistence.path", .text s.path)]

/-- The layer of a document, which has to be a group. -/
def ofDocument? (v : Toml.Value) : Option (List (String × Setting)) :=
  match Setting.ofToml? v with
  | some (.group members) => some members
  | _ => none

/-- The start of the names of variables that are settings. -/
def variableStart : String := "mqsession__"

/-- Two underscores in the name of a variable stand for a point in a key. -/
def dotted : List Char → List Char
  | [] => []
  | '_' :: '_' :: rest => '.' :: dotted rest
  | c :: rest => c :: dotted rest

/-- The key of the setting that a variable gives, the case of its letters aside. -/
def keyOf? (name : String) : Option String :=
  let cs := (lowerCase name).toList
  if variableStart.toList.isPrefixOf cs then
    some (String.ofList (dotted (cs.drop variableStart.length)))
  else none

/-- The layer of the environment. -/
def ofEnvironment (env : Environment) : List (String × Setting) :=
  env.entries.filterMap fun e => (keyOf? e.1).map fun key => (key, Setting.ofVariable e.2)

end Layer

end PubSub
