/-!
# Settings

What a broker is configured with: the log level, how much each session may hold back, and where its
data lives.
-/

namespace PubSub

/-- How much is logged. -/
inductive LevelFilter where
  | off
  | error
  | warn
  | info
  | debug
  | trace
  deriving DecidableEq, Repr

namespace LevelFilter

def name : LevelFilter → String
  | off => "OFF"
  | error => "ERROR"
  | warn => "WARN"
  | info => "INFO"
  | debug => "DEBUG"
  | trace => "TRACE"

def all : List LevelFilter := [off, error, warn, info, debug, trace]

/-- The level of a name in any mixture of ASCII cases. -/
def ofName? (s : String) : Option LevelFilter :=
  all.find? fun l => l.name.toList = s.toList.map Char.toUpper

end LevelFilter

structure Settings where
  level : String := "info"
  /-- Capacity of a session's best-effort queue. -/
  maxBestEffort : Nat := 100
  /-- How many guaranteed messages may be out without an acknowledgement. -/
  maxGuaranteed : Nat := 20
  path : String := "./data"
  deriving DecidableEq, Repr

/-- What makes settings unusable. -/
inductive SettingsFlaw where
  | unknownLevel (level : String)
  | noBestEffort
  | noGuaranteed
  | emptyPath
  deriving DecidableEq, Repr

def SettingsFlaw.message : SettingsFlaw → String
  | unknownLevel level => s!"unknown log level '{level}'"
  | noBestEffort => "max_inflight_qos0_messages must be at least 1"
  | noGuaranteed => "max_inflight_qos1_messages must be at least 1"
  | emptyPath => "persistence.path is empty"

namespace Settings

def levelFilter? (s : Settings) : Option LevelFilter := LevelFilter.ofName? s.level

def levelFlaw (s : Settings) : Option SettingsFlaw :=
  if s.levelFilter?.isNone then some (.unknownLevel s.level) else none

def limitFlaw (s : Settings) : Option SettingsFlaw :=
  if s.maxBestEffort = 0 then some .noBestEffort
  else if s.maxGuaranteed = 0 then some .noGuaranteed
  else none

/-- The first flaw, of the level, the limits and the path in this order. -/
def flaw (s : Settings) : Option SettingsFlaw :=
  s.levelFlaw <|> s.limitFlaw <|> if s.path = "" then some .emptyPath else none

end Settings

/-- Why a configuration was not accepted. -/
inductive ConfigError where
  | unreadable (reason : String)
  | notLoaded (reason : String)
  | notToml (reason : String)
  | invalid (reason : String)
  deriving DecidableEq, Repr

def ConfigError.message : ConfigError → String
  | unreadable reason => "cannot read config file: " ++ reason
  | notLoaded reason => "cannot load config: " ++ reason
  | notToml reason => "cannot parse TOML: " ++ reason
  | invalid reason => "invalid config: " ++ reason

def Settings.check (s : Settings) : Except ConfigError Settings :=
  match s.flaw with
  | none => .ok s
  | some f => .error (.invalid f.message)

namespace Settings

variable {s t : Settings}

theorem check_of_flaw_none (h : s.flaw = none) : s.check = .ok s := by
  rw [check, h]

theorem check_of_flaw_some {f : SettingsFlaw} (h : s.flaw = some f) : s.check = .error (.invalid f.message) := by
  rw [check, h]

theorem check_eq_ok_iff : s.check = .ok t ↔ s = t ∧ t.flaw = none := by
  constructor
  · intro h
    cases hflaw : s.flaw with
    | none =>
      obtain rfl := Except.ok.inj ((check_of_flaw_none hflaw).symm.trans h)
      exact ⟨rfl, hflaw⟩
    | some f => exact absurd ((check_of_flaw_some hflaw).symm.trans h) nofun
  · rintro ⟨rfl, hflaw⟩
    exact check_of_flaw_none hflaw

end Settings

end PubSub
