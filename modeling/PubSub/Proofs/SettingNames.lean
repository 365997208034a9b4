import Mathlib
import PubSub.Config.Layers
/-!
# Settings by name

There are four settings. Each has its section, its name and its place there, the variable of the environment that gives
it, and a default. Reading settings from a value is reading each of them.
-/

namespace PubSub

inductive SettingName where
  | level
  | maxBestEffort
  | maxGuaranteed
  | path
  deriving DecidableEq, Repr

namespace SettingName

/-- The section that a setting is in. -/
def group : SettingName → String
  | level => "log"
  | maxBestEffort | maxGuaranteed => "session"
  | path => "persistence"

/-- The place of the section among the others. -/
def groupPlace : SettingName → Nat
  | level => 0
  | maxBestEffort | maxGuaranteed => 1
  | path => 2

/-- The name of a setting in its section. -/
def name : SettingName → String
  | level => "level"
  | maxBestEffort => "max_inflight_qos0_messages"
  | maxGuaranteed => "max_inflight_qos1_messages"
  | path => "path"

/-- The place of a setting in its section. -/
def place : SettingName → Nat
  | level | maxBestEffort | path => 0
  | maxGuaranteed => 1

/-- The variable of the environment that gives a setting. -/
def variableName : SettingName → String
  | level => "MQSESSION__LOG__LEVEL"
  | maxBestEffort => "MQSESSION__SESSION__MAX_INFLIGHT_QOS0_MESSAGES"
  | maxGuaranteed => "MQSESSION__SESSION__MAX_INFLIGHT_QOS1_MESSAGES"
  | path => "MQSESSION__PERSISTENCE__PATH"

/-- What a setting is if no layer gives it. -/
def default (k : SettingName) : Setting :=
  let s : Settings := {}
  match k with
  | level => .text s.level
  | maxBestEffort => .integer s.maxBestEffort
  | maxGuaranteed => .integer s.maxGuaranteed
  | path => .text s.path

/-- A setting is the same here and there. -/
def Same (k : SettingName) (s t : Settings) : Prop :=
  match k with
  | level => s.level = t.level
  | maxBestEffort => s.maxBestEffort = t.maxBestEffort
  | maxGuaranteed => s.maxGuaranteed = t.maxGuaranteed
  | path => s.path = t.path

end SettingName

namespace Reading

variable {α : Type} {r : Reading α} {k : SettingName} {v w : α} {s t : Settings}

/-- The settings have what a value comes to as this setting. -/
def Shows (r : Reading α) (k : SettingName) (v : α) (s : Settings) : Prop :=
  match k with
  | .level => r.text? v = some s.level
  | .maxBestEffort => r.limit? v = some s.maxBestEffort
  | .maxGuaranteed => r.limit? v = some s.maxGuaranteed
  | .path => r.text? v = some s.path

/-- The settings have what a section holds as this setting, or the default if it holds nothing. -/
def ShowsField (r : Reading α) (k : SettingName) (fields : Section α) (s : Settings) : Prop :=
  match fields.field? k.place k.name with
  | none => k.Same s {}
  | some v => r.Shows k v s

/-- The settings have what is found for this setting in a value. -/
def Finds (r : Reading α) (k : SettingName) (v : α) (s : Settings) : Prop :=
  ∃ root fields, r.asSection? v = some root ∧
    field r.asSection? root k.groupPlace k.group (.named []) = some fields ∧ r.ShowsField k fields s

theorem Shows.same (h : r.Shows k v s) (h' : r.Shows k v t) : k.Same s t := by
  cases k <;> exact Option.some.inj (h.symm.trans h')

theorem Finds.same (h : r.Finds k v s) (h' : r.Finds k v t) : k.Same s t := by
  obtain ⟨root, fields, hroot, hfields, hshows⟩ := h
  obtain ⟨root', fields', hroot', hfields', hshows'⟩ := h'
  obtain rfl := Option.some.inj (hroot.symm.trans hroot')
  obtain rfl := Option.some.inj (hfields.symm.trans hfields')
  unfold ShowsField at hshows hshows'
  cases hfield : fields.field? k.place k.name with
  | none =>
    rw [hfield] at hshows hshows'
    cases k <;> exact Eq.trans hshows (Eq.symm hshows')
  | some v =>
    rw [hfield] at hshows hshows'
    exact hshows.same hshows'

theorem shows_default : Setting.reading.Shows k k.default s ↔ k.Same s {} := by
  cases k <;>
    simp [Shows, SettingName.Same, SettingName.default, Setting.reading, Setting.text?, Setting.limit?, eq_comm]

theorem field_named {β : Type} {read : α → Option β} {fields : List (String × α)} {place : Nat} {name : String}
    {default : β} (h : fields.lookup name = some v) : field read (.named fields) place name default = read v := by
  rw [field, Section.field?, h]

theorem field_eq_some_iff {β : Type} {read : α → Option β} {fields : Section α} {place : Nat} {name : String}
    {default x : β} : field read fields place name default = some x ↔
      match fields.field? place name with
      | none => x = default
      | some v => read v = some x := by
  rw [field]
  cases fields.field? place name with
  | none => exact Option.some.injEq default x ▸ eq_comm
  | some v => exact Iff.rfl

/-- Settings are read exactly if each of them is found. -/
theorem settings?_eq_some_iff : r.settings? v = some s ↔ ∀ k, r.Finds k v s := by
  simp only [settings?, Option.bind_eq_bind, Option.bind_eq_some_iff, Option.pure_def, Option.some.injEq]
  constructor
  · rintro ⟨root, hroot, log, hlog, session, hsession, persistence, hpersistence, level, hlevel, best, hbest,
      guaranteed, hguaranteed, path, hpath, rfl⟩ k
    cases k with
    | level => exact ⟨root, log, hroot, hlog, field_eq_some_iff.1 hlevel⟩
    | maxBestEffort => exact ⟨root, session, hroot, hsession, field_eq_some_iff.1 hbest⟩
    | maxGuaranteed => exact ⟨root, session, hroot, hsession, field_eq_some_iff.1 hguaranteed⟩
    | path => exact ⟨root, persistence, hroot, hpersistence, field_eq_some_iff.1 hpath⟩
  · intro h
    obtain ⟨root, log, hroot, hlog, hlevel⟩ := h .level
    obtain ⟨root', session, hroot', hsession, hbest⟩ := h .maxBestEffort
    obtain rfl := Option.some.inj (hroot.symm.trans hroot')
    obtain ⟨root', session', hroot', hsession', hguaranteed⟩ := h .maxGuaranteed
    obtain rfl := Option.some.inj (hroot.symm.trans hroot')
    obtain rfl := Option.some.inj (hsession.symm.trans hsession')
    obtain ⟨root', persistence, hroot', hpersistence, hpath⟩ := h .path
    obtain rfl := Option.some.inj (hroot.symm.trans hroot')
    exact ⟨root, hroot, log, hlog, session, hsession, persistence, hpersistence, s.level, field_eq_some_iff.2 hlevel,
      s.maxBestEffort, field_eq_some_iff.2 hbest, s.maxGuaranteed, field_eq_some_iff.2 hguaranteed,
      s.path, field_eq_some_iff.2 hpath, rfl⟩

end Reading

end PubSub
