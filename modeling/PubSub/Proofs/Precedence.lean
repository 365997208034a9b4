import Mathlib
import PubSub.Proofs.Figures
import PubSub.Proofs.Maps
import PubSub.Proofs.SettingLayers
/-!
# Which layer a setting comes from

The environment over the file, the file over the defaults, for each setting on its own.
-/

namespace PubSub

namespace Setting

theorem isValue_ofVariable (s : String) : (ofVariable s).IsValue := by
  intro ms
  unfold ofVariable
  split_ifs
  · nofun
  · nofun
  · split
    · nofun
    · split <;> nofun

end Setting

namespace SettingName

variable {k : SettingName} {env : Environment} {e : String × Setting} {v : Setting}

/-- The name of a variable has nothing to do with a setting: it is no key, or one of another group or of
another setting of the group. -/
def Apart (k : SettingName) (name : String) : Prop :=
  ∀ key, Layer.keyOf? name = some key → (keyPath (lowerCase key)).1 ≠ k.group ∨
    ∃ other rest, keyPath (lowerCase key) = (k.group, .member other :: rest) ∧ other ≠ k.name

/-- No other variable has to do with a setting. -/
def Alone (k : SettingName) (env : Environment) : Prop := ∀ name ∈ env.keys, name ≠ k.variableName → k.Apart name

theorem Alone.of_keyOf? (h : ∀ name ∈ env.keys, name ≠ k.variableName → Layer.keyOf? name = none) : k.Alone env :=
  fun name hname hother _ hkey => absurd ((h name hname hother).symm.trans hkey) nofun

theorem keyOf?_variableName (k : SettingName) : ∃ key, Layer.keyOf? k.variableName = some key ∧
    keyPath (lowerCase key) = (k.group, [.member k.name]) := by
  cases k with
  | level => exact ⟨"log.level", by decide +kernel, by decide +kernel⟩
  | maxBestEffort => exact ⟨"session.max_inflight_qos0_messages", by decide +kernel, by decide +kernel⟩
  | maxGuaranteed => exact ⟨"session.max_inflight_qos1_messages", by decide +kernel, by decide +kernel⟩
  | path => exact ⟨"persistence.path", by decide +kernel, by decide +kernel⟩

theorem Apart.spares {name key : String} (h : k.Apart name) (hkey : Layer.keyOf? name = some key) :
    k.Spares (key, v) := by
  obtain hother | ⟨other, rest, hpath, hother⟩ := h key hkey
  · exact .elsewhere hother
  · exact .beside hpath hother

theorem Apart.ne_path {name key : String} (h : k.Apart name) (hkey : Layer.keyOf? name = some key) :
    keyPath (lowerCase key) ≠ (k.group, [.member k.name]) := by
  intro hpath
  obtain hother | ⟨other, rest, hpath', hother⟩ := h key hkey
  · exact hother (by rw [hpath])
  · rw [hpath'] at hpath
    simp_all

/-- A value that is no group can be given by its path only. -/
theorem Gives.of_isValue {w : Setting} (h : k.Gives e w) (hv : e.2.IsValue) :
    keyPath (lowerCase e.1) = (k.group, [.member k.name]) ∧ w = e.2 := by
  cases h with
  | direct hpath => exact ⟨hpath, rfl⟩
  | within => exact absurd rfl (hv _)

theorem mem_ofEnvironment : e ∈ Layer.ofEnvironment env ↔ ∃ name s, env.get? name = some s ∧
    Layer.keyOf? name = some e.1 ∧ e.2 = Setting.ofVariable s := by
  simp only [Layer.ofEnvironment, List.mem_filterMap, Option.map_eq_some_iff, OrderedMap.get?_eq_some_iff]
  constructor
  · rintro ⟨⟨name, s⟩, hmem, key, hkey, rfl⟩
    exact ⟨name, s, hmem, hkey, rfl⟩
  · rintro ⟨name, s, hmem, hkey, hv⟩
    exact ⟨(name, s), hmem, e.1, hkey, Prod.ext rfl hv.symm⟩

section Environment

variable (halone : k.Alone env)
include halone

theorem spares_ofEnvironment (he : e ∈ Layer.ofEnvironment env) : k.Spares e := by
  obtain ⟨name, s, hs, hkey, hv⟩ := mem_ofEnvironment.1 he
  by_cases hname : name = k.variableName
  · obtain ⟨own, hown, hpath⟩ := k.keyOf?_variableName
    obtain rfl : own = e.1 := Option.some.inj (hown.symm.trans (hname ▸ hkey))
    exact .direct hpath (hv ▸ Setting.isValue_ofVariable s)
  · exact (halone name (OrderedMap.mem_keys_iff.2 (by rw [hs]; rfl)) hname).spares hkey

/-- What the environment gives a setting is what its own variable holds. -/
theorem gives_ofEnvironment (he : e ∈ Layer.ofEnvironment env) (hgives : k.Gives e v) :
    ∃ s, env.get? k.variableName = some s ∧ v = Setting.ofVariable s := by
  obtain ⟨name, s, hs, hkey, hv⟩ := mem_ofEnvironment.1 he
  obtain ⟨hpath, rfl⟩ := hgives.of_isValue (hv ▸ Setting.isValue_ofVariable s)
  by_cases hname : name = k.variableName
  · exact ⟨s, hname ▸ hs, hv⟩
  · exact absurd hpath ((halone name (OrderedMap.mem_keys_iff.2 (by rw [hs]; rfl)) hname).ne_path hkey)

/-- A variable that is there decides over whatever is below. -/
theorem lookup_layered_variable (file : List (String × Setting)) {s : String}
    (hs : env.get? k.variableName = some s) :
    ∃ ms, (Settings.layered file env).members.lookup k.group = some (.group ms) ∧
      ms.lookup k.name = some (Setting.ofVariable s) := by
  obtain ⟨key, hkey, hpath⟩ := k.keyOf?_variableName
  have hmem : (key, Setting.ofVariable s) ∈ Layer.ofEnvironment env :=
    mem_ofEnvironment.2 ⟨k.variableName, s, hs, hkey, rfl⟩
  obtain ⟨ms, hms, e, he, v, hgives, hv⟩ :=
    k.given_overlay (fun e => k.spares_ofEnvironment halone) hmem hpath (Setting.isValue_ofVariable s)
  obtain ⟨s', hs', rfl⟩ := k.gives_ofEnvironment halone he hgives
  obtain rfl := Option.some.inj (hs.symm.trans hs')
  exact ⟨ms, hms, hv⟩

/-- Without the variable a setting is what the file settles. -/
theorem settled_layered {file : List (String × Setting)} (hfile : ∀ e ∈ file, k.Spares e)
    (hs : env.get? k.variableName = none) :
    ∃ ms, (Settings.layered file env).members.lookup k.group = some (.group ms) ∧
      k.Settled file (some k.default) (ms.lookup k.name) := by
  obtain ⟨bottom, hbottom, hdefault⟩ := k.lookup_defaults
  obtain ⟨mid, hmid, hsettled⟩ := k.settled_overlay hbottom hfile
  obtain ⟨ms, hms, henv⟩ := k.settled_overlay hmid fun e => k.spares_ofEnvironment halone
  refine ⟨ms, hms, ?_⟩
  obtain ⟨e, he, v, hgives, -⟩ | ⟨-, hsame⟩ := henv
  · obtain ⟨s, hs', -⟩ := k.gives_ofEnvironment halone he hgives
    exact absurd (hs.symm.trans hs') nofun
  · rw [hsame, ← hdefault]
    exact hsettled

end Environment

end SettingName

namespace Settings

theorem levelFilter?_of_flaw {s : Settings} (h : s.flaw = none) : s.levelFilter?.isSome = true := by
  cases hlevel : s.levelFilter? with
  | some l => rfl
  | none =>
    have hflaw : s.levelFlaw = some (.unknownLevel s.level) := if_pos (by rw [hlevel]; rfl)
    rw [flaw, hflaw] at h
    cases h

variable {file : Option Bytes} {env : Environment} {s : Settings}

theorem load_of_fileLayer {layer : List (String × Setting)} (h : fileLayer file env = .ok layer) :
    load file env = match Setting.reading.settings? (layered layer env) with
      | some settings => settings.check
      | none => .error (.notLoaded "no settings") := by
  rw [load, h]
  rfl

theorem load_eq_ok_iff : load file env = .ok s ↔ ∃ layer, fileLayer file env = .ok layer ∧
    Setting.reading.settings? (layered layer env) = some s ∧ s.flaw = none := by
  constructor
  · intro h
    cases hlayer : fileLayer file env with
    | error e =>
      rw [load, hlayer] at h
      cases h
    | ok layer =>
      rw [load_of_fileLayer hlayer] at h
      cases hs : Setting.reading.settings? (layered layer env) with
      | none =>
        rw [hs] at h
        cases h
      | some t =>
        rw [hs] at h
        obtain ⟨rfl, hflaw⟩ := check_eq_ok_iff.1 h
        exact ⟨layer, rfl, hs, hflaw⟩
  · rintro ⟨layer, hlayer, hs, hflaw⟩
    rw [load_of_fileLayer hlayer, hs]
    exact check_of_flaw_none hflaw

/-- What comes of the value of a variable: a level is kept as it is written, and a limit as the whole number that is
written; a path is kept exactly if it is the writing of what it reads as, for one if it has a character that no number
has. -/
def Keeps (k : SettingName) (v : String) (s : Settings) : Prop :=
  match k with
  | .level => s.level = v
  | .maxBestEffort => ∀ n : Int, signedOf? v = some n → s.maxBestEffort = n
  | .maxGuaranteed => ∀ n : Int, signedOf? v = some n → s.maxGuaranteed = n
  | .path => (s.path = v ↔ Verbatim v) ∧ ((∃ c ∈ v.toList, isNumberChar c = false) → s.path = v)

theorem keeps_of_shows {k : SettingName} {v : String} (hflaw : s.flaw = none)
    (h : Setting.reading.Shows k (Setting.ofVariable v) s) : Keeps k v s := by
  have hlimit {n : Int} {limit : Nat} (hn : signedOf? v = some n)
      (hshows : (Setting.ofVariable v).limit? = some limit) : (limit : Int) = n := by
    rw [Setting.ofVariable_of_signedOf? hn, Setting.limit?] at hshows
    split_ifs at hshows with hpos
    rw [← Option.some.inj hshows]
    exact Int.toNat_of_nonneg hpos
  cases k with
  | level => exact Setting.eq_of_text?_ofVariable h (levelFilter?_of_flaw hflaw)
  | maxBestEffort => exact fun n hn => hlimit hn h
  | maxGuaranteed => exact fun n hn => hlimit hn h
  | path =>
    have hshows : (Setting.ofVariable v).text? = some s.path := h
    constructor
    · rw [← Setting.text?_ofVariable_iff, hshows, Option.some.injEq]
    · rintro ⟨c, hc, hchar⟩
      rw [Setting.ofVariable_of_mem hc hchar] at hshows
      exact (Option.some.inj hshows).symm

/-- Settings that are loaded show each setting as its variable has it if that is there, or else as the file gives it, or
else by default. No other variable has a say as long as it stands for something else, nor has an entry of the file that
puts nothing in the place of the setting but a value for it. -/
theorem from_layers (h : load file env = .ok s) : ∃ layer, fileLayer file env = .ok layer ∧
    ∀ k : SettingName, k.Alone env →
      (∀ v, env.get? k.variableName = some v → Setting.reading.Shows k (Setting.ofVariable v) s ∧ Keeps k v s) ∧
      (env.get? k.variableName = none → (∀ e ∈ layer, k.Spares e) →
        (∃ e ∈ layer, ∃ v, k.Gives e v ∧ Setting.reading.Shows k v s) ∨
        (∀ e ∈ layer, ∀ v, ¬ k.Gives e v) ∧ k.Same s {}) := by
  obtain ⟨layer, hlayer, hs, hflaw⟩ := load_eq_ok_iff.1 h
  have hfinds := Reading.settings?_eq_some_iff.1 hs
  refine ⟨layer, hlayer, fun k hk => ⟨fun v hv => ?_, fun hnone hfile => ?_⟩⟩
  · obtain ⟨ms, hgroup, hlookup⟩ := SettingName.lookup_layered_variable hk layer hv
    have hshows := (SettingName.finds_iff hgroup hlookup).1 (hfinds k)
    exact ⟨hshows, keeps_of_shows hflaw hshows⟩
  · obtain ⟨ms, hgroup, hsettled⟩ := SettingName.settled_layered hk hfile hnone
    obtain ⟨e, he, v, hgives, hlookup⟩ | ⟨hno, hlookup⟩ := hsettled
    · exact .inl ⟨e, he, v, hgives, (SettingName.finds_iff hgroup hlookup).1 (hfinds k)⟩
    · exact .inr ⟨hno, Reading.shows_default.1 ((SettingName.finds_iff hgroup hlookup).1 (hfinds k))⟩

/-- A file gives the level, by way of a placeholder, and a path; but the path of the variable counts, and loses its
zeros. -/
theorem from_layers_over_file :
    load (some (Text.bytes "log.level = '$\x7bL\x7d'\npersistence.path = 'a'"))
        (.ofList [("L", "trace"), ("MQSESSION__PERSISTENCE__PATH", "007")])
      = .ok { level := "trace", path := "7" } ∧ ¬ Verbatim "007" := by
  have h : load (some (Text.bytes "log.level = '$\x7bL\x7d'\npersistence.path = 'a'"))
      (.ofList [("L", "trace"), ("MQSESSION__PERSISTENCE__PATH", "007")])
      = .ok { level := "trace", path := "7" } := by decide +kernel
  obtain ⟨layer, -, hk⟩ := from_layers h
  have halone : SettingName.path.Alone (.ofList [("L", "trace"), ("MQSESSION__PERSISTENCE__PATH", "007")]) :=
    .of_keyOf? (by decide +kernel)
  have hkeeps := ((hk .path halone).1 "007" (by decide +kernel)).2
  exact ⟨h, fun hverbatim => absurd (hkeeps.1.2 hverbatim) (by decide)⟩

end Settings

end PubSub
