import Mathlib
import PubSub.Config.Load
import PubSub.Proofs.SettingNames
/-!
# Layers of settings, one setting at a time

What a layer does to one of the settings. An entry leads past the setting, or gives it a value by its
path or in a group that is laid over what is there; as long as no entry puts anything else in its place,
a setting is after a layer what the layer gives it, or what it was before.
-/

namespace PubSub

/-! ## Keys in lower case -/

theorem lowerCaseChar_lowerCaseChar (c : Char) : lowerCaseChar (lowerCaseChar c) = lowerCaseChar c := by
  by_cases hc : c = '\u212a'
  · rw [hc]
    decide
  · -- The Kelvin sign is no letter of ASCII, so it is the lower case of nothing else.
    have hlower : c.toLower ≠ '\u212a' := by
      by_cases hup : c.isUpper = true
      · intro he
        have hisLower := Char.isLower_toLower_eq_isAlpha c
        rw [he, Char.isAlpha, hup, Bool.true_or] at hisLower
        exact absurd hisLower (by decide)
      · rwa [Char.toLower_eq_of_not_isUpper hup]
    have heq : lowerCaseChar c = c.toLower := if_neg hc
    rw [heq, lowerCaseChar, if_neg hlower, Char.toLower_toLower_eq_toLower]

/-- The characters are what they are in lower case. -/
def Lowered (cs : List Char) : Prop := ∀ c ∈ cs, lowerCaseChar c = c

theorem Lowered.lowerCase {cs : List Char} (h : Lowered cs) : lowerCase (String.ofList cs) = String.ofList cs := by
  rw [PubSub.lowerCase, String.toList_ofList, List.map_congr_left h, List.map_id']

theorem lowered_lowerCase (s : String) : Lowered (lowerCase s).toList := by
  intro c hc
  rw [lowerCase, String.toList_ofList] at hc
  obtain ⟨d, -, rfl⟩ := List.mem_map.1 hc
  exact lowerCaseChar_lowerCaseChar d

theorem Lowered.pathName {cs rest : List Char} {name : String} (h : Lowered cs)
    (hname : pathName? cs = some (name, rest)) : PubSub.lowerCase name = name ∧ Lowered rest := by
  unfold pathName? at hname
  split at hname
  · cases hname
  · simp only [Option.some.injEq, Prod.mk.injEq] at hname
    obtain ⟨rfl, rfl⟩ := hname
    exact ⟨Lowered.lowerCase fun c hc => h c ((List.takeWhile_sublist _).subset hc),
      fun c hc => h c ((List.dropWhile_sublist _).subset hc)⟩

theorem Lowered.of_sublist {cs ds : List Char} (h : Lowered cs) (hsub : ds.Sublist cs) : Lowered ds :=
  fun c hc => h c (hsub.subset hc)

theorem pathIndex?_sublist {cs rest : List Char} {n : Int} (h : pathIndex? cs = some (n, rest)) : rest.Sublist cs := by
  unfold pathIndex? at h
  dsimp only at h
  split at h
  · next hrest =>
    obtain ⟨rfl, rfl⟩ := Prod.mk.inj (Option.some.inj h)
    -- What is left is an end of what follows the sign, and that an end of what follows the blanks.
    have hafter := hrest ▸ (List.dropWhile_sublist _).trans (List.dropWhile_sublist _)
    refine ((List.sublist_cons_self _ _).trans hafter).trans ?_
    split
    · next hsign => exact (List.sublist_cons_self _ _).trans (hsign ▸ List.dropWhile_sublist _)
    · exact List.dropWhile_sublist _
  · cases h

theorem Lowered.laterSteps {fuel : Nat} {cs : List Char} {steps : List PathStep} (h : Lowered cs)
    (hsteps : laterSteps? fuel cs = some steps) : ∀ name, .member name ∈ steps → PubSub.lowerCase name = name := by
  fun_induction laterSteps? fuel cs generalizing steps with
  | case1 =>
    obtain rfl := Option.some.inj hsteps
    exact fun _ hmem => absurd hmem List.not_mem_nil
  | case3 fuel cs ih =>
    simp only [Option.bind_eq_bind, Option.bind_eq_some_iff, Option.pure_def, Option.some.injEq] at hsteps
    obtain ⟨⟨first, rest⟩, hfirst, later, hlater, rfl⟩ := hsteps
    obtain ⟨hlower, hrest⟩ := (h.of_sublist (List.sublist_cons_self _ _)).pathName hfirst
    intro name hname
    rcases List.mem_cons.1 hname with he | hname
    · cases he
      exact hlower
    · exact ih rest hrest hlater name hname
  | case4 fuel cs ih =>
    simp only [Option.bind_eq_bind, Option.bind_eq_some_iff, Option.pure_def, Option.some.injEq] at hsteps
    obtain ⟨⟨n, rest⟩, hindex, later, hlater, rfl⟩ := hsteps
    have hrest := h.of_sublist ((pathIndex?_sublist hindex).trans (List.sublist_cons_self _ _))
    intro name hname
    exact ih rest hrest hlater name ((List.mem_cons.1 hname).resolve_left nofun)
  | case2 | case5 => cases hsteps

/-- The names in the path of a key are in lower case. -/
theorem keyPath_lowered (key : String) : lowerCase (keyPath (lowerCase key)).1 = (keyPath (lowerCase key)).1 ∧
    ∀ name, .member name ∈ (keyPath (lowerCase key)).2 → lowerCase name = name := by
  have h := lowered_lowerCase key
  have hself : lowerCase (lowerCase key) = lowerCase key := by
    have := h.lowerCase
    rwa [String.ofList_toList] at this
  unfold keyPath
  dsimp only
  cases hname : pathName? (lowerCase key).toList with
  | none => exact ⟨hself, fun _ hmem => absurd hmem List.not_mem_nil⟩
  | some first =>
    obtain ⟨hlower, hrest⟩ := h.pathName hname
    dsimp only [Option.bind_eq_bind, Option.bind_some]
    cases hsteps : laterSteps? first.2.length first.2 with
    | none => exact ⟨hself, fun _ hmem => absurd hmem List.not_mem_nil⟩
    | some steps => exact ⟨hlower, hrest.laterSteps hsteps⟩

/-! ## One value put into a layer -/

namespace Setting

variable {base v : Setting} {name key x : String} {ms : List (String × Setting)}

/-- A setting that is no group. -/
def IsValue (v : Setting) : Prop := ∀ ms, v ≠ group ms

theorem put_value (hv : v.IsValue) : put name v base = base.alter (lowerCase name) (fun _ => v) unset := by
  rw [put]
  exact hv

theorem lookup_put_value (name : String) (base : Setting) (hv : v.IsValue) :
    (put name v base).members.lookup (lowerCase name) = some v := by
  rw [put_value hv, lookup_members_alter, if_pos rfl]

theorem lookup_put_group (name : String) (ms : List (String × Setting)) (base : Setting) :
    (put name (group ms) base).members.lookup (lowerCase name)
      = some (putAll ms ((base.members.lookup (lowerCase name)).getD (group []))) := by
  rw [put, lookup_members_alter, if_pos rfl]

/-- Putting a value under a name leaves the other members alone. -/
theorem lookup_put_other (v base : Setting) (hx : x ≠ lowerCase name) :
    (put name v base).members.lookup x = base.members.lookup x := by
  by_cases hv : v.IsValue
  · rw [put_value hv, lookup_members_alter, if_neg hx]
  · obtain ⟨ms, hms⟩ := not_forall.1 hv
    rw [not_not.1 hms, put, lookup_members_alter, if_neg hx]

theorem exists_put (name : String) (v base : Setting) : ∃ ms, put name v base = group ms := by
  by_cases hv : v.IsValue
  · rw [put_value hv]
    exact ⟨_, rfl⟩
  · obtain ⟨ms, hms⟩ := not_forall.1 hv
    rw [not_not.1 hms, put]
    exact ⟨_, rfl⟩

theorem lowerCase_of_keyPath {g : String} {steps : List PathStep} (hkey : keyPath (lowerCase key) = (g, steps)) :
    lowerCase g = g := by
  have h := (keyPath_lowered key).1
  rwa [hkey] at h

theorem lowerCase_of_member {g : String} {rest : List PathStep}
    (hkey : keyPath (lowerCase key) = (g, .member name :: rest)) : lowerCase name = name :=
  (keyPath_lowered key).2 name (by rw [hkey]; exact List.mem_cons_self)

/-- A key leaves alone what is not in the group it leads to. -/
theorem lookup_putKey_other (hx : (keyPath (lowerCase key)).1 ≠ x) :
    (base.putKey key v).members.lookup x = base.members.lookup x := by
  have hlower := (keyPath_lowered key).1
  unfold putKey
  revert hx hlower
  rcases keyPath (lowerCase key) with ⟨name, _ | ⟨next, rest⟩⟩ <;> intro hx hlower
  · exact lookup_put_other v base fun he => hx (by rw [he]; exact hlower.symm)
  · exact (lookup_members_alter _ _ _ _ _).trans (if_neg (Ne.symm hx))

/-- A key that leads to a member makes a group of what holds it. -/
theorem lookup_putKey_under {g : String} {rest : List PathStep}
    (hkey : keyPath (lowerCase key) = (g, .member name :: rest)) : (base.putKey key v).members.lookup g
      = some (putAt v ((base.members.lookup g).getD unset) (.member name) rest) := by
  rw [putKey, hkey]
  exact (lookup_members_alter _ _ _ _ _).trans (if_pos rfl)

/-- The other members of that group stay as they are. -/
theorem lookup_putKey_beside (base v : Setting) {g y : String} {rest : List PathStep}
    (hkey : keyPath (lowerCase key) = (g, .member name :: rest)) (hname : name ≠ y) :
    ∃ new, (base.putKey key v).members.lookup g = some (group new) ∧
      new.lookup y = ((base.members.lookup g).getD unset).members.lookup y := by
  have hlower := lowerCase_of_member hkey
  rw [lookup_putKey_under hkey]
  generalize (base.members.lookup g).getD unset = old
  cases rest with
  | nil =>
    obtain ⟨new, hnew⟩ := exists_put name v old
    have hlookup := lookup_put_other v old (hlower.symm ▸ hname.symm : y ≠ lowerCase name)
    rw [hnew] at hlookup
    exact ⟨new, congrArg some hnew, hlookup⟩
  | cons next rest =>
    have hlookup := lookup_members_alter old name (fun s => putAt v s next rest) unset y
    exact ⟨_, rfl, hlookup.trans (if_neg hname.symm)⟩

theorem lookup_putKey_member (base : Setting) {g : String} (hkey : keyPath (lowerCase key) = (g, [.member name]))
    (hv : v.IsValue) : ∃ new, (base.putKey key v).members.lookup g = some (group new) ∧ new.lookup name = some v := by
  have hlower := lowerCase_of_member hkey
  rw [lookup_putKey_under hkey]
  generalize (base.members.lookup g).getD unset = old
  obtain ⟨new, hnew⟩ := exists_put name v old
  have hlookup := lookup_put_value name old hv
  rw [hnew, hlower] at hlookup
  exact ⟨new, congrArg some hnew, hlookup⟩

theorem lookup_putKey_value {g : String} (hkey : keyPath (lowerCase key) = (g, [])) (hv : v.IsValue) :
    (base.putKey key v).members.lookup g = some v := by
  have hlower := lowerCase_of_keyPath hkey
  have hput := lookup_put_value g base hv
  rw [hlower] at hput
  rw [putKey, hkey]
  exact hput

/-- A group put under the name of another is laid over it. -/
theorem lookup_putKey_group {g : String} {old : List (String × Setting)} (hkey : keyPath (lowerCase key) = (g, []))
    (hbase : base.members.lookup g = some (group old)) :
    (base.putKey key (group ms)).members.lookup g = some (putAll ms (group old)) := by
  have hlower := lowerCase_of_keyPath hkey
  have hput := lookup_put_group g ms base
  rw [hlower, hbase] at hput
  rw [putKey, hkey]
  exact hput

variable {layer : List (String × Setting)}

theorem overlay_nil (base : Setting) : base.overlay [] = base := rfl

theorem overlay_cons (base : Setting) (e : String × Setting) (layer : List (String × Setting)) :
    base.overlay (e :: layer) = (base.putKey e.1 e.2).overlay layer := by
  simp only [overlay, List.foldl_cons]

theorem overlay_append (base : Setting) (before after : List (String × Setting)) :
    base.overlay (before ++ after) = (base.overlay before).overlay after := List.foldl_append

/-- A layer leaves alone what none of its keys leads to. -/
theorem lookup_overlay_other (h : ∀ e ∈ layer, (keyPath (lowerCase e.1)).1 ≠ x) :
    (base.overlay layer).members.lookup x = base.members.lookup x := by
  induction layer generalizing base with
  | nil => rfl
  | cons e layer ih =>
    obtain ⟨hfirst, hrest⟩ := List.forall_mem_cons.1 h
    rw [overlay_cons, ih hrest, lookup_putKey_other hfirst]

/-- Where no key leads but the name itself, a layer with that name once puts its value there. -/
theorem lookup_overlay_of_lookup (base : Setting) (hnodup : (layer.map (·.1)).Nodup)
    (hname : ∀ e ∈ layer, (keyPath (lowerCase e.1)).1 = x → e.1 = x) (hv : layer.lookup x = some v) :
    ∃ mid : Setting, mid.members.lookup x = base.members.lookup x ∧
      (base.overlay layer).members.lookup x = (mid.putKey x v).members.lookup x := by
  obtain ⟨before, after, rfl, hbefore⟩ := List.lookup_eq_some_iff.1 hv
  have hafter : ∀ e ∈ after, e.1 ≠ x := by
    rw [List.map_append, List.map_cons, List.nodup_append] at hnodup
    exact fun e he hx => (List.nodup_cons.1 hnodup.2.1).1 (List.mem_map.2 ⟨e, he, hx⟩)
  refine ⟨base.overlay before, lookup_overlay_other fun e he hx => ?_, ?_⟩
  · have hne := hbefore e he
    rw [hname e (List.mem_append_left _ he) hx] at hne
    simp at hne
  · rw [overlay_append, overlay_cons]
    exact lookup_overlay_other fun e he hx =>
      hafter e he (hname e (List.mem_append_right _ (List.mem_cons_of_mem _ he)) hx)

end Setting

/-! ## Entries of a layer -/

namespace SettingName

/-- An entry of a layer gives a setting this value, by its path or as a member of its group. -/
inductive Gives (k : SettingName) : String × Setting → Setting → Prop
  | direct {key : String} {v : Setting} : keyPath (lowerCase key) = (k.group, [.member k.name]) → Gives k (key, v) v
  | within {key name : String} {v : Setting} {ms : List (String × Setting)} :
      keyPath (lowerCase key) = (k.group, []) → (name, v) ∈ ms → lowerCase name = k.name → Gives k (key, .group ms) v

/-- An entry of a layer puts nothing in the place of a setting but a value for it: it leads to another group or to
another setting of the group, or it gives the setting a value, or is a group in which the setting has a value if it is
there at all. -/
inductive Spares (k : SettingName) : String × Setting → Prop
  | elsewhere {key : String} {v : Setting} : (keyPath (lowerCase key)).1 ≠ k.group → Spares k (key, v)
  | beside {key name : String} {v : Setting} {rest : List PathStep} :
      keyPath (lowerCase key) = (k.group, .member name :: rest) → name ≠ k.name → Spares k (key, v)
  | direct {key : String} {v : Setting} :
      keyPath (lowerCase key) = (k.group, [.member k.name]) → v.IsValue → Spares k (key, v)
  | within {key : String} {ms : List (String × Setting)} :
      keyPath (lowerCase key) = (k.group, []) → (∀ m ∈ ms, lowerCase m.1 = k.name → m.2.IsValue) →
      Spares k (key, .group ms)

/-- What a setting is after a layer: a value that the layer gives it, or what it was if the layer gives none. -/
def Settled (k : SettingName) (layer : List (String × Setting)) (old new : Option Setting) : Prop :=
  (∃ e ∈ layer, ∃ v, k.Gives e v ∧ new = some v) ∨ (∀ e ∈ layer, ∀ v, ¬ k.Gives e v) ∧ new = old

variable {k : SettingName} {key : String} {e : String × Setting} {v base : Setting} {ms : List (String × Setting)}

theorem Settled.cons {layer : List (String × Setting)} {old mid new : Option Setting} (h : k.Settled [e] old mid)
    (h' : k.Settled layer mid new) : k.Settled (e :: layer) old new := by
  obtain ⟨d, hd, v, hgives, hnew⟩ | ⟨hnone, rfl⟩ := h'
  · exact .inl ⟨d, List.mem_cons_of_mem e hd, v, hgives, hnew⟩
  · obtain ⟨d, hd, v, hgives, hnew⟩ | ⟨hnone', rfl⟩ := h
    · exact .inl ⟨d, List.mem_cons.2 (.inl (List.mem_singleton.1 hd)), v, hgives, hnew⟩
    · exact .inr ⟨List.forall_mem_cons.2 ⟨hnone' e (List.mem_singleton.2 rfl), hnone⟩, rfl⟩

theorem lowerCase_name (k : SettingName) : lowerCase k.name = k.name := by
  cases k <;> decide +kernel

/-- A group whose members give a setting values only leaves one of them, or what was there. -/
theorem lookup_putAll (hms : ∀ m ∈ ms, lowerCase m.1 = k.name → m.2.IsValue) (old : List (String × Setting)) :
    ∃ new, Setting.putAll ms (.group old) = .group new ∧
      ((∃ m ∈ ms, lowerCase m.1 = k.name ∧ new.lookup k.name = some m.2) ∨
        (∀ m ∈ ms, lowerCase m.1 ≠ k.name) ∧ new.lookup k.name = old.lookup k.name) := by
  induction ms generalizing old with
  | nil => exact ⟨old, rfl, .inr ⟨fun _ hm => absurd hm List.not_mem_nil, rfl⟩⟩
  | cons m ms ih =>
    obtain ⟨hfirst, hrest⟩ := List.forall_mem_cons.1 hms
    obtain ⟨mid, hmid⟩ := Setting.exists_put m.1 m.2 (.group old)
    obtain ⟨new, hnew, hlookup⟩ := ih hrest mid
    refine ⟨new, ?_, ?_⟩
    · rw [Setting.putAll, hmid, hnew]
    · obtain ⟨d, hd, hname, hlookup⟩ | ⟨hnone, hlookup⟩ := hlookup
      · exact .inl ⟨d, List.mem_cons_of_mem m hd, hname, hlookup⟩
      · by_cases hname : lowerCase m.1 = k.name
        · have hput := Setting.lookup_put_value m.1 (.group old) (hfirst hname)
          rw [hmid, hname] at hput
          exact .inl ⟨m, List.mem_cons_self, hname, hlookup.trans hput⟩
        · have hput := Setting.lookup_put_other m.2 (.group old) (Ne.symm hname)
          rw [hmid] at hput
          exact .inr ⟨List.forall_mem_cons.2 ⟨hname, hnone⟩, hlookup.trans hput⟩

/-- One entry of a layer leaves the group a group, and settles the setting. -/
theorem settled_entry {old : List (String × Setting)} (hbase : base.members.lookup k.group = some (.group old))
    (he : k.Spares e) : ∃ new, (base.putKey e.1 e.2).members.lookup k.group = some (.group new) ∧
      k.Settled [e] (old.lookup k.name) (new.lookup k.name) := by
  have hnone {e : String × Setting} (h : ∀ v, ¬ k.Gives e v) : ∀ d ∈ [e], ∀ v, ¬ k.Gives d v :=
    List.forall_mem_singleton.2 h
  cases he with
  | @elsewhere key v hother =>
    refine ⟨old, (Setting.lookup_putKey_other hother).trans hbase, .inr ⟨hnone ?_, rfl⟩⟩
    rintro w (hkey | ⟨hkey, -, -⟩) <;> exact hother (by rw [hkey])
  | @beside key name v rest hkey hname =>
    obtain ⟨new, hnew, hlookup⟩ := Setting.lookup_putKey_beside base v hkey hname
    rw [hbase] at hlookup
    refine ⟨new, hnew, .inr ⟨hnone ?_, hlookup⟩⟩
    rintro w (hkey' | ⟨hkey', -, -⟩) <;> rw [hkey] at hkey' <;> simp_all
  | @direct key v hkey hv =>
    obtain ⟨new, hnew, hlookup⟩ := Setting.lookup_putKey_member base hkey hv
    exact ⟨new, hnew, .inl ⟨_, List.mem_singleton.2 rfl, v, .direct hkey, hlookup⟩⟩
  | @within key ms hkey hms =>
    obtain ⟨new, hnew, hlookup⟩ := k.lookup_putAll hms old
    refine ⟨new, (Setting.lookup_putKey_group hkey hbase).trans (congrArg some hnew), ?_⟩
    obtain ⟨m, hm, hname, hlookup⟩ | ⟨hno, hlookup⟩ := hlookup
    · exact .inl ⟨_, List.mem_singleton.2 rfl, m.2, .within hkey hm hname, hlookup⟩
    · refine .inr ⟨hnone ?_, hlookup⟩
      rintro w (hkey' | ⟨-, hm, hname⟩)
      · rw [hkey] at hkey'
        simp at hkey'
      · exact hno _ hm hname

/-! ## Whole layers -/

variable {layer : List (String × Setting)}

theorem settled_overlay {old : List (String × Setting)} (hbase : base.members.lookup k.group = some (.group old))
    (hl : ∀ e ∈ layer, k.Spares e) : ∃ new, (base.overlay layer).members.lookup k.group = some (.group new) ∧
      k.Settled layer (old.lookup k.name) (new.lookup k.name) := by
  induction layer generalizing base old with
  | nil => exact ⟨old, hbase, .inr ⟨fun _ he => absurd he List.not_mem_nil, rfl⟩⟩
  | cons e layer ih =>
    obtain ⟨hfirst, hrest⟩ := List.forall_mem_cons.1 hl
    obtain ⟨mid, hmid, hsettled⟩ := k.settled_entry hbase hfirst
    obtain ⟨new, hnew, hsettled'⟩ := ih hmid hrest
    rw [Setting.overlay_cons]
    exact ⟨new, hnew, hsettled.cons hsettled'⟩

/-- A layer with a key that leads to the setting gives it a value, whatever was there before. -/
theorem given_overlay (hl : ∀ e ∈ layer, k.Spares e) (he : (key, v) ∈ layer)
    (hkey : keyPath (lowerCase key) = (k.group, [.member k.name])) (hv : v.IsValue) :
    ∃ new, (base.overlay layer).members.lookup k.group = some (.group new) ∧
      ∃ e ∈ layer, ∃ w, k.Gives e w ∧ new.lookup k.name = some w := by
  obtain ⟨before, after, rfl⟩ := List.append_of_mem he
  obtain ⟨mid, hmid, hlookup⟩ := Setting.lookup_putKey_member (base.overlay before) hkey hv
  obtain ⟨new, hnew, hsettled⟩ := k.settled_overlay hmid fun e he =>
    hl e (List.mem_append_right _ (List.mem_cons_of_mem _ he))
  refine ⟨new, ?_, ?_⟩
  · rw [Setting.overlay_append, Setting.overlay_cons]
    exact hnew
  · obtain ⟨e, he, w, hgives, hlookup'⟩ | ⟨-, hlookup'⟩ := hsettled
    · exact ⟨e, List.mem_append_right _ (List.mem_cons_of_mem _ he), w, hgives, hlookup'⟩
    · exact ⟨(key, v), List.mem_append_right _ List.mem_cons_self, v, .direct hkey, hlookup'.trans hlookup⟩

/-- What the defaults make. -/
theorem overlay_defaults : (Setting.group []).overlay Layer.defaults = .group
    [("log", .group [("level", level.default)]),
      ("session", .group [("max_inflight_qos0_messages", maxBestEffort.default),
        ("max_inflight_qos1_messages", maxGuaranteed.default)]),
      ("persistence", .group [("path", path.default)])] := by
  have hlevel : keyPath (lowerCase "log.level") = ("log", [.member "level"]) := by decide +kernel
  have hbest : keyPath (lowerCase "session.max_inflight_qos0_messages")
      = ("session", [.member "max_inflight_qos0_messages"]) := by decide +kernel
  have hguaranteed : keyPath (lowerCase "session.max_inflight_qos1_messages")
      = ("session", [.member "max_inflight_qos1_messages"]) := by decide +kernel
  have hpath : keyPath (lowerCase "persistence.path") = ("persistence", [.member "path"]) := by decide +kernel
  have hnames : lowerCase "level" = "level" ∧
      lowerCase "max_inflight_qos0_messages" = "max_inflight_qos0_messages" ∧
      lowerCase "max_inflight_qos1_messages" = "max_inflight_qos1_messages" ∧ lowerCase "path" = "path" :=
    ⟨lowerCase_name level, lowerCase_name maxBestEffort, lowerCase_name maxGuaranteed, lowerCase_name path⟩
  simp [Setting.overlay, Layer.defaults, Setting.putKey, hlevel, hbest, hguaranteed, hpath, Setting.putAt, Setting.put,
    hnames, Setting.alter, Setting.members, Entries.alter_nil, Entries.alter_cons, default]

theorem lookup_defaults (k : SettingName) : ∃ old,
    ((Setting.group []).overlay Layer.defaults).members.lookup k.group = some (.group old) ∧
      old.lookup k.name = some k.default := by
  rw [overlay_defaults]
  cases k <;> exact ⟨_, rfl, rfl⟩

theorem exists_group {root v : Setting} {x : String} (h : root.members.lookup x = some v) :
    ∃ members, root = .group members := by
  cases root with
  | group members => exact ⟨members, rfl⟩
  | _ => cases h

/-- A setting is found in its section. -/
theorem finds_iff_showsField {root : Setting} {fields : Section Setting} {s : Settings}
    (hv : root.members.lookup k.group = some v) (hfields : v.asSection? = some fields) :
    Setting.reading.Finds k root s ↔ Setting.reading.ShowsField k fields s := by
  obtain ⟨members, rfl⟩ := exists_group hv
  have hfield : Reading.field Setting.asSection? (.named members) k.groupPlace k.group (.named []) = some fields := by
    rw [Reading.field, Section.field?, show members.lookup k.group = _ from hv]
    exact hfields
  constructor
  · rintro ⟨_, fields', hroot, hfield', h⟩
    obtain rfl := Option.some.inj hroot
    obtain rfl := Option.some.inj (hfield.symm.trans hfield')
    exact h
  · exact fun h => ⟨_, _, rfl, hfield, h⟩

/-- A setting is found by its names. -/
theorem finds_iff {root : Setting} {s : Settings} (hgroup : root.members.lookup k.group = some (.group ms))
    (hv : ms.lookup k.name = some v) : Setting.reading.Finds k root s ↔ Setting.reading.Shows k v s := by
  rw [finds_iff_showsField hgroup rfl, Reading.ShowsField, Section.field?, hv]

end SettingName

end PubSub
