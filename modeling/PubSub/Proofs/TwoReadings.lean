import Mathlib
import PubSub.Proofs.DistinctKeys
import PubSub.Proofs.Precedence
/-!
# A text read on its own and as a layer

What settings a text gives on its own, and what they are if it is the only layer over the defaults. A
layer goes by keys in lower case that may be paths, and converts its values, so the two agree only
where the text writes a section under its very name.
-/

namespace PubSub

open Toml

/-! ## Documents as layers -/

namespace Setting

variable {es : List (String × Value)} {ms : List (String × Setting)} {items : List Value} {ss : List Setting}

theorem groupOfToml?_cons {e : String × Value} (h : groupOfToml? (e :: es) = some ms) :
    ∃ w ws, ofToml? e.2 = some w ∧ groupOfToml? es = some ws ∧ ms = (e.1, w) :: ws := by
  obtain ⟨name, v⟩ := e
  rw [groupOfToml?] at h
  obtain ⟨w, hw, h⟩ := Option.bind_eq_some_iff.1 h
  obtain ⟨ws, hws, h⟩ := Option.bind_eq_some_iff.1 h
  exact ⟨w, ws, hw, hws, (Option.some.inj h).symm⟩

theorem names_groupOfToml? (h : groupOfToml? es = some ms) : ms.map (·.1) = es.map (·.1) := by
  induction es generalizing ms with
  | nil =>
    rw [groupOfToml?] at h
    obtain rfl := Option.some.inj h
    rfl
  | cons e es ih =>
    obtain ⟨w, ws, -, hws, rfl⟩ := groupOfToml?_cons h
    exact congrArg (e.1 :: ·) (ih hws)

theorem lookup_groupOfToml? (h : groupOfToml? es = some ms) (name : String) :
    ms.lookup name = (es.lookup name).bind ofToml? := by
  induction es generalizing ms with
  | nil =>
    rw [groupOfToml?] at h
    obtain rfl := Option.some.inj h
    rfl
  | cons e es ih =>
    obtain ⟨w, ws, hw, hws, rfl⟩ := groupOfToml?_cons h
    obtain ⟨key, v⟩ := e
    rw [List.lookup_cons, List.lookup_cons]
    cases hkey : name == key with
    | true => exact hw.symm
    | false => exact ih hws

/-- Every entry of the table has its setting. -/
theorem exists_ofToml? (h : groupOfToml? es = some ms) {name : String} {v : Value} (hv : es.lookup name = some v) :
    ∃ w, ofToml? v = some w := by
  induction es generalizing ms with
  | nil => cases hv
  | cons e es ih =>
    obtain ⟨w, ws, hw, hws, rfl⟩ := groupOfToml?_cons h
    obtain ⟨key, u⟩ := e
    rw [List.lookup_cons] at hv
    cases hkey : name == key with
    | true =>
      rw [hkey] at hv
      obtain rfl := Option.some.inj hv
      exact ⟨w, hw⟩
    | false =>
      rw [hkey] at hv
      exact ih hws hv

theorem mem_groupOfToml? (h : groupOfToml? es = some ms) {m : String × Setting} (hm : m ∈ ms) :
    ∃ v, (m.1, v) ∈ es ∧ ofToml? v = some m.2 := by
  induction es generalizing ms with
  | nil =>
    rw [groupOfToml?] at h
    obtain rfl := Option.some.inj h
    cases hm
  | cons e es ih =>
    obtain ⟨w, ws, hw, hws, rfl⟩ := groupOfToml?_cons h
    rcases List.mem_cons.1 hm with rfl | hm
    · exact ⟨e.2, List.mem_cons_self, hw⟩
    · obtain ⟨v, hv, hofv⟩ := ih hws hm
      exact ⟨v, List.mem_cons_of_mem _ hv, hofv⟩

theorem getElem?_listOfToml? (h : listOfToml? items = some ss) (i : Nat) : ss[i]? = items[i]?.bind ofToml? := by
  induction items generalizing ss i with
  | nil =>
    rw [listOfToml?] at h
    obtain rfl := Option.some.inj h
    rfl
  | cons v items ih =>
    rw [listOfToml?] at h
    obtain ⟨w, hw, h⟩ := Option.bind_eq_some_iff.1 h
    obtain ⟨ws, hws, h⟩ := Option.bind_eq_some_iff.1 h
    obtain rfl := Option.some.inj h
    cases i with
    | zero => exact hw.symm
    | succ i => exact ih hws i

end Setting

/-- Whether a value is an array. -/
def Toml.Value.isArray : Value → Bool
  | .array _ _ => true
  | _ => false

namespace SettingName

variable {k : SettingName} {doc v : Value} {entries inner : List (String × Value)} {layer : List (String × Setting)}
  {s : Settings}

/-- A table in which a setting goes by its very name, if it is there. A table that stands for a date is none. -/
def PlainTable (k : SettingName) : Value → Prop
  | .table _ inner => isDatetime inner = false ∧ ∀ e ∈ inner, lowerCase e.1 = k.name → e.1 = k.name
  | _ => False

/-- A table that does not have a setting, under no spelling of its name. -/
def Lacks (k : SettingName) : Value → Prop
  | .table _ inner => isDatetime inner = false ∧ ∀ e ∈ inner, lowerCase e.1 ≠ k.name
  | _ => False

/-- A value does not get to a setting by these steps within its section: they lead to another setting, or it is laid
over the section and lacks the setting. -/
def Beside (k : SettingName) (v : Value) : List PathStep → Prop
  | [] => k.Lacks v
  | .member other :: _ => other ≠ k.name
  | .item _ :: _ => False

/-- A document that writes a setting plainly: its section is a table under its very name and nothing else gets to the
setting, or its section is an array and nothing else leads into the section. -/
def PlainIn (k : SettingName) : Value → Prop
  | .table _ entries =>
    (∀ e ∈ entries, (keyPath (lowerCase e.1)).1 = k.group →
      (e.1 = k.group ∧ k.PlainTable e.2) ∨ k.Beside e.2 (keyPath (lowerCase e.1)).2) ∨
    (∀ e ∈ entries, (keyPath (lowerCase e.1)).1 = k.group → e.1 = k.group ∧ e.2.isArray = true)
  | _ => False

instance : DecidablePred k.PlainTable
  | .table _ inner =>
    inferInstanceAs (Decidable (isDatetime inner = false ∧ ∀ e ∈ inner, lowerCase e.1 = k.name → e.1 = k.name))
  | .array _ _ | .text _ | .integer _ | .float _ | .boolean _ | .datetime _ => isFalse id

instance : DecidablePred k.Lacks
  | .table _ inner => inferInstanceAs (Decidable (isDatetime inner = false ∧ ∀ e ∈ inner, lowerCase e.1 ≠ k.name))
  | .array _ _ | .text _ | .integer _ | .float _ | .boolean _ | .datetime _ => isFalse id

instance : DecidablePred (k.Beside v)
  | [] => inferInstanceAs (Decidable (k.Lacks v))
  | .member other :: _ => inferInstanceAs (Decidable (other ≠ k.name))
  | .item _ :: _ => isFalse id

instance : DecidablePred k.PlainIn
  | .table _ entries => inferInstanceAs (Decidable (
      (∀ e ∈ entries, (keyPath (lowerCase e.1)).1 = k.group →
        (e.1 = k.group ∧ k.PlainTable e.2) ∨ k.Beside e.2 (keyPath (lowerCase e.1)).2) ∨
      (∀ e ∈ entries, (keyPath (lowerCase e.1)).1 = k.group → e.1 = k.group ∧ e.2.isArray = true)))
  | .array _ _ | .text _ | .integer _ | .float _ | .boolean _ | .datetime _ => isFalse id

theorem Lacks.plainTable (h : k.Lacks v) : k.PlainTable v := by
  cases v with
  | table origin inner => exact ⟨h.1, fun e he hname => absurd hname (h.2 e he)⟩
  | _ => exact h

/-- What a document has for a setting is converted to the same. -/
theorem shows_ofToml? (h : Value.reading.Shows k v s) :
    ∃ w, Setting.ofToml? v = some w ∧ w.IsValue ∧ Setting.reading.Shows k w s := by
  have htext {x : String} (hv : v.text? = some x) : v = .text x := by
    cases v <;> cases hv
    rfl
  have hlimit {n : Nat} (hv : v.limit? = some n) : ∃ i : Int, v = .integer i ∧ (Setting.integer i).limit? = some n := by
    cases v <;> first | exact ⟨_, rfl, hv⟩ | cases hv
  cases k with
  | level =>
    obtain rfl := htext h
    exact ⟨_, rfl, nofun, rfl⟩
  | path =>
    obtain rfl := htext h
    exact ⟨_, rfl, nofun, rfl⟩
  | maxBestEffort =>
    obtain ⟨i, rfl, hi⟩ := hlimit h
    exact ⟨_, rfl, nofun, hi⟩
  | maxGuaranteed =>
    obtain ⟨i, rfl, hi⟩ := hlimit h
    exact ⟨_, rfl, nofun, hi⟩

theorem keyPath_group (k : SettingName) : keyPath (lowerCase k.group) = (k.group, []) := by
  cases k <;> decide +kernel

/-- A table as a group. -/
theorem ofToml?_table {origin : Origin} {w : Setting} (hdate : isDatetime inner = false)
    (hw : Setting.ofToml? (.table origin inner) = some w) :
    ∃ ms, w = .group ms ∧ Setting.groupOfToml? inner = some ms := by
  rw [Setting.ofToml?, if_neg (by rw [hdate]; exact nofun)] at hw
  obtain ⟨ms, hms, rfl⟩ := Option.map_eq_some_iff.1 hw
  exact ⟨ms, rfl, hms⟩

/-- A member of such a group that counts for a setting is what the table has under the setting's name. -/
theorem shows_member {ms : List (String × Setting)} {m : String × Setting} (hinner : DistinctEntries inner)
    (hnames : ∀ e ∈ inner, lowerCase e.1 = k.name → e.1 = k.name) (hms : Setting.groupOfToml? inner = some ms)
    (h : Value.reading.ShowsField k (.named inner) s) (hm : m ∈ ms) (hname : lowerCase m.1 = k.name) :
    m.2.IsValue ∧ Setting.reading.Shows k m.2 s := by
  obtain ⟨x, hx, hofx⟩ := Setting.mem_groupOfToml? hms hm
  have hlookup : inner.lookup k.name = some x := Entries.lookup_of_mem hinner.1 (hnames (m.1, x) hx hname ▸ hx)
  unfold Reading.ShowsField Section.field? at h
  dsimp only at h
  rw [hlookup] at h
  obtain ⟨w, hw, hvalue, hshows⟩ := shows_ofToml? h
  obtain rfl := Option.some.inj (hofx.symm.trans hw)
  exact ⟨hvalue, hshows⟩

section Layer

variable {base : Setting} {old : List (String × Setting)} (hdistinct : DistinctEntries entries)
  (hlayer : Setting.groupOfToml? entries = some layer)

section Array

variable (hplain : ∀ e ∈ entries, (keyPath (lowerCase e.1)).1 = k.group → e.1 = k.group)

include hlayer hplain in
theorem eq_group_of_path {e : String × Setting} (he : e ∈ layer) (hpath : (keyPath (lowerCase e.1)).1 = k.group) :
    e.1 = k.group := by
  obtain ⟨v, hv, -⟩ := Setting.mem_groupOfToml? hlayer he
  exact hplain _ hv hpath

include hlayer hplain in
/-- A document without the section leaves what there is. -/
theorem lookup_overlay_absent (hnone : entries.lookup k.group = none) :
    (base.overlay layer).members.lookup k.group = base.members.lookup k.group := by
  refine Setting.lookup_overlay_other fun e he hpath => ?_
  have hlookup := Setting.lookup_groupOfToml? hlayer k.group
  rw [hnone, Option.bind_none, List.lookup_eq_none_iff] at hlookup
  have hne := hlookup e he
  rw [eq_group_of_path hlayer hplain he hpath] at hne
  simp at hne

include hdistinct hlayer hplain in
/-- The items of an array are read by their places either way. -/
theorem finds_array {isOpen : Bool} {items : List Value} (hv : entries.lookup k.group = some (.array isOpen items))
    (h : Value.reading.ShowsField k (.listed items) s) : Setting.reading.Finds k (base.overlay layer) s := by
  obtain ⟨w, hw⟩ := Setting.exists_ofToml? hlayer hv
  obtain ⟨mid, -, hlookup⟩ := Setting.lookup_overlay_of_lookup base
    (by rw [Setting.names_groupOfToml? hlayer]; exact hdistinct.1) (fun e => eq_group_of_path hlayer hplain)
    (show layer.lookup k.group = some w by rw [Setting.lookup_groupOfToml? hlayer, hv, Option.bind_some, hw])
  rw [Setting.ofToml?] at hw
  obtain ⟨ss, hss, rfl⟩ := Option.map_eq_some_iff.1 hw
  rw [Setting.lookup_putKey_value (v := .list ss) k.keyPath_group nofun] at hlookup
  have hfields : (Setting.list ss).asSection? = some (.listed ss) := rfl
  rw [finds_iff_showsField hlookup hfields]
  have hitem := Setting.getElem?_listOfToml? hss k.place
  unfold Reading.ShowsField Section.field? at h ⊢
  dsimp only at h ⊢
  cases hx : items[k.place]? with
  | none =>
    rw [hx] at h hitem
    rw [hitem]
    exact h
  | some x =>
    rw [hx] at h hitem
    obtain ⟨w, hw, -, hshows⟩ := shows_ofToml? h
    rw [hitem, Option.bind_some, hw]
    exact hshows

end Array

/-- What gets past the setting in the document does so in the layer. -/
theorem spares_beside {key : String} {w : Setting} {steps : List PathStep}
    (hpath : keyPath (lowerCase key) = (k.group, steps)) (hbeside : k.Beside v steps)
    (hw : Setting.ofToml? v = some w) : k.Spares (key, w) ∧ ∀ u, k.Gives (key, w) u → Setting.reading.Shows k u s := by
  cases steps with
  | nil =>
    cases v with
    | table origin inner =>
      obtain ⟨ms, rfl, hms⟩ := ofToml?_table hbeside.1 hw
      have hlacks : ∀ m ∈ ms, lowerCase m.1 ≠ k.name := fun m hm => by
        obtain ⟨x, hx, -⟩ := Setting.mem_groupOfToml? hms hm
        exact hbeside.2 (m.1, x) hx
      refine ⟨.within hpath fun m hm hname => absurd hname (hlacks m hm), fun u hgives => ?_⟩
      cases hgives with
      | direct hdirect =>
        rw [hpath] at hdirect
        simp at hdirect
      | @within _ name _ _ _ hm hname => exact absurd hname (hlacks (name, u) hm)
    | _ => exact absurd hbeside id
  | cons step rest =>
    cases step with
    | member other =>
      refine ⟨.beside hpath hbeside, fun u hgives => ?_⟩
      cases hgives with
      | direct hdirect =>
        rw [hpath] at hdirect
        simp only [Prod.mk.injEq, List.cons.injEq, PathStep.member.injEq, true_and] at hdirect
        exact absurd hdirect.1 hbeside
      | within hwithin =>
        rw [hpath] at hwithin
        simp at hwithin
    | item n => exact absurd hbeside id

section Table

variable (hplain : ∀ e ∈ entries, (keyPath (lowerCase e.1)).1 = k.group →
    (e.1 = k.group ∧ k.PlainTable e.2) ∨ k.Beside e.2 (keyPath (lowerCase e.1)).2)

include hplain in
theorem exists_table (hv : entries.lookup k.group = some v) : k.PlainTable v := by
  obtain ⟨-, htable⟩ | hbeside := hplain _ (Entries.mem_of_lookup hv) (by rw [k.keyPath_group])
  · exact htable
  · rw [k.keyPath_group] at hbeside
    exact Lacks.plainTable hbeside

variable {fields : Section Value}
  (hfields : Reading.field Value.asSection? (.named entries) k.groupPlace k.group (.named []) = some fields)
  (h : Value.reading.ShowsField k fields s)

include hdistinct hlayer hplain hfields h in
/-- Only the section has the setting for the layer, and what it has comes to the same. -/
theorem shows_entry {e : String × Setting} (he : e ∈ layer) :
    k.Spares e ∧ ∀ w, k.Gives e w → Setting.reading.Shows k w s := by
  obtain ⟨v, hv, hofv⟩ := Setting.mem_groupOfToml? hlayer he
  obtain ⟨key, w⟩ := e
  by_cases hpath : (keyPath (lowerCase key)).1 = k.group
  · obtain ⟨hname, htable⟩ | hbeside := hplain _ hv hpath
    · obtain rfl : key = k.group := hname
      have hlookup := Entries.lookup_of_mem hdistinct.1 hv
      cases v with
      | table origin inner =>
        obtain ⟨ms, rfl, hms⟩ := ofToml?_table htable.1 hofv
        rw [Reading.field_named hlookup] at hfields
        obtain rfl : Section.named inner = fields := Option.some.inj hfields
        have hmember {m : String × Setting} := shows_member (m := m)
          (DistinctEntries.of_table (hdistinct.of_lookup hlookup)) htable.2 hms h
        refine ⟨.within k.keyPath_group fun m hm hname => (hmember hm hname).1, fun w hgives => ?_⟩
        cases hgives with
        | direct hdirect =>
          rw [k.keyPath_group] at hdirect
          simp at hdirect
        | within _ hm hname => exact (hmember hm hname).2
      | _ => exact absurd htable id
    · generalize hsteps : keyPath (lowerCase key) = found at hpath hbeside
      obtain ⟨group, steps⟩ := found
      obtain rfl : group = k.group := hpath
      exact spares_beside hsteps hbeside hofv
  · refine ⟨.elsewhere hpath, fun w hgives => ?_⟩
    cases hgives with
    | direct hdirect => exact absurd (by rw [hdirect]) hpath
    | within hwithin => exact absurd (by rw [hwithin]) hpath

include hdistinct hlayer hplain hfields h in
/-- The entries of a table are laid over the defaults. -/
theorem finds_table (hbase : base.members.lookup k.group = some (.group old))
    (hold : old.lookup k.name = some k.default) : Setting.reading.Finds k (base.overlay layer) s := by
  have hentry := fun e he => shows_entry hdistinct hlayer hplain hfields h (e := e) he
  obtain ⟨new, hnew, hsettled⟩ := k.settled_overlay hbase fun e he => (hentry e he).1
  obtain ⟨e, he, w, hgives, hlookup⟩ | ⟨hno, hlookup⟩ := hsettled
  · exact (finds_iff hnew hlookup).2 ((hentry e he).2 w hgives)
  · refine (finds_iff hnew (hlookup.trans hold)).2 (Reading.shows_default.2 ?_)
    rw [Reading.field, Section.field?] at hfields
    cases hv : entries.lookup k.group with
    | none =>
      rw [hv] at hfields
      obtain rfl : Section.named [] = fields := Option.some.inj hfields
      exact h
    | some v =>
      have htable := exists_table hplain hv
      rw [hv] at hfields
      cases v with
      | table origin inner =>
        obtain rfl : Section.named inner = fields := Option.some.inj hfields
        cases hx : inner.lookup k.name with
        | none =>
          unfold Reading.ShowsField Section.field? at h
          dsimp only at h
          rw [hx] at h
          exact h
        | some x =>
          -- The layer would give the setting this value.
          obtain ⟨w, hw⟩ := Setting.exists_ofToml? hlayer hv
          obtain ⟨ms, rfl, hms⟩ := ofToml?_table htable.1 hw
          obtain ⟨y, hy⟩ := Setting.exists_ofToml? hms hx
          have hsection := Setting.lookup_groupOfToml? hlayer k.group
          have hmember := Setting.lookup_groupOfToml? hms k.name
          rw [hv, Option.bind_some, hw] at hsection
          rw [hx, Option.bind_some, hy] at hmember
          exact absurd (.within k.keyPath_group (Entries.mem_of_lookup hmember) k.lowerCase_name)
            (hno _ (Entries.mem_of_lookup hsection) y)
      | _ => exact absurd htable id

end Table

include hdistinct hlayer in
/-- What is found in a document is found in its layer. -/
theorem finds_overlay {origin : Origin} (hplain : k.PlainIn (.table origin entries))
    (hbase : base.members.lookup k.group = some (.group old)) (hold : old.lookup k.name = some k.default)
    (h : Value.reading.Finds k (.table origin entries) s) : Setting.reading.Finds k (base.overlay layer) s := by
  obtain ⟨root, fields, hroot, hfields, hshows⟩ := h
  obtain rfl : Section.named entries = root := Option.some.inj hroot
  obtain htable | harray := hplain
  · exact finds_table hdistinct hlayer htable hfields hshows hbase hold
  · have hname : ∀ e ∈ entries, (keyPath (lowerCase e.1)).1 = k.group → e.1 = k.group :=
      fun e he hpath => (harray e he hpath).1
    rw [Reading.field, Section.field?] at hfields
    cases hv : entries.lookup k.group with
    | none =>
      rw [hv] at hfields
      obtain rfl : Section.named [] = fields := Option.some.inj hfields
      exact (finds_iff ((lookup_overlay_absent hlayer hname hv).trans hbase) hold).2 (Reading.shows_default.2 hshows)
    | some v =>
      have hisArray := (harray _ (Entries.mem_of_lookup hv) (by rw [k.keyPath_group])).2
      rw [hv] at hfields
      cases v with
      | array isOpen items =>
        obtain rfl : Section.listed items = fields := Option.some.inj hfields
        exact finds_array hdistinct hlayer hname hv hshows
      | _ => cases hisArray

end Layer

end SettingName

namespace Settings

variable {text : String} {env : Environment} {s t : Settings}

theorem parse_eq_ok_iff : parse text env = .ok s ↔ ∃ doc, document? text env = some doc ∧
    Value.reading.settings? doc = some s ∧ s.flaw = none := by
  unfold parse
  constructor
  · intro h
    split at h
    next t ht =>
      obtain ⟨doc, hdoc, ht⟩ := Option.bind_eq_some_iff.1 ht
      obtain ⟨rfl, hflaw⟩ := check_eq_ok_iff.1 h
      exact ⟨doc, hdoc, ht, hflaw⟩
    next => cases h
  · rintro ⟨doc, hdoc, hs, hflaw⟩
    rw [hdoc, Option.bind_some, hs]
    exact check_of_flaw_none hflaw

theorem fileLayer_bytes {doc : Value} (hdoc : document? text env = some doc) :
    fileLayer (some (Text.bytes text)) env = match Layer.ofDocument? doc with
      | some layer => .ok layer
      | none => .error (.notLoaded "not TOML") := by
  have hread : (document? text env).bind Layer.ofDocument? = Layer.ofDocument? doc := by rw [hdoc, Option.bind_some]
  cases hlayer : Layer.ofDocument? doc <;> rw [hlayer] at hread <;>
    simp only [fileLayer, Text.ofBytes?_bytes, hread]

theorem ofDocument?_eq_some {doc : Value} {layer : List (String × Setting)} (h : Layer.ofDocument? doc = some layer) :
    ∃ origin entries, doc = .table origin entries ∧ Setting.groupOfToml? entries = some layer := by
  unfold Layer.ofDocument? at h
  split at h
  next members hgroup =>
    obtain rfl := Option.some.inj h
    cases doc with
    | table origin entries =>
      rw [Setting.ofToml?] at hgroup
      split_ifs at hgroup
      · obtain ⟨d, -, hd⟩ := Option.map_eq_some_iff.1 hgroup
        cases hd
      · obtain ⟨ms, hms, hd⟩ := Option.map_eq_some_iff.1 hgroup
        obtain rfl := Setting.group.inj hd
        exact ⟨origin, entries, rfl, hms⟩
    | array isOpen items =>
      rw [Setting.ofToml?] at hgroup
      obtain ⟨ss, -, hs⟩ := Option.map_eq_some_iff.1 hgroup
      cases hs
    | _ =>
      rw [Setting.ofToml?] at hgroup
      cases hgroup
  next => cases h

theorem ofEnvironment_eq_nil (henv : ∀ name ∈ env.keys, Layer.keyOf? name = none) : Layer.ofEnvironment env = [] := by
  refine List.eq_nil_iff_forall_not_mem.2 fun e he => ?_
  obtain ⟨name, x, hx, hkey, -⟩ := SettingName.mem_ofEnvironment.1 he
  have hnone := henv name (OrderedMap.mem_keys_iff.2 (by rw [hx]; rfl))
  exact absurd (hnone.symm.trans hkey) nofun

/-- Where no variable is a key, a text that gives settings on its own gives the same when it is loaded from a file, if
it writes each setting plainly; and as long as it can be loaded at all, the settings that it writes plainly are the
same. A text that makes no layer, as one with a table in the place of a date that is none, cannot be loaded. -/
theorem loaded_as_parsed (henv : ∀ name ∈ env.keys, Layer.keyOf? name = none) (h : parse text env = .ok s) :
    ∃ doc, document? text env = some doc ∧
      (Layer.ofDocument? doc = none → load (some (Text.bytes text)) env = .error (.notLoaded "not TOML")) ∧
      (Layer.ofDocument? doc ≠ none → (∀ k : SettingName, k.PlainIn doc) → load (some (Text.bytes text)) env = .ok s) ∧
      ∀ t, load (some (Text.bytes text)) env = .ok t → ∀ k : SettingName, k.PlainIn doc → k.Same s t := by
  obtain ⟨doc, hdoc, hs, hflaw⟩ := parse_eq_ok_iff.1 h
  have hfile := fileLayer_bytes hdoc
  have hfinds {layer : List (String × Setting)} (hlayer : Layer.ofDocument? doc = some layer) (k : SettingName)
      (hplain : k.PlainIn doc) : Setting.reading.Finds k (layered layer env) s := by
    obtain ⟨origin, entries, rfl, hgroup⟩ := ofDocument?_eq_some hlayer
    obtain ⟨old, hbase, hold⟩ := k.lookup_defaults
    have hdistinct := DistinctEntries.of_table (distinct_of_parse? hdoc)
    have hfound := Reading.settings?_eq_some_iff.1 hs k
    rw [layered, ofEnvironment_eq_nil henv, Setting.overlay_nil]
    exact SettingName.finds_overlay hdistinct hgroup hplain hbase hold hfound
  refine ⟨doc, hdoc, fun hnone => ?_, fun hsome hplain => ?_, fun t ht k hplain => ?_⟩
  · rw [hnone] at hfile
    rw [load, hfile]
    rfl
  · obtain ⟨layer, hlayer⟩ := Option.ne_none_iff_exists'.1 hsome
    rw [hlayer] at hfile
    exact load_eq_ok_iff.2 ⟨layer, hfile, Reading.settings?_eq_some_iff.2 fun k => hfinds hlayer k (hplain k), hflaw⟩
  · obtain ⟨layer, hload, ht, -⟩ := load_eq_ok_iff.1 ht
    rw [hfile] at hload
    cases hlayer : Layer.ofDocument? doc with
    | none =>
      rw [hlayer] at hload
      cases hload
    | some found =>
      rw [hlayer] at hload
      obtain rfl := Except.ok.inj hload
      exact (hfinds hlayer k hplain).same (Reading.settings?_eq_some_iff.1 ht k)

/-- Keys that the settings do not know stay without effect either way, even one that leads into a section. -/
theorem loaded_as_parsed_beside_unknown :
    load (some (Text.bytes "\"log.file\" = 1\n[persistence]\npath = \"$\x7bHOME\x7d/data\"\nMode = 3\n"))
      (.ofList [("HOME", "/root")]) = .ok { path := "/root/data" } := by
  obtain ⟨text, htext⟩ : ∃ text,
      text = "\"log.file\" = 1\n[persistence]\npath = \"$\x7bHOME\x7d/data\"\nMode = 3\n" := ⟨_, rfl⟩
  have hparse : parse text (.ofList [("HOME", "/root")]) = .ok { path := "/root/data" } := by
    rw [htext]
    decide +kernel
  have hlayer : ((document? text (.ofList [("HOME", "/root")])).bind Layer.ofDocument?).isSome = true := by
    rw [htext]
    decide +kernel
  have hplain : (document? text (.ofList [("HOME", "/root")])).all (fun doc => SettingName.level.PlainIn doc ∧
      SettingName.maxBestEffort.PlainIn doc ∧ SettingName.maxGuaranteed.PlainIn doc ∧
      SettingName.path.PlainIn doc) = true := by
    rw [htext]
    decide +kernel
  rw [← htext]
  obtain ⟨doc, hdoc, -, hload, -⟩ := loaded_as_parsed (by decide +kernel) hparse
  rw [hdoc, Option.bind_some] at hlayer
  rw [hdoc, Option.all_some, decide_eq_true_eq] at hplain
  obtain ⟨hlevel, hbest, hguaranteed, hpath⟩ := hplain
  refine hload (Option.isSome_iff_ne_none.1 hlayer) fun k => ?_
  cases k with
  | level => exact hlevel
  | maxBestEffort => exact hbest
  | maxGuaranteed => exact hguaranteed
  | path => exact hpath

/-- A section in capitals is none for the text on its own, but is one for the layer. -/
example : parse "[LOG]\nlevel = 'off'" .empty = .ok {} ∧
    load (some (Text.bytes "[LOG]\nlevel = 'off'")) .empty = .ok { level := "off" } := by
  decide +kernel

end Settings

end PubSub
