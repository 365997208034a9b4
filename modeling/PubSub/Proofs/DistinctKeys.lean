import Mathlib
import PubSub.Toml.Document
/-!
# Keys of a table are distinct

No table of a document has a key twice. The readers make values of which this holds, and each line of a
document adds to the tables before it under keys they do not have yet.
-/

namespace PubSub.Entries

variable {α : Type} {es : List (String × α)} {name : String} {v : α}

theorem mem_of_lookup (h : es.lookup name = some v) : (name, v) ∈ es := by
  obtain ⟨before, after, rfl, -⟩ := List.lookup_eq_some_iff.1 h
  exact List.mem_append_right _ List.mem_cons_self

theorem lookup_of_mem (hnodup : (es.map (·.1)).Nodup) (h : (name, v) ∈ es) : es.lookup name = some v := by
  obtain ⟨before, after, rfl⟩ := List.append_of_mem h
  refine List.lookup_eq_some_iff.2 ⟨before, after, rfl, fun e he => ?_⟩
  rw [List.map_append, List.map_cons, List.nodup_append] at hnodup
  rw [bne_iff_ne]
  exact fun hname => hnodup.2.2 e.1 (List.mem_map_of_mem he) name List.mem_cons_self hname.symm

end PubSub.Entries

namespace PubSub.Toml

/-! ## What readers give -/

/-- Whatever a reader gives has the property. -/
def Reader.Gives {α : Type} (r : Reader α) (P : α → Prop) : Prop := ∀ cs x rest, r cs = some (x, rest) → P x

namespace Reader.Gives

variable {α β : Type} {P : α → Prop} {Q : β → Prop} {r : Reader α}

theorem pure {x : α} (h : P x) : Reader.Gives (Pure.pure x : Reader α) P := by
  intro cs y rest hread
  obtain ⟨rfl, -⟩ := Prod.mk.inj (Option.some.inj hread)
  exact h

theorem failure : Reader.Gives (failure : Reader α) P := fun _ _ _ hread => by cases hread

theorem bind {f : α → Reader β} (hr : r.Gives P) (hf : ∀ x, P x → (f x).Gives Q) : Reader.Gives (r >>= f) Q := by
  intro cs y rest hread
  obtain ⟨⟨x, mid⟩, hx, hy⟩ := Option.bind_eq_some_iff.1 hread
  exact hf x (hr cs x mid hx) mid y rest hy

/-- What is read on the way does not count. -/
theorem after {f : α → Reader β} (hf : ∀ x, (f x).Gives Q) : Reader.Gives (r >>= f) Q :=
  bind (P := fun _ => True) (fun _ _ _ _ => trivial) fun x _ => hf x

theorem map {f : α → β} (hr : r.Gives P) (hf : ∀ x, P x → Q (f x)) : Reader.Gives (f <$> r) Q :=
  hr.bind fun x hx => pure (hf x hx)

theorem of_forall (h : ∀ x, P x) : r.Gives P := fun _ x _ _ => h x

theorem lift {o : Option α} (h : ∀ x, o = some x → P x) : Reader.Gives (o : Reader α) P := by
  intro cs x rest hread
  obtain ⟨y, hy, he⟩ := Option.bind_eq_some_iff.1 hread
  obtain ⟨rfl, -⟩ := Prod.mk.inj (Option.some.inj he)
  exact h _ hy

theorem repeatedly {item : Reader (Option α)} (h : item.Gives fun o => ∀ x ∈ o, P x) (n : Nat) :
    (repeatedly item n).Gives fun xs => ∀ x ∈ xs, P x := by
  induction n with
  | zero => exact failure
  | succ n ih =>
    refine h.bind fun o ho => ?_
    cases o with
    | none => exact pure fun x hx => absurd hx List.not_mem_nil
    | some x => exact ih.bind fun xs hxs => pure (List.forall_mem_cons.2 ⟨ho x rfl, hxs⟩)

theorem all {item : Reader (Option α)} (h : item.Gives fun o => ∀ x ∈ o, P x) :
    (all item).Gives fun xs => ∀ x ∈ xs, P x :=
  fun cs => repeatedly h (cs.length + 1) cs

end Reader.Gives

/-! ## Values -/

/-- No table in a value has a key twice. -/
inductive Value.Distinct : Value → Prop
  | text {s : String} : Distinct (.text s)
  | integer {n : Int} : Distinct (.integer n)
  | float {x : Binary64} : Distinct (.float x)
  | boolean {b : Bool} : Distinct (.boolean b)
  | datetime {d : Datetime} : Distinct (.datetime d)
  | array {isOpen : Bool} {items : List Value} : (∀ v ∈ items, Distinct v) → Distinct (.array isOpen items)
  | table {origin : Origin} {entries : List (String × Value)} :
      (entries.map (·.1)).Nodup → (∀ e ∈ entries, Distinct e.2) → Distinct (.table origin entries)

/-- The entries of a table without a key twice. -/
def DistinctEntries (entries : List (String × Value)) : Prop :=
  (entries.map (·.1)).Nodup ∧ ∀ e ∈ entries, e.2.Distinct

namespace DistinctEntries

variable {es es' : List (String × Value)} {name : String}

theorem nodup_append_singleton {names : List String} (h : names.Nodup) (hname : name ∉ names) :
    (names ++ [name]).Nodup :=
  List.nodup_append.2 ⟨h, List.nodup_singleton name, fun _ ha _ hb he => hname (List.mem_singleton.1 hb ▸ he ▸ ha)⟩

theorem mem_names_iff : name ∈ es.map (·.1) ↔ (es.lookup name).isSome = true := by
  rw [List.lookup_isSome_iff, List.mem_map]
  simp only [beq_iff_eq, eq_comm (a := name)]

theorem of_lookup (h : DistinctEntries es) {v : Value} (hv : es.lookup name = some v) : v.Distinct :=
  h.2 _ (Entries.mem_of_lookup hv)

theorem filter (h : DistinctEntries es) (p : String × Value → Bool) : DistinctEntries (es.filter p) :=
  ⟨h.1.sublist (List.filter_sublist.map _), fun e he => h.2 e (List.mem_of_mem_filter he)⟩

theorem nil : DistinctEntries [] := ⟨List.nodup_nil, fun _ he => absurd he List.not_mem_nil⟩

theorem table {origin : Origin} (h : DistinctEntries es) : (Value.table origin es).Distinct := .table h.1 h.2

theorem of_table {origin : Origin} (h : (Value.table origin es).Distinct) : DistinctEntries es := by
  cases h with
  | table hnodup hall => exact ⟨hnodup, hall⟩

/-- An entry under a key that is not there yet. -/
theorem append (h : DistinctEntries es) {v : Value} (hname : name ∉ es.map (·.1)) (hv : v.Distinct) :
    DistinctEntries (es ++ [(name, v)]) := by
  constructor
  · rw [List.map_append]
    exact nodup_append_singleton h.1 hname
  · intro e he
    rcases List.mem_append.1 he with he | he
    · exact h.2 e he
    · rw [List.mem_singleton.1 he]
      exact hv

/-- The keys after a change are those before, and the one that was changed. -/
theorem keys_alterM {change : Option Value → Option Value}
    (h : Entries.alterM name (m := Option) change es = some es') :
    es'.map (·.1) = if name ∈ es.map (·.1) then es.map (·.1) else es.map (·.1) ++ [name] := by
  induction es generalizing es' with
  | nil =>
    obtain ⟨v, -, hes⟩ := Option.bind_eq_some_iff.1 h
    obtain rfl := Option.some.inj hes
    rfl
  | cons e es ih =>
    by_cases he : e.1 = name
    · rw [Entries.alterM, if_pos he] at h
      obtain ⟨v, -, hes⟩ := Option.bind_eq_some_iff.1 h
      obtain rfl := Option.some.inj hes
      simp [he]
    · rw [Entries.alterM, if_neg he] at h
      obtain ⟨rest, hrest, hes⟩ := Option.bind_eq_some_iff.1 h
      obtain rfl := Option.some.inj hes
      have hkeys := ih hrest
      rw [List.map_cons, List.map_cons, hkeys]
      simp only [List.mem_cons, Ne.symm he, false_or]
      split_ifs <;> rfl

theorem alterM {change : Option Value → Option Value} (h : DistinctEntries es)
    (hchange : ∀ o v, (∀ w ∈ o, Value.Distinct w) → change o = some v → v.Distinct)
    (hes : Entries.alterM name (m := Option) change es = some es') : DistinctEntries es' := by
  constructor
  · rw [keys_alterM hes]
    split_ifs with hname
    · exact h.1
    · exact nodup_append_singleton h.1 hname
  · replace h := h.2
    induction es generalizing es' with
    | nil =>
      obtain ⟨v, hv, he⟩ := Option.bind_eq_some_iff.1 hes
      obtain rfl := Option.some.inj he
      exact List.forall_mem_singleton.2 (hchange none v (fun _ => nofun) hv)
    | cons e es ih =>
      obtain ⟨hfirst, hrest⟩ := List.forall_mem_cons.1 h
      by_cases he : e.1 = name
      · rw [Entries.alterM, if_pos he] at hes
        obtain ⟨v, hv, hes⟩ := Option.bind_eq_some_iff.1 hes
        obtain rfl := Option.some.inj hes
        exact List.forall_mem_cons.2 ⟨hchange (some e.2) v (fun w hw => Option.some.inj hw ▸ hfirst) hv, hrest⟩
      · rw [Entries.alterM, if_neg he] at hes
        obtain ⟨rest, hes', hes⟩ := Option.bind_eq_some_iff.1 hes
        obtain rfl := Option.some.inj hes
        exact List.forall_mem_cons.2 ⟨hfirst, ih hes' hrest⟩

end DistinctEntries

namespace Value

/-- A change that keeps keys distinct does so at the end of any path. -/
theorem Distinct.alterAt {isDotted : Bool} {change : Value → Option Value} {path : List String} {v w : Value}
    (hchange : ∀ v w, Distinct v → change v = some w → Distinct w) (hv : v.Distinct)
    (h : alterAt isDotted change path v = some w) : w.Distinct := by
  induction path generalizing v w with
  | nil => exact hchange v w hv h
  | cons name path ih =>
    cases v with
    | table origin entries =>
      obtain ⟨entries', hentries, rfl⟩ := Option.map_eq_some_iff.1 h
      refine (DistinctEntries.of_table hv).alterM ?_ hentries |>.table
      intro o w ho hw
      split at hw
      next => exact ih DistinctEntries.nil.table hw
      next =>
        split_ifs at hw
        exact ih (ho _ rfl) hw
      next items =>
        obtain ⟨x, hx, hw⟩ := Option.bind_eq_some_iff.1 hw
        obtain ⟨y, hy, hw⟩ := Option.bind_eq_some_iff.1 hw
        obtain rfl := Option.some.inj hw
        cases ho _ rfl with
        | array hitems =>
          refine .array fun u hu => ?_
          rcases List.mem_append.1 hu with hu | hu
          · exact hitems u (List.mem_of_mem_dropLast hu)
          · rw [List.mem_singleton.1 hu]
            exact ih (hitems x (List.mem_of_getLast? hx)) hy
      next => cases hw
    | _ => cases h

/-- Adding a value under a new key. -/
theorem Distinct.add {root w : Value} {p : Pair} (hroot : root.Distinct) (hp : p.value.Distinct)
    (h : root.add p = some w) : w.Distinct := by
  refine hroot.alterAt (fun v v' hv hchange => ?_) h
  split at hchange
  next origin entries =>
    split_ifs at hchange with hnew
    obtain rfl := Option.some.inj hchange
    have hentries := DistinctEntries.of_table hv
    exact (hentries.append (fun hmem => hnew (.inr (DistinctEntries.mem_names_iff.1 hmem))) hp).table
  next => cases hchange

/-! ## Reading -/

theorem gives_pair {value : Reader Value} (h : value.Gives Distinct) : (pair value).Gives (·.value.Distinct) :=
  .after fun _ => .after fun _ => .after fun _ => h.bind fun _ hv => .after fun _ => .pure hv

theorem gives_items {value : Reader Value} (h : value.Gives Distinct) :
    (items value).Gives fun vs => ∀ v ∈ vs, v.Distinct := by
  refine Reader.Gives.bind (.all ?_) fun vs hvs => .after fun _ => .pure hvs
  refine .after fun _ => .after fun next => ?_
  split
  · exact .pure fun _ hv => nomatch hv
  · refine h.bind fun v hv => .after fun _ => .after fun comma => ?_
    split
    · exact .pure fun w hw => Option.some.inj hw ▸ hv
    · exact .after fun _ => .after fun _ => .pure fun w hw => Option.some.inj hw ▸ hv

theorem gives_pairs {value : Reader Value} (h : value.Gives Distinct) :
    (pairs value).Gives fun ps => ∀ p ∈ ps, p.value.Distinct := by
  refine .after fun _ => .after fun closed => ?_
  split
  · exact .pure fun p hp => absurd hp List.not_mem_nil
  · refine (gives_pair h).bind fun first hfirst => ?_
    refine Reader.Gives.bind (.all ?_) fun others hothers => .after fun _ =>
      .pure (List.forall_mem_cons.2 ⟨hfirst, hothers⟩)
    refine .after fun more => ?_
    split
    · exact (gives_pair h).bind fun p hp => .pure fun q hq => Option.some.inj hq ▸ hp
    · exact .pure fun _ hq => nomatch hq

theorem gives_figure : figure.Gives Distinct := by
  intro cs v rest h
  unfold figure at h
  split at h
  · exact (Reader.Gives.map (.of_forall fun _ => trivial) fun d _ => .datetime) cs v rest h
  · refine Reader.Gives.after (fun n => ?_) cs v rest h
    split
    · exact .pure .integer
    · exact .pure .float

theorem gives_truth : truth.Gives Distinct := by
  refine .after fun next => ?_
  split
  · exact .after fun _ => .pure .boolean
  · exact .after fun _ => .pure .boolean

theorem gives_scalar : scalar.Gives Distinct := by
  refine .after fun next => ?_
  split
  · exact .map (P := fun _ => True) (.of_forall fun _ => trivial) fun s _ => .text
  · exact .map (P := fun _ => True) (.of_forall fun _ => trivial) fun s _ => .text
  · exact gives_truth
  · exact gives_truth
  · exact gives_figure

theorem Distinct.foldlM_add {ps : List Pair} {root w : Value} (hroot : root.Distinct)
    (hps : ∀ p ∈ ps, p.value.Distinct) (h : ps.foldlM Value.add root = some w) : w.Distinct := by
  induction ps generalizing root with
  | nil => exact Option.some.inj h ▸ hroot
  | cons p ps ih =>
    obtain ⟨hfirst, hrest⟩ := List.forall_mem_cons.1 hps
    obtain ⟨mid, hmid, h⟩ := Option.bind_eq_some_iff.1 h
    exact ih (hroot.add hfirst hmid) hrest h

theorem gives_read (depth : Nat) : (read depth).Gives Distinct := by
  induction depth with
  | zero => exact gives_scalar
  | succ depth ih =>
    refine .after fun c => ?_
    split
    · exact .after fun _ => (gives_items ih).map fun vs hvs => .array hvs
    · exact .after fun _ => (gives_pairs ih).bind fun ps hps => .lift fun w hw =>
        DistinctEntries.nil.table.foldlM_add hps hw
    · exact gives_scalar

end Value

/-! ## Documents -/

/-- The value on a line, if there is one, has no key twice. -/
def Line.Distinct : Line → Prop
  | .pair p => p.value.Distinct
  | .blank | .table _ | .item _ => True

theorem Line.gives_read : Line.read.Gives fun o => ∀ l ∈ o, l.Distinct := by
  refine .after fun _ => .after fun next => ?_
  have hplain {l : Line} (hl : l.Distinct) : ∀ m ∈ some l, m.Distinct := fun m hm => Option.some.inj hm ▸ hl
  split
  · exact .pure fun _ hl => nomatch hl
  · refine .after fun _ => .after fun double => ?_
    split
    · exact .after fun _ => .after fun _ => .after fun _ => .pure (hplain trivial)
    · exact .after fun _ => .after fun _ => .after fun _ => .pure (hplain trivial)
  · exact .after fun _ => .pure (hplain trivial)
  · exact .after fun _ => .pure (hplain trivial)
  · exact .after fun _ => .pure (hplain trivial)
  · exact (Value.gives_pair (Value.gives_read maxDepth)).bind fun p hp => .after fun _ => .pure (hplain hp)

theorem Line.gives_readAll : Line.readAll.Gives fun ls => ∀ l ∈ ls, l.Distinct :=
  .after fun _ => .all Line.gives_read

namespace Document

variable {d d' : Document} {name : String} {es es' : List (String × Value)}

theorem distinct_makeTable (h : DistinctEntries es) (hmake : makeTable name es = some es') : DistinctEntries es' := by
  unfold makeTable at hmake
  split at hmake
  next hnone =>
    obtain rfl := Option.some.inj hmake
    refine h.append (fun hmem => ?_) DistinctEntries.nil.table
    rw [DistinctEntries.mem_names_iff, hnone] at hmem
    cases hmem
  next inner hparent =>
    obtain rfl := Option.some.inj hmake
    have hinner := DistinctEntries.of_table (h.of_lookup hparent)
    refine (h.filter _).append (fun hmem => ?_) hinner.table
    obtain ⟨e, he, hname⟩ := List.mem_map.1 hmem
    exact of_decide_eq_true (List.mem_filter.1 he).2 hname
  next => cases hmake

theorem distinct_makeItem (h : DistinctEntries es) (hmake : makeItem name es = some es') : DistinctEntries es' := by
  refine h.alterM (fun o v ho hv => ?_) hmake
  have hnew : (Value.table .header []).Distinct := DistinctEntries.nil.table
  split at hv
  next =>
    obtain rfl := Option.some.inj hv
    exact .array (List.forall_mem_singleton.2 hnew)
  next items =>
    obtain rfl := Option.some.inj hv
    cases ho _ rfl with
    | array hitems =>
      refine .array fun u hu => ?_
      rcases List.mem_append.1 hu with hu | hu
      · exact hitems u hu
      · exact List.mem_singleton.1 hu ▸ hnew
  next => cases hv

theorem distinct_start {make : String → List (String × Value) → Option (List (String × Value))} {key : Key}
    (hmake : ∀ es es', DistinctEntries es → make key.name es = some es' → DistinctEntries es')
    (h : d.root.Distinct) (hstart : d.start make key = some d') : d'.root.Distinct := by
  obtain ⟨root, hroot, hd⟩ := Option.bind_eq_some_iff.1 hstart
  obtain rfl := Option.some.inj hd
  refine h.alterAt (fun v w hv hw => ?_) hroot
  split at hw
  next =>
    obtain ⟨es', hes, rfl⟩ := Option.map_eq_some_iff.1 hw
    exact (hmake _ _ (DistinctEntries.of_table hv) hes).table
  next => cases hw

/-- A line leaves all keys distinct. -/
theorem distinct_add {l : Line} (h : d.root.Distinct) (hl : l.Distinct) (hadd : d.add l = some d') :
    d'.root.Distinct := by
  cases l with
  | blank => exact Option.some.inj hadd ▸ h
  | table key => exact distinct_start (fun _ _ => distinct_makeTable) h hadd
  | item key => exact distinct_start (fun _ _ => distinct_makeItem) h hadd
  | pair p =>
    obtain ⟨root, hroot, rfl⟩ := Option.map_eq_some_iff.1 hadd
    exact h.alterAt (fun _ _ hv hw => hv.add hl hw) hroot

theorem distinct_foldlM {ls : List Line} (h : d.root.Distinct) (hls : ∀ l ∈ ls, l.Distinct)
    (hfold : ls.foldlM add d = some d') : d'.root.Distinct := by
  induction ls generalizing d with
  | nil => exact Option.some.inj hfold ▸ h
  | cons l ls ih =>
    obtain ⟨hfirst, hrest⟩ := List.forall_mem_cons.1 hls
    obtain ⟨mid, hmid, hfold⟩ := Option.bind_eq_some_iff.1 hfold
    exact ih (distinct_add h hfirst hmid) hrest hfold

end Document

/-- No table of a document has a key twice. -/
theorem distinct_of_parse? {s : String} {v : Value} (h : parse? s = some v) : v.Distinct := by
  obtain ⟨⟨ls, rest⟩, hread, h⟩ := Option.bind_eq_some_iff.1 h
  obtain ⟨d, hfold, h⟩ := Option.bind_eq_some_iff.1 h
  obtain rfl := Option.some.inj h
  exact Document.distinct_foldlM DistinctEntries.nil.table (Line.gives_readAll _ ls rest hread) hfold

end PubSub.Toml
