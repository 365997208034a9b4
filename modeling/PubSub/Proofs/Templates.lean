import Mathlib.Data.List.Infix
import Mathlib.Data.List.TakeWhile
import PubSub.Config.Placeholder
import PubSub.Proofs.Maps
/-!
# Texts with placeholders

A template is put together from literals, in which no placeholder can start, with placeholders between
them. Its text comes apart at just these places when it is expanded, so the literals stay, each
placeholder gives way to what it stands for, and nothing that comes in that way is looked at again
(`Placeholder.expanded_once`). What it stands for is the value of the variable of its name or else the
fallback, as long as the name has no equals sign; with one, it may be a part of another variable's value.
-/

namespace PubSub.Placeholder

/-! ## Templates -/

/-- A placeholder as it is written, with a fallback or without. -/
structure Written where
  name : List Char
  fallback? : Option (List Char)
  name_ne_nil : name ≠ []
  isNameChar_of_mem : ∀ c ∈ name, isNameChar c = true
  close_notMem : ∀ f ∈ fallback?, '\x7d' ∉ f

/-- A text without the opening of a placeholder. -/
structure Literal where
  chars : List Char
  no_opening : ¬ ['$', '\x7b'] <:+: chars

/-- A literal, and then any number of placeholders with a literal after each. -/
structure Template where
  first : Literal
  rest : List (Written × Literal)

namespace Written

/-- What comes after the name. -/
def closing (w : Written) : List Char :=
  match w.fallback? with
  | none => ['\x7d']
  | some f => ':' :: '-' :: f ++ ['\x7d']

def text (w : Written) : List Char := '$' :: '\x7b' :: w.name ++ w.closing

def placeholder (w : Written) : Placeholder := ⟨w.name, w.fallback?.getD []⟩

/-- The value of the variable of this very name, or the fallback if there is none. -/
def meaning (w : Written) (env : Environment) : List Char :=
  match env.get? (String.ofList w.name) with
  | some v => v.toList
  | none => w.fallback?.getD []

end Written

namespace Template

/-- The template with something in the place of each placeholder. -/
def fill (t : Template) (f : Written → List Char) : List Char :=
  t.first.chars ++ t.rest.flatMap fun part => f part.1 ++ part.2.chars

def text (t : Template) : String := String.ofList (t.fill Written.text)

end Template

/-! ## Reading back what is written -/

section Stop

variable {p : Char → Bool} {cs : List Char} {c : Char}

theorem takeWhile_stop (h : ∀ a ∈ cs, p a = true) (hc : p c = false) (rest : List Char) :
    (cs ++ c :: rest).takeWhile p = cs := by
  rw [List.takeWhile_append_of_pos h, List.takeWhile_cons_of_neg (by simp [hc]), List.append_nil]

theorem dropWhile_stop (h : ∀ a ∈ cs, p a = true) (hc : p c = false) (rest : List Char) :
    (cs ++ c :: rest).dropWhile p = c :: rest := by
  rw [List.dropWhile_append_of_pos h, List.dropWhile_cons_of_neg (by simp [hc])]

end Stop

/-- A placeholder is read to its end and no further: the name stops at a character that no name has, and the
fallback at the brace that closes it. -/
theorem read?_text (w : Written) (after : List Char) : read? (w.text ++ after) = some (w.placeholder, after) := by
  obtain ⟨name, fallback?, hne, hname, hclose⟩ := w
  cases fallback? with
  | none =>
    have htext : Written.text ⟨name, none, hne, hname, hclose⟩ ++ after = '$' :: '\x7b' :: (name ++ '\x7d' :: after) := by
      simp [Written.text, Written.closing]
    rw [htext, read?, takeWhile_stop hname rfl, dropWhile_stop hname rfl, if_neg hne]
    rfl
  | some f =>
    have htext : Written.text ⟨name, some f, hne, hname, hclose⟩ ++ after =
        '$' :: '\x7b' :: (name ++ ':' :: '-' :: (f ++ '\x7d' :: after)) := by
      simp [Written.text, Written.closing]
    have hopen : ∀ c ∈ f, decide (c ≠ '\x7d') = true := fun c hc =>
      decide_eq_true fun he => hclose f rfl (he ▸ hc)
    have hstop : decide ('\x7d' ≠ '\x7d') = false := rfl
    rw [htext, read?, takeWhile_stop hname rfl, dropWhile_stop hname rfl, if_neg hne]
    simp only [takeWhile_stop hopen hstop, dropWhile_stop hopen hstop]
    rfl

/-- What stands for a placeholder is put out, and the expansion goes on behind the placeholder. -/
theorem expandFrom_text (env : Environment) (w : Written) (after : List Char) :
    expandFrom env 0 (w.text ++ after) = w.placeholder.value env ++ expandFrom env 0 after := by
  have hread := read?_text w after
  have htext : w.text ++ after = '$' :: ('\x7b' :: w.name ++ w.closing ++ after) := rfl
  rw [htext] at hread ⊢
  rw [expandFrom, hread]
  dsimp only
  rw [expandFrom_eq_drop, List.drop_left' (Nat.eq_sub_of_add_eq List.length_append.symm)]

theorem read?_eq_none {cs : List Char} (h : ¬ ['$', '\x7b'] <+: cs) : read? cs = none := by
  unfold read?
  split
  · next rest => exact absurd ⟨rest, rfl⟩ h
  · rfl

/-- A literal stays, unless what comes after it could make an opening of its last character. -/
theorem expandFrom_literal (env : Environment) {cs after : List Char} (hcs : ¬ ['$', '\x7b'] <:+: cs)
    (hafter : after.head? ≠ some '\x7b') : expandFrom env 0 (cs ++ after) = cs ++ expandFrom env 0 after := by
  induction cs with
  | nil => rfl
  | cons c cs ih =>
    rw [List.infix_cons_iff, not_or] at hcs
    have hnone : ¬ ['$', '\x7b'] <+: c :: (cs ++ after) := by
      intro hopening
      obtain ⟨rfl, hbrace⟩ := List.cons_prefix_cons.1 hopening
      cases cs with
      | nil =>
        obtain ⟨rest, rfl⟩ := hbrace
        exact hafter rfl
      | cons d cs =>
        obtain ⟨rfl, -⟩ := List.cons_prefix_cons.1 hbrace
        exact hcs.1 ⟨cs, rfl⟩
    rw [List.cons_append, expandFrom_cons (read?_eq_none hnone), ih hcs.2, List.cons_append]

/-- After a literal there is a placeholder or nothing, so it never goes on with a brace. -/
theorem head?_parts (parts : List (Written × Literal)) :
    (parts.flatMap fun part => part.1.text ++ part.2.chars).head? ≠ some '\x7b' := by
  cases parts with
  | nil => exact nofun
  | cons part parts =>
    rw [List.flatMap_cons]
    exact fun h => absurd (Option.some.inj h) (by decide)

theorem expandFrom_parts (env : Environment) (parts : List (Written × Literal)) :
    expandFrom env 0 (parts.flatMap fun part => part.1.text ++ part.2.chars) =
      parts.flatMap fun part => part.1.placeholder.value env ++ part.2.chars := by
  induction parts with
  | nil => rfl
  | cons part parts ih =>
    rw [List.flatMap_cons, List.flatMap_cons, List.append_assoc, expandFrom_text,
      expandFrom_literal env part.2.no_opening (head?_parts parts), ih, List.append_assoc]

theorem expand_text (env : Environment) (t : Template) :
    expand env t.text = String.ofList (t.fill fun w => w.placeholder.value env) := by
  rw [expand, Template.text, String.toList_ofList, Template.fill, Template.fill,
    expandFrom_literal env t.first.no_opening (head?_parts t.rest), expandFrom_parts]

/-! ## What a placeholder stands for -/

section Meaning

variable {env : Environment} (henv : ∀ e ∈ env.entries, '=' ∉ e.1.toList)

include henv in
theorem value_eq_meaning {w : Written} (hname : '=' ∉ w.name) : w.placeholder.value env = w.meaning env := by
  have hfind := env.find?_eq_get? (String.ofList w.name) (by rwa [String.toList_ofList]) henv
  rw [String.toList_ofList] at hfind
  rw [value, Written.meaning, Written.placeholder, hfind]
  cases env.get? (String.ofList w.name) <;> rfl

include henv in
/-- No variable has a name with an equals sign. -/
theorem meaning_of_equals {w : Written} (hname : '=' ∈ w.name) : w.meaning env = w.fallback?.getD [] := by
  rw [Written.meaning]
  cases hv : env.get? (String.ofList w.name) with
  | none => rfl
  | some v =>
    refine absurd ?_ (henv _ (OrderedMap.get?_eq_some_iff.1 hv))
    rwa [String.toList_ofList]

include henv in
/-- Such a name finds what follows it in the line of another variable. -/
theorem value_of_equals {w : Written} {key more : List Char} (hkey : '=' ∉ key) (hname : w.name = key ++ '=' :: more) :
    w.placeholder.value env = ((env.get? (String.ofList key)).bind fun v =>
      (more ++ ['=']).isPrefixOf? v.toList).getD (w.fallback?.getD []) := by
  have hfind := env.find?_of_equals (String.ofList key) more (by rwa [String.toList_ofList]) henv
  rw [String.toList_ofList] at hfind
  rw [value, Written.placeholder, hname, hfind]

/-- A template is expanded piece by piece: literals stay, each placeholder gives way to what it stands for, and what
comes in is not expanded again. Where no name has an equals sign, a placeholder stands for the value of the variable of
its name, if that is set, or else for its fallback or nothing. A name with an equals sign is no variable's, and yet it
stands for the rest of the value of the variable before the sign, if that value goes on as the name does. -/
theorem expanded_once (env : Environment) (henv : ∀ e ∈ env.entries, '=' ∉ e.1.toList) :
    (∀ t : Template, expand env t.text = String.ofList (t.fill fun w => w.placeholder.value env) ∧
      ((∀ part ∈ t.rest, '=' ∉ part.1.name) → expand env t.text = String.ofList (t.fill (·.meaning env)))) ∧
    ∀ w : Written, ('=' ∉ w.name → w.placeholder.value env = w.meaning env) ∧
      ∀ key more, '=' ∉ key → w.name = key ++ '=' :: more →
        w.meaning env = w.fallback?.getD [] ∧
        w.placeholder.value env = ((env.get? (String.ofList key)).bind fun v =>
          (more ++ ['=']).isPrefixOf? v.toList).getD (w.fallback?.getD []) := by
  constructor
  · intro t
    refine ⟨expand_text env t, fun hnames => ?_⟩
    rw [expand_text, Template.fill, Template.fill]
    congr 2
    refine List.flatMap_congr fun part hpart => ?_
    rw [value_eq_meaning henv (hnames part hpart)]
  · intro w
    refine ⟨value_eq_meaning henv, fun key more hkey hname => ⟨?_, value_of_equals henv hkey hname⟩⟩
    exact meaning_of_equals henv (by simp [hname])

end Meaning

/-- A value and a fallback that make new openings with the text next to them, a variable that is set to nothing, and a
name that gets at the value of another variable. -/
theorem expanded_once_next_to_braces :
    let env : Environment := .ofList [("A", "B=$"), ("B", ""), ("C", "c")]
    let unset : Written := ⟨['A', '=', 'B'], none, by simp, by simp [isNameChar], nofun⟩
    let empty : Written := ⟨['B'], some ['x'], by simp, by simp [isNameChar], by simp⟩
    let other : Written := ⟨['D'], some ['$', '\x7b', 'C'], by simp, by simp [isNameChar], by simp⟩
    let parts : List (Written × Literal) := [(empty, ⟨[], by decide⟩), (other, ⟨['\x7d'], by decide⟩)]
    let plain : Template := ⟨⟨['$'], by decide⟩, parts⟩
    let t : Template := ⟨⟨['$'], by decide⟩, (unset, ⟨['\x7b', 'C', '\x7d'], by decide⟩) :: parts⟩
    (∀ e ∈ env.entries, '=' ∉ e.1.toList) ∧
      t.text = "$$\x7bA=B\x7d\x7bC\x7d$\x7bB:-x\x7d$\x7bD:-$\x7bC\x7d\x7d" ∧
      expand env t.text = "$$\x7bC\x7d$\x7bC\x7d" ∧
      expand env plain.text = String.ofList (plain.fill (·.meaning env)) ∧
      empty.placeholder.value env = empty.meaning env ∧
      unset.meaning env = [] ∧ unset.placeholder.value env = ['$'] := by
  intro env unset empty other parts plain t
  have henv : ∀ e ∈ env.entries, '=' ∉ e.1.toList := by decide +kernel
  obtain ⟨htext, hvalue⟩ := expanded_once env henv
  obtain ⟨hmeaning, hread⟩ := (hvalue unset).2 ['A'] ['B'] (by decide) rfl
  refine ⟨henv, by decide +kernel, (htext t).1.trans (by decide +kernel), (htext plain).2 ?_,
    (hvalue empty).1 (by decide), hmeaning, hread.trans (by decide +kernel)⟩
  decide

end PubSub.Placeholder
