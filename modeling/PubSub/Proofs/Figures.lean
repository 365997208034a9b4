import Mathlib
import PubSub.Config.Load
/-!
# Texts that are read as numbers

The value of a variable is taken for a truth, an integer or a number where it reads as one, and
written back where a text is asked for. Which texts come back as they were, and why the name of a
log level always does.
-/

namespace PubSub

/-! ## Characters -/

/-- A character of a number in plain writing: a digit, a sign or the point. -/
def isFigure (c : Char) : Bool := isDigit c ∨ c = '+' ∨ c = '-' ∨ c = '.'

theorem isFigure_iff {c : Char} : isFigure c = true ↔ isDigit c = true ∨ c = '+' ∨ c = '-' ∨ c = '.' := by
  simp only [isFigure, decide_eq_true_eq]

theorem isFigure_of_isDigit {c : Char} (h : isDigit c = true) : isFigure c = true := isFigure_iff.2 (.inl h)

theorem isDigit_eq (c : Char) : isDigit c = c.isDigit := by
  simp only [isDigit, Char.isDigit, Char.le_def, ge_iff_le, Bool.decide_and]

theorem isUpper_of_isDigit {c : Char} (h : isDigit c = true) : c.isUpper = false := by
  simp only [isDigit, decide_eq_true_eq, Char.le_def] at h
  have := h.2
  simp only [Char.isUpper, decide_eq_false_iff_not]
  grind

theorem isUpper_of_isFigure {c : Char} (h : isFigure c = true) : c.isUpper = false := by
  obtain h | rfl | rfl | rfl := isFigure_iff.1 h
  · exact isUpper_of_isDigit h
  all_goals decide

theorem isLower_of_isFigure {c : Char} (h : isFigure c = true) : c.isLower = false := by
  obtain h | rfl | rfl | rfl := isFigure_iff.1 h
  · simp only [isDigit, decide_eq_true_eq, Char.le_def] at h
    have := h.2
    simp only [Char.isLower]
    grind
  all_goals decide

/-- Figures have no case. -/
theorem lowerCaseChar_of_isFigure {c : Char} (h : isFigure c = true) : lowerCaseChar c = c := by
  have hkelvin : c ≠ '\u212a' := by
    rintro rfl
    exact absurd h (by decide)
  rw [lowerCaseChar, if_neg hkelvin, Char.toLower_eq_of_not_isUpper (by rw [isUpper_of_isFigure h]; exact nofun)]

theorem lowerCase_of_figures {s : String} (h : ∀ c ∈ s.toList, isFigure c = true) : lowerCase s = s := by
  rw [lowerCase, List.map_congr_left fun c hc => lowerCaseChar_of_isFigure (h c hc), List.map_id', String.ofList_toList]

/-- The name of a level is of letters. -/
theorem LevelFilter.ofName?_of_figures {s : String} (h : ∀ c ∈ s.toList, isFigure c = true) :
    LevelFilter.ofName? s = none := by
  have hupper : s.toList.map Char.toUpper = s.toList := by
    conv_rhs => rw [← List.map_id' s.toList]
    refine List.map_congr_left fun c hc => ?_
    exact Char.toUpper_eq_of_not_isLower (by rw [isLower_of_isFigure (h c hc)]; exact nofun)
  rw [LevelFilter.ofName?, List.find?_eq_none, hupper]
  intro l _ hl
  rw [decide_eq_true_eq] at hl
  rw [← hl] at h
  cases l <;> exact absurd (h _ List.mem_cons_self) (by decide)

/-! ## Numbers as they are written -/

theorem figures_digits (n : Nat) : ∀ c ∈ Nat.toDigits 10 n, isFigure c = true := by
  intro c hc
  refine isFigure_of_isDigit ?_
  rw [isDigit_eq]
  exact Nat.isDigit_of_mem_toDigits (b := 10) (by decide) (by decide) hc

theorem figures_integer (n : Int) : ∀ c ∈ (toString n).toList, isFigure c = true := by
  cases n with
  | ofNat n =>
    show ∀ c ∈ n.repr.toList, _
    rw [Nat.toList_repr]
    exact figures_digits n
  | negSucc n =>
    show ∀ c ∈ ("-" ++ (n + 1).repr).toList, _
    rw [String.toList_append, Nat.toList_repr]
    intro c hc
    rcases List.mem_append.1 hc with hc | hc
    · obtain rfl := List.mem_singleton.1 hc
      decide
    · exact figures_digits (n + 1) c hc

theorem figures_positional (digits : Nat) (exponent : Int) : ∀ c ∈ positional digits exponent, isFigure c = true := by
  have hzero : isFigure '0' = true := by decide
  have hpoint : isFigure '.' = true := by decide
  have hds := figures_digits digits
  intro c hc
  unfold positional at hc
  dsimp only at hc
  split_ifs at hc
  · rcases List.mem_append.1 hc with hc | hc
    · exact hds c hc
    · exact (List.mem_replicate.1 hc).2 ▸ hzero
  · rcases List.mem_append.1 hc with hc | hc
    · exact hds c (List.mem_of_mem_take hc)
    · rcases List.mem_cons.1 hc with rfl | hc
      · exact hpoint
      · exact hds c (List.mem_of_mem_drop hc)
  · rcases List.mem_append.1 hc with hc | hc
    · rcases List.mem_cons.1 hc with rfl | hc
      · exact hzero
      · rcases List.mem_cons.1 hc with rfl | hc
        · exact hpoint
        · exact (List.mem_replicate.1 hc).2 ▸ hzero
    · exact hds c hc

/-- The text of a number is no level's name: it is of figures, or one of three words. -/
theorem LevelFilter.ofName?_number (x : Binary64) : LevelFilter.ofName? x.text = none := by
  cases x with
  | nan => decide +kernel
  | infinite negative => cases negative <;> decide +kernel
  | finite negative m q =>
    refine LevelFilter.ofName?_of_figures fun c hc => ?_
    rw [Binary64.text] at hc
    dsimp only at hc
    rw [String.toList_ofList] at hc
    rcases List.mem_append.1 hc with hc | hc
    · cases negative
      · exact absurd hc List.not_mem_nil
      · obtain rfl := List.mem_singleton.1 hc
        decide
    · exact figures_positional _ _ c hc

/-! ## Texts that are read as numbers -/

theorem mem_splitSign {cs : List Char} {c : Char} (hc : c ∈ cs) : isFigure c = true ∨ c ∈ (splitSign cs).2 := by
  unfold splitSign
  split
  · rcases List.mem_cons.1 hc with rfl | hc
    · exact .inl (by decide)
    · exact .inr hc
  · rcases List.mem_cons.1 hc with rfl | hc
    · exact .inl (by decide)
    · exact .inr hc
  · exact .inr hc

theorem figures_of_integerOf? {s : String} {n : Int} (h : integerOf? s = some n) :
    ∀ c ∈ s.toList, isFigure c = true := by
  intro c hc
  rcases mem_splitSign hc with hc | hc
  · exact hc
  · unfold integerOf? at h
    revert h hc
    rcases splitSign s.toList with ⟨negative, ds⟩
    intro h hc
    dsimp only at h
    split_ifs at h with hds
    · exact isFigure_of_isDigit (List.all_eq_true.1 hds.2 c hc)
    · exact isFigure_of_isDigit (List.all_eq_true.1 hds.2 c hc)

theorem figures_of_signedOf? {s : String} {n : Int} (h : signedOf? s = some n) : ∀ c ∈ s.toList, isFigure c = true :=
  figures_of_integerOf? (Option.filter_eq_some_iff.1 h).1

/-- A letter, a digit, a sign or the point, as numbers and their names consist of. -/
def isNumberChar (c : Char) : Bool := c.isAlphanum ∨ c = '+' ∨ c = '-' ∨ c = '.'

theorem isNumberChar_of_isFigure {c : Char} (h : isFigure c = true) : isNumberChar c = true := by
  simp only [isNumberChar, decide_eq_true_eq]
  rcases isFigure_iff.1 h with h | h
  · rw [isDigit_eq] at h
    exact .inl (by rw [Char.isAlphanum, h, Bool.or_true])
  · exact .inr h

theorem isNumberChar_of_toLower {c : Char} (h : c.toLower.isLower = true) : isNumberChar c = true := by
  rw [Char.isLower_toLower_eq_isAlpha] at h
  simp only [isNumberChar, decide_eq_true_eq]
  exact .inl (by rw [Char.isAlphanum, h, Bool.true_or])

theorem isNumberChar_of_name {cs : List Char} {word : String} (h : cs.map Char.toLower = word.toList)
    (hword : word.toList.all Char.isLower = true) : ∀ c ∈ cs, isNumberChar c = true := by
  rw [← h] at hword
  exact fun c hc => isNumberChar_of_toLower (List.all_eq_true.1 hword _ (List.mem_map_of_mem hc))

theorem isNumberChar_of_exponent? {cs : List Char} {n : Int} (h : exponent? cs = some n) :
    ∀ c ∈ cs, isNumberChar c = true := by
  cases cs with
  | nil => exact fun c hc => absurd hc List.not_mem_nil
  | cons e rest =>
    intro c hc
    unfold exponent? at h
    dsimp only at h
    split_ifs at h with hds
    all_goals
      rcases List.mem_cons.1 hc with rfl | hc
      · rcases hds.1 with rfl | rfl <;> decide
      · rcases mem_splitSign hc with hc | hc
        · exact isNumberChar_of_isFigure hc
        · exact isNumberChar_of_isFigure (isFigure_of_isDigit (List.all_eq_true.1 hds.2.2 c hc))

theorem mem_runs {p : Char → Bool} {cs : List Char} {c : Char} (hc : c ∈ cs) : p c = true ∨ c ∈ cs.dropWhile p := by
  rw [← List.takeWhile_append_dropWhile (p := p) (l := cs)] at hc
  exact (List.mem_append.1 hc).imp_left List.mem_takeWhile_imp

theorem Binary64.isNumberChar_of_ofText? {cs : List Char} {x : Binary64} (h : ofText? cs = some x) :
    ∀ c ∈ cs, isNumberChar c = true := by
  intro c hc
  rcases mem_splitSign hc with hc | hc
  · exact isNumberChar_of_isFigure hc
  unfold ofText? at h
  revert h hc
  rcases splitSign cs with ⟨negative, ds⟩
  intro h hc
  dsimp only at h
  split_ifs at h with hinf hnan
  · rcases hinf with hinf | hinf <;> exact isNumberChar_of_name hinf (by decide +kernel) c hc
  · exact isNumberChar_of_name hnan (by decide +kernel) c hc
  · rcases mem_runs (p := isDigit) hc with hc | hc
    · exact isNumberChar_of_isFigure (isFigure_of_isDigit hc)
    · split at h
      next rest hrest =>
        rw [hrest] at hc
        obtain ⟨n, hn, -⟩ := Option.map_eq_some_iff.1 h
        rcases List.mem_cons.1 hc with rfl | hc
        · decide
        · rcases mem_runs (p := isDigit) hc with hc | hc
          · exact isNumberChar_of_isFigure (isFigure_of_isDigit hc)
          · exact isNumberChar_of_exponent? hn c hc
      next =>
        obtain ⟨n, hn, -⟩ := Option.map_eq_some_iff.1 h
        exact isNumberChar_of_exponent? hn c hc

/-! ## Values of variables -/

/-- A text that is the writing of what it reads as, whether truth, integer or number. -/
def Verbatim (s : String) : Prop :=
  (∀ b : Bool, lowerCase s = toString b → s = toString b) ∧
  (∀ n : Int, signedOf? s = some n → s = toString n) ∧
  (signedOf? s = none → ∀ x, Binary64.ofText? s.toList = some x → s = x.text)

namespace Setting

variable {s t : String}

theorem ofVariable_of_signedOf? {n : Int} (h : signedOf? s = some n) : ofVariable s = integer n := by
  have hlower := lowerCase_of_figures (figures_of_signedOf? h)
  have hword {word : String} (hnone : signedOf? word = none) : lowerCase s ≠ word := by
    rintro rfl
    rw [hlower, h] at hnone
    cases hnone
  rw [ofVariable, if_neg (hword (by decide)), if_neg (hword (by decide)), h]

/-- A value with a character that no number has is a text. -/
theorem ofVariable_of_mem {c : Char} (hc : c ∈ s.toList) (hchar : isNumberChar c = false) : ofVariable s = text s := by
  have hnot {p : Prop} (h : p → isNumberChar c = true) : ¬ p := fun hp => absurd (h hp) (by rw [hchar]; exact nofun)
  have hword {word : String} (hletters : word.toList.all (fun d => d.isLower && d ≠ 'k') = true) :
      lowerCase s ≠ word := by
    refine hnot fun h => ?_
    have hmem : lowerCaseChar c ∈ word.toList := by
      rw [← h, lowerCase, String.toList_ofList]
      exact List.mem_map_of_mem hc
    have hletter := List.all_eq_true.1 hletters _ hmem
    rw [lowerCaseChar] at hletter
    split_ifs at hletter with hkelvin
    · exact absurd hletter (by decide)
    · exact isNumberChar_of_toLower (Bool.and_eq_true_iff.1 hletter).1
  have hsigned : signedOf? s = none :=
    Option.eq_none_iff_forall_ne_some.2 fun n => hnot fun h => isNumberChar_of_isFigure (figures_of_signedOf? h c hc)
  have hnumber : Binary64.ofText? s.toList = none :=
    Option.eq_none_iff_forall_ne_some.2 fun x => hnot fun h => Binary64.isNumberChar_of_ofText? h c hc
  rw [ofVariable, if_neg (hword (by decide +kernel)), if_neg (hword (by decide +kernel)), hsigned, hnumber]

/-- A value comes back as it was exactly if it is the writing of what it reads as. -/
theorem text?_ofVariable_iff : (ofVariable s).text? = some s ↔ Verbatim s := by
  have hwords : signedOf? "true" = none ∧ signedOf? "false" = none ∧ Binary64.ofText? "true".toList = none ∧
      Binary64.ofText? "false".toList = none := by decide +kernel
  have hcase : lowerCase "true" = "true" ∧ lowerCase "false" = "false" := by decide +kernel
  constructor
  · intro h
    unfold ofVariable at h
    split_ifs at h with htrue hfalse
    · obtain rfl : "true" = s := Option.some.inj h
      refine ⟨fun b hb => hcase.1.symm.trans hb, fun n hn => ?_, fun _ x hx => ?_⟩
      · exact absurd (hwords.1.symm.trans hn) nofun
      · exact absurd (hwords.2.2.1.symm.trans hx) nofun
    · obtain rfl : "false" = s := Option.some.inj h
      refine ⟨fun b hb => hcase.2.symm.trans hb, fun n hn => ?_, fun _ x hx => ?_⟩
      · exact absurd (hwords.2.1.symm.trans hn) nofun
      · exact absurd (hwords.2.2.2.symm.trans hx) nofun
    · refine ⟨fun b hb => ?_, fun n hn => ?_, fun hno x hx => ?_⟩
      · cases b
        · exact absurd hb hfalse
        · exact absurd hb htrue
      · rw [hn] at h
        exact (Option.some.inj h).symm
      · rw [hno, hx] at h
        exact (Option.some.inj h).symm
  · rintro ⟨htruth, hinteger, hnumber⟩
    unfold ofVariable
    split_ifs with htrue hfalse
    · exact congrArg some (htruth true htrue).symm
    · exact congrArg some (htruth false hfalse).symm
    · split
      next n hn => exact congrArg some (hinteger n hn).symm
      next hno =>
        split
        next x hx => exact congrArg some (hnumber hno x hx).symm
        next => rfl

/-- A value that names a level is that name. -/
theorem eq_of_text?_ofVariable (h : (ofVariable s).text? = some t) (ht : (LevelFilter.ofName? t).isSome = true) :
    t = s := by
  unfold ofVariable at h
  split_ifs at h
  · obtain rfl := Option.some.inj h
    exact absurd ht (by decide +kernel)
  · obtain rfl := Option.some.inj h
    exact absurd ht (by decide +kernel)
  · split at h
    · obtain rfl := Option.some.inj h
      rw [LevelFilter.ofName?_of_figures (figures_integer _)] at ht
      cases ht
    · split at h
      · obtain rfl := Option.some.inj h
        rw [LevelFilter.ofName?_number] at ht
        cases ht
      · exact (Option.some.inj h).symm

end Setting

end PubSub
