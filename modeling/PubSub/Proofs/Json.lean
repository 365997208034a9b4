import PubSub.Json.Structure
import PubSub.Json.Writer
import PubSub.Proofs.Utf8
/-!
# JSON is read back as written

What the writer makes of a text, a number, an array or an object, the reader takes back. A value is
always followed by a comma or by the end of what it stands in (`Ends`), which tells a number where
it stops.
-/

namespace PubSub.Json

variable {α β σ : Type}

/-! ## Steps of a reader -/

/-- A reader goes on from what its first step left. -/
theorem bind_ok {x : Reader α} {f : α → Reader β} {b b' : Bytes} {a : α} (h : x b = .ok (a, b')) :
    (x >>= f) b = f a b' := by
  simp only [bind, StateT.bind, h, Except.bind]

theorem needToken_cons {c : UInt8} (h : isSpace c = false) (rest : Bytes) :
    needToken (c :: rest) = .ok (c, c :: rest) := by
  unfold needToken
  have hpeek : peekToken (c :: rest) = .ok (some c, c :: rest) := by simp [peekToken, h]
  rw [bind_ok hpeek]
  rfl

theorem notSpace_of_isDigit {c : UInt8} (h : isDigit c = true) : isSpace c = false := by
  have hle : ascii '0' ≤ c := by
    simp only [isDigit, decide_eq_true_eq] at h
    exact h.1
  have hne {d : UInt8} (hd : d < ascii '0') : c ≠ d := by
    rintro rfl
    exact absurd hd (UInt8.not_lt.2 hle)
  simp only [isSpace, decide_eq_false_iff_not, not_or]
  exact ⟨hne (by decide), hne (by decide), hne (by decide), hne (by decide)⟩

theorem peek_cons (c : UInt8) (rest : Bytes) : peek (c :: rest) = .ok (some c, c :: rest) := rfl

theorem discard_cons (c : UInt8) (rest : Bytes) : discard (c :: rest) = .ok ((), rest) := rfl

theorem colon_cons (rest : Bytes) : colon (58 :: rest) = .ok ((), rest) := by
  unfold colon
  rw [bind_ok (needToken_cons (by decide) rest), if_pos (by decide), discard_cons]

/-! ## Texts -/

theorem encode_ascii {cs : List Char} (h : ∀ c ∈ cs, c.toNat < 128) :
    cs.flatMap String.utf8EncodeChar = cs.map ascii := by
  induction cs with
  | nil => rfl
  | cons c cs ih =>
    rw [List.flatMap_cons, Text.utf8EncodeChar_ascii (h c List.mem_cons_self),
      ih fun d hd => h d (List.mem_cons_of_mem c hd)]
    rfl

/-- Bytes that stand for themselves in a string. -/
def Plain (b : UInt8) : Prop := b ≠ ascii '\\' ∧ b ≠ ascii '"' ∧ ¬ b < 32

theorem stringContent_plain {bs : Bytes} (h : ∀ b ∈ bs, Plain b) (acc rest : Bytes) :
    stringContent true none acc (bs ++ rest) = stringContent true none (bs.reverse ++ acc) rest := by
  induction bs generalizing acc with
  | nil => rfl
  | cons b bs ih =>
    obtain ⟨hslash, hquote, hcontrol⟩ := h b List.mem_cons_self
    rw [List.cons_append, stringContent.eq_def]
    simp only [if_neg hslash, Option.isSome_none, Bool.false_eq_true, and_false, if_false, Option.map_none, Option.getD_none,
      List.reverse_nil, List.nil_append, if_neg hquote, true_and, if_neg hcontrol]
    rw [ih (fun c hc => h c (List.mem_cons_of_mem b hc)), List.reverse_cons, List.append_assoc]
    rfl

/-- A character that the writer does not escape. -/
theorem plain_of_mem_utf8EncodeChar {c : Char} (hquote : c ≠ '"') (hslash : c ≠ '\\') (hcontrol : ¬ c.toNat < 32)
    {b : UInt8} (hb : b ∈ String.utf8EncodeChar c) : Plain b := by
  by_cases hascii : c.toNat < 128
  · rw [Text.utf8EncodeChar_ascii hascii, List.mem_singleton] at hb
    have hnum : b.toNat = c.toNat := by
      rw [hb, UInt8.toNat_ofNat']
      omega
    have hne {d : Char} (hd : c ≠ d) (hd128 : d.toNat < 128) : b ≠ ascii d := by
      intro he
      have hcd : c.toNat = d.toNat := by
        rw [← hnum, he, ascii, UInt8.toNat_ofNat']
        omega
      exact hd (Char.ext (UInt32.toNat_inj.1 hcd))
    refine ⟨hne hslash (by decide), hne hquote (by decide), fun hlt => ?_⟩
    have := UInt8.lt_iff_toNat_lt.1 hlt
    rw [hnum] at this
    exact hcontrol this
  · have hge := UInt8.le_iff_toNat_le.1 (Text.le_of_mem_utf8EncodeChar hascii hb)
    have hne {d : UInt8} (hd : d.toNat < 128) : b ≠ d := by
      rintro rfl
      exact absurd hge (Nat.not_le.2 hd)
    exact ⟨hne (by decide), hne (by decide), fun hlt => absurd (UInt8.lt_iff_toNat_lt.1 hlt)
      (Nat.not_lt.2 (Nat.le_trans (by decide) hge))⟩

theorem codePoint_of_control : ∀ n < 32, (hexFour 48 48 (ascii (Writer.hexDigit (n / 16)))
    (ascii (Writer.hexDigit (n % 16)))).bind (joinUnit true none) = some ([UInt8.ofNat n], none) := by
  decide

theorem hexDigit_ascii : ∀ n < 16, (Writer.hexDigit n).toNat < 128 := by decide

/-- Reading what one character was written as. -/
theorem stringContent_escape (c : Char) (acc rest : Bytes) :
    stringContent true none acc ((Writer.escape c).flatMap String.utf8EncodeChar ++ rest)
      = stringContent true none ((String.utf8EncodeChar c).reverse ++ acc) rest := by
  have hsimple (e : Char) (he : e.toNat < 128) (x : UInt8) (hx : simpleEscape (ascii e) = some x)
      (hu : ascii e ≠ ascii 'u') : stringContent true none acc (['\\', e].flatMap String.utf8EncodeChar ++ rest)
        = stringContent true none (x :: acc) rest := by
    rw [encode_ascii (by simp [he]), stringContent.eq_def]
    simp [hx, hu]
  unfold Writer.escape
  split
  · next h => rw [h]; exact hsimple '"' (by decide) 34 (by decide) (by decide)
  split
  · next h => rw [h]; exact hsimple '\\' (by decide) 92 (by decide) (by decide)
  split
  · next h => rw [h]; exact hsimple 'b' (by decide) 8 (by decide) (by decide)
  split
  · next h => rw [h]; exact hsimple 'f' (by decide) 12 (by decide) (by decide)
  split
  · next h => rw [h]; exact hsimple 'n' (by decide) 10 (by decide) (by decide)
  split
  · next h => rw [h]; exact hsimple 'r' (by decide) 13 (by decide) (by decide)
  split
  · next h => rw [h]; exact hsimple 't' (by decide) 9 (by decide) (by decide)
  split
  · next h =>
    have hhigh := hexDigit_ascii (c.toNat / 16) (by omega)
    have hlow := hexDigit_ascii (c.toNat % 16) (by omega)
    rw [encode_ascii (by simp [hhigh, hlow]), stringContent.eq_def]
    have hunit := codePoint_of_control c.toNat h
    have hzero : ascii '0' = 48 := by decide
    simp [hzero, hunit, Text.utf8EncodeChar_ascii (show c.toNat < 128 by omega)]
  · next hquote hslash _ _ _ _ _ hcontrol =>
    rw [List.flatMap_singleton]
    exact stringContent_plain (fun b hb => plain_of_mem_utf8EncodeChar hquote hslash hcontrol hb) acc rest

theorem stringContent_escaped (cs : List Char) (acc rest : Bytes) :
    stringContent true none acc ((cs.flatMap Writer.escape).flatMap String.utf8EncodeChar ++ 34 :: rest)
      = .ok (acc.reverse ++ cs.flatMap String.utf8EncodeChar, rest) := by
  induction cs generalizing acc with
  | nil =>
    rw [List.flatMap_nil, List.flatMap_nil, List.nil_append, stringContent.eq_def]
    simp [ascii]
  | cons c cs ih =>
    rw [List.flatMap_cons, List.flatMap_append, List.append_assoc, stringContent_escape, ih, List.reverse_append,
      List.reverse_reverse, List.append_assoc, List.flatMap_cons]

/-- A written text after its opening quote. -/
def written (s : String) : Bytes := (s.toList.flatMap Writer.escape).flatMap String.utf8EncodeChar ++ [34]

theorem bytes_text (s : String) : Text.bytes (Writer.text s) = 34 :: written s := by
  have hquote : Text.bytes "\"" = [34] := by decide
  rw [Writer.text, Text.bytes_append, Text.bytes_append, hquote, Text.bytes_ofList]
  rfl

theorem textString_append (s : String) (rest : Bytes) : textString (written s ++ rest) = .ok (s, rest) := by
  have hcontent := stringContent_escaped s.toList [] rest
  rw [List.reverse_nil, List.nil_append, ← Text.bytes_eq_flatMap] at hcontent
  unfold textString written
  rw [List.append_assoc, List.singleton_append, bind_ok (x := fun b => stringContent true none [] b) hcontent]
  simp only [Text.ofBytes?_bytes]
  rfl

theorem text_append (s : String) (rest : Bytes) : text (Text.bytes (Writer.text s) ++ rest) = .ok (s, rest) := by
  unfold text
  rw [bytes_text, List.cons_append, bind_ok (needToken_cons (by decide) _), if_pos (by decide),
    bind_ok (discard_cons _ _), textString_append]

/-! ## Numbers -/

/-- What may follow a value. -/
def Ends (rest : Bytes) : Prop :=
  ∃ b tail, rest = b :: tail ∧ (b = 44 ∨ b = 93 ∨ b = 125)

/-- The numbers below 256 as they are written. -/
theorem decimal_byte : ∀ n < 256, (Text.bytes (toString n)).all isDigit ∧
    ((Text.bytes (toString n)).head? = some 48 → (Text.bytes (toString n)).length = 1) ∧
    Text.bytes (toString n) ≠ [] ∧ absorb 0 (Text.bytes (toString n)) = (n, []) := by
  decide +kernel

theorem Ends.notDigit {rest : Bytes} (h : Ends rest) : ∃ e tail, rest = e :: tail ∧ isDigit e = false ∧
    e ≠ ascii '.' ∧ e ≠ ascii 'e' ∧ e ≠ ascii 'E' := by
  obtain ⟨e, tail, rfl, rfl | rfl | rfl⟩ := h <;> exact ⟨_, tail, rfl, by decide, by decide, by decide, by decide⟩

theorem numberTail_natural {whole : Bytes} {n : Nat} (h : absorb 0 whole = (n, [])) {rest : Bytes} (he : Ends rest) :
    numberTail true whole rest = .ok (.natural n, rest) := by
  obtain ⟨e, tail, rfl, -, hdot, hlower, hupper⟩ := he.notDigit
  simp [numberTail, h, peek, bind, StateT.bind, Except.bind, hdot, hlower, hupper]
  rfl

theorem number_append {whole : Bytes} {n : Nat} (hdigit : ∀ d ∈ whole, isDigit d = true) (hne : whole ≠ [])
    (hzero : whole.head? = some 48 → whole.length = 1) (habsorb : absorb 0 whole = (n, [])) {rest : Bytes}
    (he : Ends rest) : number true (whole ++ rest) = .ok (.natural n, rest) := by
  obtain ⟨d, ds, rfl⟩ := List.exists_cons_of_ne_nil hne
  obtain ⟨e, tail, rfl, hstop, -⟩ := he.notDigit
  have hdigits : digits (d :: ds ++ e :: tail) = .ok (d :: ds, e :: tail) := by
    have htake : (d :: ds ++ e :: tail).takeWhile isDigit = d :: ds := by
      rw [List.takeWhile_append_of_pos hdigit, List.takeWhile_cons_of_neg (by simp [hstop]), List.append_nil]
    have hdrop : (d :: ds ++ e :: tail).dropWhile isDigit = e :: tail := by
      rw [List.dropWhile_append_of_pos hdigit, List.dropWhile_cons_of_neg (by simp [hstop])]
    simp only [digits, htake, hdrop]
  have hlead : ¬ (d = ascii '0' ∧ (d :: ds).length > 1) := fun ⟨hd, hlen⟩ =>
    absurd (hzero (by rw [hd]; rfl)) (Nat.ne_of_gt hlen)
  unfold number
  rw [List.cons_append, bind_ok (peek_cons d (ds ++ e :: tail))]
  simp only [hdigit d List.mem_cons_self, not_true_eq_false, if_false]
  rw [← List.cons_append, bind_ok hdigits]
  simp only [if_neg hlead]
  exact numberTail_natural habsorb he

theorem natural_append {n : Nat} (h : n < 256) {rest : Bytes} (he : Ends rest) :
    natural 255 (Text.bytes (toString n) ++ rest) = .ok (n, rest) := by
  obtain ⟨hdigit, hzero, hne, habsorb⟩ := decimal_byte n h
  have hnumber := number_append (List.all_eq_true.1 hdigit) hne hzero habsorb he
  obtain ⟨d, ds, hw⟩ := List.exists_cons_of_ne_nil hne
  rw [hw] at hdigit hnumber ⊢
  have hd : isDigit d = true := List.all_eq_true.1 hdigit d List.mem_cons_self
  have hminus : d ≠ ascii '-' := by
    rintro rfl
    exact absurd hd (by decide)
  unfold natural
  rw [List.cons_append, bind_ok (needToken_cons (notSpace_of_isDigit hd) _), if_pos (.inr hd)]
  simp only [hminus, not_false_eq_true, ne_eq, decide_true, if_true]
  rw [← List.cons_append, bind_ok hnumber]
  simp only [show n ≤ 255 by omega, if_true]
  rfl

/-! ## Words -/

theorem expect_append (cs : List Char) (rest : Bytes) : expect cs (cs.map ascii ++ rest) = .ok ((), rest) := by
  induction cs with
  | nil => rfl
  | cons c cs ih =>
    rw [List.map_cons, List.cons_append, expect, bind_ok (peek_cons _ _)]
    simp only [if_true]
    rw [bind_ok (discard_cons _ _), ih]

theorem boolean_append (f : Bool) (rest : Bytes) : boolean (Text.bytes (toString f) ++ rest) = .ok (f, rest) := by
  unfold boolean
  cases f with
  | false =>
    have hword : Text.bytes (toString false) = ascii 'f' :: ['a', 'l', 's', 'e'].map ascii := by decide
    rw [hword, List.cons_append, bind_ok (needToken_cons (by decide) _), if_neg (by decide), if_pos rfl,
      bind_ok (discard_cons _ _), bind_ok (expect_append _ _)]
    rfl
  | true =>
    have hword : Text.bytes (toString true) = ascii 't' :: ['r', 'u', 'e'].map ascii := by decide
    rw [hword, List.cons_append, bind_ok (needToken_cons (by decide) _), if_pos rfl,
      bind_ok (discard_cons _ _), bind_ok (expect_append _ _)]
    rfl

/-! ## Values in a row -/

/-- Written values that come after others. -/
def more (xs : List String) : Bytes := xs.flatMap fun x => 44 :: Text.bytes x

theorem bytes_list_cons (x : String) (xs : List String) :
    Text.bytes (Writer.list (x :: xs)) = Text.bytes x ++ more xs := by
  have hcomma : Text.bytes "," = [44] := by decide
  induction xs generalizing x with
  | nil => rw [Writer.list, String.intercalate_singleton, more, List.flatMap_nil, List.append_nil]
  | cons y ys ih =>
    rw [Writer.list, String.intercalate_cons_cons, Text.bytes_append, Text.bytes_append, hcomma, ← Writer.list, ih]
    simp [more]

theorem ends_more (xs : List String) {close : UInt8} (h : close = 93 ∨ close = 125) (rest : Bytes) :
    Ends (more xs ++ close :: rest) := by
  cases xs with
  | nil => exact ⟨close, rest, rfl, .inr h⟩
  | cons x xs => exact ⟨44, Text.bytes x ++ more xs ++ close :: rest, rfl, .inl rfl⟩

theorem length_le_more (xs : List String) : xs.length ≤ (more xs).length := by
  induction xs with
  | nil => exact Nat.zero_le _
  | cons x xs ih =>
    rw [more, List.flatMap_cons, List.length_append, List.length_cons, List.length_cons]
    have : xs.length ≤ (xs.flatMap fun x => 44 :: Text.bytes x).length := ih
    omega

/-! ## Objects -/

/-- Reading these members, as they are written, makes `s'` of `s`. -/
inductive Reads (member : String → σ → Reader σ) : σ → List (String × String) → σ → Prop
  | nil {s : σ} : Reads member s [] s
  | cons {s s' s'' : σ} {name value : String} {ms : List (String × String)} :
      (∀ rest, Ends rest → member name s (58 :: (Text.bytes value ++ rest)) = .ok (s', rest)) →
      Reads member s' ms s'' → Reads member s ((name, value) :: ms) s''

theorem Reads.append {member : String → σ → Reader σ} {s s' s'' : σ} {ms ms' : List (String × String)}
    (h : Reads member s ms s') (h' : Reads member s' ms' s'') : Reads member s (ms ++ ms') s'' := by
  induction h with
  | nil => exact h'
  | cons hread _ ih => exact .cons hread (ih h')

/-- Members as the writer takes them. -/
def writtenMembers (ms : List (String × String)) : List String := ms.map fun m => Writer.member m.1 m.2

theorem bytes_member (name value : String) :
    Text.bytes (Writer.member name value) = 34 :: (written name ++ 58 :: Text.bytes value) := by
  have hcolon : Text.bytes ":" = [58] := by decide
  rw [Writer.member, Text.bytes_append, Text.bytes_append, bytes_text, hcolon]
  simp

variable {member : String → σ → Reader σ} {s s' : σ} {ms : List (String × String)}

theorem members_close (fuel : Nat) (first : Bool) (s : σ) (rest : Bytes) :
    members member (fuel + 1) first s (125 :: rest) = .ok (s, rest) := by
  rw [members, bind_ok (needToken_cons (by decide) _), if_pos (by decide), bind_ok (discard_cons _ _)]
  rfl

/-- What is read at the quote before a name. -/
theorem members_name (name : String) (s : σ) (fuel : Nat) (b : Bytes) :
    (do
      if (← needToken) ≠ ascii '"' then throw .malformed
      discard
      let name ← textString
      let s ← member name s
      members member fuel false s : Reader σ) (34 :: (written name ++ b))
      = (do let s ← member name s; members member fuel false s : Reader σ) b := by
  rw [bind_ok (needToken_cons (by decide) _)]
  simp only [show (34 : UInt8) = ascii '"' by decide, ne_eq, not_true_eq_false, if_false]
  rw [bind_ok (discard_cons _ _), bind_ok (textString_append _ _)]

theorem members_first (name : String) (s : σ) (fuel : Nat) (b : Bytes) :
    members member (fuel + 1) true s (34 :: (written name ++ b))
      = (do let s ← member name s; members member fuel false s : Reader σ) b := by
  rw [members, bind_ok (needToken_cons (by decide) _), if_neg (by decide)]
  exact members_name name s fuel b

theorem members_next (name : String) (s : σ) (fuel : Nat) (b : Bytes) :
    members member (fuel + 1) false s (44 :: 34 :: (written name ++ b))
      = (do let s ← member name s; members member fuel false s : Reader σ) b := by
  rw [members, bind_ok (needToken_cons (by decide) _), if_neg (by decide)]
  simp only [Bool.false_eq_true, not_false_eq_true, if_true, show (44 : UInt8) = ascii ',' by decide]
  rw [bind_ok (discard_cons _ _)]
  exact members_name name s fuel b

theorem members_more (h : Reads member s ms s') {fuel : Nat} (hfuel : ms.length < fuel) (rest : Bytes) :
    members member fuel false s (more (writtenMembers ms) ++ 125 :: rest) = .ok (s', rest) := by
  induction h generalizing fuel with
  | nil =>
    obtain ⟨fuel, rfl⟩ := Nat.exists_eq_succ_of_ne_zero (Nat.ne_of_gt hfuel)
    exact members_close fuel false _ rest
  | @cons s s' s'' name value ms hread _ ih =>
    obtain ⟨fuel, rfl⟩ := Nat.exists_eq_succ_of_ne_zero (Nat.ne_of_gt (Nat.zero_lt_of_lt hfuel))
    have hends := ends_more (writtenMembers ms) (.inr rfl) rest
    have hform : more (writtenMembers ((name, value) :: ms)) ++ 125 :: rest
        = 44 :: 34 :: (written name ++ 58 :: (Text.bytes value ++ (more (writtenMembers ms) ++ 125 :: rest))) := by
      simp [more, writtenMembers, bytes_member]
    rw [hform, members_next, bind_ok (hread _ hends)]
    exact ih (Nat.lt_of_succ_lt_succ hfuel)

/-- An object is read by reading its members in order. -/
theorem objectBody_append (h : Reads member s ms s') (rest : Bytes) :
    objectBody member s (Text.bytes (Writer.list (writtenMembers ms)) ++ 125 :: rest) = .ok (s', rest) := by
  unfold objectBody
  cases h with
  | nil =>
    rw [writtenMembers, List.map_nil, Writer.list, String.intercalate_nil]
    exact members_close _ true _ rest
  | @cons _ s₁ _ name value ms hread hrest =>
    have hends := ends_more (writtenMembers ms) (.inr rfl) rest
    have hform : Text.bytes (Writer.list (writtenMembers ((name, value) :: ms))) ++ 125 :: rest
        = 34 :: (written name ++ 58 :: (Text.bytes value ++ (more (writtenMembers ms) ++ 125 :: rest))) := by
      rw [writtenMembers, List.map_cons, bytes_list_cons, bytes_member, ← writtenMembers]
      simp
    rw [hform, members_first, bind_ok (hread _ hends)]
    refine members_more hrest ?_ rest
    have hlen := length_le_more (writtenMembers ms)
    simp only [writtenMembers, List.length_map] at hlen
    simp only [List.length_cons, List.length_append, writtenMembers]
    omega

/-! ## Arrays -/

section Arrays
variable {element : Reader α} {write : α → String} {xs : List α}

/-- An element is read back where it is written, and cannot be taken for the end of the array. -/
def ReadsBack (element : Reader α) (write : α → String) (x : α) : Prop :=
  (∀ rest, Ends rest → element (Text.bytes (write x) ++ rest) = .ok (x, rest)) ∧
    ∃ c tail, Text.bytes (write x) = c :: tail ∧ isSpace c = false ∧ c ≠ 93

theorem moreElements_close (first : Bool) (rest : Bytes) : moreElements first (93 :: rest) = .ok (false, 93 :: rest) := by
  unfold moreElements
  rw [bind_ok (needToken_cons (by decide) _), if_pos (by decide)]
  rfl

theorem moreElements_first {c : UInt8} (hspace : isSpace c = false) (hclose : c ≠ 93) (rest : Bytes) :
    moreElements true (c :: rest) = .ok (true, c :: rest) := by
  unfold moreElements
  rw [bind_ok (needToken_cons hspace _), if_neg (show ¬ c = ascii ']' from hclose), if_pos rfl]
  rfl

theorem moreElements_next {c : UInt8} (hspace : isSpace c = false) (hclose : c ≠ 93) (rest : Bytes) :
    moreElements false (44 :: c :: rest) = .ok (true, c :: rest) := by
  unfold moreElements
  rw [bind_ok (needToken_cons (by decide) _), if_neg (by decide), if_neg (by decide), if_pos (by decide),
    bind_ok (discard_cons _ _), bind_ok (needToken_cons hspace _),
    if_neg (show ¬ c = ascii ']' from hclose)]
  rfl

theorem elements_more (h : ∀ x ∈ xs, ReadsBack element write x) {fuel : Nat} (hfuel : xs.length < fuel) (rest : Bytes) :
    elements element fuel false (more (xs.map write) ++ 93 :: rest) = .ok (xs, 93 :: rest) := by
  induction xs generalizing fuel with
  | nil =>
    obtain ⟨fuel, rfl⟩ := Nat.exists_eq_succ_of_ne_zero (Nat.ne_of_gt hfuel)
    rw [elements, bind_ok (show moreElements false (more ([].map write) ++ 93 :: rest) = .ok (false, 93 :: rest) from
      moreElements_close false rest), if_neg (by decide)]
    rfl
  | cons x xs ih =>
    obtain ⟨fuel, rfl⟩ := Nat.exists_eq_succ_of_ne_zero (Nat.ne_of_gt (Nat.zero_lt_of_lt hfuel))
    obtain ⟨hread, c, tail, hbytes, hspace, hclose⟩ := h x List.mem_cons_self
    have hform : more ((x :: xs).map write) ++ 93 :: rest
        = 44 :: (Text.bytes (write x) ++ (more (xs.map write) ++ 93 :: rest)) := by simp [more]
    have hmore : moreElements false (44 :: (Text.bytes (write x) ++ (more (xs.map write) ++ 93 :: rest)))
        = .ok (true, Text.bytes (write x) ++ (more (xs.map write) ++ 93 :: rest)) := by
      rw [hbytes, List.cons_append, moreElements_next hspace hclose]
    rw [hform, elements, bind_ok hmore, if_pos rfl, bind_ok (hread _ (ends_more _ (.inl rfl) rest)),
      bind_ok (ih (fun y hy => h y (List.mem_cons_of_mem x hy)) (Nat.lt_of_succ_lt_succ hfuel))]
    rfl

/-- An array is read by reading its elements in order. -/
theorem arrayBody_append (h : ∀ x ∈ xs, ReadsBack element write x) (rest : Bytes) :
    arrayBody element (Text.bytes (Writer.list (xs.map write)) ++ 93 :: rest) = .ok (xs, rest) := by
  have hclose : closeArray (93 :: rest) = .ok ((), rest) := by
    unfold closeArray
    rw [bind_ok (needToken_cons (by decide) _), if_pos (by decide), discard_cons]
  have helements : elements element ((Text.bytes (Writer.list (xs.map write)) ++ 93 :: rest).length + 1) true
      (Text.bytes (Writer.list (xs.map write)) ++ 93 :: rest) = .ok (xs, 93 :: rest) := by
    cases xs with
    | nil =>
      rw [List.map_nil, Writer.list, String.intercalate_nil, elements,
        bind_ok (show moreElements true (Text.bytes "" ++ 93 :: rest) = .ok (false, 93 :: rest) from
          moreElements_close true rest), if_neg (by decide)]
      rfl
    | cons x xs =>
      obtain ⟨hread, c, tail, hbytes, hspace, hclose⟩ := h x List.mem_cons_self
      have hmore : moreElements true (Text.bytes (write x) ++ (more (xs.map write) ++ 93 :: rest))
          = .ok (true, Text.bytes (write x) ++ (more (xs.map write) ++ 93 :: rest)) := by
        rw [hbytes, List.cons_append, moreElements_first hspace hclose]
      have hlen := length_le_more (xs.map write)
      rw [List.length_map] at hlen
      rw [List.map_cons, bytes_list_cons, List.append_assoc, elements, bind_ok hmore, if_pos rfl,
        bind_ok (hread _ (ends_more _ (.inl rfl) rest)),
        bind_ok (elements_more (fun y hy => h y (List.mem_cons_of_mem x hy))
          (by simp only [List.length_append, List.length_cons]; omega) rest)]
      rfl
  unfold arrayBody
  rw [bind_ok (x := fun b => elements element (b.length + 1) true b) helements, bind_ok hclose]
  rfl

end Arrays

end PubSub.Json
