/-!
# Text as bytes

Stored keys and records are byte strings. A text has one byte form; a byte string that is the form
of no text can still be shown, with a replacement character for each part that fits no character.
-/

namespace PubSub

abbrev Bytes := List UInt8

namespace Text

/-- The UTF-8 form of a text. -/
def bytes (s : String) : Bytes := s.toByteArray.data.toList

/-- The text whose UTF-8 form is `b`, if there is one. -/
def ofBytes? (b : Bytes) : Option String := String.fromUTF8? ⟨b.toArray⟩

theorem ofBytes?_bytes (s : String) : ofBytes? (bytes s) = some s := by
  have h : (⟨(bytes s).toArray⟩ : ByteArray) = s.toByteArray := by simp [bytes]
  unfold ofBytes? String.fromUTF8?
  rw [h, dif_pos s.isValidUTF8]
  rfl

theorem bytes_of_ofBytes? {b : Bytes} {s : String} (h : ofBytes? b = some s) : bytes s = b := by
  unfold ofBytes? String.fromUTF8? at h
  split at h
  · obtain rfl := Option.some.inj h
    simp [bytes, String.fromUTF8]
  · simp at h

theorem ofBytes?_eq_some_iff {b : Bytes} {s : String} : ofBytes? b = some s ↔ b = bytes s :=
  ⟨fun h => (bytes_of_ofBytes? h).symm, fun h => h ▸ ofBytes?_bytes s⟩

theorem bytes_injective {s t : String} (h : bytes s = bytes t) : s = t :=
  Option.some.inj (by rw [← ofBytes?_bytes s, h, ofBytes?_bytes])

/-! ## Showing bytes that are no text -/

/-- How many bytes follow the first byte of a character, and the range of the second one. -/
def continuation (first : UInt8) : Option (Nat × UInt8 × UInt8) :=
  if 0xC2 ≤ first ∧ first ≤ 0xDF then some (1, 0x80, 0xBF)
  else if first = 0xE0 then some (2, 0xA0, 0xBF)
  else if first = 0xED then some (2, 0x80, 0x9F)
  else if 0xE1 ≤ first ∧ first ≤ 0xEF then some (2, 0x80, 0xBF)
  else if first = 0xF0 then some (3, 0x90, 0xBF)
  else if 0xF1 ≤ first ∧ first ≤ 0xF3 then some (3, 0x80, 0xBF)
  else if first = 0xF4 then some (3, 0x80, 0x8F)
  else none

/-- How many of the next bytes still fit a character that wants `n` more, the next one from
`low` to `high` and the others from 0x80 to 0xBF. -/
def fitting : Nat → UInt8 → UInt8 → Bytes → Nat
  | 0, _, _, _ => 0
  | _ + 1, _, _, [] => 0
  | n + 1, low, high, b :: rest =>
    if low ≤ b ∧ b ≤ high then fitting n 0x80 0xBF rest + 1 else 0

/-- The first character of a byte string and what it took, or none and the bytes to pass over:
the longest start of a character, at least one byte. -/
def firstChar (b : UInt8) (rest : Bytes) : Option Char × Nat :=
  if b < 0x80 then (some (Char.ofNat b.toNat), 0)
  else match continuation b with
    | none => (none, 0)
    | some (n, low, high) =>
      let fit := fitting n low high rest
      if fit = n then
        let lead := b.toNat % (if n = 1 then 32 else if n = 2 then 16 else 8)
        let code := (rest.take n).foldl (fun acc c => acc * 64 + c.toNat % 64) lead
        (some (Char.ofNat code), n)
      else (none, fit)

/-- Each part that fits no character becomes one replacement character. -/
def replaceInvalid (b : Bytes) : List Char :=
  match b with
  | [] => []
  | b :: rest =>
    let (c, taken) := firstChar b rest
    c.getD '\ufffd' :: replaceInvalid (rest.drop taken)
termination_by b.length
decreasing_by simp only [List.length_cons, List.length_drop]; omega

/-- The text of a byte string, with replacement characters only where it is not UTF-8. -/
def lossy (b : Bytes) : String :=
  match ofBytes? b with
  | some s => s
  | none => String.ofList (replaceInvalid b)

theorem lossy_bytes (s : String) : lossy (bytes s) = s := by simp [lossy, ofBytes?_bytes]

end Text

end PubSub
