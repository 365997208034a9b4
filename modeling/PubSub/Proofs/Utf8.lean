import PubSub.Text.Utf8
/-!
# Texts byte by byte

The bytes of a text are those of its characters one after the other: one byte for an ASCII
character, and only bytes from 128 on for any other. So a byte below 128 in a text is a character.
-/

namespace PubSub.Text

theorem bytes_eq_flatMap (s : String) : bytes s = s.toList.flatMap String.utf8EncodeChar := by
  have h : s.toByteArray = (s.toList.flatMap String.utf8EncodeChar).toByteArray := String.utf8Encode_toList.symm
  rw [bytes, h, List.data_toByteArray, List.toList_toArray]

theorem bytes_ofList (cs : List Char) : bytes (String.ofList cs) = cs.flatMap String.utf8EncodeChar := by
  rw [bytes_eq_flatMap, String.toList_ofList]

theorem bytes_append (s t : String) : bytes (s ++ t) = bytes s ++ bytes t := by
  rw [bytes_eq_flatMap, String.toList_append, List.flatMap_append, ← bytes_eq_flatMap, ← bytes_eq_flatMap]

theorem utf8EncodeChar_ascii {c : Char} (h : c.toNat < 128) : String.utf8EncodeChar c = [UInt8.ofNat c.toNat] := by
  have hle : c.val.toNat ≤ 0x7f := Nat.le_of_lt_succ h
  rw [String.utf8EncodeChar, if_pos hle]
  rfl

theorem le_of_mem_utf8EncodeChar {c : Char} (h : ¬ c.toNat < 128) {b : UInt8} (hb : b ∈ String.utf8EncodeChar c) :
    128 ≤ b := by
  have hc : ¬ c.val.toNat ≤ 0x7f := fun hle => h (Nat.lt_succ_of_le hle)
  apply UInt8.le_iff_toNat_le.2
  rw [String.utf8EncodeChar, if_neg hc] at hb
  -- Two, three or four bytes; each is at least 0x80 by its marker bits.
  split at hb
  · simp only [List.mem_cons, List.not_mem_nil, or_false] at hb
    rcases hb with rfl | rfl <;> rw [UInt8.toNat_ofNat'] <;> simp only [UInt8.reduceToNat] <;> omega
  · split at hb
    · simp only [List.mem_cons, List.not_mem_nil, or_false] at hb
      rcases hb with rfl | rfl | rfl <;> rw [UInt8.toNat_ofNat'] <;> simp only [UInt8.reduceToNat] <;> omega
    · simp only [List.mem_cons, List.not_mem_nil, or_false] at hb
      rcases hb with rfl | rfl | rfl | rfl <;> rw [UInt8.toNat_ofNat'] <;> simp only [UInt8.reduceToNat] <;> omega

/-- A text without a NUL has no zero byte. -/
theorem zero_notMem_bytes {s : String} (h : '\x00' ∉ s.toList) : (0 : UInt8) ∉ bytes s := by
  rw [bytes_eq_flatMap, List.mem_flatMap]
  rintro ⟨c, hc, hb⟩
  by_cases hascii : c.toNat < 128
  · rw [utf8EncodeChar_ascii hascii, List.mem_singleton] at hb
    have hzero : c.toNat = 0 := by
      have := congrArg UInt8.toNat hb
      rw [UInt8.toNat_ofNat'] at this
      simp only [UInt8.reduceToNat] at this
      omega
    have hnul : c = '\x00' := Char.ext (UInt32.toNat_inj.1 hzero)
    exact h (hnul ▸ hc)
  · exact absurd (le_of_mem_utf8EncodeChar hascii hb) (by decide)

end PubSub.Text
