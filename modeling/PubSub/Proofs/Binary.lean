import Mathlib
import PubSub.Message.Binary
/-!
# Binary records are read back as written

Numbers of a fixed width, and messages made of them. A text or byte string in memory has fewer than
2^64 bytes, so its length fits the eight bytes written before it.
-/

namespace PubSub

/-- A message as it can be in memory. -/
structure Message.Fits (m : Message) : Prop where
  topic : (Text.bytes m.topic).length < 2 ^ 64
  payload : m.payload.length < 2 ^ 64

instance (m : Message) : Decidable m.Fits :=
  decidable_of_iff ((Text.bytes m.topic).length < 2 ^ 64 ∧ m.payload.length < 2 ^ 64)
    ⟨fun h => ⟨h.1, h.2⟩, fun h => ⟨h.topic, h.payload⟩⟩

namespace Binary

/-! ## Numbers -/

theorem length_littleEndian (w n : Nat) : (littleEndian w n).length = w := by
  induction w generalizing n with
  | zero => rfl
  | succ w ih => rw [littleEndian, List.length_cons, ih]

theorem ofLittleEndian_lt (b : Bytes) : ofLittleEndian b < 256 ^ b.length := by
  induction b with
  | nil => simp [ofLittleEndian]
  | cons x b ih =>
    have hx : x.toNat < 256 := x.toNat_lt
    rw [ofLittleEndian, List.length_cons, Nat.pow_succ]
    omega

theorem ofLittleEndian_littleEndian {w n : Nat} (h : n < 256 ^ w) : ofLittleEndian (littleEndian w n) = n := by
  induction w generalizing n with
  | zero => simp_all [littleEndian, ofLittleEndian]
  | succ w ih =>
    have hdiv : n / 256 < 256 ^ w := by rw [Nat.pow_succ] at h; omega
    have hlow : (UInt8.ofNat n).toNat = n % 256 := UInt8.toNat_ofNat'
    rw [littleEndian, ofLittleEndian, ih hdiv, hlow]
    omega

theorem littleEndian_ofLittleEndian (b : Bytes) : littleEndian b.length (ofLittleEndian b) = b := by
  induction b with
  | nil => rfl
  | cons x b ih =>
    have hx : x.toNat < 256 := x.toNat_lt
    have hlow : UInt8.ofNat (x.toNat + 256 * ofLittleEndian b) = x := by
      apply UInt8.toNat_inj.1
      rw [UInt8.toNat_ofNat']
      omega
    have hhigh : (x.toNat + 256 * ofLittleEndian b) / 256 = ofLittleEndian b := by omega
    rw [ofLittleEndian, List.length_cons, littleEndian, hlow, hhigh, ih]

theorem ofLittleEndian_append (a b : Bytes) :
    ofLittleEndian (a ++ b) = ofLittleEndian a + 256 ^ a.length * ofLittleEndian b := by
  induction a with
  | nil => simp [ofLittleEndian]
  | cons x a ih =>
    rw [List.cons_append, ofLittleEndian, ih, ofLittleEndian, List.length_cons, Nat.pow_succ, Nat.mul_add,
      ← Nat.mul_assoc, Nat.mul_comm 256 (256 ^ a.length)]
    omega

/-- With the highest byte first, byte strings of one length come in the order of their numbers. -/
theorem ofLittleEndian_reverse_lt {a b : Bytes} (hlen : a.length = b.length) (h : a < b) :
    ofLittleEndian a.reverse < ofLittleEndian b.reverse := by
  induction a generalizing b with
  | nil => cases b <;> simp_all
  | cons x a ih =>
    cases b with
    | nil => simp at hlen
    | cons y b =>
      have hlen' : a.length = b.length := by simpa using hlen
      simp only [List.reverse_cons, ofLittleEndian_append, List.length_reverse, ofLittleEndian, hlen',
        Nat.mul_zero, Nat.add_zero]
      have ha := ofLittleEndian_lt a.reverse
      rw [List.length_reverse, hlen'] at ha
      rcases List.cons_lt_cons_iff.1 h with hxy | ⟨rfl, hab⟩
      · have hstep := Nat.mul_le_mul_left (256 ^ b.length) (Nat.succ_le_of_lt (UInt8.lt_iff_toNat_lt.1 hxy))
        rw [Nat.mul_succ] at hstep
        omega
      · have := ih hlen' hab
        omega

/-! ## Values -/

theorem take_append {n : Nat} {b : Bytes} (h : b.length = n) (rest : Bytes) : take n (b ++ rest) = .ok (b, rest) := by
  subst h
  simp [take]

theorem readBytes_append {b : Bytes} (h : b.length < 2 ^ 64) (rest : Bytes) :
    readBytes (encodeBytes b ++ rest) = .ok (b, rest) := by
  have hlen : ofLittleEndian (littleEndian 8 b.length) = b.length := ofLittleEndian_littleEndian (by simpa using h)
  unfold readBytes readNat encodeBytes
  rw [List.append_assoc, take_append (length_littleEndian 8 _)]
  simp only [bind, Except.bind, pure, Except.pure, hlen, take_append]

theorem readText_append {s : String} (h : (Text.bytes s).length < 2 ^ 64) (rest : Bytes) :
    readText (encodeText s ++ rest) = .ok (s, rest) := by
  unfold readText encodeText
  rw [readBytes_append h]
  simp only [bind, Except.bind, Text.ofBytes?_bytes]
  rfl

theorem readQoS_append (q : QoS) (rest : Bytes) : readQoS (encodeQoS q ++ rest) = .ok (q, rest) := by
  cases q <;> simp [readQoS, encodeQoS, readNat, take, ofLittleEndian, bind, Except.bind, QoS.toNat,
    QoS.fromCode, QoS.ofNat?, pure, Except.pure]

theorem readFlag_append (f : Bool) (rest : Bytes) : readFlag (encodeFlag f ++ rest) = .ok (f, rest) := by
  cases f <;> simp [readFlag, encodeFlag, readNat, take, ofLittleEndian, bind, Except.bind, pure, Except.pure]

theorem readMessage_append {m : Message} (h : m.Fits) (rest : Bytes) :
    readMessage (encodeMessage m ++ rest) = .ok (m, rest) := by
  unfold readMessage encodeMessage
  simp only [List.append_assoc, readText_append h.topic, bind, Except.bind, readBytes_append h.payload,
    readQoS_append, readFlag_append]
  rfl

/-- A record holds the message it was written for. -/
theorem decode_encodeMessage {m : Message} (h : m.Fits) : decode readMessage (encodeMessage m) = .ok m := by
  have hread := readMessage_append h []
  rw [List.append_nil] at hread
  rw [decode, hread]
  rfl

end Binary

end PubSub
