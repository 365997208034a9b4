import PubSub.Proofs.DurableQueue
/-!
# A record holds a message exactly when it starts with the written one

Reading is the inverse of writing: a reader gives a value just on the byte strings that start with
what is written for it (`Exact.reads`), and finds a written value that is cut short anywhere too
short (`Exact.short`). Readers put one after the other keep both, so a message has them from its
four fields. What else a record can hold is told apart by the field that is wrong.
-/

namespace PubSub

/-! ## Codes of delivery classes -/

theorem QoS.fromCode_eq_ok_iff {n : Nat} {q : QoS} : QoS.fromCode n = .ok q ↔ n = q.toNat := by
  unfold QoS.fromCode
  constructor
  · intro h
    split at h
    · next q' hq =>
      obtain rfl := Except.ok.inj h
      exact (QoS.toNat_of_ofNat? hq).symm
    · cases h
  · rintro rfl
    rw [QoS.ofNat?_toNat]

theorem QoS.fromCode_eq_error_iff {n : Nat} {e : InvalidQoS} : QoS.fromCode n = .error e ↔ 2 < n ∧ e = ⟨n⟩ := by
  unfold QoS.fromCode QoS.ofNat?
  split
  · next h => split at h <;> simp_all
  · next h => split at h <;> simp_all [eq_comm]; omega

namespace Binary

variable {α β : Type}

/-- The reader inverts the writer on the values that fit. -/
structure Exact (r : Reader α) (fits : α → Prop) (write : α → Bytes) : Prop where
  reads : ∀ {b v rest}, r b = .ok (v, rest) ↔ fits v ∧ b = write v ++ rest
  short : ∀ {b v tail}, fits v → write v = b ++ tail → tail ≠ [] → r b = .error .truncated

/-! ## Numbers and byte strings -/

theorem take_eq_ok_iff {n : Nat} {b v rest : Bytes} : take n b = .ok (v, rest) ↔ v.length = n ∧ b = v ++ rest := by
  constructor
  · intro h
    unfold take at h
    split at h
    · next hle =>
      obtain ⟨rfl, rfl⟩ := Prod.mk.inj (Except.ok.inj h)
      exact ⟨List.length_take_of_le hle, (List.take_append_drop n b).symm⟩
    · cases h
  · rintro ⟨hlen, rfl⟩
    exact take_append hlen rest

theorem take_short {n : Nat} {b : Bytes} (h : b.length < n) : take n b = .error .truncated :=
  if_neg (Nat.not_le.2 h)

theorem error_of_take {n : Nat} {b : Bytes} {f : Fault} (h : take n b = .error f) : f = .truncated := by
  unfold take at h
  split at h
  · cases h
  · exact (Except.error.inj h).symm

theorem bind_eq_ok_iff {x : Except Fault α} {f : α → Except Fault β} {y : β} :
    (x >>= f) = .ok y ↔ ∃ a, x = .ok a ∧ f a = .ok y := by
  cases x with
  | error e => exact ⟨nofun, nofun⟩
  | ok a => exact ⟨fun h => ⟨a, rfl, h⟩, fun ⟨_, h, hf⟩ => Except.ok.inj h ▸ hf⟩

theorem bind_eq_error_iff {x : Except Fault α} {f : α → Except Fault β} {e : Fault} :
    (x >>= f) = .error e ↔ x = .error e ∨ ∃ a, x = .ok a ∧ f a = .error e := by
  cases x with
  | error d =>
    refine ⟨fun h => .inl (Except.error.inj h ▸ rfl), ?_⟩
    rintro (h | ⟨_, h, -⟩)
    · rw [Except.error.inj h]
      rfl
    · cases h
  | ok a => exact ⟨fun h => .inr ⟨a, rfl, h⟩, fun h => h.elim nofun fun ⟨_, h, hf⟩ => Except.ok.inj h ▸ hf⟩

/-- The digits of a number are those written for it. -/
theorem readNat_eq_ok_iff {w n : Nat} {b rest : Bytes} :
    readNat w b = .ok (n, rest) ↔ n < 256 ^ w ∧ b = littleEndian w n ++ rest := by
  simp only [readNat, bind_eq_ok_iff, Prod.exists, take_eq_ok_iff]
  constructor
  · rintro ⟨digits, rest', ⟨hlen, rfl⟩, heq⟩
    obtain ⟨rfl, rfl⟩ := Prod.mk.inj (Except.ok.inj heq)
    subst hlen
    exact ⟨ofLittleEndian_lt digits, by rw [littleEndian_ofLittleEndian]⟩
  · rintro ⟨hlt, rfl⟩
    refine ⟨littleEndian w n, rest, ⟨length_littleEndian w n, rfl⟩, ?_⟩
    rw [ofLittleEndian_littleEndian hlt]
    rfl

theorem readNat_short {w : Nat} {b : Bytes} (h : b.length < w) : readNat w b = .error .truncated := by
  rw [readNat, take_short h]
  rfl

theorem error_of_readNat {w : Nat} {b : Bytes} {f : Fault} (h : readNat w b = .error f) : f = .truncated := by
  rcases bind_eq_error_iff.1 h with ht | ⟨_, _, hp⟩
  · exact error_of_take ht
  · cases hp

/-- Where two parts are cut: in the second one or in the first. -/
theorem cut_cases {w x b tail : Bytes} (h : w ++ x = b ++ tail) :
    (∃ cut, b = w ++ cut ∧ x = cut ++ tail) ∨ ∃ cut, w = b ++ cut ∧ cut ≠ [] := by
  rcases List.append_eq_append_iff.1 h with ⟨cut, hb, hx⟩ | ⟨cut, hw, htail⟩
  · exact .inl ⟨cut, hb, hx⟩
  · by_cases hcut : cut = []
    · -- A cut between the parts counts as one in the second.
      subst hcut
      exact .inl ⟨[], by rw [hw, List.append_nil, List.append_nil], htail.symm⟩
    · exact .inr ⟨cut, hw, hcut⟩

theorem exact_bytes : Exact readBytes (fun v => v.length < 2 ^ 64) encodeBytes where
  reads {b v rest} := by
    simp only [readBytes, bind_eq_ok_iff, Prod.exists, readNat_eq_ok_iff, take_eq_ok_iff, encodeBytes]
    constructor
    · rintro ⟨n, after, ⟨hlt, rfl⟩, rfl, rfl⟩
      exact ⟨by simpa using hlt, (List.append_assoc _ _ _).symm⟩
    · rintro ⟨hlt, rfl⟩
      exact ⟨v.length, v ++ rest, ⟨by simpa using hlt, List.append_assoc _ _ _⟩, rfl, rfl⟩
  short {b v tail} hfits hcut htail := by
    have hpos : 0 < tail.length := List.length_pos_of_ne_nil htail
    rcases cut_cases hcut with ⟨body, rfl, hbody⟩ | ⟨cut, hcut', hne⟩
    · -- The length is whole, and fewer bytes follow it than it says.
      have hlen : readNat 8 (littleEndian 8 v.length ++ body) = .ok (v.length, body) :=
        readNat_eq_ok_iff.2 ⟨by simpa using hfits, rfl⟩
      have hless : body.length < v.length := by
        rw [hbody, List.length_append]
        omega
      rw [readBytes, hlen]
      exact take_short hless
    · have hwidth := congrArg List.length hcut'
      rw [length_littleEndian, List.length_append] at hwidth
      have hcutpos : 0 < cut.length := List.length_pos_of_ne_nil hne
      rw [readBytes, readNat_short (by omega)]
      rfl

theorem error_of_readBytes {b : Bytes} {f : Fault} (h : readBytes b = .error f) : f = .truncated := by
  rcases bind_eq_error_iff.1 h with hn | ⟨_, _, ht⟩
  · exact error_of_readNat hn
  · exact error_of_take ht

/-! ## Texts -/

theorem exact_text : Exact readText (fun s => (Text.bytes s).length < 2 ^ 64) encodeText where
  reads {b s rest} := by
    simp only [readText, bind_eq_ok_iff, Prod.exists, exact_bytes.reads]
    constructor
    · rintro ⟨raw, after, ⟨hfits, rfl⟩, hs⟩
      split at hs
      · next s' htext =>
        obtain ⟨rfl, rfl⟩ := Prod.mk.inj (Except.ok.inj hs)
        obtain rfl := Text.ofBytes?_eq_some_iff.1 htext
        exact ⟨hfits, rfl⟩
      · cases hs
    · rintro ⟨hfits, rfl⟩
      refine ⟨Text.bytes s, rest, ⟨hfits, rfl⟩, ?_⟩
      rw [Text.ofBytes?_bytes]
      rfl
  short hfits hcut htail := by
    rw [readText, exact_bytes.short hfits hcut htail]
    rfl

theorem readText_eq_error_iff {b : Bytes} {f : Fault} :
    readText b = .error f ↔ readBytes b = .error f ∨
      f = .invalidText ∧ ∃ raw rest, raw.length < 2 ^ 64 ∧ b = encodeBytes raw ++ rest ∧ ∀ s, Text.bytes s ≠ raw := by
  simp only [readText, bind_eq_error_iff, Prod.exists, exact_bytes.reads]
  apply or_congr Iff.rfl
  constructor
  · rintro ⟨raw, rest, ⟨hfits, hb⟩, h⟩
    split at h
    · cases h
    · next hnone =>
      refine ⟨(Except.error.inj h).symm, raw, rest, hfits, hb, ?_⟩
      rintro s rfl
      rw [Text.ofBytes?_bytes] at hnone
      cases hnone
  · rintro ⟨rfl, raw, rest, hfits, hb, hno⟩
    refine ⟨raw, rest, ⟨hfits, hb⟩, ?_⟩
    have hnone : Text.ofBytes? raw = none :=
      Option.eq_none_iff_forall_ne_some.2 fun s hs => hno s (Text.bytes_of_ofBytes? hs)
    rw [hnone]
    rfl

/-! ## Single bytes -/

theorem readNat_one_cons (x : UInt8) (rest : Bytes) : readNat 1 (x :: rest) = .ok (x.toNat, rest) := by
  refine readNat_eq_ok_iff.2 ⟨x.toNat_lt, ?_⟩
  rw [littleEndian, UInt8.ofNat_toNat]
  rfl

/-- A single byte cut short is no byte at all. -/
theorem nil_of_cut {x : UInt8} {b tail : Bytes} (h : [x] = b ++ tail) (htail : tail ≠ []) : b = [] := by
  rcases List.singleton_eq_append_iff.1 h with ⟨hb, _⟩ | ⟨_, ht⟩
  · exact hb
  · exact absurd ht htail

theorem readQoS_cons (x : UInt8) (rest : Bytes) :
    readQoS (x :: rest) = match QoS.fromCode x.toNat with
      | .ok q => .ok (q, rest)
      | .error e => .error (.invalidQoS e) := by
  rw [readQoS, readNat_one_cons]
  rfl

theorem readFlag_cons (x : UInt8) (rest : Bytes) :
    readFlag (x :: rest) =
      if x.toNat = 0 then .ok (false, rest) else if x.toNat = 1 then .ok (true, rest) else .error .invalidFlag := by
  rw [readFlag, readNat_one_cons]
  rfl

theorem exact_QoS : Exact readQoS (fun _ => True) encodeQoS where
  reads {b q rest} := by
    constructor
    · intro h
      cases b with
      | nil => cases h
      | cons x b =>
        rw [readQoS_cons] at h
        split at h
        · next q' hq =>
          obtain ⟨rfl, rfl⟩ := Prod.mk.inj (Except.ok.inj h)
          refine ⟨trivial, ?_⟩
          rw [encodeQoS, ← QoS.fromCode_eq_ok_iff.1 hq, UInt8.ofNat_toNat]
          rfl
        · cases h
    · rintro ⟨-, rfl⟩
      exact readQoS_append q rest
  short _ hcut htail := by
    rw [nil_of_cut hcut htail]
    rfl

theorem exact_flag : Exact readFlag (fun _ => True) encodeFlag where
  reads {b f rest} := by
    constructor
    · intro h
      cases b with
      | nil => cases h
      | cons x b =>
        rw [readFlag_cons] at h
        split at h
        · next h0 =>
          obtain ⟨rfl, rfl⟩ := Prod.mk.inj (Except.ok.inj h)
          have hx : x = 0 := UInt8.toNat_inj.1 h0
          exact ⟨trivial, by rw [hx]; rfl⟩
        · split at h
          · next h1 =>
            obtain ⟨rfl, rfl⟩ := Prod.mk.inj (Except.ok.inj h)
            have hx : x = 1 := UInt8.toNat_inj.1 h1
            exact ⟨trivial, by rw [hx]; rfl⟩
          · cases h
    · rintro ⟨-, rfl⟩
      exact readFlag_append f rest
  short _ hcut htail := by
    rw [nil_of_cut hcut htail]
    rfl

theorem readQoS_eq_error_iff {b : Bytes} {f : Fault} :
    readQoS b = .error f ↔ b = [] ∧ f = .truncated ∨
      ∃ x rest, b = x :: rest ∧ 2 < x.toNat ∧ f = .invalidQoS ⟨x.toNat⟩ := by
  cases b with
  | nil => exact ⟨fun h => .inl ⟨rfl, (Except.error.inj h).symm⟩, by rintro (⟨-, rfl⟩ | ⟨_, _, h, -⟩) <;> trivial⟩
  | cons x b =>
    rw [readQoS_cons]
    split
    · next q hq =>
      have hx := QoS.fromCode_eq_ok_iff.1 hq
      have hlt := q.toNat_lt
      simp
      omega
    · next e he =>
      obtain ⟨hx, rfl⟩ := QoS.fromCode_eq_error_iff.1 he
      simp [hx, eq_comm]

theorem readFlag_eq_error_iff {b : Bytes} {f : Fault} :
    readFlag b = .error f ↔ b = [] ∧ f = .truncated ∨
      ∃ x rest, b = x :: rest ∧ 1 < x.toNat ∧ f = .invalidFlag := by
  cases b with
  | nil => exact ⟨fun h => .inl ⟨rfl, (Except.error.inj h).symm⟩, by rintro (⟨-, rfl⟩ | ⟨_, _, h, -⟩) <;> trivial⟩
  | cons x b =>
    rw [readFlag_cons]
    split
    · simp
      omega
    · split
      · simp
        omega
      · have hx : 1 < x.toNat := by omega
        simp [hx, eq_comm]

/-! ## One reader after the other -/

def both (r : Reader α) (s : Reader β) : Reader (α × β) := fun b => do
  let (v, b) ← r b
  let (u, b) ← s b
  return ((v, u), b)

section Both
variable {r : Reader α} {s : Reader β} {p : α → Prop} {q : β → Prop} {w : α → Bytes} {x : β → Bytes}

theorem Exact.both (hr : Exact r p w) (hs : Exact s q x) :
    Exact (both r s) (fun v => p v.1 ∧ q v.2) (fun v => w v.1 ++ x v.2) where
  reads {b v rest} := by
    simp only [Binary.both, bind_eq_ok_iff, Prod.exists, hr.reads, hs.reads]
    constructor
    · rintro ⟨a, _, ⟨ha, rfl⟩, c, _, ⟨hc, rfl⟩, heq⟩
      obtain ⟨rfl, rfl⟩ := Prod.mk.inj (Except.ok.inj heq)
      exact ⟨⟨ha, hc⟩, (List.append_assoc _ _ _).symm⟩
    · rintro ⟨⟨ha, hc⟩, rfl⟩
      exact ⟨v.1, x v.2 ++ rest, ⟨ha, List.append_assoc _ _ _⟩, v.2, rest, ⟨hc, rfl⟩, rfl⟩
  short {b v tail} hfits hcut htail := by
    rcases cut_cases hcut with ⟨cut, rfl, hcut'⟩ | ⟨cut, hcut', hne⟩
    · rw [Binary.both, hr.reads.2 ⟨hfits.1, rfl⟩]
      have hshort := hs.short hfits.2 hcut' htail
      simp only [bind, Except.bind, hshort]
    · rw [Binary.both, hr.short hfits.1 hcut' hne]
      rfl

/-- What the two readers refuse: what the first one does, and what the second one does behind a
value of the first. -/
theorem both_eq_error_iff (hr : Exact r p w) {b : Bytes} {f : Fault} :
    both r s b = .error f ↔ r b = .error f ∨ ∃ v rest, p v ∧ b = w v ++ rest ∧ s rest = .error f := by
  simp only [both, bind_eq_error_iff, Prod.exists, hr.reads, and_assoc]
  constructor
  · rintro (h | ⟨v, rest, hv, hb, h | ⟨_, _, _, hend⟩⟩)
    · exact .inl h
    · exact .inr ⟨v, rest, hv, hb, h⟩
    · cases hend
  · rintro (h | ⟨v, rest, hv, hb, h⟩)
    · exact .inl h
    · exact .inr ⟨v, rest, hv, hb, .inl h⟩

end Both

/-! ## Messages -/

/-- The fields of a message one after the other. -/
def readFields : Reader (String × Bytes × QoS × Bool) := both readText (both readBytes (both readQoS readFlag))

theorem exact_fields : Exact readFields
    (fun v => (Text.bytes v.1).length < 2 ^ 64 ∧ v.2.1.length < 2 ^ 64 ∧ True ∧ True)
    (fun v => encodeText v.1 ++ (encodeBytes v.2.1 ++ (encodeQoS v.2.2.1 ++ encodeFlag v.2.2.2))) :=
  exact_text.both (exact_bytes.both (exact_QoS.both exact_flag))

theorem readMessage_eq (b : Bytes) :
    readMessage b = (readFields b).map fun v => (⟨v.1.1, v.1.2.1, v.1.2.2.1, v.1.2.2.2⟩, v.2) := by
  simp only [readMessage, readFields, both, bind, Except.bind]
  cases readText b with
  | error => rfl
  | ok topic =>
    dsimp only
    cases readBytes topic.2 with
    | error => rfl
    | ok payload =>
      dsimp only
      cases readQoS payload.2 with
      | error => rfl
      | ok qos =>
        dsimp only
        cases readFlag qos.2 <;> rfl

theorem exact_message : Exact readMessage Message.Fits encodeMessage where
  reads {b m rest} := by
    rw [readMessage_eq]
    constructor
    · intro h
      cases hfields : readFields b with
      | error => rw [hfields] at h; cases h
      | ok v =>
        rw [hfields] at h
        obtain ⟨rfl, rfl⟩ := Prod.mk.inj (Except.ok.inj h)
        obtain ⟨⟨htopic, hpayload, -⟩, hb⟩ := exact_fields.reads.1 hfields
        refine ⟨⟨htopic, hpayload⟩, ?_⟩
        simpa only [encodeMessage, List.append_assoc] using hb
    · rintro ⟨hm, rfl⟩
      have hfields : readFields (encodeMessage m ++ rest) = .ok ((m.topic, m.payload, m.qos, m.retain), rest) :=
        exact_fields.reads.2 ⟨⟨hm.topic, hm.payload, trivial, trivial⟩, by simp only [encodeMessage, List.append_assoc]⟩
      rw [hfields]
      rfl
  short {b m tail} hm hcut htail := by
    have hshort : readFields b = .error .truncated :=
      exact_fields.short (v := (m.topic, m.payload, m.qos, m.retain)) ⟨hm.topic, hm.payload, trivial, trivial⟩
        (by rw [← hcut]; simp only [encodeMessage, List.append_assoc]) htail
    rw [readMessage_eq, hshort]
    rfl

/-- What is no message: the first of its fields that cannot be read says why. -/
theorem readMessage_eq_error_iff {b : Bytes} {f : Fault} :
    readMessage b = .error f ↔
      readText b = .error f ∨
      ∃ topic rest, (Text.bytes topic).length < 2 ^ 64 ∧ b = encodeText topic ++ rest ∧
        (readBytes rest = .error f ∨
        ∃ payload rest', payload.length < 2 ^ 64 ∧ rest = encodeBytes payload ++ rest' ∧
          (readQoS rest' = .error f ∨ ∃ qos last, rest' = encodeQoS qos ++ last ∧ readFlag last = .error f)) := by
  have hfields : readMessage b = .error f ↔ readFields b = .error f := by
    rw [readMessage_eq]
    cases readFields b with
    | error e => exact ⟨fun h => Except.error.inj h ▸ rfl, fun h => Except.error.inj h ▸ rfl⟩
    | ok v => exact ⟨nofun, nofun⟩
  rw [hfields, readFields, both_eq_error_iff exact_text]
  simp only [both_eq_error_iff exact_bytes, both_eq_error_iff exact_QoS, true_and]

/-- A topic that is no text. -/
def BadText (b : Bytes) : Prop :=
  ∃ raw rest, raw.length < 2 ^ 64 ∧ b = encodeBytes raw ++ rest ∧ ∀ s, Text.bytes s ≠ raw

/-- A code that names no delivery class, behind topic and payload. -/
def BadQoS (b : Bytes) (e : InvalidQoS) : Prop :=
  ∃ m : Message, m.Fits ∧ ∃ q rest,
    b = encodeText m.topic ++ encodeBytes m.payload ++ q :: rest ∧ 2 < q.toNat ∧ e = ⟨q.toNat⟩

/-- A flag that is neither zero nor one, behind the other fields. -/
def BadFlag (b : Bytes) : Prop :=
  ∃ m : Message, m.Fits ∧ ∃ f rest,
    b = encodeText m.topic ++ encodeBytes m.payload ++ encodeQoS m.qos ++ f :: rest ∧ 1 < f.toNat

theorem fault_cases {b : Bytes} {f : Fault} (h : readMessage b = .error f) :
    f = .truncated ∨ (f = .invalidText ∧ BadText b) ∨ (∃ e, f = .invalidQoS e ∧ BadQoS b e) ∨
      (f = .invalidFlag ∧ BadFlag b) := by
  rcases readMessage_eq_error_iff.1 h with htext | ⟨topic, rest, ht, rfl, hrest⟩
  · rcases readText_eq_error_iff.1 htext with hraw | hbad
    · exact .inl (error_of_readBytes hraw)
    · exact .inr (.inl hbad)
  rcases hrest with hpayload | ⟨payload, rest', hp, rfl, hrest'⟩
  · exact .inl (error_of_readBytes hpayload)
  rcases hrest' with hqos | ⟨qos, last, rfl, hlast⟩
  · rcases readQoS_eq_error_iff.1 hqos with ⟨-, hf⟩ | ⟨q, more, rfl, hq, rfl⟩
    · exact .inl hf
    · have hbad : BadQoS (encodeText topic ++ (encodeBytes payload ++ q :: more)) ⟨q.toNat⟩ :=
        ⟨⟨topic, payload, .atMostOnce, false⟩, ⟨ht, hp⟩, q, more, (List.append_assoc _ _ _).symm, hq, rfl⟩
      exact .inr (.inr (.inl ⟨_, rfl, hbad⟩))
  · rcases readFlag_eq_error_iff.1 hlast with ⟨-, hf⟩ | ⟨flag, more, rfl, hflag, rfl⟩
    · exact .inl hf
    · have hbad : BadFlag (encodeText topic ++ (encodeBytes payload ++ (encodeQoS qos ++ flag :: more))) :=
        ⟨⟨topic, payload, qos, false⟩, ⟨ht, hp⟩, flag, more, by simp only [List.append_assoc], hflag⟩
      exact .inr (.inr (.inr ⟨rfl, hbad⟩))

theorem readMessage_of_badText {b : Bytes} (h : BadText b) : readMessage b = .error .invalidText :=
  readMessage_eq_error_iff.2 (.inl (readText_eq_error_iff.2 (.inr ⟨rfl, h⟩)))

theorem readMessage_of_badQoS {b : Bytes} {e : InvalidQoS} (h : BadQoS b e) :
    readMessage b = .error (.invalidQoS e) := by
  obtain ⟨m, hm, q, rest, rfl, hq, rfl⟩ := h
  have hcode : readQoS (q :: rest) = .error (.invalidQoS ⟨q.toNat⟩) :=
    readQoS_eq_error_iff.2 (.inr ⟨q, rest, rfl, hq, rfl⟩)
  rw [List.append_assoc]
  exact readMessage_eq_error_iff.2
    (.inr ⟨m.topic, _, hm.topic, rfl, .inr ⟨m.payload, _, hm.payload, rfl, .inl hcode⟩⟩)

theorem readMessage_of_badFlag {b : Bytes} (h : BadFlag b) : readMessage b = .error .invalidFlag := by
  obtain ⟨m, hm, f, rest, rfl, hf⟩ := h
  have hflag : readFlag (f :: rest) = .error .invalidFlag :=
    readFlag_eq_error_iff.2 (.inr ⟨f, rest, rfl, hf, rfl⟩)
  simp only [List.append_assoc]
  exact readMessage_eq_error_iff.2
    (.inr ⟨m.topic, _, hm.topic, rfl, .inr ⟨m.payload, _, hm.payload, rfl, .inr ⟨m.qos, _, rfl, hflag⟩⟩⟩)

/-! ## Records -/

theorem decode_eq_ok_iff {r : Reader α} {b : Bytes} {v : α} : decode r b = .ok v ↔ ∃ rest, r b = .ok (v, rest) := by
  unfold decode
  cases r b with
  | error => exact ⟨nofun, nofun⟩
  | ok p => exact ⟨fun h => ⟨p.2, Except.ok.inj h ▸ rfl⟩, fun ⟨_, h⟩ => Except.ok.inj h ▸ rfl⟩

theorem decode_eq_error_iff {r : Reader α} {b : Bytes} {f : Fault} : decode r b = .error f ↔ r b = .error f := by
  unfold decode
  cases r b with
  | error e => exact ⟨fun h => Except.error.inj h ▸ rfl, fun h => Except.error.inj h ▸ rfl⟩
  | ok p => exact ⟨nofun, nofun⟩

theorem decode_readMessage_eq_ok_iff {b : Bytes} {m : Message} :
    decode readMessage b = .ok m ↔ m.Fits ∧ ∃ rest, b = encodeMessage m ++ rest := by
  simp only [decode_eq_ok_iff, exact_message.reads, exists_and_left]

/-- No written message starts another one. -/
theorem encodeMessage_prefix_free {m n : Message} {rest : Bytes} (hm : m.Fits) (hn : n.Fits)
    (h : encodeMessage m ++ rest = encodeMessage n) : m = n ∧ rest = [] := by
  have hread := readMessage_append hm rest
  rw [h, ← List.append_nil (encodeMessage n), readMessage_append hn] at hread
  obtain ⟨rfl, rfl⟩ := Prod.mk.inj (Except.ok.inj hread)
  exact ⟨rfl, rfl⟩

theorem read_put_eq_some_iff {bucket : Bucket} {k : Keyspace} {s : UInt64} {b : Bytes} {r : Reader α} {v : α} :
    bucket.read (bucket.put k s b) r s = .ok (some v) ↔ decode r b = .ok v := by
  have hget : bucket.get? (bucket.put k s b) s = some b := by
    rw [Bucket.get?, Bucket.put, OrderedMap.get?_insert, if_pos rfl]
  unfold Bucket.read
  rw [hget]
  dsimp only
  split
  · next v' hv =>
    rw [hv]
    exact ⟨fun h => by rw [Option.some.inj (Except.ok.inj h)], fun h => by rw [Except.ok.inj h]⟩
  · next f hf =>
    rw [hf]
    simp

/-- A record holds a message just when it starts with what is written for that message. So reading
undoes writing, different messages are written differently and none at the start of another, and a
record that starts with no written message is refused for the first field that is cut short or not
as it can be written. -/
theorem message_of_record :
    (∀ b m, decode readMessage b = .ok m ↔ m.Fits ∧ ∃ rest, b = encodeMessage m ++ rest) ∧
    (∀ m : Message, m.Fits → decode readMessage (encodeMessage m) = .ok m) ∧
    (∀ m n : Message, m.Fits → n.Fits → ∀ rest, encodeMessage m ++ rest = encodeMessage n → m = n ∧ rest = []) ∧
    (∀ m : Message, m.Fits → ∀ b tail, encodeMessage m = b ++ tail → tail ≠ [] →
      decode readMessage b = .error .truncated) ∧
    (∀ b, decode readMessage b = .error .invalidText ↔ BadText b) ∧
    (∀ b e, decode readMessage b = .error (.invalidQoS e) ↔ BadQoS b e) ∧
    (∀ b, decode readMessage b = .error .invalidFlag ↔ BadFlag b) ∧
    (∀ (bucket : Bucket) k s b m, bucket.read (bucket.put k s b) readMessage s = .ok (some m) ↔
      m.Fits ∧ ∃ rest, b = encodeMessage m ++ rest) ∧
    (∀ (q q' : DurableQueue) k k' m, q.push k m = .ok (q', k') → k' = q.bucket.put k q.next (encodeMessage m)) := by
  refine ⟨fun b m => decode_readMessage_eq_ok_iff, fun m => decode_encodeMessage,
    fun m n hm hn rest => encodeMessage_prefix_free hm hn,
    fun m hm b tail hcut htail => decode_eq_error_iff.2 (exact_message.short hm hcut htail),
    fun b => ⟨fun h => ?_, fun h => decode_eq_error_iff.2 (readMessage_of_badText h)⟩,
    fun b e => ⟨fun h => ?_, fun h => decode_eq_error_iff.2 (readMessage_of_badQoS h)⟩,
    fun b => ⟨fun h => ?_, fun h => decode_eq_error_iff.2 (readMessage_of_badFlag h)⟩,
    fun bucket k s b m => read_put_eq_some_iff.trans decode_readMessage_eq_ok_iff, fun q q' k k' m h => ?_⟩
  · simpa using fault_cases (decode_eq_error_iff.1 h)
  · simpa using fault_cases (decode_eq_error_iff.1 h)
  · simpa using fault_cases (decode_eq_error_iff.1 h)
  · obtain ⟨-, -, hstored⟩ := DurableQueue.push_eq_ok_iff.1 h
    exact congrArg Prod.snd hstored

/-- A message with bytes after it, the same one cut in its payload, and one whose flag is 2. -/
theorem message_of_record_retained :
    decode readMessage (encodeMessage ⟨"a", [1, 2], .atLeastOnce, true⟩ ++ [9])
      = .ok ⟨"a", [1, 2], .atLeastOnce, true⟩ ∧
    decode readMessage [1, 0, 0, 0, 0, 0, 0, 0, 97, 2, 0, 0, 0, 0, 0, 0, 0, 1] = .error .truncated ∧
    decode readMessage [1, 0, 0, 0, 0, 0, 0, 0, 97, 2, 0, 0, 0, 0, 0, 0, 0, 1, 2, 1, 2] = .error .invalidFlag := by
  have hm : Message.Fits ⟨"a", [1, 2], .atLeastOnce, true⟩ := ⟨by decide, by decide⟩
  obtain ⟨hread, -, -, hshort, -, -, hflag, -⟩ := message_of_record
  refine ⟨(hread _ _).2 ⟨hm, [9], rfl⟩, hshort _ hm _ [2, 1, 1] (by decide) (by decide), (hflag _).2 ?_⟩
  exact ⟨_, hm, 2, [], by decide, by decide⟩

end Binary

end PubSub
