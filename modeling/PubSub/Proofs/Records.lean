import PubSub.Proofs.Json
import PubSub.Proofs.Maps
import PubSub.Session.Info
/-!
# Session records are read back as written

A message written as JSON is read back as it was. So is what is known of a session, apart from the
clean flag, which a record does not keep.
-/

namespace PubSub

open Json

/-! ## Objects -/

theorem Json.bytes_object (ms : List (String × String)) (rest : Bytes) :
    Text.bytes (Writer.object (writtenMembers ms)) ++ rest
      = 123 :: (Text.bytes (Writer.list (writtenMembers ms)) ++ 125 :: rest) := by
  have hopen : Text.bytes "\x7b" = [123] := by decide
  have hclose : Text.bytes "\x7d" = [125] := by decide
  rw [Writer.object, Text.bytes_append, Text.bytes_append, hopen, hclose]
  simp

theorem Json.bytes_array (xs : List String) (rest : Bytes) :
    Text.bytes (Writer.array xs) ++ rest = 91 :: (Text.bytes (Writer.list xs) ++ 93 :: rest) := by
  have hopen : Text.bytes "[" = [91] := by decide
  have hclose : Text.bytes "]" = [93] := by decide
  rw [Writer.array, Text.bytes_append, Text.bytes_append, hopen, hclose]
  simp

/-! ## Messages -/

theorem QoS.readJson_append (q : QoS) {rest : Bytes} (he : Ends rest) :
    QoS.readJson (Text.bytes (toString q.toNat) ++ rest) = .ok (q, rest) := by
  unfold QoS.readJson
  rw [bind_ok (natural_append (Nat.lt_trans q.toNat_lt (by decide)) he), QoS.ofNat?_toNat]
  rfl

namespace Message

theorem readPayload_append (payload : Bytes) (rest : Bytes) :
    readPayload (Text.bytes (Writer.array (payload.map fun b => toString b.toNat)) ++ rest) = .ok (payload, rest) := by
  have hback : ∀ x ∈ payload, ReadsBack (do return UInt8.ofNat (← Json.natural 255)) (fun b => toString b.toNat) x := by
    intro x _
    have hx : x.toNat < 256 := x.toNat_lt
    refine ⟨fun rest he => ?_, ?_⟩
    · rw [bind_ok (natural_append hx he), UInt8.ofNat_toNat]
      rfl
    · obtain ⟨hdigit, -, hne, -⟩ := decimal_byte x.toNat hx
      obtain ⟨c, tail, hw⟩ := List.exists_cons_of_ne_nil hne
      have hc : Json.isDigit c = true := List.all_eq_true.1 hdigit c (hw ▸ List.mem_cons_self)
      refine ⟨c, tail, hw, notSpace_of_isDigit hc, ?_⟩
      rintro rfl
      exact absurd hc (by decide)
  unfold readPayload
  rw [bytes_array, bind_ok (needToken_cons (by decide) _), if_neg (by decide), if_pos (by decide),
    bind_ok (discard_cons _ _)]
  exact arrayBody_append hback rest

/-- The members a message is written as. -/
def writtenFields (m : Message) : List (String × String) := [
  ("topic", Writer.text m.topic),
  ("payload", Writer.array (m.payload.map fun b => toString b.toNat)),
  ("qos", toString m.qos.toNat),
  ("retain", toString m.retain)]

theorem writeJson_eq (m : Message) : m.writeJson = Writer.object (writtenMembers m.writtenFields) := rfl

theorem reads_writtenFields (m : Message) :
    Reads readMember {} m.writtenFields ⟨some m.topic, some m.payload, some m.qos, some m.retain⟩ := by
  have htopic (rest : Bytes) (_ : Ends rest) :
      readMember "topic" {} (58 :: (Text.bytes (Writer.text m.topic) ++ rest)) = .ok ({ topic := some m.topic }, rest) := by
    unfold readMember
    rw [if_pos rfl]
    simp only [Option.isSome_none, Bool.false_eq_true, if_false]
    rw [bind_ok (colon_cons _), bind_ok (text_append _ _)]
    rfl
  have hpayload (rest : Bytes) (_ : Ends rest) : readMember "payload" { topic := some m.topic }
      (58 :: (Text.bytes (Writer.array (m.payload.map fun b => toString b.toNat)) ++ rest))
      = .ok ({ topic := some m.topic, payload := some m.payload }, rest) := by
    unfold readMember
    rw [if_neg (by decide), if_pos rfl]
    simp only [Option.isSome_none, Bool.false_eq_true, if_false]
    rw [bind_ok (colon_cons _), bind_ok (readPayload_append _ _)]
    rfl
  have hqos (rest : Bytes) (he : Ends rest) : readMember "qos" { topic := some m.topic, payload := some m.payload }
      (58 :: (Text.bytes (toString m.qos.toNat) ++ rest))
      = .ok ({ topic := some m.topic, payload := some m.payload, qos := some m.qos }, rest) := by
    unfold readMember
    rw [if_neg (by decide), if_neg (by decide), if_pos rfl]
    simp only [Option.isSome_none, Bool.false_eq_true, if_false]
    rw [bind_ok (colon_cons _), bind_ok (QoS.readJson_append _ he)]
    rfl
  have hretain (rest : Bytes) (_ : Ends rest) :
      readMember "retain" { topic := some m.topic, payload := some m.payload, qos := some m.qos }
      (58 :: (Text.bytes (toString m.retain) ++ rest))
      = .ok (⟨some m.topic, some m.payload, some m.qos, some m.retain⟩, rest) := by
    unfold readMember
    rw [if_neg (by decide), if_neg (by decide), if_neg (by decide), if_pos rfl]
    simp only [Option.isSome_none, Bool.false_eq_true, if_false]
    rw [bind_ok (colon_cons _), bind_ok (boolean_append _ _)]
    rfl
  exact .cons htopic (.cons hpayload (.cons hqos (.cons hretain .nil)))

theorem readJson_append (m : Message) (rest : Bytes) : readJson (Text.bytes m.writeJson ++ rest) = .ok (m, rest) := by
  unfold readJson
  rw [writeJson_eq, bytes_object, bind_ok (needToken_cons (by decide) _), if_pos (by decide),
    bind_ok (discard_cons _ _), bind_ok (objectBody_append m.reads_writtenFields rest)]
  rfl

theorem parse_writeJson (m : Message) : Json.parse readJson (Text.bytes m.writeJson) = .ok m := by
  have hread := m.readJson_append []
  rw [List.append_nil] at hread
  simp only [Json.parse, hread, bind, Except.bind]
  rfl

end Message

/-! ## Session records -/

theorem Json.optional_append {α : Type} {value : Reader α} {c : UInt8} {rest : Bytes} {v : α} {b : Bytes}
    (hspace : isSpace c = false) (hnull : c ≠ ascii 'n') (h : value (c :: rest) = .ok (v, b)) :
    optional value (c :: rest) = .ok (some v, b) := by
  have hpeek : peekToken (c :: rest) = .ok (some c, c :: rest) := by simp [peekToken, hspace]
  unfold optional
  rw [bind_ok hpeek, if_neg (by simp [hnull]), bind_ok h]
  rfl

namespace Info

def writtenSubscriptions (es : List (String × QoS)) : List (String × String) :=
  es.map fun e => (e.1, toString e.2.toNat)

/-- The members a record is written as, with the subscriptions in some order; each may be left out. -/
def writtenFields (i : Info) (es : List (String × QoS)) : List (String × String) :=
  (if i.id = "" then [] else [("id", Writer.text i.id)])
    ++ i.will.toList.map (fun m => ("will", m.writeJson))
    ++ if es.isEmpty then [] else [("subs", Writer.object (writtenMembers (writtenSubscriptions es)))]

/-- The text of a record with the subscriptions in some order. -/
def writeInOrder (i : Info) (es : List (String × QoS)) : String := Writer.object (writtenMembers (i.writtenFields es))

theorem writeJson_eq (i : Info) : i.writeJson = i.writeInOrder i.subscriptions.entries := by
  have hsubs : i.subscriptions.entries.map (fun e => Writer.member e.1 (toString e.2.toNat))
      = writtenMembers (writtenSubscriptions i.subscriptions.entries) := by
    simp only [writtenMembers, writtenSubscriptions, List.map_map]
    rfl
  simp only [writeJson, writeInOrder, writtenFields, writtenMembers, hsubs]
  by_cases hid : i.id = "" <;> by_cases hempty : i.subscriptions.isEmpty = true <;>
    simp_all [Function.comp_def, OrderedMap.isEmpty]

theorem readSubscriptions_append (es : List (String × QoS)) (rest : Bytes) :
    readSubscriptions (Text.bytes (Writer.object (writtenMembers (writtenSubscriptions es))) ++ rest)
      = .ok (OrderedMap.ofList es, rest) := by
  have hreads (m : OrderedMap String QoS) :
      Reads (fun filter (m : OrderedMap String QoS) => do Json.colon; return m.insert filter (← QoS.readJson)) m
        (writtenSubscriptions es) (es.foldl (fun m e => m.insert e.1 e.2) m) := by
    unfold writtenSubscriptions
    induction es generalizing m with
    | nil => exact .nil
    | cons e es ih =>
      refine .cons (fun rest he => ?_) (ih _)
      rw [bind_ok (colon_cons _), bind_ok (QoS.readJson_append e.2 he)]
      rfl
  unfold readSubscriptions
  rw [bytes_object, bind_ok (needToken_cons (by decide) _), if_pos (by decide), bind_ok (discard_cons _ _)]
  exact objectBody_append (hreads .empty) rest

/-- What has been read of a record at its end. -/
def draft (i : Info) : Draft where
  id := if i.id = "" then none else some i.id
  will := i.will.map some
  subscriptions := if i.subscriptions.isEmpty then none else some i.subscriptions

theorem finish_draft (i : Info) : i.draft.finish = { i with clean := false } := by
  obtain ⟨id, will, subs, clean⟩ := i
  have hid : ((if id = "" then none else some id).getD "") = id := by
    by_cases h : id = "" <;> simp [h]
  have hwill : (will.map some).getD none = will := by cases will <;> rfl
  have hsubs : ((if subs.isEmpty then none else some subs).getD .empty) = subs := by
    by_cases h : subs.isEmpty = true
    · rw [if_pos h]
      exact (OrderedMap.ext' (List.isEmpty_iff.1 h)).symm
    · rw [if_neg h]
      rfl
  simp only [draft, Draft.finish, hid, hwill, hsubs]

/-- The order of the subscriptions does not matter. -/
theorem reads_writtenFields {i : Info} {es : List (String × QoS)} (hes : es.Perm i.subscriptions.entries) :
    Reads readMember {} (i.writtenFields es) i.draft := by
  have hid : Reads readMember {} (if i.id = "" then [] else [("id", Writer.text i.id)])
      { id := i.draft.id } := by
    unfold draft
    split
    · exact .nil
    · refine .cons (fun rest _ => ?_) .nil
      unfold readMember
      rw [if_pos rfl]
      simp only [Option.isSome_none, Bool.false_eq_true, if_false]
      rw [bind_ok (colon_cons _), bind_ok (text_append _ _)]
      rfl
  have hwill : Reads readMember { id := i.draft.id } (i.will.toList.map fun m => ("will", m.writeJson))
      { id := i.draft.id, will := i.draft.will } := by
    unfold draft
    cases i.will with
    | none => exact .nil
    | some m =>
      refine .cons (fun rest _ => ?_) .nil
      have hread := m.readJson_append rest
      rw [Message.writeJson_eq, bytes_object] at hread
      unfold readMember
      rw [if_neg (by decide), if_pos rfl]
      simp only [Option.isSome_none, Bool.false_eq_true, if_false]
      rw [bind_ok (colon_cons _), Message.writeJson_eq, bytes_object,
        bind_ok (optional_append (by decide) (by decide) hread)]
      rfl
  have hempty : es.isEmpty = i.subscriptions.isEmpty := by
    rw [OrderedMap.isEmpty, Bool.eq_iff_iff, List.isEmpty_iff, List.isEmpty_iff]
    exact ⟨fun h => List.nil_perm.1 (h ▸ hes), fun h => List.perm_nil.1 (h ▸ hes)⟩
  have hsubs : Reads readMember { id := i.draft.id, will := i.draft.will } (if es.isEmpty then []
      else [("subs", Writer.object (writtenMembers (writtenSubscriptions es)))]) i.draft := by
    rw [hempty]
    unfold draft
    by_cases hnone : i.subscriptions.isEmpty = true
    · simp only [if_pos hnone]
      exact .nil
    · simp only [if_neg hnone]
      refine .cons (fun rest _ => ?_) .nil
      unfold readMember
      rw [if_neg (by decide), if_neg (by decide), if_pos rfl]
      simp only [Option.isSome_none, Bool.false_eq_true, if_false]
      rw [bind_ok (colon_cons _), bind_ok (readSubscriptions_append _ _), OrderedMap.ofList_of_perm hes]
      rfl
  exact (hid.append hwill).append hsubs

/-- The text of a record gives back what is known of the session, but for the clean flag. -/
theorem decode_writeInOrder {i : Info} {es : List (String × QoS)} (hes : es.Perm i.subscriptions.entries) :
    decode (Text.bytes (i.writeInOrder es)) = .ok { i with clean := false } := by
  have hread : readJson (Text.bytes (i.writeInOrder es) ++ []) = .ok ({ i with clean := false }, []) := by
    unfold readJson writeInOrder
    rw [bytes_object, bind_ok (needToken_cons (by decide) _), if_pos (by decide),
      bind_ok (discard_cons _ _), bind_ok (objectBody_append (reads_writtenFields hes) []), finish_draft]
    rfl
  rw [List.append_nil] at hread
  simp only [decode, Json.parse, hread, bind, Except.bind]
  rfl

theorem decode_encode (i : Info) : decode i.encode = .ok { i with clean := false } := by
  rw [encode, writeJson_eq]
  exact decode_writeInOrder (.refl _)

end Info

end PubSub
