import Mathlib.Data.List.Perm.Subperm
import PubSub.Proofs.Numbers
import PubSub.Proofs.Reopening
/-!
# Where stored messages come from

Over any run, with crashes and restarts in it, a bucket holds no message but those that were there at first
and those stored for its client since, and none more often than that (`Run.messages`). Whatever a session
hands out is in its client's bucket (`handed_out`).
-/

namespace PubSub

/-- The message of a record, if it can be read. -/
def Bucket.message? (e : UInt64 × Bytes) : Option Message := (Binary.decode Binary.readMessage e.2).toOption

/-- The messages recorded in a bucket, in the order of their numbers. -/
def Bucket.messages (c : Bucket) (k : Keyspace) : List Message := (c.contents k).entries.filterMap message?

def Job.stored? : Job → Option Message
  | .store m => some m
  | _ => none

def Act.stored? : Act → Option Message
  | .job _ j => j.stored?
  | _ => none

/-! ## Handing out -/

theorem Bucket.mem_messages_of_read {c : Bucket} {k : Keyspace} {seq : UInt64} {m : Message}
    (h : c.read k Binary.readMessage seq = .ok (some m)) : m ∈ c.messages k := by
  unfold read at h
  dsimp only at h
  split at h
  · cases h
  · next record hget =>
    split at h
    · next found hdecode =>
      obtain rfl := Option.some.inj (Except.ok.inj h)
      rw [← Bucket.get?_contents, OrderedMap.get?_eq_some_iff] at hget
      exact List.mem_filterMap.2 ⟨_, hget, by rw [message?, hdecode]; rfl⟩
    · cases h

/-! ## Storing -/

/-- An entry that is added takes the place of one at most. -/
theorem OrderedMap.insertEntry_subperm {α β : Type} [LT α] [DecidableEq α] [DecidableLT α] (k : α) (v : β)
    (es : List (α × β)) : (insertEntry k v es).Subperm ((k, v) :: es) := by
  induction es with
  | nil => exact .refl _
  | cons e es ih =>
    unfold insertEntry
    split
    · exact ((List.sublist_cons_self e es).cons_cons (k, v)).subperm
    · split
      · exact .refl _
      · exact ((List.subperm_cons e).2 ih).trans (List.Perm.swap _ _ _).subperm

/-- A job leaves no message in the bucket but one that was there or that it stores. -/
theorem Mail.messages_run (m : Mail) (k : Keyspace) {j : Job} (hfit : ∀ msg, j.stored? = some msg → msg.Fits) :
    (m.durable.bucket.messages (m.run k j).2).Subperm (m.durable.bucket.messages k ++ j.stored?.toList) := by
  have hkept {es : List (UInt64 × Bytes)} (h : es.Sublist (m.durable.bucket.contents k).entries) :
      (es.filterMap Bucket.message?).Subperm (m.durable.bucket.messages k ++ j.stored?.toList) :=
    ((h.filterMap Bucket.message?).trans (List.sublist_append_left _ _)).subperm
  unfold Bucket.messages at hkept ⊢
  rcases m.run_records k j with heq | ⟨msg, rfl, -, heq⟩ | ⟨id, seq, acks, -, -, heq⟩ | ⟨-, -, heq⟩
  · rw [heq]
    exact hkept (List.Sublist.refl _)
  · rw [heq, Bucket.contents_put]
    obtain ⟨es, hperm, hsub⟩ := OrderedMap.insertEntry_subperm m.durable.next (Binary.encodeMessage msg)
      (m.durable.bucket.contents k).entries
    -- The record that is added decodes to the message that is stored.
    have hmessage : Bucket.message? (m.durable.next, Binary.encodeMessage msg) = some msg := by
      rw [Bucket.message?, Binary.decode_encodeMessage (hfit msg rfl)]
      rfl
    have hsub' := hsub.filterMap Bucket.message?
    rw [List.filterMap_cons, hmessage] at hsub'
    have hadded : ((OrderedMap.insertEntry m.durable.next (Binary.encodeMessage msg)
        (m.durable.bucket.contents k).entries).filterMap Bucket.message?).Subperm
          (msg :: (m.durable.bucket.contents k).entries.filterMap Bucket.message?) :=
      ⟨_, hperm.filterMap Bucket.message?, hsub'⟩
    exact hadded.trans (List.perm_append_singleton msg _).symm.subperm
  · rw [heq, Bucket.contents_delete, OrderedMap.entries_erase]
    exact hkept List.filter_sublist
  · rw [heq, Bucket.contents_clear]
    exact hkept (List.nil_sublist _)

namespace Broker

variable {b b' first : Broker} {bucket : Bucket} {r : SessionRef} {s : Session} {settings : Settings} {op : Op}
  {d : Delivery}

/-- What a session hands out is in its client's bucket. -/
theorem handed_out (hb : Sound b) (hs : b.session? r = some s) (hid : s.info.id = bucket.name)
    (h : (b.nextGuaranteed r).1 = .ok (some d)) : d.message ∈ bucket.messages b.store.queue := by
  have hbucket : s.mail.durable.bucket = bucket := bucket.eq_of_name ((hb.named hs).trans hid)
  rw [(nextGuaranteed_spec hs).1] at h
  unfold Mail.next at h
  split at h
  · next hpop =>
    obtain rfl := Option.some.inj (Except.ok.inj h)
    have hread := DurableQueue.read_of_pop (congrArg Prod.fst hpop)
    rw [hbucket] at hread
    exact Bucket.mem_messages_of_read hread
  · next hno hpop => exact absurd h (hno _)

/-- The messages that an operation stores for a client. -/
def stores (b : Broker) (id : String) (op : Op) : List Message := (b.acts id op).filterMap Act.stored?

/-- The messages stored for a client over some operations. -/
def storedSince (id : String) (first : Broker) (ops : List Op) : List Message :=
  along (fun b ms op => ms ++ b.stores id op) first [] ops

theorem stores_close (b : Broker) (id : String) : b.stores id .close = [] := by
  unfold stores acts dismissActs
  dsimp only
  split
  · rfl
  · split <;> rfl

theorem messages_same (h : SameFor bucket.name b b') :
    bucket.messages b'.store.queue = bucket.messages b.store.queue := by
  unfold Bucket.messages
  rw [h.records bucket rfl]

theorem messages_acts {xs : List Act} (h : Acts bucket.name b xs b') (hfit : ∀ a ∈ xs, a.Fits) :
    (bucket.messages b'.store.queue).Subperm (bucket.messages b.store.queue ++ xs.filterMap Act.stored?) := by
  induction h with
  | same hs =>
    rw [messages_same hs, List.filterMap_nil, List.append_nil]
  | @act _ b₁ b₂ _ a xs hs he _ ih =>
    have hrest := ih fun c hc => hfit c (List.mem_cons_of_mem a hc)
    have hone : (bucket.messages b₂.store.queue).Subperm (bucket.messages b₁.store.queue ++ a.stored?.toList) := by
      cases a with
      | job r j =>
        obtain ⟨hb, ⟨s, hs', hid⟩, hdoes⟩ := he
        obtain ⟨s', -, hrun⟩ := hdoes.mail s hs'
        have hbucket : s.mail.durable.bucket = bucket := bucket.eq_of_name ((hb.named hs').trans hid)
        have hmessages := s.mail.messages_run b₁.store.queue (j := j) fun msg hj => by
          cases j with
          | store m => exact Option.some.inj hj ▸ hfit _ List.mem_cons_self
          | _ => cases hj
        rw [hbucket, ← show b₂.store.queue = _ from congrArg Prod.snd hrun] at hmessages
        exact hmessages
      | free =>
        obtain rfl := he
        exact (List.sublist_append_left _ _).subperm
      | enrol r info =>
        obtain ⟨-, -, -, -, c, -, rfl⟩ := he
        exact (List.sublist_append_left _ _).subperm
    rw [messages_same hs] at hone
    have hcons : (a :: xs).filterMap Act.stored? = a.stored?.toList ++ xs.filterMap Act.stored? := by
      cases ha : a.stored? with
      | none => rw [List.filterMap_cons, ha]; rfl
      | some m => rw [List.filterMap_cons, ha]; rfl
    rw [hcons, ← List.append_assoc]
    exact hrest.trans (hone.append (.refl _))

theorem messages_step (hb : Sound b) (hop : op.Configured) (hfit : op.Fits) :
    (bucket.messages (b.step op).store.queue).Subperm (bucket.messages b.store.queue ++ b.stores bucket.name op) := by
  have hacts {op : Op} (hfit : op.Fits) (hne : ∀ settings orderly, op ≠ .reopen settings orderly) :
      (bucket.messages (b.step op).store.queue).Subperm (bucket.messages b.store.queue ++ b.stores bucket.name op) :=
    messages_acts (acts_step hb bucket.usable hne) (fits_acts hfit bucket.name)
  cases op with
  | reopen settings orderly =>
    have hqueue : (b.step (.reopen settings orderly)).store.queue = _ := (reopened hb hop orderly).2.queue
    rw [hqueue, show b.stores bucket.name (.reopen settings orderly) = [] from rfl, List.append_nil]
    cases orderly with
    | false => exact .refl _
    | true =>
      -- Closing stores nothing.
      have hclose := hacts (show Op.Fits .close from trivial) (by simp)
      rw [stores_close, List.append_nil] at hclose
      exact hclose
  | _ => exact hacts hfit (by simp)

/-- What is stored after a run was there at first or was stored since. -/
theorem Run.messages {allowed : Broker → Op → Prop} {ops : List Op} (h : Run allowed first ops b) (hb : Sound first)
    (hop : ∀ b op, allowed b op → op.Configured ∧ op.Fits) (bucket : Bucket) : Sound b ∧
      (bucket.messages b.store.queue).Subperm (bucket.messages first.store.queue ++ storedSince bucket.name first ops) := by
  induction h with
  | nil =>
    refine ⟨hb, ?_⟩
    rw [show storedSince bucket.name first [] = [] from rfl, List.append_nil]
  | @step ops b op hrun hallowed ih =>
    obtain ⟨hb', hmessages⟩ := ih
    obtain ⟨hconfigured, hfit⟩ := hop b op hallowed
    refine ⟨hb'.step hconfigured, ?_⟩
    rw [storedSince, hrun.along_step, ← List.append_assoc]
    exact (messages_step hb' hconfigured hfit).trans (hmessages.append (.refl _))

end Broker

end PubSub
