import PubSub.Proofs.OwnSession
/-!
# What a restart makes of a client

When a broker is opened anew, the session of a client is made from its record and the records of its bucket and
from nothing else (`Renewed`). So two brokers that look the same to a client do so too after both are opened
anew (`SameView.reopen`).
-/

namespace PubSub

namespace Broker

variable {a b : Broker} {r : SessionRef} {s : Session} {info : Info} {id : String} {settings : Settings} {k queue : Keyspace}
  {done : List Info}

/-- The sessions with these records are as they are made when a broker is opened. -/
structure Renewed (settings : Settings) (queue : Keyspace) (done : List Info) (b : Broker) : Prop where
  sessions : ∀ info ∈ done, ∀ bucket : Bucket, bucket.name = info.id →
    b.client? info.id = some (info.renewed bucket settings queue)
  settings : b.settings = settings
  queue : b.store.queue = queue

theorem Renewed.of_reinstated {store : Store} (h : Reinstated settings store done b) :
    Renewed settings store.queue done b where
  sessions i hi bucket hb := by
    obtain ⟨r, hr, hs⟩ := h.back i hi bucket hb
    exact client?_of hr hs
  settings := h.settings
  queue := h.queue

/-- A broker that is opened anew has a session made from each record. -/
theorem renewed (hb : Sound b) (hflaw : settings.flaw = none) (orderly : Bool) :
    Renewed settings (if orderly then b.close else b).store.queue (SessionRecords.loadAll b.store.sessions).1
      (b.reopen settings orderly).2 := by
  have hopened {store : Store} {events : EventTable} (hrecorded : SessionRecords.Recorded store.sessions) :
      Renewed settings store.queue (SessionRecords.loadAll store.sessions).1 (openOn settings (.database store) events).2 :=
    .of_reinstated (reinstated_openOn hflaw (fun i hi => ((SessionRecords.loadAll_of_recorded hrecorded).2.1 i hi).2) _)
  obtain ⟨events, heq⟩ := reopen_eq b settings orderly
  rw [heq]
  cases orderly with
  | false => exact hopened hb.recorded
  | true =>
    rw [← records_close hb]
    exact hopened hb.close.recorded

/-- What is bound for a client that is back is what its record says. -/
theorem Restored.isBound_iff (h : Restored k queue (SessionRecords.loadAll k).1 b) (hk : SessionRecords.Recorded k)
    (hget : SessionRecords.get k id = .ok (some info)) (f : String) :
    b.exchange.isBound f id = true ↔ f ∈ info.subscriptions.keys := by
  obtain ⟨hinfo, rfl⟩ := hk.get_eq_some.1 hget
  rw [Exchange.isBound_iff]
  constructor
  · rintro ⟨x, hx, rfl, hid⟩
    obtain ⟨i, hi, hid', hf, -⟩ := (h.bound x).1 hx
    have hsame := hk.get_eq_some.2 ⟨hi, hid'.symm.trans hid⟩
    rw [hget] at hsame
    rw [Option.some.inj (Except.ok.inj hsame)]
    exact hf
  · intro hf
    obtain ⟨r, s, hr, -⟩ := h.back info hinfo
    exact ⟨⟨f, info.id, r⟩, (h.bound _).2 ⟨info, hinfo, rfl, hf, hr⟩, rfl, rfl⟩

theorem Coherent.reopen (hb : Coherent b) (hflaw : settings.flaw = none) (orderly : Bool) :
    Coherent (b.reopen settings orderly).2 :=
  ⟨hb.sound.reopen hflaw orderly, .of_restored (reopened hb.sound hflaw orderly).2⟩

theorem SameView.reopen (h : SameView id a b) (ha : Coherent a) (hb : Coherent b) (hflaw : settings.flaw = none)
    (orderly : Bool) : SameView id (a.reopen settings orderly).2 (b.reopen settings orderly).2 := by
  have hrestored := (reopened ha.sound hflaw orderly).2
  have hrestored' := (reopened hb.sound hflaw orderly).2
  have hrenewed := renewed ha.sound hflaw orderly
  have hrenewed' := renewed hb.sound hflaw orderly
  have hrecords : ∀ bucket : Bucket, bucket.name = id → bucket.contents (if orderly then b.close else b).store.queue
      = bucket.contents (if orderly then a.close else a).store.queue := by
    cases orderly with
    | false => exact h.records
    | true => exact (h.close ha hb).records
  have hget : SessionRecords.get b.store.sessions id = SessionRecords.get a.store.sessions id := by
    unfold SessionRecords.get
    rw [h.record]
  obtain ⟨found, hfound⟩ := ha.sound.recorded.get_eq_ok id
  have hfound' := hget.trans hfound
  refine ⟨hrenewed'.settings.trans hrenewed.settings.symm, ?_, ?_, fun bucket hbucket => ?_, fun f => ?_⟩
  · cases found with
    | none =>
      rw [client?_free (hrestored.absent ha.sound.recorded hfound), client?_free (hrestored'.absent hb.sound.recorded hfound')]
    | some info =>
      obtain ⟨hinfo, rfl⟩ := ha.sound.recorded.get_eq_some.1 hfound
      obtain ⟨hinfo', -⟩ := hb.sound.recorded.get_eq_some.1 hfound'
      obtain ⟨-, hinfos, -⟩ := SessionRecords.loadAll_of_recorded ha.sound.recorded
      let bucket : Bucket := ⟨info.id, (hinfos info hinfo).2⟩
      rw [hrenewed.sessions info hinfo bucket rfl, hrenewed'.sessions info hinfo' bucket rfl]
      unfold Info.renewed Session.new
      rw [DurableQueue.new_congr (hrecords bucket rfl)]
  · rw [hrestored.records, hrestored'.records, h.record]
  · rw [hrestored.queue, hrestored'.queue, hrecords bucket hbucket]
  · cases found with
    | none =>
      rw [(ha.reopen hflaw orderly).isBound_free (hrestored.absent ha.sound.recorded hfound),
        (hb.reopen hflaw orderly).isBound_free (hrestored'.absent hb.sound.recorded hfound')]
    | some info =>
      rw [Bool.eq_iff_iff, hrestored.isBound_iff ha.sound.recorded hfound, hrestored'.isBound_iff hb.sound.recorded hfound']

end Broker

end PubSub
