import PubSub.Proofs.Clients
import PubSub.Proofs.Opening
/-!
# What a failed opening leaves bound

A broker restores and binds its sessions one by one, and stops at the first record under an id that has no bucket.
Nothing is taken back then: the sessions restored before that record stay bound in the exchange that the broker was
opened over, each under the filters it subscribes to and in place of what was bound there under its id
(`bound_by_failed_opening`). The exchange is as it was just when none of these sessions has a subscription.
-/

namespace PubSub.Broker

variable {b : Broker} {info : Info} {settings : Settings} {store : Store} {location : Location} {events : EventTable}
  {exchange : Exchange} {sessions : List Session} {before : Nat} {done : List Info}

/-- The sessions that opening gets to: all that are loaded before the first that has no bucket. -/
def reached (settings : Settings) : Location → List Info
  | .database store =>
    if settings.flaw = none then (SessionRecords.loadAll store.sessions).1.takeWhile (usableName ·.id) else []
  | .file | .damaged _ => []

/-- One of these sessions subscribes to the filter of a binding and has its id. -/
def Claimed (done : List Info) (y : Binding) : Prop :=
  ∃ info ∈ done, y.id = info.id ∧ y.filter ∈ info.subscriptions.keys

/-! ## Restoring up to the first failure -/

theorem restoreAll_takeWhile (b : Broker) (infos : List Info) :
    ∃ ns, (b.restoreAll infos).2 = (b.restoreAll (infos.takeWhile (usableName ·.id))).2.report ns := by
  induction infos generalizing b with
  | nil => exact ⟨[], by rw [report, List.append_nil]; rfl⟩
  | cons info infos ih =>
    cases hu : usableName info.id with
    | true =>
      rw [List.takeWhile_cons, if_pos hu, restoreAll_cons hu, restoreAll_cons hu]
      exact ih _
    | false =>
      have hbucket : Bucket.ofName info.id = .error (.invalidBucket info.id) := dif_neg (Bool.eq_false_iff.1 hu)
      have hstop : b.restoreAll (info :: infos)
          = (.error (.invalidBucket info.id), b.report [.noBucket info.id (.invalidBucket info.id)]) := by
        rw [restoreAll, create, hbucket]
      rw [List.takeWhile_cons, if_neg (Bool.eq_false_iff.1 hu), hstop]
      exact ⟨_, rfl⟩

/-- A broker over an exchange, with the sessions there were before, in which these have been restored. -/
structure Joined (exchange : Exchange) (before : Nat) (done : List Info) (b : Broker) : Prop where
  later : before ≤ b.sessions.length
  registered : ∀ info ∈ done, ∃ r s, before ≤ r ∧ b.registry.get? info.id = some r ∧ b.session? r = some s ∧
    s.info = info
  bound : ∀ y, y ∈ b.exchange.bindings ↔ y ∈ exchange.bindings ∧ ¬ Claimed done y ∨
    Claimed done y ∧ b.registry.get? y.id = some y.session
  idle : (∀ info ∈ done, info.subscriptions = .empty) → b.exchange = exchange

namespace Joined

theorem report (h : Joined exchange before done b) (ns : List Notice) : Joined exchange before done (b.report ns) :=
  ⟨h.later, h.registered, h.bound, h.idle⟩

theorem found (hsessions : b.sessions.length = before) (hexchange : b.exchange = exchange) :
    Joined exchange before [] b where
  later := hsessions.ge
  registered _ hi := absurd hi List.not_mem_nil
  bound y := by
    have hno : ¬ Claimed [] y := fun ⟨_, hi, _⟩ => List.not_mem_nil hi
    simp [hexchange, hno]
  idle _ := hexchange

/-- One more session is restored. -/
theorem restore (h : Joined exchange before done b) (hu : usableName info.id = true)
    (hsame : ∀ d ∈ done, d.id = info.id → d = info) :
    Joined exchange before (done ++ [info]) ((b.enrol info).2.registerAll b.sessions.length) := by
  obtain ⟨bucket, ns, hb, heq⟩ := enrol_of_usable b hu
  have hclaimed (y : Binding) : Claimed (done ++ [info]) y ↔
      Claimed done y ∧ y.id ≠ info.id ∨ y.id = info.id ∧ y.filter ∈ info.subscriptions.keys := by
    unfold Claimed
    constructor
    · rintro ⟨i, hi, hid, hf⟩
      by_cases he : y.id = info.id
      · rcases List.mem_append.1 hi with hi | hi
        · exact .inr ⟨he, hsame i hi (hid ▸ he) ▸ hf⟩
        · exact .inr ⟨he, List.mem_singleton.1 hi ▸ hf⟩
      · have hi : i ∈ done := (List.mem_append.1 hi).resolve_right fun h => he (List.mem_singleton.1 h ▸ hid)
        exact .inl ⟨⟨i, hi, hid, hf⟩, he⟩
    · rintro (⟨⟨i, hi, hid, hf⟩, -⟩ | ⟨hid, hf⟩)
      · exact ⟨i, List.mem_append_left _ hi, hid, hf⟩
      · exact ⟨info, List.mem_append_right _ List.mem_cons_self, hid, hf⟩
  constructor
  · rw [(SameMail.registerAll _ _).length_sessions, heq]
    show before ≤ (b.sessions ++ [_]).length
    rw [List.length_append]
    exact Nat.le_trans h.later (Nat.le_add_right _ _)
  · intro i hi
    by_cases hid : i.id = info.id
    · have hinfo : i = info := (List.mem_append.1 hi).elim (hsame i · hid) List.mem_singleton.1
      obtain rfl := hinfo
      exact ⟨b.sessions.length, _, h.later, (registry_restored hu i.id).trans (if_pos rfl), session?_restored hb, rfl⟩
    · have hi : i ∈ done := (List.mem_append.1 hi).resolve_right fun h => hid (by rw [List.mem_singleton.1 h])
      obtain ⟨r, s, hr, hregistered, hs, hinfo⟩ := h.registered i hi
      exact ⟨r, s, hr, (registry_restored hu i.id).trans ((if_neg hid).trans hregistered),
        session?_restored_other hu hs, hinfo⟩
  · intro y
    have hold (hid : y.id = info.id) (hy : Claimed done y) : y.filter ∈ info.subscriptions.keys := by
      obtain ⟨i, hi, he, hf⟩ := hy
      exact hsame i hi (he.symm.trans hid) ▸ hf
    rw [mem_bindings_restored hu, h.bound, hclaimed, registry_restored hu]
    by_cases hid : y.id = info.id
    · by_cases hf : y.filter ∈ info.subscriptions.keys
      · simp [hid, hf, eq_comm]
      · have hno : ¬ Claimed done y := fun hy => hf (hold hid hy)
        simp [hid, hf, hno]
    · simp [hid]
  · intro hempty
    have hnew : ((b.enrolled info bucket).report ns).session? b.sessions.length = some (b.newSession info bucket) :=
      session?_enrolled_new
    rw [heq, exchange_registerAll hnew]
    show b.exchange.bindAll info.subscriptions.keys _ _ = exchange
    rw [hempty info (List.mem_append_right done List.mem_cons_self)]
    exact h.idle fun i hi => hempty i (List.mem_append_left _ hi)

end Joined

/-- Opening restores and binds the sessions that it gets to, whatever comes of it. -/
theorem joined_openOver (exchange : Exchange) (sessions : List Session) (settings : Settings) (location : Location)
    (events : EventTable) : Joined exchange sessions.length (reached settings location)
      (openOver exchange sessions settings location events).2 := by
  cases hflaw : settings.flaw with
  | some flaw =>
    have hreached : reached settings location = [] := by
      cases location with
      | database store => exact if_neg (by rw [hflaw]; exact nofun)
      | _ => rfl
    rw [hreached, openOver, Settings.check_of_flaw_some hflaw]
    exact Joined.found rfl rfl
  | none =>
    cases location with
    | file | damaged =>
      rw [openOver, Settings.check_of_flaw_none hflaw]
      exact Joined.found rfl rfl
    | database store =>
      obtain ⟨ns, ns', heq⟩ := openOver_eq hflaw exchange sessions store events
      obtain ⟨ns'', hstop⟩ := restoreAll_takeWhile
        (({ settings, store, exchange, sessions, events } : Broker).report ns)
        (SessionRecords.loadAll store.sessions).1
      have hreached : reached settings (.database store)
          = (SessionRecords.loadAll store.sessions).1.takeWhile (usableName ·.id) := if_pos hflaw
      rw [heq, hstop, hreached]
      refine ((restoreAll_induction (I := Joined exchange sessions.length) ?_
        (Joined.found rfl rfl) ?_).report ns'').report ns'
      · intro done b info rest hall h hu
        have hloaded {i : Info} (hi : i ∈ done ++ info :: rest) : i ∈ (SessionRecords.loadAll store.sessions).1 :=
          (List.takeWhile_sublist _).subset (hall ▸ hi)
        exact h.restore hu fun d hd => SessionRecords.eq_of_mem_loadAll (hloaded (List.mem_append_left _ hd))
          (hloaded (List.mem_append_right done List.mem_cons_self))
      · exact fun i hi => List.mem_takeWhile_imp (p := fun i : Info => usableName i.id) hi

/-- Opening stops at the first session loaded that has no bucket. -/
theorem stop_of_openOver {e : BrokerError} (hflaw : settings.flaw = none)
    (hfail : (openOver exchange sessions settings (.database store) events).1 = .error e) :
    ∃ info rest, (SessionRecords.loadAll store.sessions).1 = reached settings (.database store) ++ info :: rest ∧
      usableName info.id = false ∧ e = .store (.invalidBucket info.id) := by
  obtain ⟨ns, ns', heq⟩ := openOver_eq hflaw exchange sessions store events
  rw [heq, restoreAll_answer] at hfail
  split at hfail
  · cases hfail
  · next info hfind =>
    obtain ⟨hu, done, rest, hall, hdone⟩ := List.find?_eq_some_iff_append.1 hfind
    have hu : usableName info.id = false := by simpa using hu
    have hreached : reached settings (.database store) = done := by
      rw [reached, if_pos hflaw, hall, List.takeWhile_append_of_pos (by simpa using hdone), List.takeWhile_cons,
        if_neg (Bool.eq_false_iff.1 hu), List.append_nil]
    exact ⟨info, rest, hreached ▸ hall, hu, (Except.error.inj hfail).symm⟩

/-- A broker that does not open leaves bound what it restored before the record it failed on: these sessions are its
own, each is bound under every filter it subscribes to, in place of what was bound there under its id, and a message
on a topic that such a filter covers is routed to it. Nothing else is changed. So the exchange is as it was, and leads
to none of these sessions, just when none of them subscribes to anything. -/
theorem bound_by_failed_opening {e : BrokerError} (hthere : ∀ y ∈ exchange.bindings, y.session < sessions.length)
    (hfail : (openOver exchange sessions settings location events).1 = .error e) :
    let failed := (openOver exchange sessions settings location events).2
    let restored := reached settings location
    (∀ store, settings.flaw = none → location = .database store → ∃ info rest,
      (SessionRecords.loadAll store.sessions).1 = restored ++ info :: rest ∧ usableName info.id = false ∧
      e = .store (.invalidBucket info.id)) ∧
    (∀ info ∈ restored, ∃ r s, sessions.length ≤ r ∧ failed.registry.get? info.id = some r ∧
      failed.session? r = some s ∧ s.info = info) ∧
    (∀ y, y ∈ failed.exchange.bindings ↔ y ∈ exchange.bindings ∧ ¬ Claimed restored y ∨
      Claimed restored y ∧ failed.registry.get? y.id = some y.session) ∧
    (∀ topic, ∀ info ∈ restored, (∀ y ∈ exchange.bindings, y.id ≠ info.id) → ∀ f ∈ info.subscriptions.keys,
      Topic.matchesFilter topic f = true → ∃ y ∈ failed.exchange.targets topic, y.id = info.id ∧
        failed.registry.get? info.id = some y.session) ∧
    (failed.exchange = exchange ↔ ∀ info ∈ restored, info.subscriptions = .empty) ∧
    ((∀ y ∈ failed.exchange.bindings, y.session < sessions.length) ↔
      ∀ info ∈ restored, info.subscriptions = .empty) := by
  intro failed restored
  have h : Joined exchange sessions.length restored failed := joined_openOver exchange sessions settings location events
  have hbinding {info : Info} (hinfo : info ∈ restored) {f : String} (hf : f ∈ info.subscriptions.keys) :
      ∃ r, sessions.length ≤ r ∧ ⟨f, info.id, r⟩ ∈ failed.exchange.bindings := by
    obtain ⟨r, s, hr, hregistered, -⟩ := h.registered info hinfo
    exact ⟨r, hr, (h.bound _).2 (.inr ⟨⟨info, hinfo, rfl, hf⟩, hregistered⟩)⟩
  have hempty (hless : ∀ y ∈ failed.exchange.bindings, y.session < sessions.length) :
      ∀ info ∈ restored, info.subscriptions = .empty := by
    intro info hinfo
    cases hentries : info.subscriptions.entries with
    | nil => exact OrderedMap.ext' hentries
    | cons entry rest =>
      have hf : entry.1 ∈ info.subscriptions.keys := List.mem_map.2 ⟨entry, hentries ▸ List.mem_cons_self, rfl⟩
      obtain ⟨r, hr, hmem⟩ := hbinding hinfo hf
      exact absurd (hless _ hmem) (Nat.not_lt.2 hr)
  refine ⟨fun store hflaw hlocation => ?_, h.registered, h.bound, fun topic info hinfo hfree f hf hmatch => ?_,
    ⟨fun hsame => hempty (hsame ▸ hthere), h.idle⟩, ⟨hempty, fun hidle => h.idle hidle ▸ hthere⟩⟩
  · subst hlocation
    exact stop_of_openOver hflaw hfail
  · obtain ⟨r, -, hmem⟩ := hbinding hinfo hf
    obtain ⟨y, hy, hid⟩ := exists_mem_targets.2 ⟨_, hmem, rfl, hmatch⟩
    have hid : y.id = info.id := hid
    refine ⟨y, hy, hid, ?_⟩
    -- What is bound under this id is bound since, and to the session registered under it.
    obtain ⟨hold, -⟩ | ⟨-, hregistered⟩ := (h.bound y).1 (mem_of_mem_targets hy)
    · exact absurd hid (hfree y hold)
    · rwa [hid] at hregistered

/-- A client of another broker has its binding taken over, and another client's session is bound, by a broker that does
not open. -/
theorem bound_by_failed_opening_beside_another : ∃ (exchange : Exchange) (sessions : List Session) (store : Store),
    let failed := openOver exchange sessions {} (.database store) {}
    exchange.bindings = [⟨"t", "a", 0⟩] ∧ sessions.length = 1 ∧
    failed.1 = .error (.store (.invalidBucket "m\x00m")) ∧
    (∃ r, 1 ≤ r ∧ ⟨"t", "a", r⟩ ∈ failed.2.exchange.bindings) ∧
    (∃ y ∈ failed.2.exchange.targets "u/v", y.id = "b" ∧ 1 ≤ y.session) ∧
    failed.2.exchange ≠ exchange := by
  let exchange : Exchange := ({} : Exchange).bind "t" "a" 0
  let sessions : List Session := [Session.new { id := "a" } ⟨"a", by decide⟩ 1 1 .empty]
  let a : Info := { id := "a", subscriptions := .ofList [("t", .atLeastOnce)] }
  let b : Info := { id := "b", subscriptions := .ofList [("u/#", .atMostOnce)] }
  let store : Store := { sessions := [a, b, { id := "m\x00m" }].foldl (fun k i => SessionRecords.save k i.id i) .empty }
  have hreached : reached {} (.database store) = [a, b] := by decide +kernel
  have hfail : (openOver exchange sessions {} (.database store) {}).1 = .error (.store (.invalidBucket "m\x00m")) := by
    decide +kernel
  obtain ⟨-, hrestored, hbound, hrouted, hsame, -⟩ := bound_by_failed_opening (by decide) hfail
  rw [hreached] at hrestored hbound hrouted hsame
  refine ⟨exchange, sessions, store, rfl, rfl, hfail, ?_, ?_, fun h => ?_⟩
  · obtain ⟨r, s, hr, hregistered, -⟩ := hrestored a (by decide)
    have hf : "t" ∈ a.subscriptions.keys := by decide
    exact ⟨r, hr, (hbound _).2 (.inr ⟨⟨a, by decide, rfl, hf⟩, hregistered⟩)⟩
  · obtain ⟨y, hy, hid, hregistered⟩ := hrouted "u/v" b (by decide) (by decide) "u/#" (by decide) (by decide)
    obtain ⟨r, s, hr, hregistered', -⟩ := hrestored b (by decide)
    rw [hregistered'] at hregistered
    exact ⟨y, hy, hid, Option.some.inj hregistered ▸ hr⟩
  · exact absurd (hsame.1 h a (by decide)) (by decide)

end PubSub.Broker
