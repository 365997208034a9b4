import PubSub.Proofs.Reopening
/-!
# What the records tell

After any run in which sessions are called while they are registered, each registered session that is not
clean has a record that reads as what is known of it, no clean session has one, and the only other records
are those left of sessions when the broker was closed (`recorded_as_known`). Nothing writes records but
calls and fresh sessions, so it is enough that each of these leaves the record of its own session right.
-/

namespace PubSub

/-- What is to be recorded of a session: nothing of a clean one. -/
def Info.recorded (i : Info) : Option Info := if i.clean then none else some i

theorem Info.recorded_clean {i : Info} (h : i.clean = true) : i.recorded = none := if_pos h

theorem Info.recorded_unclean {i : Info} (h : i.clean = false) : i.recorded = some i :=
  if_neg (by rw [h]; exact Bool.false_ne_true)

namespace Broker

variable {b b' : Broker} {r : SessionRef} {s : Session} {info : Info} {id : String} {settings : Settings}
  {left : String → Option Info} {op : Op}

/-- Sessions are called while they are registered. -/
def Called (b : Broker) (op : Op) : Prop := op.Configured ∧ ∀ r c, op = .call r c → b.Registered r

/-- What a client's record is to say: what is known of its session, or what was left when it had one. -/
def due (b : Broker) (left : String → Option Info) (id : String) : Option Info :=
  match b.registry.get? id with
  | none => left id
  | some r => (b.session? r).bind (·.info.recorded)

/-- What is left of clients without a session: when the broker is closed, all that is due then. -/
def leave (b : Broker) (left : String → Option Info) : Op → String → Option Info
  | .connect info => fun id => if id = info.id then none else left id
  | .close => b.due left
  | .reopen _ _ => fun _ => none
  | _ => left

/-- What is left after some operations, from a broker that was just opened. -/
def leftover (first : Broker) (ops : List Op) : String → Option Info := along leave first (fun _ => none) ops

/-! ## What is due -/

theorem due_free (h : b.registry.get? id = none) (left : String → Option Info) : b.due left id = left id := by
  simp only [due, h]

theorem due_registered (hr : b.registry.get? id = some r) (hs : b.session? r = some s) (left : String → Option Info) :
    b.due left id = s.info.recorded := by
  simp only [due, hr, hs, Option.bind_some]

/-- What is due to a client depends on its own session only. -/
theorem due_congr (hreg : b'.registry.get? id = b.registry.get? id)
    (hs : ∀ r, b.registry.get? id = some r → (b'.session? r).map Session.interest = (b.session? r).map Session.interest) :
    b'.due left id = b.due left id := by
  unfold due
  rw [hreg]
  cases hr : b.registry.get? id with
  | none => rfl
  | some r =>
    have hinfo (b : Broker) : (b.session? r).bind (·.info.recorded)
        = ((b.session? r).map Session.interest).bind (·.info.recorded) := by
      rw [Option.bind_map]
      rfl
    exact (hinfo b').trans ((congrArg (Option.bind · _) (hs r hr)).trans (hinfo b).symm)

/-! ## What is recorded is due -/

structure Truthful (left : String → Option Info) (b : Broker) : Prop where
  records : ∀ id, SessionRecords.get b.store.sessions id = .ok (b.due left id)
  vacant : ∀ {id r}, b.registry.get? id = some r → left id = none

namespace Truthful

theorem of_interest (h : Truthful left b) (hs : SameInterest b b') : Truthful left b' where
  records id := by
    rw [hs.records, h.records, due_congr (by rw [hs.registry]) fun r _ => hs.interest r]
  vacant := by
    rw [hs.registry]
    exact h.vacant

/-- A call on a registered session writes its record as the session is then, if it changes it. -/
theorem perform (h : Truthful left b) (hb : Sound b) (hr : b.Registered r) (c : Call) :
    Truthful left (b.perform r c) := by
  obtain ⟨id, hr⟩ := hr
  obtain ⟨s, hs, rfl⟩ := hb.registered hr
  cases hc : c.writes with
  | false => exact h.of_interest (perform_same (.inl hc))
  | true =>
    obtain ⟨s', hs', heq⟩ := (perform_wants b r c).session? hs
    have hinfo : s'.info = (s.interest.after c).info := congrArg Interest.info heq
    have hid : (s.interest.after c).info.id = s.info.id := s.interest.after_id c
    constructor
    · intro id
      rw [perform_records hs, hc, if_pos rfl]
      by_cases he : (s.interest.after c).info.id = id
      · subst he
        rw [SessionRecords.get_written_self, due_registered (by rw [registry_perform, hid, hr]) hs', hinfo]
        rfl
      · rw [SessionRecords.get_written_other he, h.records]
        refine congrArg Except.ok (due_congr (by rw [registry_perform]) fun q hq => ?_).symm
        -- The session of another client is another one.
        have hne : q ≠ r := by
          rintro rfl
          exact he (hid.trans (hb.id_of_registered hq hs))
        rw [(perform_wants b r c).others q hne]
    · rw [registry_perform]
      exact h.vacant

theorem dismiss (h : Truthful left b) (hr : b.registry.get? id = some r) (hs : b.session? r = some s)
    (hclean : s.info.clean = true) : Truthful left (b.dismiss id r) where
  records id' := by
    have hregistry : (b.dismiss id r).registry.get? id' = if id' = id then none else b.registry.get? id' := by
      rw [registry_dismiss, OrderedMap.get?_erase]
    rw [records_dismiss, h.records]
    refine congrArg Except.ok (Eq.symm ?_)
    by_cases he : id' = id
    · subst he
      rw [due_free (hregistry.trans (if_pos rfl)), due_registered hr hs, h.vacant hr, Info.recorded_clean hclean]
    · refine due_congr (hregistry.trans (if_neg he)) fun q _ => ?_
      by_cases hq : q = r
      · rw [hq, (dismiss_wants b id r).interests]
        rfl
      · rw [(dismiss_wants b id r).others q hq]
  vacant {id' r'} hr' := by
    rw [registry_dismiss, OrderedMap.get?_erase] at hr'
    split at hr'
    · cases hr'
    · exact h.vacant hr'

theorem report (h : Truthful left b) (ns : List Notice) : Truthful left (b.report ns) :=
  h.of_interest (.report b ns)

theorem enrolled {bucket : Bucket} (h : Truthful left b) (hb : Sound b) :
    Truthful (fun id => if id = info.id then none else left id) (b.enrolled info bucket) := by
  constructor
  · intro id
    show SessionRecords.get (SessionRecords.written b.store.sessions info) id = _
    by_cases he : info.id = id
    · subst he
      rw [SessionRecords.get_written_self, due_registered (by rw [get?_registry_enrolled, if_pos rfl]) session?_enrolled_new]
      rfl
    · rw [SessionRecords.get_written_other he, h.records]
      refine congrArg Except.ok ?_
      cases hr : b.registry.get? id with
      | none =>
        rw [due_free hr, due_free (by rw [get?_registry_enrolled, if_neg (Ne.symm he), hr]), if_neg (Ne.symm he)]
      | some q =>
        obtain ⟨t, ht, -⟩ := hb.registered hr
        rw [due_registered hr ht, due_registered (by rw [get?_registry_enrolled, if_neg (Ne.symm he), hr])
          (session?_enrolled.2 (.inl ht))]
  · intro id q hq
    rw [get?_registry_enrolled] at hq
    split at hq
    · next he => exact if_pos he
    · next he => rw [if_neg he, h.vacant hq]

theorem enrol (h : Truthful left b) (hb : Sound b) (hfree : b.registry.get? info.id = none) :
    Truthful (fun id => if id = info.id then none else left id) (b.enrol info).2 := by
  by_cases hu : usableName info.id = true
  · obtain ⟨bucket, ns, -, heq⟩ := enrol_of_usable b hu
    rw [heq]
    exact (h.enrolled hb).report ns
  · obtain ⟨e, ns, heq⟩ := enrol_of_unusable b hu
    -- There is no record under an id that no session can have.
    have hnone : left info.id = none := by
      have hget := h.records info.id
      rw [due_free hfree] at hget
      cases hleft : left info.id with
      | none => rfl
      | some i =>
        rw [hleft, hb.recorded.get_eq_some] at hget
        exact absurd (hget.2 ▸ ((SessionRecords.loadAll_of_recorded hb.recorded).2.1 i hget.1).2) hu
    have hsame : (fun id => if id = info.id then none else left id) = left := by
      funext id
      split
      · next he => rw [he, hnone]
      · rfl
    rw [heq, hsame]
    exact h.report ns

theorem cleared (h : Truthful left b) (hb : Sound b) (hfresh : b.registry.get? info.id = none ∨ info.clean = true) :
    Truthful left (b.cleared info) := by
  unfold Broker.cleared
  split
  · exact h
  · next r hr =>
    have hclean : info.clean = true := hfresh.resolve_left (by rw [hr]; exact nofun)
    obtain ⟨s, hs, -⟩ := hb.registered hr
    have hupdate : Truthful left ((b.report [.sessionDiscarded info.id]).update r { info with will := none }) :=
      (h.report _).perform (hb.report _) ⟨info.id, hr⟩ (.update { info with will := none })
    refine hupdate.dismiss ?_ (session?_update (b := b.report [.sessionDiscarded info.id]) hs _) hclean
    rw [(SameMail.update _ r _).registry]
    exact hr

theorem connect (h : Truthful left b) (hb : Sound b) (info : Info) :
    Truthful (b.leave left (.connect info)) (b.connect info).2 := by
  rcases connect_cases b info with ⟨hfresh, heq⟩ | ⟨r, hr, -, heq⟩ <;> rw [heq]
  · exact (h.cleared hb hfresh).enrol (hb.cleared info) (get?_registry_cleared b info)
  · have hsame : b.leave left (.connect info) = left := by
      funext id
      show (if id = info.id then none else left id) = left id
      split
      · next he => rw [he, h.vacant hr]
      · rfl
    rw [hsame]
    exact (h.report _).perform (hb.report _) ⟨info.id, hr⟩ (.update info)

theorem disconnect (h : Truthful left b) (hb : Sound b) (id : String) : Truthful left (b.disconnect id) := by
  unfold Broker.disconnect
  split
  · exact h
  · next r hr =>
    obtain ⟨s, hs, -⟩ := hb.registered hr
    rw [hs, Option.map_some, Option.getD_some]
    split
    · next hclean => exact (h.report [.cleanSessionDropped id]).dismiss hr hs hclean
    · exact h.of_interest (Local.requeue b r).interest

theorem close (h : Truthful left b) (hb : Sound b) : Truthful (b.due left) b.close where
  records id := by
    rw [records_close hb, h.records, due_free (registry_close b id)]
  vacant {id r} hr := by
    rw [registry_close] at hr
    cases hr

/-- A broker that was just opened has a session for every record. -/
theorem of_restored {k queue : Keyspace} (h : Restored k queue (SessionRecords.loadAll k).1 b)
    (hk : SessionRecords.Recorded k) : Truthful (fun _ => none) b where
  records id := by
    rw [h.records]
    obtain ⟨found, hget⟩ := hk.get_eq_ok id
    rw [hget]
    refine congrArg Except.ok ?_
    cases found with
    | none => rw [due_free (h.absent hk hget)]
    | some info =>
      obtain ⟨r, s, hr, hs, hinterest⟩ := h.session hk hget
      have hclean := ((SessionRecords.loadAll_of_recorded hk).2.1 info (hk.get_eq_some.1 hget).1).1
      rw [due_registered hr hs, show s.info = info from congrArg Interest.info hinterest, Info.recorded_unclean hclean]
  vacant _ := rfl

theorem step (h : Truthful left b) (hb : Sound b) (hop : Called b op) : Truthful (b.leave left op) (b.step op) := by
  cases op with
  | connect info => exact h.connect hb info
  | disconnect id => exact h.disconnect hb id
  | route m => exact h.of_interest (.route b m)
  | call r c => exact h.perform hb (hop.2 r c rfl) c
  | close => exact h.close hb
  | reopen settings orderly => exact of_restored (reopened hb hop.1 orderly).2 hb.recorded

end Truthful

theorem Run.truthful {ops : List Op} (h : Run Called (start settings) ops b) (hflaw : settings.flaw = none) :
    Truthful (leftover (start settings) ops) b := by
  induction h with
  | nil => exact .of_restored (restored_start hflaw) SessionRecords.recorded_empty
  | @step ops b op hrun hop ih =>
    rw [leftover, hrun.along_step]
    exact ih.step (hrun.sound hflaw fun _ _ h => h.1) hop

/-- The record of a registered session reads as what is known of the session, and a clean session has no
record. Under the id of a client without a session there is what was left when the broker was closed, and
under no other key is there any record. -/
theorem recorded_as_known {ops : List Op} (h : Run Called (start settings) ops b) (hflaw : settings.flaw = none) :
    (∀ id r, b.registry.get? id = some r → ∃ s, b.session? r = some s ∧ s.info.id = id ∧
      (s.info.clean = false → SessionRecords.get b.store.sessions id = .ok (some s.info)) ∧
      (s.info.clean = true → SessionRecords.get b.store.sessions id = .ok none)) ∧
    (∀ id, b.registry.get? id = none →
      SessionRecords.get b.store.sessions id = .ok (leftover (start settings) ops id)) ∧
    ∀ key ∈ b.store.sessions.keys, ∃ id, key = Text.bytes id ∧
      ((∃ r s, b.registry.get? id = some r ∧ b.session? r = some s ∧ s.info.clean = false) ∨
        b.registry.get? id = none ∧ ∃ info, leftover (start settings) ops id = some info) := by
  have hb : Sound b := h.sound hflaw fun _ _ h => h.1
  have htruthful := h.truthful hflaw
  refine ⟨fun id r hr => ?_, fun id hfree => ?_, fun key hkey => ?_⟩
  · obtain ⟨s, hs, hid⟩ := hb.registered hr
    have hget := htruthful.records id
    rw [due_registered hr hs] at hget
    refine ⟨s, hs, hid, fun hclean => ?_, fun hclean => ?_⟩
    · rwa [Info.recorded_unclean hclean] at hget
    · rwa [Info.recorded_clean hclean] at hget
  · rw [htruthful.records, due_free hfree]
  · obtain ⟨e, he, rfl⟩ := List.mem_map.1 hkey
    obtain ⟨info, -, rfl⟩ := hb.recorded e he
    have hget := SessionRecords.get_of_get? (OrderedMap.get?_eq_some_iff.2 he)
    rw [htruthful.records] at hget
    have hdue := Except.ok.inj hget
    refine ⟨info.id, rfl, ?_⟩
    -- A record is due, either to a session or as what was left.
    cases hr : b.registry.get? info.id with
    | none =>
      rw [due_free hr] at hdue
      exact .inr ⟨rfl, _, hdue⟩
    | some r =>
      obtain ⟨s, hs, -⟩ := hb.registered hr
      rw [due_registered hr hs, Info.recorded] at hdue
      split at hdue
      · cases hdue
      · next hclean => exact .inl ⟨r, s, rfl, hs, Bool.eq_false_iff.2 hclean⟩

/-- A client that subscribed is recorded with its subscription when the broker is closed and afterwards;
one that became clean is not. -/
theorem recorded_over_close :
    let ops : List Op := [.connect { id := "a" }, .call 0 (.subscribe [⟨"t", .atLeastOnce⟩] none), .connect { id := "b" },
      .call 1 (.update { clean := true }), .close]
    let b := ops.foldl step (start {})
    ∃ info, SessionRecords.get b.store.sessions "a" = .ok (some info) ∧
      info.subscriptions.get? "t" = some .atLeastOnce ∧ SessionRecords.get b.store.sessions "b" = .ok none := by
  intro ops b
  have hrun : Run Called (start {}) ops b := by
    show Run Called (start {}) (((([] ++ [Op.connect { id := "a" }])
      ++ [.call 0 (.subscribe [⟨"t", .atLeastOnce⟩] none)]) ++ [.connect { id := "b" }])
      ++ [.call 1 (.update { clean := true })] ++ [.close]) _
    refine .step (.step (.step (.step (.step .nil ⟨trivial, nofun⟩) ⟨trivial, ?_⟩) ⟨trivial, nofun⟩) ⟨trivial, ?_⟩)
      ⟨trivial, nofun⟩ <;> rintro r c ⟨⟩
    · exact ⟨"a", by decide +kernel⟩
    · exact ⟨"b", by decide +kernel⟩
  obtain ⟨-, hleft, -⟩ := recorded_as_known hrun rfl
  have ha := hleft "a" (by decide +kernel)
  have hb := hleft "b" (by decide +kernel)
  have hdue : ((leftover (start {}) ops "a").bind (·.subscriptions.get? "t")) = some .atLeastOnce := by decide +kernel
  obtain ⟨info, hinfo, hsub⟩ := Option.bind_eq_some_iff.1 hdue
  refine ⟨info, ha.trans (congrArg _ hinfo), hsub, hb.trans (congrArg _ ?_)⟩
  decide +kernel

end Broker

end PubSub
