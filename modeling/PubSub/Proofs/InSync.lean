import PubSub.Proofs.Synced
/-!
# Matching and knowledge over a run

Clients that come without subscriptions of their own have sessions that match by what they are known to
hold (`matched_by_held`). The one way for the two to part is to unsubscribe a text that was never
subscribed and shares its place with a filter that was: `a/#/b` takes `a/#` out of the trie and leaves it
in what is known.
-/

namespace PubSub

open Topic

/-- The texts taken out of a session, after an operation. -/
def Op.taken (r : SessionRef) (gone : List String) : Op → List String
  | .call r' c => if r' = r then c.taken gone else gone
  | .reopen _ _ => []
  | _ => gone

namespace Broker

/-- The texts taken out of a session by unsubscribing since it last subscribed or the broker was opened. -/
def taken (r : SessionRef) (ops : List Op) : List String := ops.foldl (Op.taken r) []

/-- Clients come without subscriptions of their own. -/
def Plain (_ : Broker) (op : Op) : Prop := op.Configured ∧ ∀ info, op = .connect info → info.subscriptions = .empty

/-- What is known to be held are filters. -/
def Held (info : Info) : Prop := ∀ f q, info.subscriptions.get? f = some q → flaw f = none

variable {b b' : Broker} {r : SessionRef} {s : Session} {info : Info} {f : Interest → Interest}
  {gone gone' : SessionRef → List String}

structure InSync (gone : SessionRef → List String) (b : Broker) : Prop where
  synced : ∀ {r s}, b.session? r = some s → s.interest.Synced (gone r)
  recorded : ∀ e ∈ b.store.sessions.entries, ∃ info : Info, e.2 = info.encode ∧ Held info

namespace InSync

theorem of_interest (h : InSync gone b) (hs : SameInterest b b') : InSync gone b' where
  synced hs' := by
    obtain ⟨s, hs₀, heq⟩ := hs.session?_back hs'
    rw [heq]
    exact h.synced hs₀
  recorded := by
    rw [hs.records]
    exact h.recorded

theorem written {k : Keyspace} (h : ∀ e ∈ k.entries, ∃ info : Info, e.2 = info.encode ∧ Held info) (hheld : Held info) :
    ∀ e ∈ (SessionRecords.written k info).entries, ∃ info : Info, e.2 = info.encode ∧ Held info := by
  intro e he
  unfold SessionRecords.written at he
  split at he
  · exact h e (List.mem_filter.1 he).1
  · rcases OrderedMap.mem_insertEntry he with rfl | he
    · exact ⟨info, rfl, hheld⟩
    · exact h e he

/-- What one session comes to want is in sync with what is taken out of it. -/
theorem of_wants (h : InSync gone b) (hw : Wants r f b b') (hrec : Writes r b b')
    (hf : ∀ i : Interest, i.Synced (gone r) → (f i).Synced (gone' r)) (hother : ∀ r', r' ≠ r → gone' r' = gone r') :
    InSync gone' b' := by
  have hsynced {q : SessionRef} {s' : Session} (hs' : b'.session? q = some s') : s'.interest.Synced (gone' q) := by
    by_cases hq : q = r
    · subst hq
      obtain ⟨s, hs, heq⟩ := hw.session?_back hs'
      rw [heq]
      exact hf _ (h.synced hs)
    · rw [hw.others q hq] at hs'
      rw [hother q hq]
      exact h.synced hs'
  refine ⟨hsynced, ?_⟩
  rcases hrec with heq | ⟨s, hs, heq⟩ <;> rw [heq]
  · exact h.recorded
  · exact written h.recorded fun f q hf => (hsynced hs).valid hf

theorem of_same_wants (h : InSync gone b) (hw : Wants r f b b') (hrec : Writes r b b')
    (hf : ∀ i : Interest, i.Synced (gone r) → (f i).Synced (gone r)) : InSync gone b' :=
  h.of_wants hw hrec hf fun _ _ => rfl

theorem update (h : InSync gone b) (r : SessionRef) (info : Info) : InSync gone (b.update r info) :=
  h.of_same_wants (update_wants b r info) (perform_writes b r (.update info)) fun _ hi => hi.after (.update info)

theorem dismiss (h : InSync gone b) (id : String) (r : SessionRef) : InSync gone (b.dismiss id r) :=
  h.of_same_wants (dismiss_wants b id r) (.inl (records_dismiss b id r)) fun _ hi => hi

theorem enduring : Enduring (InSync gone) where
  same := of_interest
  dismiss _ h _ := h.dismiss _ _

theorem perform (h : InSync gone b) (r : SessionRef) (c : Call) :
    InSync (fun q => (Op.call r c).taken q (gone q)) (b.perform r c) := by
  refine h.of_wants (perform_wants b r c) (perform_writes b r c) (fun i hi => ?_) fun q hq => if_neg (Ne.symm hq)
  rw [Op.taken, if_pos rfl]
  exact hi.after c

/-! ## Coming and going -/

theorem enrol (h : InSync gone b) (hno : info.subscriptions = .empty) : InSync gone (b.enrol info).2 := by
  by_cases hu : usableName info.id = true
  · obtain ⟨bucket, ns, -, heq⟩ := enrol_of_usable b hu
    rw [heq]
    refine enduring.report ⟨fun hs => ?_, written h.recorded fun f q hf => ?_⟩ ns
    · rcases session?_enrolled.1 hs with hs | ⟨-, rfl⟩
      · exact h.synced hs
      · exact .fresh hno _
    · rw [hno] at hf
      cases hf
  · obtain ⟨e, ns, heq⟩ := enrol_of_unusable b hu
    rw [heq]
    exact enduring.report h ns

theorem connect (h : InSync gone b) (hb : Sound b) (hno : info.subscriptions = .empty) : InSync gone (b.connect info).2 := by
  rcases connect_cases b info with ⟨-, heq⟩ | ⟨r, -, -, heq⟩ <;> rw [heq]
  · exact (enduring.cleared hb h info fun _ h _ => h.update _ _).enrol hno
  · exact (enduring.report h _).update r info

/-- A session restored from a record of filters. -/
theorem restored (h : InSync (fun _ => []) b) (hu : usableName info.id = true) (hheld : Held info) :
    InSync (fun _ => []) ((b.enrol info).2.registerAll b.sessions.length) := by
  obtain ⟨bucket, ns, -, heq⟩ := enrol_of_usable b hu
  rw [heq]
  have hregister := Wants.registerAll ((b.enrolled info bucket).report ns) b.sessions.length
  constructor
  · intro q s' hs'
    by_cases hq : q = b.sessions.length
    · subst hq
      obtain ⟨s, hs, hinterest⟩ := hregister.session?_back hs'
      obtain rfl := Option.some.inj (session?_enrolled_new.symm.trans hs)
      rw [hinterest]
      exact .restored fun hf => hheld _ _ hf
    · rw [hregister.others q hq] at hs'
      exact h.synced ((session?_enrolled.1 hs').resolve_right fun hnew => hq hnew.1)
  · rw [store_registerAll]
    exact written h.recorded hheld

theorem openOn {settings : Settings} {store : Store} {events : EventTable} (hflaw : settings.flaw = none)
    (hrecorded : SessionRecords.Recorded store.sessions)
    (h : ∀ e ∈ store.sessions.entries, ∃ info : Info, e.2 = info.encode ∧ Held info) :
    InSync (fun _ => []) (openOn settings (.database store) events).2 := by
  refine (Sound.openOn_induction (I := fun _ b => InSync (fun _ => []) b) (fun _ _ ns hI => enduring.report hI ns)
    (fun _ b info _ hI hinfo hu _ => hI.restored hu ?_) hflaw hrecorded ⟨nofun, h⟩).2
  obtain ⟨hentries, hinfos, -⟩ := SessionRecords.loadAll_of_recorded hrecorded
  have hentry : (Text.bytes info.id, info.encode) ∈ store.sessions.entries := by
    rw [hentries]
    exact List.mem_map.2 ⟨info, hinfo, rfl⟩
  obtain ⟨info', heq, hheld⟩ := h _ hentry
  -- Two records alike are of sessions known alike.
  have hdecoded : (.ok { info with clean := false } : Except Json.Fault Info) = .ok { info' with clean := false } := by
    rw [← Info.decode_encode, ← Info.decode_encode]
    exact congrArg Info.decode heq
  have hsame : ({ info with clean := false } : Info) = { info' with clean := false } := Except.ok.inj hdecoded
  obtain ⟨-, -, hsubs, -⟩ := Info.mk.inj hsame
  intro f q hf
  exact hheld f q (hsubs ▸ hf)

theorem step (h : InSync gone b) (hb : Sound b) {op : Op} (hop : Plain b op) :
    InSync (fun r => op.taken r (gone r)) (b.step op) := by
  cases op with
  | connect info => exact h.connect hb (hop.2 info rfl)
  | disconnect id => exact enduring.disconnect hb h id
  | route m => exact h.of_interest (.route b m)
  | call r c => exact h.perform r c
  | close => exact enduring.close hb h
  | reopen settings orderly =>
    obtain ⟨events, heq⟩ := reopen_eq b settings orderly
    show InSync (fun _ => []) (b.reopen settings orderly).2
    rw [heq]
    cases orderly with
    | false => exact openOn hop.1 hb.recorded h.recorded
    | true => exact openOn hop.1 hb.close.recorded (enduring.close hb h).recorded

end InSync

theorem Run.inSync {settings : Settings} {ops : List Op} (h : Run Plain (start settings) ops b)
    (hflaw : settings.flaw = none) :
    InSync (taken · ops) b := by
  induction h with
  | nil => exact InSync.openOn hflaw SessionRecords.recorded_empty fun _ he => absurd he List.not_mem_nil
  | @step ops b op hrun hop ih =>
    have hstep := ih.step (hrun.sound hflaw fun _ _ h => h.1) hop
    simp only [taken, List.foldl_append, List.foldl_cons, List.foldl_nil] at hstep ⊢
    exact hstep

/-- A session matches a topic by the strongest service among the filters that it is known to hold, that
cover the topic and whose place no text taken out has freed. These are all that it holds and that cover
the topic, unless a text that is no filter shares the place of one that is held. -/
theorem matched_by_held {settings : Settings} {ops : List Op} (h : Run Plain (start settings) ops b)
    (hflaw : settings.flaw = none) (hs : b.session? r = some s) (topic : String) :
    s.matchQoS topic = QoS.highest ((s.info.subscriptions.entries.filter fun e =>
        matchesFilter topic e.1 && (taken r ops).all fun g => Place.ofFilter g ≠ Place.ofFilter e.1).map (·.2)) ∧
      ((∀ g ∈ taken r ops, flaw g ≠ none → ∀ e ∈ s.info.subscriptions.entries,
          Place.ofFilter g ≠ Place.ofFilter e.1) →
        s.matchQoS topic = QoS.highest
          ((s.info.subscriptions.entries.filter fun e => matchesFilter topic e.1).map (·.2))) := by
  have hsynced := (h.inSync hflaw).synced hs
  have hmatch : s.matchQoS topic = _ := hsynced.maxQoS topic
  refine ⟨hmatch, fun hno => ?_⟩
  have hall : ∀ e ∈ s.info.subscriptions.entries,
      (taken r ops).all (fun g => Place.ofFilter g ≠ Place.ofFilter e.1) = true := by
    intro e he
    have hheld : s.interest.info.subscriptions.get? e.1 = some e.2 := OrderedMap.get?_eq_some_iff.2 he
    refine List.all_eq_true.2 fun g hg => decide_eq_true ?_
    by_cases hgf : flaw g = none
    · -- A filter taken out is not held, and no other has its place.
      intro hplace
      have hlost := hsynced.lost g hg
      rw [ofFilter_injective hgf (hsynced.valid hheld) hplace, hheld] at hlost
      cases hlost
    · exact hno g hg hgf e he
  have hsame : s.info.subscriptions.entries.filter (fun e =>
      matchesFilter topic e.1 && (taken r ops).all fun g => Place.ofFilter g ≠ Place.ofFilter e.1)
      = s.info.subscriptions.entries.filter fun e => matchesFilter topic e.1 :=
    List.filter_congr fun e he => by rw [hall e he, Bool.and_true]
  rw [← hsame]
  exact hmatch

/-- A text that was never subscribed takes a filter out of the trie, which stays known as held. -/
theorem unsubscribed_alias :
    let ops : List Op := [.connect { id := "a" }, .call 0 (.subscribe [⟨"a/#", .atLeastOnce⟩] none),
      .call 0 (.unsubscribe ["a/#/b"])]
    let b := ops.foldl step (start {})
    ∃ s, b.session? 0 = some s ∧ s.info.subscriptions.get? "a/#" = some .atLeastOnce ∧
      matchesFilter "a/x" "a/#" = true ∧ s.matchQoS "a/x" = none := by
  intro ops b
  have hrun : Run Plain (start {}) ops b := by
    refine Run.of_forall .nil fun _ op hop => ?_
    simp only [List.mem_cons, List.not_mem_nil, or_false] at hop
    rcases hop with rfl | rfl | rfl
    · refine ⟨trivial, ?_⟩
      rintro _ ⟨⟩
      rfl
    · exact ⟨trivial, nofun⟩
    · exact ⟨trivial, nofun⟩
  have hs : b.session? 0 = some ((b.session? 0).get (by decide +kernel)) := (Option.some_get _).symm
  refine ⟨_, hs, by decide +kernel, by decide +kernel, ?_⟩
  rw [(matched_by_held hrun rfl hs "a/x").1]
  decide +kernel

end Broker

end PubSub
