import PubSub.Proofs.Renewal
/-!
# Clients do not disturb each other

What a client asks for and what concerns all clients is done to a client alike, whatever else the broker has
been asked for (`SameView.serve`), and what another client asks for does nothing to it (`SameView.serve_other`).
So leaving out what other clients ask for changes nothing that a client is told and nothing that is stored of
it (`undisturbed`).
-/

namespace PubSub.Broker

variable {a b : Broker} {id : String} {q : Request} {qs : List Request} {settings : Settings}

theorem Coherent.step (hb : Coherent b) {op : Op} (hop : Orderly b op) : Coherent (b.step op) :=
  ⟨hb.sound.step hop.1, hb.tied.step hb.sound hop⟩

/-- A request comes to an operation on a registered session. -/
theorem orderly_of_op? {op : Op} (hop : b.op? q = some op) (hq : q.Configured) : Orderly b op := by
  cases q with
  | call id c =>
    obtain ⟨r, hr, rfl⟩ := Option.map_eq_some_iff.1 hop
    refine ⟨trivial, ?_⟩
    rintro _ _ ⟨⟩ -
    exact ⟨id, hr⟩
  | query => cases hop
  | _ =>
    cases hop
    exact ⟨hq, nofun⟩

theorem Coherent.serve (hb : Coherent b) (hq : q.Configured) : Coherent (b.serve q) := by
  unfold Broker.serve
  cases hop : b.op? q with
  | none => exact hb
  | some op => exact hb.step (orderly_of_op? hop hq)

theorem Coherent.start (hflaw : settings.flaw = none) : Coherent (start settings) :=
  ⟨.start hflaw, .of_restored (restored_start hflaw)⟩

/-- A client is turned away for nothing but its id. -/
theorem connect_answer (hb : Sound b) (info : Info) : (b.connect info).1.map (fun _ => ())
    = if usableName info.id then .ok () else .error (.invalidBucket info.id) := by
  have henrol (b : Broker) : (b.enrol info).1.map (fun _ => ())
      = if usableName info.id then .ok () else .error (.invalidBucket info.id) := by
    by_cases hu : usableName info.id = true
    · obtain ⟨bucket, ns, -, heq⟩ := enrol_of_usable b hu
      rw [heq, if_pos hu]
      rfl
    · have hbucket : Bucket.ofName info.id = .error (.invalidBucket info.id) := dif_neg hu
      unfold enrol create
      rw [hbucket, if_neg hu]
      rfl
  rcases connect_cases b info with ⟨-, heq⟩ | ⟨r, hr, -, heq⟩
  · rw [heq, henrol]
  · obtain ⟨s, hs, hid⟩ := hb.registered hr
    rw [heq, if_pos (hid ▸ hb.usable hs)]
    rfl

namespace SameView

/-- What another client asks for does nothing to this one. -/
theorem serve_other (hb : Sound b) (hq : q.concerns id = false) : SameView id b (b.serve q) := by
  obtain ⟨other, hclient, hne⟩ := Request.concerns_eq_false_iff.1 hq
  cases q with
  | connect info =>
    obtain rfl := Option.some.inj hclient
    exact connect_other hb hne
  | disconnect =>
    obtain rfl := Option.some.inj hclient
    exact disconnect_other hb hne
  | call id' c =>
    obtain rfl := Option.some.inj hclient
    cases hr : b.registry.get? id' with
    | none =>
      rw [serve_call_free hr]
      exact refl id b
    | some r =>
      obtain ⟨s, hs, hid⟩ := hb.registered hr
      rw [serve_call hr]
      exact perform_other hb c hs (hid ▸ hne)
  | query => exact refl id b
  | route | close | reopen => cases hclient

/-- What a client asks for, and what concerns all, does the same to it on both brokers. -/
theorem serve (h : SameView id a b) (ha : Coherent a) (hb : Coherent b) (hconfigured : q.Configured)
    (hq : q.concerns id = true) : SameView id (a.serve q) (b.serve q) := by
  have hclient := Request.concerns_iff.1 hq
  cases q with
  | connect info =>
    obtain rfl := Option.some.inj (hclient.resolve_left nofun)
    exact h.connect ha hb
  | disconnect =>
    obtain rfl := Option.some.inj (hclient.resolve_left nofun)
    exact h.disconnect ha hb
  | call id' c =>
    obtain rfl := Option.some.inj (hclient.resolve_left nofun)
    cases hr : a.registry.get? id' with
    | none =>
      rw [serve_call_free hr, serve_call_free (h.free hb.sound hr)]
      exact h
    | some r =>
      obtain ⟨r', -, -, hr', -⟩ := h.registered ha.sound hr
      rw [serve_call hr, serve_call hr']
      exact h.perform ha hb hr hr' c
  | query => exact h
  | route m => exact h.route ha hb m
  | close => exact h.close ha hb
  | reopen settings orderly => exact h.reopen ha hb hconfigured orderly

/-- A client is told the same by both brokers. -/
theorem reply (h : SameView id a b) (ha : Coherent a) (hb : Coherent b) (hq : q.client? = some id) :
    b.reply q = a.reply q := by
  cases q with
  | connect info => simp only [Broker.reply, connect_answer ha.sound, connect_answer hb.sound]
  | disconnect => rfl
  | call id' c =>
    obtain rfl := Option.some.inj hq
    cases hr : a.registry.get? id' with
    | none => rw [reply_call_free hr, reply_call_free (h.free hb.sound hr)]
    | some r =>
      obtain ⟨r', -, -, hr', -⟩ := h.registered ha.sound hr
      rw [reply_call hr, reply_call hr']
      exact h.answer ha.sound hr hr' c
  | query id' q =>
    obtain rfl := Option.some.inj hq
    -- Nothing that is told of a session depends on where the events that wait there came from.
    have htell (b : Broker) : b.reply (.query id' q) = (((b.client? id').map Session.seen).map (·.tell q)).getD .absent := by
      unfold Broker.reply
      rw [Option.map_map]
      cases q <;> rfl
    rw [htell, htell, h.session]
  | route | close | reopen => cases hq

theorem bucketRecords (h : SameView id a b) : b.bucketRecords id = a.bucketRecords id := by
  unfold Broker.bucketRecords Bucket.ofName
  split
  · next hu =>
    split at hu
    · cases hu
      exact h.records _ rfl
    · cases hu
  · rfl

/-- On brokers that look the same to a client, requests come to the same for it with those of others left out. -/
theorem outcome (h : SameView id a b) (ha : Coherent a) (hb : Coherent b) (hqs : ∀ q ∈ qs, q.Configured) :
    b.outcome id qs = a.outcome id (qs.filter (·.concerns id)) := by
  induction qs generalizing a b with
  | nil => exact congrArg₂ (Outcome.mk []) h.record h.bucketRecords
  | cons q qs ih =>
    have hconfigured := hqs q List.mem_cons_self
    have hrest : ∀ q ∈ qs, q.Configured := fun p hp => hqs p (List.mem_cons_of_mem q hp)
    cases hq : q.concerns id with
    | true =>
      rw [List.filter_cons_of_pos hq, outcome_cons, outcome_cons,
        ih (h.serve ha hb hconfigured hq) (ha.serve hconfigured) (hb.serve hconfigured) hrest]
      by_cases hown : q.client? = some id
      · rw [if_pos hown, if_pos hown, h.reply ha hb hown]
      · rw [if_neg hown, if_neg hown]
    | false =>
      obtain ⟨other, hclient, hne⟩ := Request.concerns_eq_false_iff.1 hq
      rw [List.filter_cons_of_neg (by rw [hq]; exact Bool.false_ne_true), outcome_cons,
        ih (h.trans (serve_other hb.sound hq)) ha (hb.serve hconfigured) hrest,
        if_neg (by rw [hclient]; exact fun he => hne (Option.some.inj he)), List.nil_append]

end SameView

/-- At most one of two requests of different clients concerns a client. -/
theorem filter_concerns_swap {p q : Request} {x y : String} (hp : p.client? = some x) (hq : q.client? = some y) (hne : x ≠ y)
    (id : String) (before after : List Request) : (before ++ q :: p :: after).filter (·.concerns id)
      = (before ++ p :: q :: after).filter (·.concerns id) := by
  have hconcerns {r : Request} {z : String} (hr : r.client? = some z) : r.concerns id = decide (z = id) := by
    rw [Request.concerns, hr, Option.all_some]
  simp only [List.filter_append, List.filter_cons, hconcerns hp, hconcerns hq, decide_eq_true_eq]
  by_cases hx : x = id
  · have hy : ¬ y = id := fun hy => hne (hx.trans hy.symm)
    rw [if_neg hy, if_neg hy]
  · rw [if_neg hx, if_neg hx]

/-- Leaving out what other clients ask for changes nothing that a client is told and nothing that is stored of
it. So requests of two clients that come one after the other can change places, as far as any client can tell. -/
theorem undisturbed (hflaw : settings.flaw = none) (hqs : ∀ q ∈ qs, q.Configured) (id : String) :
    (start settings).outcome id qs = (start settings).outcome id (qs.filter (·.concerns id)) ∧
    ∀ before p q after x y, qs = before ++ p :: q :: after → p.client? = some x → q.client? = some y → x ≠ y →
      (start settings).outcome id (before ++ q :: p :: after) = (start settings).outcome id qs := by
  have hstart : Coherent (start settings) := .start hflaw
  have hown {qs : List Request} (hqs : ∀ q ∈ qs, q.Configured) :
      (start settings).outcome id qs = (start settings).outcome id (qs.filter (·.concerns id)) :=
    (SameView.refl id _).outcome hstart hstart hqs
  refine ⟨hown hqs, ?_⟩
  rintro before p q after x y rfl hp hq hne
  have hswapped : ∀ r ∈ before ++ q :: p :: after, r.Configured := by
    intro r hr
    refine hqs r ?_
    simp only [List.mem_append, List.mem_cons] at hr ⊢
    exact hr.imp_right or_left_comm.1
  rw [hown hswapped, hown hqs, filter_concerns_swap hp hq hne]

/-- One client subscribes to all there is, is sent a message of its own and starts anew; another is told the same
without that, over a crash, and whichever of the two subscribes first. -/
theorem undisturbed_by_another :
    let m : Message := { topic := "t", payload := [7], qos := .atLeastOnce }
    let one : Request := .call "a" (.subscribe [⟨"t", .atLeastOnce⟩] none)
    let other : Request := .call "b" (.subscribe [⟨"#", .atMostOnce⟩] none)
    let before : List Request := [.connect { id := "a" }, .connect { id := "b" }]
    let after : List Request := [.route m, .call "b" (.push m), .connect { id := "b", clean := true },
      .reopen {} false, .disconnect "b", .call "a" .nextGuaranteed, .query "a" .inflight]
    let alone : List Request := [.connect { id := "a" }, one, .route m, .reopen {} false, .call "a" .nextGuaranteed,
      .query "a" .inflight]
    ((start {}).outcome "a" (before ++ one :: other :: after)).replies
        = [.connected (.ok ()), .asked [], .delivered (.ok (some ⟨2, m⟩)), .inflight 1] ∧
      (start {}).outcome "a" (before ++ one :: other :: after) = (start {}).outcome "a" alone ∧
      (start {}).outcome "b" (before ++ other :: one :: after)
        = (start {}).outcome "b" (before ++ one :: other :: after) := by
  intro m one other before after alone
  have hqs : ∀ q ∈ before ++ one :: other :: after, q.Configured := by
    simp only [before, one, other, after, List.cons_append, List.nil_append, List.forall_mem_cons]
    exact ⟨trivial, trivial, trivial, trivial, trivial, trivial, trivial, rfl, trivial, trivial, trivial, nofun⟩
  have halone : (before ++ one :: other :: after).filter (·.concerns "a") = alone := by
    simp [before, one, other, after, alone, Request.concerns, Request.client?]
  have howns : (start {}).outcome "a" (before ++ one :: other :: after) = (start {}).outcome "a" alone := by
    rw [← halone]
    exact (undisturbed rfl hqs "a").1
  refine ⟨?_, howns, (undisturbed rfl hqs "b").2 before one other after "a" "b" rfl rfl rfl (by decide)⟩
  rw [howns]
  decide +kernel

end PubSub.Broker
