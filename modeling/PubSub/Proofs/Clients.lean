import PubSub.Proofs.Events
import PubSub.Proofs.Jobs
import PubSub.Proofs.Sound
/-!
# One client among many

What an operation means to one client (`Broker.acts`): jobs done with the mail of its sessions, a
session that comes and a registration that goes. `acts_step` shows that every operation on a sound
broker does these acts and changes nothing else of the client's: its registration, the mail of its
sessions and the records of its bucket (`SameFor`).
-/

namespace PubSub

/-- Something done to a client. -/
inductive Act where
  | job (r : SessionRef) (j : Job)
  | free
  | enrol (r : SessionRef) (info : Info)

namespace Broker

variable {b b' b'' : Broker} {r : SessionRef} {s s' : Session} {info : Info} {id id' : String} {xs ys : List Act}

/-! ## Nothing changed for a client -/

structure SameFor (id : String) (b b' : Broker) : Prop where
  registry : b'.registry.get? id = b.registry.get? id
  records : ∀ c : Bucket, c.name = id → c.contents b'.store.queue = c.contents b.store.queue
  mail : ∀ {r s}, b.session? r = some s → s.info.id = id → ∃ s', b'.session? r = some s' ∧ s'.mail = s.mail
  back : ∀ {r s'}, b'.session? r = some s' → s'.info.id = id → ∃ s, b.session? r = some s ∧ s'.mail = s.mail

namespace SameFor

theorem refl (id : String) (b : Broker) : SameFor id b b :=
  ⟨rfl, fun _ _ => rfl, fun hs _ => ⟨_, hs, rfl⟩, fun hs _ => ⟨_, hs, rfl⟩⟩

theorem trans (h : SameFor id b b') (h' : SameFor id b' b'') : SameFor id b b'' where
  registry := h'.registry.trans h.registry
  records c hc := (h'.records c hc).trans (h.records c hc)
  mail hs hid := by
    obtain ⟨s', hs', heq⟩ := h.mail hs hid
    obtain ⟨s'', hs'', heq'⟩ := h'.mail hs' ((Mail.id_eq heq).trans hid)
    exact ⟨s'', hs'', heq'.trans heq⟩
  back hs'' hid := by
    obtain ⟨s', hs', heq'⟩ := h'.back hs'' hid
    obtain ⟨s, hs, heq⟩ := h.back hs' ((Mail.id_eq heq').symm.trans hid)
    exact ⟨s, hs, heq'.trans heq⟩

theorem of_sameMail (h : SameMail b b') : SameFor id b b' where
  registry := by rw [h.registry]
  records c _ := by rw [h.records]
  mail hs _ := h.session? hs
  back hs' _ := h.session?_back hs'

/-- What is done with the mail of another client's session. -/
theorem of_local (hb : Sound b) (hl : Local r b b') (h : ∀ s, b.session? r = some s → s.info.id ≠ id) :
    SameFor id b b' where
  registry := by rw [hl.interest.registry]
  records c hc := hl.records c fun s hs he => h s hs (by rw [← hc, he, hb.named hs])
  mail {q s} hs hid := by
    have hq : q ≠ r := fun he => h s (he ▸ hs) hid
    exact ⟨s, (hl.others q hq).trans hs, rfl⟩
  back {q s'} hs' hid := by
    obtain ⟨s, hs, heq, -⟩ := hl.session?_back hs'
    have hq : q ≠ r := fun he => h s (he ▸ hs) ((Interest.id_eq heq).symm.trans hid)
    exact ⟨s', (hl.others q hq).symm.trans hs', rfl⟩

theorem unregister (h : id' ≠ id) : SameFor id b (b.unregister id') where
  registry := by
    show (b.registry.erase id').get? id = _
    rw [OrderedMap.get?_erase, if_neg (Ne.symm h)]
  records _ _ := rfl
  mail hs _ := ⟨_, hs, rfl⟩
  back hs _ := ⟨_, hs, rfl⟩

theorem enrolled {bucket : Bucket} (h : info.id ≠ id) : SameFor id b (b.enrolled info bucket) where
  registry := by
    show (b.registry.insert info.id b.sessions.length).get? id = _
    rw [OrderedMap.get?_insert, if_neg (Ne.symm h)]
  records _ _ := rfl
  mail hs _ := ⟨_, session?_enrolled.2 (.inl hs), rfl⟩
  back hs' hid := by
    rcases session?_enrolled.1 hs' with hs | ⟨-, rfl⟩
    · exact ⟨_, hs, rfl⟩
    · exact absurd hid h

theorem report (b : Broker) (ns : List Notice) : SameFor id b (b.report ns) := of_sameMail (.report b ns)

theorem enrol (h : info.id ≠ id) : SameFor id b (b.enrol info).2 := by
  by_cases hu : usableName info.id = true
  · obtain ⟨bucket, ns, -, heq⟩ := enrol_of_usable b hu
    rw [heq]
    exact (enrolled h).trans (.report _ ns)
  · obtain ⟨e, ns, heq⟩ := enrol_of_unusable b hu
    rw [heq]
    exact .report b ns

theorem dismiss (hb : Sound b) (hr : b.registry.get? id' = some r) (h : id' ≠ id) : SameFor id b (b.dismiss id' r) := by
  obtain ⟨s, hs, hid⟩ := hb.registered hr
  have hunbound : SameFor id b (b.unbindAll r) := of_sameMail (.unbindAll b r)
  refine (hunbound.trans (of_local (hb.unbindAll r) (.closeSession _ r) fun t ht => ?_)).trans (unregister h)
  obtain ⟨t', ht', heq⟩ := (SameMail.unbindAll b r).session?_back ht
  obtain rfl := Option.some.inj (hs.symm.trans ht')
  rw [Mail.id_eq heq, hid]
  exact h

end SameFor

/-! ## Acts -/

/-- What an act does. -/
def Effect (id : String) (b : Broker) (a : Act) (b' : Broker) : Prop :=
  match a with
  | .job r j => Sound b ∧ (∃ s, b.session? r = some s ∧ s.info.id = id) ∧ Does r j b b'
  | .free => b' = b.unregister id
  | .enrol r info => Sound b ∧ b.registry.get? id = none ∧ r = b.sessions.length ∧ info.id = id ∧
      ∃ bucket : Bucket, bucket.name = id ∧ b' = b.enrolled info bucket

/-- A change that amounts to these acts for a client. -/
inductive Acts (id : String) : Broker → List Act → Broker → Prop
  | same {b b' : Broker} : SameFor id b b' → Acts id b [] b'
  | act {b b₁ b₂ b' : Broker} {a : Act} {xs : List Act} :
      SameFor id b b₁ → Effect id b₁ a b₂ → Acts id b₂ xs b' → Acts id b (a :: xs) b'

namespace Acts

theorem same_trans (h : SameFor id b b') (h' : Acts id b' xs b'') : Acts id b xs b'' := by
  cases h' with
  | same h' => exact .same (h.trans h')
  | act hs he hrest => exact .act (h.trans hs) he hrest

theorem append (h : Acts id b xs b') (h' : Acts id b' ys b'') : Acts id b (xs ++ ys) b'' := by
  induction h with
  | same h => exact same_trans h h'
  | act hs he _ ih => exact .act hs he (ih h')

theorem trans_same (h : Acts id b xs b') (h' : SameFor id b' b'') : Acts id b xs b'' := by
  rw [← List.append_nil xs]
  exact h.append (.same h')

theorem one {a : Act} (h : Effect id b a b') : Acts id b [a] b' := .act (.refl id b) h (.same (.refl id b'))

end Acts

/-! ## Acts of an operation -/

def storeActs (b : Broker) (r : SessionRef) (m : Message) : List Act :=
  match b.session? r with
  | none => []
  | some s => if s.accepts m then [.job r (.store m)] else []

def dismissActs (b : Broker) (r : SessionRef) : List Act :=
  match b.session? r with
  | none => []
  | some s => [.job r (.close s.info.clean), .free]

/-- What an operation means to a client, unless it opens the broker anew. -/
def acts (b : Broker) (id : String) : Op → List Act
  | .connect info =>
    if info.id = id then
      match b.registry.get? id with
      | none => [.enrol b.sessions.length info]
      | some r => if info.clean then [.job r (.close true), .free, .enrol b.sessions.length info] else []
    else []
  | .disconnect id' =>
    if id' = id then
      match b.registry.get? id with
      | none => []
      | some r => if ((b.session? r).map (·.info.clean)).getD false then b.dismissActs r else [.job r .requeue]
    else []
  | .route m =>
    match (b.exchange.targets m.topic).find? (·.id = id) with
    | none => []
    | some t => b.storeActs t.session m
  | .call r c =>
    match b.session? r with
    | none => []
    | some s => if s.info.id = id then (s.job? c).toList.map (.job r) else []
  | .close =>
    match b.registry.get? id with
    | none => []
    | some r => b.dismissActs r
  | .reopen _ _ => []

/-- Where the jobs of an operation come from. -/
inductive Asks (b : Broker) (id : String) (r : SessionRef) : Op → Job → Prop
  | route {m : Message} : Asks b id r (.route m) (.store m)
  | call {s : Session} {c : Call} {j : Job} :
      b.session? r = some s → s.info.id = id → s.job? c = some j → Asks b id r (.call r c) j
  | stay {op : Op} : Asks b id r op .requeue
  | leave {op : Op} : Asks b id r op (.close true)
  | close {s : Session} :
      b.registry.get? id = some r → b.session? r = some s → Asks b id r .close (.close s.info.clean)

theorem job_of_mem_dismissActs {q : SessionRef} {j : Job} (h : .job r j ∈ b.dismissActs q) :
    q = r ∧ ∃ s, b.session? r = some s ∧ j = .close s.info.clean := by
  unfold dismissActs at h
  split at h
  · cases h
  · next s hs =>
    simp only [List.mem_cons, Act.job.injEq, reduceCtorEq, List.not_mem_nil, or_false] at h
    obtain ⟨rfl, rfl⟩ := h
    exact ⟨rfl, s, hs, rfl⟩

theorem asks_of_mem_acts {op : Op} {j : Job} (h : .job r j ∈ b.acts id op) : Asks b id r op j := by
  unfold acts at h
  cases op with
  | connect info =>
    dsimp only at h
    split at h
    · split at h
      · simp at h
      · split at h
        · simp only [List.mem_cons, Act.job.injEq, reduceCtorEq, List.not_mem_nil, or_false] at h
          obtain ⟨-, rfl⟩ := h
          exact .leave
        · cases h
    · cases h
  | disconnect id' =>
    dsimp only at h
    split at h
    · split at h
      · cases h
      · split at h
        · next hclean =>
          -- Only a clean session is dismissed here.
          obtain ⟨rfl, s, hs, rfl⟩ := job_of_mem_dismissActs h
          rw [hs] at hclean
          rw [show s.info.clean = true from hclean]
          exact .leave
        · cases List.mem_singleton.1 h
          exact .stay
    · cases h
  | route m =>
    dsimp only [storeActs] at h
    split at h
    · cases h
    · split at h
      · cases h
      · split at h
        · cases List.mem_singleton.1 h
          exact .route
        · cases h
  | call q c =>
    dsimp only at h
    split at h
    · cases h
    · next s hs =>
      split at h
      · next hid =>
        obtain ⟨i, hi, heq⟩ := List.mem_map.1 h
        obtain ⟨rfl, rfl⟩ := Act.job.inj heq
        exact .call hs hid (Option.mem_toList.1 hi)
      · cases h
  | close =>
    dsimp only at h
    split at h
    · cases h
    · next hr =>
      obtain ⟨rfl, s, hs, rfl⟩ := job_of_mem_dismissActs h
      exact .close hr hs
  | reopen settings orderly => cases h

theorem acts_dismiss (hb : Sound b) (hr : b.registry.get? id = some r) :
    Acts id b (b.dismissActs r) (b.dismiss id r) := by
  obtain ⟨s, hs, hid⟩ := hb.registered hr
  have hunbound : SameFor id b (b.unbindAll r) := .of_sameMail (.unbindAll b r)
  have hs' : (b.unbindAll r).session? r = some s := by
    unfold unbindAll
    rw [hs]
    exact hs
  unfold dismissActs
  rw [hs]
  exact .act hunbound ⟨hb.unbindAll r, ⟨s, hs', hid⟩, closeSession_spec hs'⟩ (.one rfl)

/-! ## Routing -/

theorem acts_deliver (hb : Sound b) {target : Binding} (hs : b.session? target.session = some s)
    (hid : s.info.id = id) (e : Event) : Acts id b (b.storeActs target.session e.message) (b.deliver target e) := by
  obtain ⟨haccepted, hrefused⟩ := deliver_spec hs e
  unfold storeActs
  rw [hs]
  dsimp only
  split
  · next ha => exact .one ⟨hb, ⟨s, hs, hid⟩, haccepted ha⟩
  · next ha => exact .same (.of_sameMail (hrefused (Bool.eq_false_iff.2 ha)))

theorem foldl_targets (topic : String) (bs found : List Binding) (h : found.Pairwise (fun x y => x.id ≠ y.id)) :
    let all := bs.foldl (fun found b =>
      if Topic.matchesFilter topic b.filter ∧ found.all (·.id ≠ b.id) then found ++ [b] else found) found
    all.Pairwise (fun x y => x.id ≠ y.id) ∧ (∀ x ∈ all, x ∈ found ∨ x ∈ bs) ∧
      ∀ id, (∃ x ∈ all, x.id = id) ↔
        (∃ x ∈ found, x.id = id) ∨ ∃ x ∈ bs, x.id = id ∧ Topic.matchesFilter topic x.filter = true := by
  induction bs generalizing found with
  | nil => exact ⟨h, fun x hx => .inl hx, fun id => by simp⟩
  | cons b bs ih =>
    rw [List.foldl_cons]
    split
    · next hb =>
      have hnew : ∀ x ∈ found, x.id ≠ b.id := fun x hx => by simpa using List.all_eq_true.1 hb.2 x hx
      have hall : (found ++ [b]).Pairwise (fun x y => x.id ≠ y.id) :=
        List.pairwise_append.2 ⟨h, List.pairwise_singleton _ b, fun x hx y hy => List.mem_singleton.1 hy ▸ hnew x hx⟩
      obtain ⟨hids, hmem, hfound⟩ := ih _ hall
      refine ⟨hids, fun x hx => ?_, fun id => ?_⟩
      · rcases hmem x hx with hx | hx
        · rcases List.mem_append.1 hx with hx | hx
          · exact .inl hx
          · exact .inr (List.mem_singleton.1 hx ▸ List.mem_cons_self)
        · exact .inr (List.mem_cons_of_mem b hx)
      · rw [hfound]
        simp only [List.mem_append, List.mem_cons, List.not_mem_nil, or_false, or_and_right, exists_or, exists_eq_left, hb.1,
          and_true, or_assoc]
    · next hb =>
      obtain ⟨hids, hmem, hfound⟩ := ih _ h
      refine ⟨hids, fun x hx => (hmem x hx).imp_right (List.mem_cons_of_mem b), fun id => (hfound id).trans ?_⟩
      -- The binding is passed over: it does not match, or its client is found already.
      constructor
      · exact Or.imp_right fun ⟨x, hx, hid⟩ => ⟨x, List.mem_cons_of_mem b hx, hid⟩
      · rintro (hfound | ⟨x, hx, hid, hmatch⟩)
        · exact .inl hfound
        · rcases List.mem_cons.1 hx with rfl | hx
          · have hthere : ¬ found.all (·.id ≠ x.id) = true := fun hall => hb ⟨hmatch, hall⟩
            simp only [List.all_eq_true, decide_eq_true_eq, not_forall, not_not] at hthere
            obtain ⟨y, hy, hyid⟩ := hthere
            exact .inl ⟨y, hy, hyid.trans hid⟩
          · exact .inr ⟨x, hx, hid, hmatch⟩

theorem targets_ids (x : Exchange) (topic : String) : (x.targets topic).Pairwise (fun y z => y.id ≠ z.id) :=
  (foldl_targets topic x.bindings [] .nil).1

theorem mem_of_mem_targets {x : Exchange} {topic : String} {y : Binding} (h : y ∈ x.targets topic) : y ∈ x.bindings :=
  ((foldl_targets topic x.bindings [] .nil).2.1 y h).resolve_left List.not_mem_nil

/-- A client is a target when something that covers the topic is bound under its id. -/
theorem exists_mem_targets {x : Exchange} {topic id : String} : (∃ y ∈ x.targets topic, y.id = id) ↔
    ∃ y ∈ x.bindings, y.id = id ∧ Topic.matchesFilter topic y.filter = true := by
  refine ((foldl_targets topic x.bindings [] .nil).2.2 id).trans (or_iff_right ?_)
  rintro ⟨y, hy, -⟩
  exact absurd hy List.not_mem_nil

/-- The copies of an event that was just published are copies of its message, as many as asked for. -/
theorem split_publish (t : EventTable) (m : Message) (notifies : Bool) (n : Nat) :
    ((t.publish m notifies).2.split (t.publish m notifies).1.id n).1.length = n ∧
      ∀ e ∈ ((t.publish m notifies).2.split (t.publish m notifies).1.id n).1, e.message = m := by
  rw [EventTable.copies_publish]
  refine ⟨by rw [EventTable.copies, List.length_map, List.length_range], fun e he => ?_⟩
  obtain ⟨place, -, rfl⟩ := EventTable.mem_copies.1 he
  rfl

/-- A routed message means something to a client only where it is delivered to it. -/
theorem acts_foldl_deliver (id : String) {m : Message} (copies : List (Binding × Event)) (hb : Sound b)
    (hids : copies.Pairwise (fun c d => c.1.id ≠ d.1.id)) (hm : ∀ c ∈ copies, c.2.message = m)
    (hbound : ∀ c ∈ copies, ∃ s, b.session? c.1.session = some s ∧ s.info.id = c.1.id) :
    Acts id b (match (copies.map (·.1)).find? (·.id = id) with
      | none => []
      | some t => b.storeActs t.session m) (copies.foldl (fun b c => b.deliver c.1 c.2) b) := by
  induction copies generalizing b with
  | nil => exact .same (.refl id b)
  | cons c copies ih =>
    obtain ⟨hne, hids⟩ := List.pairwise_cons.1 hids
    obtain ⟨s, hs, hid⟩ := hbound c List.mem_cons_self
    have hm' : ∀ d ∈ copies, d.2.message = m := fun d hd => hm d (List.mem_cons_of_mem c hd)
    have hdeliver := Local.deliver b c.1 c.2
    have hbound' : ∀ d ∈ copies, ∃ s, (b.deliver c.1 c.2).session? d.1.session = some s ∧ s.info.id = d.1.id := by
      intro d hd
      obtain ⟨t, ht, htid⟩ := hbound d (List.mem_cons_of_mem c hd)
      obtain ⟨t', ht', heq⟩ := hdeliver.interest.session? ht
      exact ⟨t', ht', (Interest.id_eq heq).trans htid⟩
    have hrest := ih (hb.of_local hdeliver) hids hm' hbound'
    rw [List.foldl_cons, List.map_cons, List.find?_cons]
    by_cases hc : c.1.id = id
    · -- The message is for this client; the copies after it are for others.
      have hnone : (copies.map (·.1)).find? (·.id = id) = none := by
        simp only [List.find?_eq_none, List.mem_map, decide_eq_true_eq]
        rintro _ ⟨d, hd, rfl⟩ hdid
        exact hne d hd (hc.trans hdid.symm)
      rw [hnone] at hrest
      simp only [hc, decide_true]
      have hfirst := acts_deliver hb hs (hid.trans hc) c.2
      rw [hm c List.mem_cons_self] at hfirst
      cases hrest with
      | same hrest => exact hfirst.trans_same hrest
    · -- It is for another client. The copy for this one, if any, still finds its session as it was.
      have hother : SameFor id b (b.deliver c.1 c.2) := .of_local hb hdeliver fun t ht hti => by
        obtain rfl := Option.some.inj (hs.symm.trans ht)
        exact hc (hid.symm.trans hti)
      simp only [hc, decide_false]
      refine Acts.same_trans hother ?_
      cases hfind : (copies.map (·.1)).find? (·.id = id) with
      | none => rwa [hfind] at hrest
      | some t =>
        rw [hfind] at hrest
        obtain ⟨d, hd, rfl⟩ := List.mem_map.1 (List.mem_of_find?_eq_some hfind)
        have hsession : (b.deliver c.1 c.2).session? d.1.session = b.session? d.1.session := by
          refine hdeliver.others _ fun he => ?_
          obtain ⟨t, ht, htid⟩ := hbound d (List.mem_cons_of_mem c hd)
          rw [he, hs] at ht
          obtain rfl := Option.some.inj ht
          exact hne d hd (hid.symm.trans htid)
        simp only [storeActs, hsession] at hrest ⊢
        exact hrest

theorem acts_route (hb : Sound b) (m : Message) : Acts id b (b.acts id (.route m)) (b.route m).2 := by
  obtain ⟨hlength, hcopies⟩ := split_publish b.events m true (b.exchange.targets m.topic).length
  have hfirst : ((b.exchange.targets m.topic).zip ((b.events.publish m true).2.split (b.events.publish m true).1.id
      (b.exchange.targets m.topic).length).1).map (·.1) = b.exchange.targets m.topic :=
    List.map_fst_zip (Nat.le_of_eq hlength.symm)
  have hids := targets_ids b.exchange m.topic
  rw [← hfirst, List.pairwise_map] at hids
  have hevents (t : EventTable) : SameFor id b { b with events := t } := .of_sameMail (.events b t)
  have hsound (t : EventTable) : Sound { b with events := t } := hb.of_local (Local.events (r := 0) b t)
  have hfold (t : EventTable) := acts_foldl_deliver id _ (hsound t) hids
    (fun c hc => hcopies c.2 (List.of_mem_zip hc).2)
    (fun c hc => hb.bound (mem_of_mem_targets (List.of_mem_zip hc).1))
  rw [hfirst] at hfold
  obtain ⟨t, ht⟩ : ∃ t, (b.route m).2 = ((b.exchange.targets m.topic).zip ((b.events.publish m true).2.split
      (b.events.publish m true).1.id (b.exchange.targets m.topic).length).1).foldl (fun b c => b.deliver c.1 c.2)
      { b with events := t } := ⟨_, rfl⟩
  rw [ht]
  exact Acts.same_trans (hevents t) (hfold t)

/-! ## All operations -/

theorem acts_enrol (hb : Sound b) (hu : usableName info.id = true) (hfree : b.registry.get? info.id = none) :
    Acts info.id b [.enrol b.sessions.length info] (b.enrol info).2 := by
  obtain ⟨bucket, ns, hbucket, heq⟩ := enrol_of_usable b hu
  have heffect : Effect info.id b (.enrol b.sessions.length info) (b.enrolled info bucket) :=
    ⟨hb, hfree, rfl, rfl, bucket, hbucket, rfl⟩
  rw [heq]
  exact (Acts.one heffect).trans_same (.report _ ns)

theorem acts_connect (hb : Sound b) (hu : usableName id = true) (info : Info) :
    Acts id b (b.acts id (.connect info)) (b.connect info).2 := by
  rw [connect_eq]
  unfold acts
  dsimp only
  by_cases hid : info.id = id
  · subst hid
    rw [if_pos rfl]
    cases hr : b.registry.get? info.id with
    | none => exact acts_enrol hb hu hr
    | some r =>
      dsimp only
      split
      · next hclean =>
        obtain ⟨s, hs, -⟩ := hb.registered hr
        have hsame : SameMail b ((b.report [.sessionDiscarded info.id]).update r { info with will := none }) :=
          (SameMail.report b _).trans (.update _ r _)
        have hb' := (hb.report [.sessionDiscarded info.id]).update r { info with will := none }
        have hr' : ((b.report [.sessionDiscarded info.id]).update r { info with will := none }).registry.get? info.id
            = some r := hsame.registry ▸ hr
        -- The update has made the session clean, so closing it deletes its records.
        have hdismissed := acts_dismiss hb' hr'
        have hs' := session?_update (b := b.report [.sessionDiscarded info.id]) hs { info with will := none }
        have hacts : ((b.report [.sessionDiscarded info.id]).update r { info with will := none }).dismissActs r
            = [.job r (.close true), .free] := by
          rw [dismissActs, hs']
          simp only [hclean]
        rw [hacts] at hdismissed
        have hfresh := acts_enrol (hb'.dismiss hr') hu (get?_registry_dismiss _ _ _)
        rw [length_sessions_dismiss, hsame.length_sessions] at hfresh
        exact Acts.same_trans (.of_sameMail hsame) (hdismissed.append hfresh)
      · exact .same (.of_sameMail ((SameMail.report b _).trans (.update _ r info)))
  · rw [if_neg hid]
    cases hr : b.registry.get? info.id with
    | none => exact .same (.enrol hid)
    | some r =>
      dsimp only
      have hb' := (hb.report [.sessionDiscarded info.id]).update r { info with will := none }
      have hsame : SameMail b ((b.report [.sessionDiscarded info.id]).update r { info with will := none }) :=
        (SameMail.report b _).trans (.update _ r _)
      split
      · refine .same (((SameFor.of_sameMail hsame).trans (.dismiss hb' ?_ hid)).trans (.enrol hid))
        rw [hsame.registry]
        exact hr
      · exact .same (.of_sameMail ((SameMail.report b _).trans (.update _ r info)))

theorem acts_disconnect (hb : Sound b) (id' : String) : Acts id b (b.acts id (.disconnect id')) (b.disconnect id') := by
  unfold acts disconnect
  dsimp only
  by_cases hid : id' = id
  · subst hid
    rw [if_pos rfl]
    cases hr : b.registry.get? id' with
    | none => exact .same (.refl id' b)
    | some r =>
      dsimp only
      split
      · exact Acts.same_trans (.report _ _) (acts_dismiss (hb.report _) hr)
      · obtain ⟨s, hs, hid⟩ := hb.registered hr
        exact .one ⟨hb, ⟨s, hs, hid⟩, requeue_spec hs⟩
  · rw [if_neg hid]
    cases hr : b.registry.get? id' with
    | none => exact .same (.refl id b)
    | some r =>
      obtain ⟨s, hs, rfl⟩ := hb.registered hr
      dsimp only
      split
      · exact .same ((SameFor.report _ _).trans (.dismiss (hb.report _) hr hid))
      · refine .same (.of_local hb (.requeue b r) fun t ht => ?_)
        rwa [Option.some.inj (ht.symm.trans hs)]

/-- A client that comes back to its session, or another client that comes. -/
theorem SameFor.connect (hb : Sound b) (hu : usableName id = true) (hr : b.registry.get? id = some r)
    (hclean : info.id = id → info.clean = false) : SameFor id b (b.connect info).2 := by
  have hacts := acts_connect hb hu info
  unfold acts at hacts
  dsimp only at hacts
  by_cases hid : info.id = id
  · rw [if_pos hid, hr] at hacts
    dsimp only at hacts
    rw [if_neg (by rw [hclean hid]; exact Bool.false_ne_true)] at hacts
    cases hacts with
    | same hsame => exact hsame
  · rw [if_neg hid] at hacts
    cases hacts with
    | same hsame => exact hsame

theorem SameFor.disconnect (hb : Sound b) (h : id' ≠ id) : SameFor id b (b.disconnect id') := by
  have hacts : Acts id b (b.acts id (.disconnect id')) (b.disconnect id') := acts_disconnect hb id'
  unfold acts at hacts
  dsimp only at hacts
  rw [if_neg h] at hacts
  cases hacts with
  | same hsame => exact hsame

/-- A call on a session of another client. -/
theorem SameFor.perform (hb : Sound b) (c : Call) (h : ∀ s, b.session? r = some s → s.info.id ≠ id) :
    SameFor id b (b.perform r c) := by
  cases hs : b.session? r with
  | none => exact .of_sameMail (perform_absent hs c)
  | some s =>
    obtain ⟨hdone, hidle⟩ := perform_spec hs c
    cases hj : s.job? c with
    | none => exact .of_sameMail (hidle hj)
    | some j => exact .of_local hb (hdone j hj).frame h

theorem acts_perform (hb : Sound b) (r : SessionRef) (c : Call) : Acts id b (b.acts id (.call r c)) (b.perform r c) := by
  unfold acts
  dsimp only
  cases hs : b.session? r with
  | none => exact .same (.of_sameMail (perform_absent hs c))
  | some s =>
    dsimp only
    split
    · next hid =>
      obtain ⟨hdone, hidle⟩ := perform_spec hs c
      cases hj : s.job? c with
      | none => exact .same (.of_sameMail (hidle hj))
      | some j => exact .one ⟨hb, ⟨s, hs, hid⟩, hdone j hj⟩
    · next hid => exact .same (.perform hb c fun t ht => by rwa [Option.some.inj (ht.symm.trans hs)])

theorem dismissActs_dismiss (b : Broker) (id : String) (r r' : SessionRef) :
    (b.dismiss id r).dismissActs r' = b.dismissActs r' := by
  have hclose := (Local.closeSession (b.unbindAll r) r).interest.interest r'
  rw [session?_unbindAll] at hclose
  have hsession : (b.dismiss id r).session? r' = ((b.unbindAll r).closeSession r).session? r' := rfl
  unfold dismissActs
  rw [hsession]
  cases hs : b.session? r' with
  | none =>
    rw [hs] at hclose
    rw [Option.map_eq_none_iff.1 hclose]
  | some s =>
    rw [hs] at hclose
    obtain ⟨s', hs', heq⟩ := Option.map_eq_some_iff.1 hclose
    have hinfo : s'.info = s.info := congrArg Interest.info heq
    rw [hs']
    simp only [hinfo]

theorem acts_dismissAll (es : List (String × SessionRef)) (hb : Sound b)
    (hes : ∀ e ∈ es, b.registry.get? e.1 = some e.2) (hids : es.Pairwise (fun e f => e.1 ≠ f.1)) :
    Acts id b (match es.lookup id with
      | none => []
      | some r => b.dismissActs r) (es.foldl (fun b e => b.dismiss e.1 e.2) b) := by
  induction es generalizing b with
  | nil => exact .same (.refl id b)
  | cons e es ih =>
    obtain ⟨hne, hids⟩ := List.pairwise_cons.1 hids
    have hr := hes e List.mem_cons_self
    have hes' : ∀ f ∈ es, (b.dismiss e.1 e.2).registry.get? f.1 = some f.2 := by
      intro f hf
      rw [registry_dismiss, OrderedMap.get?_erase, if_neg (Ne.symm (hne f hf))]
      exact hes f (List.mem_cons_of_mem e hf)
    -- Other ids keep their sessions, and each session what is known of it.
    have hrest := ih (hb.dismiss hr) hes' hids
    rw [List.foldl_cons, OrderedMap.lookup_cons_if]
    by_cases hid : id = e.1
    · subst hid
      have hnone : es.lookup e.1 = none := List.lookup_eq_none_iff.2 fun f hf => by simpa using hne f hf
      rw [hnone] at hrest
      rw [if_pos rfl]
      cases hrest with
      | same hrest => exact (acts_dismiss hb hr).trans_same hrest
    · have hother : SameFor id b (b.dismiss e.1 e.2) := .dismiss hb hr (Ne.symm hid)
      rw [if_neg hid]
      refine Acts.same_trans hother ?_
      cases hfind : es.lookup id with
      | none => rwa [hfind] at hrest
      | some r =>
        rw [hfind] at hrest
        dsimp only at hrest
        rwa [dismissActs_dismiss] at hrest

theorem acts_close (hb : Sound b) : Acts id b (b.acts id .close) b.close := by
  refine (acts_dismissAll b.registry.entries hb (fun e he => OrderedMap.get?_eq_some_iff.2 he) ?_).trans_same
    (.report _ _)
  exact b.registry.ascending.imp fun hlt he => absurd (he ▸ hlt) (KeyOrder.irrefl _)

/-- Every operation means its acts to each client and nothing else. -/
theorem acts_step (hb : Sound b) (hu : usableName id = true) {op : Op}
    (hop : ∀ settings orderly, op ≠ .reopen settings orderly) :
    Acts id b (b.acts id op) (b.step op) := by
  cases op with
  | connect info => exact acts_connect hb hu info
  | disconnect id' => exact acts_disconnect hb id'
  | route m => exact acts_route hb m
  | call r c => exact acts_perform hb r c
  | close => exact acts_close hb
  | reopen settings orderly => exact absurd rfl (hop settings orderly)

end Broker

end PubSub
