import PubSub.Queue.BestEffort
import PubSub.Proofs.Events
import PubSub.Proofs.Frame
/-!
# The best-effort queue as a line

Over any calls the queue answers as a plain line of events does (`BestEffortQueue.Line`), and of the
events it was given it has completed just those it took and has no more, each once
(`served_as_line`). The broker's pushing, handing out and closing are such calls (`pushBestEffort_serve`,
`nextBestEffort_serve`, `closeSession_serve`).
-/

namespace PubSub

/-! ## Events to be completed each on its own -/

namespace EventTable

variable {t : EventTable}

/-- Events that are known, not complete, and have no part in each other, so that each is completed on
its own. -/
structure Independent (t : EventTable) (es : List Event) : Prop where
  distinct : (es.map (·.id)).Nodup
  incomplete : ∀ e ∈ es, ∃ c, t.completion? e.id = some c ∧ c.completed = false
  unrelated : ∀ e ∈ es, ∀ d ∈ es, d.id ∉ e.id.sources

theorem Independent.eq_of_id {es : List Event} (h : t.Independent es) {d e : Event} (hd : d ∈ es) (he : e ∈ es)
    (hid : d.id = e.id) : d = e := List.inj_on_of_nodup_map h.distinct hd he hid

end EventTable

namespace BestEffortQueue

/-! ## Calls -/

inductive Ask where
  | push (e : Event)
  | pop
  | close (clean : Bool)
  deriving DecidableEq

inductive Answer where
  | pushed (result : Except QueueError Unit)
  | popped (delivery : Option Delivery)
  | closed
  deriving DecidableEq

/-- A call on the queue, which completes the events it is done with. -/
def serve (q : BestEffortQueue) (t : EventTable) : Ask → Answer × BestEffortQueue × EventTable
  | .push e =>
    match q.push e with
    | .error err => (.pushed (.error err), q, t)
    | .ok (outcome, q) => (.pushed (.ok ()), q, if outcome = .dropped then t.release e.id else t)
  | .pop =>
    match q.pop with
    | (none, q) => (.popped none, q, t)
    | (some (e, d), q) => (.popped (some d), q, t.release e.id)
  | .close _ => (.closed, q.close.2, t.releaseAll q.close.1)

/-- Calls one after the other, with their answers. -/
def serveAll (q : BestEffortQueue) (t : EventTable) : List Ask → List Answer × BestEffortQueue × EventTable
  | [] => ([], q, t)
  | a :: asks =>
    let (answer, q, t) := q.serve t a
    let (answers, q, t) := serveAll q t asks
    (answer :: answers, q, t)

def Ask.event? : Ask → Option Event
  | .push e => some e
  | _ => none

/-- The event that a call has handed over, if it was not refused. -/
def accepted? : Ask × Answer → Option Event
  | (.push e, .pushed (.ok ())) => some e
  | _ => none

/-- The events that calls were given, and those of them that the answers say were taken. -/
def pushed (asks : List Ask) : List Event := asks.filterMap Ask.event?

def accepted (asks : List Ask) (answers : List Answer) : List Event := (asks.zip answers).filterMap accepted?

/-! ## The line -/

/-- A line of events: who stands in it, how many have left it at its head, and whether it is shut. -/
structure Line where
  events : List Event := []
  passed : Nat := 0
  shut : Bool := false

/-- The same calls on a line with room for so many. -/
def Line.serve (name : String) (room : Nat) (l : Line) : Ask → Answer × Line
  | .push e =>
    if l.shut then (.pushed (.error (.closed name)), l)
    else (.pushed (.ok ()), { l with events := if l.events.length < room then l.events ++ [e] else l.events })
  | .pop =>
    match l.events with
    | [] => (.popped none, l)
    | e :: rest => (.popped (some ⟨.ofNat (l.passed + 1), e.message⟩), { l with events := rest, passed := l.passed + 1 })
  | .close _ => (.closed, { l with events := [], shut := true })

def Line.serveAll (name : String) (room : Nat) (l : Line) : List Ask → List Answer × Line
  | [] => ([], l)
  | a :: asks =>
    let (answer, l) := l.serve name room a
    let (answers, l) := serveAll name room l asks
    (answer :: answers, l)

/-- The events that are done with after a call: one for which there is no room, the one that leaves at
the head, or all of them. -/
def Line.gone (room : Nat) (l : Line) : Ask → List Event
  | .push e => if l.shut ∨ l.events.length < room then [] else [e]
  | .pop => l.events.head?.toList
  | .close _ => l.events

def Line.goneAll (name : String) (room : Nat) : Line → List Ask → List Event
  | _, [] => []
  | l, a :: asks => l.gone room a ++ goneAll name room (l.serve name room a).2 asks

/-! ## The queue is such a line -/

section
variable {q : BestEffortQueue} {l : Line} {name : String} {room : Nat}

/-- The queue stands as the line does. -/
structure Alike (name : String) (room : Nat) (q : BestEffortQueue) (l : Line) : Prop where
  name : q.name = name
  capacity : q.capacity = room
  waiting : q.waiting = l.events
  closed : q.closed = l.shut
  counter : q.counter.next = .ofNat (l.passed + 1)
  drained : l.shut = true → l.events = []

theorem Alike.new (name : String) (capacity : Nat) : Alike name (max capacity 1) (.new name capacity) {} where
  name := rfl
  capacity := rfl
  waiting := rfl
  closed := rfl
  counter := rfl
  drained := fun _ => rfl

/-- A call on both has the same answer, leaves them alike, and completes the events that are gone. -/
theorem Alike.serve (h : Alike name room q l) (t : EventTable) (a : Ask) :
    (q.serve t a).1 = (l.serve name room a).1 ∧ Alike name room (q.serve t a).2.1 (l.serve name room a).2 ∧
      (q.serve t a).2.2 = t.releaseAll (l.gone room a) := by
  obtain ⟨hname, hcapacity, hwaiting, hclosed, hcounter, hdrained⟩ := h
  cases a with
  | push e =>
    simp only [BestEffortQueue.serve, Line.serve, Line.gone, BestEffortQueue.push, hclosed, hwaiting, hcapacity, hname]
    by_cases hshut : l.shut = true
    · simp only [hshut, if_true, true_or]
      exact ⟨trivial, ⟨hname, hcapacity, hwaiting, hclosed, hcounter, hdrained⟩, rfl⟩
    · have hopen : l.shut = false := Bool.eq_false_iff.2 hshut
      by_cases hroom : l.events.length < room
      · simp only [hshut, hroom, if_true, if_false, or_true, Bool.false_eq_true]
        exact ⟨trivial, ⟨rfl, rfl, rfl, rfl, hcounter, fun hs => absurd hs Bool.false_ne_true⟩, rfl⟩
      · simp only [hshut, hroom, if_true, if_false, or_self, Bool.false_eq_true]
        exact ⟨trivial, ⟨hname, hcapacity, hwaiting, hclosed.trans hopen, hcounter,
          fun hs => absurd hs Bool.false_ne_true⟩, rfl⟩
  | pop =>
    simp only [BestEffortQueue.serve, Line.serve, Line.gone, BestEffortQueue.pop, hwaiting]
    cases hl : l.events with
    | nil => exact ⟨rfl, ⟨hname, hcapacity, hwaiting, hclosed, hcounter, hdrained⟩, rfl⟩
    | cons e rest =>
      have hnext : q.counter.next + 1 = .ofNat (l.passed + 1 + 1) := by
        rw [hcounter, UInt64.ofNat_add (l.passed + 1) 1]
        rfl
      refine ⟨by rw [Counter.take, hcounter], ⟨hname, hcapacity, rfl, hclosed, hnext, fun hs => ?_⟩, rfl⟩
      exact absurd (hdrained hs) (by simp [hl])
  | close clean =>
    simp only [BestEffortQueue.serve, Line.serve, Line.gone, BestEffortQueue.close, hclosed, hwaiting]
    by_cases hshut : l.shut = true
    · simp only [hshut, if_true, hdrained hshut]
      exact ⟨trivial, ⟨hname, hcapacity, hwaiting.trans (hdrained hshut), hclosed.trans hshut, hcounter, fun _ => rfl⟩,
        trivial⟩
    · simp only [hshut, if_false, Bool.false_eq_true]
      exact ⟨trivial, ⟨hname, hcapacity, rfl, rfl, hcounter, fun _ => rfl⟩, trivial⟩

theorem Alike.serveAll (h : Alike name room q l) (t : EventTable) (asks : List Ask) :
    (q.serveAll t asks).1 = (l.serveAll name room asks).1 ∧
      Alike name room (q.serveAll t asks).2.1 (l.serveAll name room asks).2 ∧
      (q.serveAll t asks).2.2 = t.releaseAll (l.goneAll name room asks) := by
  induction asks generalizing q t l with
  | nil => exact ⟨rfl, h, rfl⟩
  | cons a asks ih =>
    obtain ⟨hanswer, halike, htable⟩ := h.serve t a
    obtain ⟨hanswers, hlast, hreleased⟩ := ih halike (q.serve t a).2.2
    refine ⟨congrArg₂ List.cons hanswer hanswers, hlast, hreleased.trans ?_⟩
    rw [htable, Line.goneAll, EventTable.releaseAll, EventTable.releaseAll, EventTable.releaseAll, List.foldl_append]

namespace Line

theorem serve_bounded (h : l.events.length ≤ room) (name : String) (a : Ask) :
    (l.serve name room a).2.events.length ≤ room := by
  cases a with
  | push e =>
    rw [Line.serve]
    split
    · exact h
    · dsimp only
      split
      · next hroom => simpa using hroom
      · exact h
  | pop =>
    rw [Line.serve]
    split
    · exact h
    · next hl => exact Nat.le_of_succ_le (by simpa [hl] using h)
  | close clean => exact Nat.zero_le _

theorem serveAll_bounded (h : l.events.length ≤ room) (name : String) (asks : List Ask) :
    (l.serveAll name room asks).2.events.length ≤ room := by
  induction asks generalizing l with
  | nil => exact h
  | cons a asks ih => exact ih (serve_bounded h name a)

/-- Who stood in the line and who was taken are those who have gone and those who stand in it now. -/
theorem serve_perm (name : String) (room : Nat) (l : Line) (a : Ask) :
    (l.events ++ (accepted? (a, (l.serve name room a).1)).toList).Perm
      (l.gone room a ++ (l.serve name room a).2.events) := by
  cases a with
  | push e =>
    rw [Line.serve, gone]
    by_cases hshut : l.shut = true
    · simp [hshut, accepted?]
    · by_cases hroom : l.events.length < room
      · simp [hshut, hroom, accepted?]
      · simp only [hshut, hroom, accepted?, or_self, if_false, Bool.false_eq_true]
        exact List.perm_append_comm
  | pop =>
    rw [Line.serve, gone]
    cases hl : l.events <;> simp [accepted?, hl]
  | close clean => simp [Line.serve, gone, accepted?]

theorem serveAll_perm (name : String) (room : Nat) (l : Line) (asks : List Ask) :
    (l.events ++ accepted asks (l.serveAll name room asks).1).Perm
      (l.goneAll name room asks ++ (l.serveAll name room asks).2.events) := by
  induction asks generalizing l with
  | nil => exact .of_eq (List.append_nil _)
  | cons a asks ih =>
    have hsplit : accepted (a :: asks) (l.serveAll name room (a :: asks)).1 =
        (accepted? (a, (l.serve name room a).1)).toList ++
          accepted asks ((l.serve name room a).2.serveAll name room asks).1 := by
      rw [accepted, Line.serveAll, List.zip_cons_cons, List.filterMap_cons]
      cases accepted? (a, (l.serve name room a).1) <;> rfl
    rw [hsplit, ← List.append_assoc, goneAll, List.append_assoc (gone room l a)]
    refine ((serve_perm name room l a).append_right _).trans ?_
    rw [List.append_assoc]
    exact (ih _).append_left _

end Line

theorem accepted_sublist (asks : List Ask) (answers : List Answer) :
    (accepted asks answers).Sublist (pushed asks) := by
  induction asks generalizing answers with
  | nil => exact List.nil_sublist _
  | cons a asks ih =>
    cases answers with
    | nil => exact List.nil_sublist _
    | cons answer answers =>
      unfold accepted pushed
      rw [List.zip_cons_cons, List.filterMap_cons, List.filterMap_cons]
      have hrest := ih answers
      unfold accepted pushed at hrest
      cases a with
      | push e =>
        cases answer with
        | pushed result =>
          cases result with
          | ok _ => exact hrest.cons_cons e
          | error _ => exact hrest.cons e
        | popped delivery => exact hrest.cons e
        | closed => exact hrest.cons e
      | pop => exact hrest
      | close clean => exact hrest

namespace Line

theorem accepted_perm (name : String) (room : Nat) (asks : List Ask) :
    (accepted asks (Line.serveAll name room {} asks).1).Perm
      (goneAll name room {} asks ++ (Line.serveAll name room {} asks).2.events) := serveAll_perm name room {} asks

theorem goneAll_subset (name : String) (room : Nat) (asks : List Ask) : goneAll name room {} asks ⊆ pushed asks :=
  fun _ he => (accepted_sublist asks _).subset ((accepted_perm name room asks).mem_iff.2 (List.mem_append_left _ he))

/-- Nothing is taken twice, so what is gone is what was taken and does not wait. -/
theorem mem_goneAll_iff {asks : List Ask} (h : (pushed asks).Nodup) {e : Event} : e ∈ goneAll name room {} asks ↔
    e ∈ accepted asks (Line.serveAll name room {} asks).1 ∧ e ∉ (Line.serveAll name room {} asks).2.events := by
  have hperm := accepted_perm name room asks
  have hnodup := hperm.nodup_iff.1 (h.sublist (accepted_sublist asks _))
  have hapart : e ∈ goneAll name room {} asks → e ∉ (Line.serveAll name room {} asks).2.events :=
    fun hgone hin => (List.nodup_append.1 hnodup).2.2 e hgone e hin rfl
  rw [hperm.mem_iff, List.mem_append]
  exact ⟨fun hgone => ⟨.inl hgone, hapart hgone⟩, fun hin => hin.1.resolve_right hin.2⟩

end Line

end

/-- Over any calls the queue answers as a line with room for its capacity, one at least, and holds what
stands in the line. Each event it was given is complete just when it was taken and is not waiting, and it
was completed once; all others are as they were. -/
theorem served_as_line (name : String) (capacity : Nat) (t : EventTable) (asks : List Ask)
    (h : t.Independent (pushed asks)) :
    let line := Line.serveAll name (max capacity 1) {} asks
    let ran := (new name capacity).serveAll t asks
    ran.1 = line.1 ∧ ran.2.1.waiting = line.2.events ∧ ran.2.1.closed = line.2.shut ∧
      ran.2.1.waiting.length ≤ max capacity 1 ∧
      ∀ e ∈ pushed asks, ∃ c, t.completion? e.id = some c ∧ c.completed = false ∧ ran.2.2.completion? e.id =
        some (if e ∈ accepted asks ran.1 ∧ e ∉ ran.2.1.waiting then
          { c with completed := true, fired := if c.notifies then c.fired + 1 else c.fired } else c) := by
  intro line ran
  obtain ⟨hanswers, halike, htable⟩ := (Alike.new name capacity).serveAll t asks
  have hbound := Line.serveAll_bounded (Nat.zero_le (max capacity 1)) name asks (l := {})
  refine ⟨hanswers, halike.waiting, halike.closed, halike.waiting ▸ hbound, fun e he => ?_⟩
  obtain ⟨c, hc, hopen⟩ := h.incomplete e he
  refine ⟨c, hc, hopen, ?_⟩
  have hgiven := Line.goneAll_subset name (max capacity 1) asks
  have hgone : e.id ∈ (Line.goneAll name (max capacity 1) {} asks).map (·.id) ↔
      e ∈ accepted asks ran.1 ∧ e ∉ ran.2.1.waiting := by
    rw [hanswers, halike.waiting, ← Line.mem_goneAll_iff (h.distinct.of_map _)]
    refine ⟨fun hin => ?_, List.mem_map_of_mem⟩
    obtain ⟨d, hd, hsame⟩ := List.mem_map.1 hin
    rwa [← h.eq_of_id (hgiven hd) he hsame]
  rw [htable, EventTable.completion?_releaseAll fun d hd => h.unrelated d (hgiven hd) e he, hc]
  simp only [hgone]
  split
  · rw [Option.map_some, Completion.complete, if_neg (by rw [hopen]; exact Bool.false_ne_true)]
  · rfl

/-- There is room for one: the second event is dropped and the third waits until the queue is closed. The
fourth is refused and not complete. -/
theorem served_as_line_of_one :
    let m : Message := { topic := "t" }
    let e (n : Nat) : Event := ⟨.published n, m⟩
    let t := [0, 1, 2, 3].foldl (fun t _ => (t.publish m true).2) ({} : EventTable)
    let asks := [.push (e 0), .push (e 1), .pop, .push (e 2), .close false, .pop, .close true, .push (e 3)]
    let ran := (new "a" 0).serveAll t asks
    ran.1 = [.pushed (.ok ()), .pushed (.ok ()), .popped (some ⟨1, m⟩), .pushed (.ok ()), .closed, .popped none, .closed,
        .pushed (.error (.closed "a"))] ∧
      ∀ n < 4, (ran.2.2.completion? (.published n)).map (·.fired) = some (if n < 3 then 1 else 0) := by
  intro m e t asks ran
  have hpushed : pushed asks = [0, 1, 2, 3].map e := rfl
  have hopen : ∀ n ∈ [0, 1, 2, 3], t.completion? (.published n) = some {} := by decide
  have hindependent : t.Independent (pushed asks) := by
    rw [hpushed]
    refine ⟨by decide, fun d hd => ?_, fun d hd => ?_⟩
    · obtain ⟨n, hn, rfl⟩ := List.mem_map.1 hd
      exact ⟨{}, hopen n hn, rfl⟩
    · obtain ⟨n, -, rfl⟩ := List.mem_map.1 hd
      exact fun _ _ => List.not_mem_nil
  obtain ⟨hanswers, hwaiting, -, -, hcompleted⟩ := served_as_line "a" 0 t asks hindependent
  have htaken : accepted asks ran.1 = [0, 1, 2].map e := congrArg (accepted asks) hanswers
  refine ⟨hanswers, fun n hn => ?_⟩
  have hmem : n ∈ [0, 1, 2, 3] := by
    simp only [List.mem_cons, List.not_mem_nil, or_false]
    omega
  obtain ⟨c, hc, -, hafter⟩ := hcompleted (e n) (hpushed ▸ List.mem_map_of_mem hmem)
  obtain rfl := Option.some.inj ((hopen n hmem).symm.trans hc)
  refine (congrArg (Option.map (·.fired)) hafter).trans ?_
  rw [htaken, show ran.2.1.waiting = [] from hwaiting]
  clear hafter hc
  revert n
  decide

end BestEffortQueue

/-! ## The broker's calls -/

namespace Broker

variable {b : Broker} {r : SessionRef} {s : Session}

/-- What the broker did is what the call does with the session's queue and the events. -/
structure Serves (b : Broker) (r : SessionRef) (s : Session) (a : BestEffortQueue.Ask) (answer : BestEffortQueue.Answer)
    (b' : Broker) : Prop where
  answer : (s.bestEffort.serve b.events a).1 = answer
  queue : (b'.session? r).map (·.bestEffort) = some (s.bestEffort.serve b.events a).2.1
  events : b'.events = (s.bestEffort.serve b.events a).2.2

theorem pushBestEffort_serve (h : b.session? r = some s) (e : Event) :
    Serves b r s (.push e) (.pushed (b.pushBestEffort r s e).1) (b.pushBestEffort r s e).2 := by
  unfold pushBestEffort
  cases hpush : s.bestEffort.push e with
  | error err => refine ⟨?_, ?_, ?_⟩ <;> simp only [BestEffortQueue.serve, hpush, h, Option.map_some]
  | ok after =>
    obtain ⟨outcome, q⟩ := after
    have hset : (b.setSession r { s with bestEffort := q }).session? r = some { s with bestEffort := q } :=
      session?_setSession_self h
    cases outcome <;> refine ⟨?_, ?_, ?_⟩ <;> simp only [BestEffortQueue.serve, hpush]
    · exact congrArg (Option.map (·.bestEffort)) hset
    · rfl
    · exact congrArg (Option.map (·.bestEffort)) hset
    · rfl

theorem nextBestEffort_serve (h : b.session? r = some s) :
    Serves b r s .pop (.popped (b.nextBestEffort r).1) (b.nextBestEffort r).2 := by
  unfold nextBestEffort
  rw [h]
  dsimp only
  rcases hpop : s.bestEffort.pop with ⟨_ | ⟨e, d⟩, q⟩
  · have hsame : q = s.bestEffort := by
      unfold BestEffortQueue.pop at hpop
      split at hpop <;> cases hpop
      rfl
    refine ⟨?_, ?_, ?_⟩ <;> simp only [BestEffortQueue.serve, hpop, h, hsame, Option.map_some]
  · have hset : (b.setSession r { s with bestEffort := q }).session? r = some { s with bestEffort := q } :=
      session?_setSession_self h
    refine ⟨?_, ?_, ?_⟩ <;> simp only [BestEffortQueue.serve, hpop]
    · exact congrArg (Option.map (·.bestEffort)) hset
    · rfl

theorem events_foldl_release (b : Broker) (es : List Event) : (es.foldl release b).events = b.events.releaseAll es := by
  induction es generalizing b with
  | nil => rfl
  | cons e es ih => exact ih (b.release e)

theorem closeSession_serve (h : b.session? r = some s) :
    Serves b r s (.close s.info.clean) .closed (b.closeSession r) := by
  refine ⟨rfl, by rw [(closeSession_eq h).1]; rfl, ?_⟩
  unfold closeSession
  rw [h]
  exact events_foldl_release _ _

end Broker

end PubSub
