import PubSub.Broker.Lifecycle
/-!
# Runs of a broker

A run is a list of operations, each done in the state the ones before it led to. An operation may
be a call on any session the broker has made since it was opened, also on one that has been
replaced. A broker that is opened again starts from the stored data alone, whether it was closed
before or not.
-/

namespace PubSub

/-- What can be asked of a session. -/
inductive Call where
  | push (m : Message)
  | subscribe (subs : List Subscription) (authorize : Option Authorize)
  | unsubscribe (filters : List String)
  | update (info : Info)
  | cleanWill
  | nextBestEffort
  | nextGuaranteed
  | acknowledge (id : UInt64)
  | requeue
  | close

/-- What can be asked of a broker. -/
inductive Op where
  | connect (info : Info)
  | disconnect (id : String)
  | route (m : Message)
  | call (r : SessionRef) (c : Call)
  | close
  /-- Opens the broker anew, after it was closed or, when not `orderly`, after a crash. -/
  | reopen (settings : Settings) (orderly : Bool)

/-- A broker is opened with usable settings only. -/
def Op.Configured : Op → Prop
  | .reopen settings _ => settings.flaw = none
  | _ => True

namespace Broker

def perform (b : Broker) (r : SessionRef) : Call → Broker
  | .push m => (b.push r m).2
  | .subscribe subs authorize => (b.subscribe r subs authorize).2
  | .unsubscribe filters => b.unsubscribe r filters
  | .update info => b.update r info
  | .cleanWill => b.cleanWill r
  | .nextBestEffort => (b.nextBestEffort r).2
  | .nextGuaranteed => (b.nextGuaranteed r).2
  | .acknowledge id => b.acknowledge r id
  | .requeue => b.requeue r
  | .close => b.closeSession r

def reopen (b : Broker) (settings : Settings) (orderly : Bool) : Except BrokerError Unit × Broker :=
  let gone := (if orderly then b.close else b).abandon
  openOn settings (.database gone.store) gone.events

def step (b : Broker) : Op → Broker
  | .connect info => (b.connect info).2
  | .disconnect id => b.disconnect id
  | .route m => (b.route m).2
  | .call r c => b.perform r c
  | .close => b.close
  | .reopen settings orderly => (b.reopen settings orderly).2

/-- A broker opened where nothing is stored. -/
def start (settings : Settings) : Broker := (openOn settings (.database {}) {}).2

/-- Whether a session is the one its client id stands for. -/
def Registered (b : Broker) (r : SessionRef) : Prop := ∃ id, b.registry.get? id = some r

/-- The runs from `first` whose operations are all allowed where they are done. -/
inductive Run (allowed : Broker → Op → Prop) (first : Broker) : List Op → Broker → Prop
  | nil : Run allowed first [] first
  | step {ops : List Op} {b : Broker} {op : Op} :
      Run allowed first ops b → allowed b op → Run allowed first (ops ++ [op]) (b.step op)

variable {allowed : Broker → Op → Prop} {first b : Broker} {ops : List Op}

/-- What holds at first and is kept by every allowed operation holds after every run. -/
theorem Run.invariant (I : Broker → Prop) (h : Run allowed first ops b) (hfirst : I first)
    (hstep : ∀ b op, I b → allowed b op → I (b.step op)) : I b := by
  induction h with
  | nil => exact hfirst
  | step _ hop ih => exact hstep _ _ ih hop

/-- A run stays one where more is allowed. -/
theorem Run.mono {more : Broker → Op → Prop} (h : Run allowed first ops b) (hmore : ∀ b op, allowed b op → more b op) :
    Run more first ops b := by
  induction h with
  | nil => exact .nil
  | step _ hop ih => exact ih.step (hmore _ _ hop)

/-- What is allowed everywhere makes a run. -/
theorem Run.of_forall {ops done : List Op} (h : Run allowed first done b) (hops : ∀ b, ∀ op ∈ ops, allowed b op) :
    Run allowed first (done ++ ops) (ops.foldl Broker.step b) := by
  induction ops generalizing done b with
  | nil =>
    rw [List.append_nil]
    exact h
  | cons op ops ih =>
    have hrest := ih (h.step (hops b op List.mem_cons_self)) fun b o ho => hops b o (List.mem_cons_of_mem op ho)
    rw [List.append_assoc] at hrest
    exact hrest

/-- A run of operations that have something in common. -/
theorem Run.and_of_forall {p : Op → Prop} (h : Run allowed first ops b) (hops : ∀ op ∈ ops, p op) :
    Run (fun b op => allowed b op ∧ p op) first ops b := by
  induction h with
  | nil => exact .nil
  | step _ hop ih =>
    exact (ih fun o ho => hops o (List.mem_append_left _ ho)).step
      ⟨hop, hops _ (List.mem_append_right _ List.mem_cons_self)⟩

/-- Runs are put together. -/
theorem Run.append {later : List Op} {c : Broker} (h : Run allowed first ops b) (hlater : Run allowed b later c) :
    Run allowed first (ops ++ later) c := by
  induction hlater with
  | nil =>
    rw [List.append_nil]
    exact h
  | @step later c op _ hop ih =>
    rw [← List.append_assoc]
    exact ih.step hop

/-- A run ends where its operations lead. -/
theorem Run.foldl_eq (h : Run allowed first ops b) : ops.foldl Broker.step first = b := by
  induction h with
  | nil => rfl
  | step _ _ ih => rw [List.foldl_append, List.foldl_cons, List.foldl_nil, ih]

/-- Runs are taken apart. -/
theorem Run.split {later : List Op} (h : Run allowed first (ops ++ later) b) :
    Run allowed first ops (ops.foldl Broker.step first) ∧ Run allowed (ops.foldl Broker.step first) later b := by
  generalize hall : ops ++ later = all at h
  induction h generalizing later with
  | nil =>
    obtain ⟨rfl, rfl⟩ := List.append_eq_nil_iff.1 hall
    exact ⟨.nil, .nil⟩
  | @step done b op hrun hop ih =>
    rcases List.eq_nil_or_concat later with rfl | ⟨later, last, rfl⟩
    · rw [List.append_nil] at hall
      subst hall
      rw [(hrun.step hop).foldl_eq]
      exact ⟨hrun.step hop, .nil⟩
    · rw [List.concat_eq_append, ← List.append_assoc] at hall
      rw [List.concat_eq_append]
      obtain ⟨hdone, hlast⟩ := List.append_inj' hall rfl
      obtain rfl := List.singleton_inj.1 hlast
      exact ⟨(ih hdone).1, (ih hdone).2.step hop⟩

/-- Whether operations are allowed, each where it is done. -/
def permits (allowed : Broker → Op → Prop) [∀ b op, Decidable (allowed b op)] : Broker → List Op → Bool
  | _, [] => true
  | b, op :: ops => decide (allowed b op) && permits allowed (b.step op) ops

theorem run_of_permits [∀ b op, Decidable (allowed b op)] (h : permits allowed first ops = true) :
    Run allowed first ops (ops.foldl Broker.step first) := by
  induction ops generalizing first with
  | nil => exact .nil
  | cons op ops ih =>
    rw [permits, Bool.and_eq_true, decide_eq_true_eq] at h
    exact (Run.nil.step h.1).append (ih h.2)

/-! ## Notes taken along a run -/

/-- What is noted along some operations, each in the state in which it is done. -/
def along {α : Type} (note : Broker → α → Op → α) (first : Broker) (x : α) (ops : List Op) : α :=
  (ops.foldl (fun y op => (y.1.step op, note y.1 y.2 op)) (first, x)).2

theorem along_cons {α : Type} (note : Broker → α → Op → α) (first : Broker) (x : α) (op : Op) (ops : List Op) :
    along note first x (op :: ops) = along note (first.step op) (note first x op) ops := rfl

theorem along_append {α : Type} (note : Broker → α → Op → α) (first : Broker) (x : α) (ops later : List Op) :
    along note first x (ops ++ later) = along note (ops.foldl Broker.step first) (along note first x ops) later := by
  induction ops generalizing first x with
  | nil => rfl
  | cons op ops ih => exact ih _ _

/-- What every note leaves as it is may be put to the notes before or after. -/
theorem along_map {α : Type} {note : Broker → α → Op → α} {f : α → α}
    (hf : ∀ b y op, note b (f y) op = f (note b y op)) (first : Broker) (x : α) (ops : List Op) : along note first (f x) ops = f (along note first x ops) := by
  induction ops generalizing first x with
  | nil => rfl
  | cons op ops ih => rw [along_cons, hf, ih, along_cons]

/-- Notes taken side by side. -/
theorem along_prod {α β : Type} (note : Broker → α → Op → α) (note' : Broker → β → Op → β) (first : Broker)
    (x : α) (y : β) (ops : List Op) : along (fun b z op => (note b z.1 op, note' b z.2 op)) first (x, y) ops
      = (along note first x ops, along note' first y ops) := by
  induction ops generalizing first x y with
  | nil => rfl
  | cons op ops ih => exact ih _ _ _

theorem Run.along_step {α : Type} (h : Run allowed first ops b) (note : Broker → α → Op → α) (x : α) (op : Op) :
    along note first x (ops ++ [op]) = note b (along note first x ops) op := by
  rw [along_append, h.foldl_eq]
  rfl

end Broker

end PubSub
