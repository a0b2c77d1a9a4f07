/-
**The messages of a mailbox are executed in the order in which they were pushed.**

The execution of a mailbox is spread over activations that run on different threads, end at a
limit and may overlap in their tails.  Only the owner of `activated_` pops a mailbox or executes a
message, and it executes what it has popped before it pops again; so what has been popped is what
has been executed, and at most one message more, in the hands of the owner.  What has been popped
is in turn what has been pushed, less what is still queued.

Main definitions:

* `pushedInto`, `takenFrom`, `executedFrom` — the messages of a mailbox, in the order of the events;
* `Thread.inHand` — the message a thread has popped and not yet executed;
* `Conserved`, `Served` — the two accounts.

Main results:

* `conserved_of_exec` — what is pushed has been popped or is queued, in this order;
* `served_of_exec` — what is popped has been executed or is in the hands of the owner;
* `pushes_le_one` — no message is pushed twice;
* `executed_in_push_order` — **serial execution, first in, first out**.
-/

import ExActor.ActorSubmission

set_option relaxedAutoImplicit false
set_option autoImplicit false

namespace ExActor

/-! ### What happened to the messages of a mailbox -/

/-- The message the event pushes into mailbox `i`. -/
def Event.pushedInto (i : ℕ) : Event → Option Message
  | .pushed m j => if j = i then some m else none
  | _ => none

/-- The message the event pops from mailbox `i`. -/
def Event.takenFrom (i : ℕ) : Event → Option Message
  | .taken m j => if j = i then some m else none
  | _ => none

/-- The message of mailbox `i` the event executes. -/
def Event.executedFrom (i : ℕ) : Event → Option Message
  | .executed m j _ _ => if j = i then some m else none
  | _ => none

/-- The messages pushed into mailbox `i`, oldest first. -/
def pushedInto (i : ℕ) (log : List Event) : List Message := log.filterMap (Event.pushedInto i)

/-- The messages popped from mailbox `i`, oldest first. -/
def takenFrom (i : ℕ) (log : List Event) : List Message := log.filterMap (Event.takenFrom i)

/-- The messages of mailbox `i` that were executed, oldest first. -/
def executedFrom (i : ℕ) (log : List Event) : List Message := log.filterMap (Event.executedFrom i)

@[simp] theorem pushedInto_emit (i : ℕ) (s : ActorState) (e : Event) :
    pushedInto i (s.emit e).log = pushedInto i s.log ++ (e.pushedInto i).toList := by
  cases h : e.pushedInto i <;> simp [pushedInto, ActorState.emit, h]

@[simp] theorem takenFrom_emit (i : ℕ) (s : ActorState) (e : Event) :
    takenFrom i (s.emit e).log = takenFrom i s.log ++ (e.takenFrom i).toList := by
  cases h : e.takenFrom i <;> simp [takenFrom, ActorState.emit, h]

@[simp] theorem executedFrom_emit (i : ℕ) (s : ActorState) (e : Event) :
    executedFrom i (s.emit e).log = executedFrom i s.log ++ (e.executedFrom i).toList := by
  cases h : e.executedFrom i <;> simp [executedFrom, ActorState.emit, h]

/-! ### Pushed, popped, queued -/

/-- What is pushed into a mailbox has been popped or is queued, in this order. -/
def Conserved (s : ActorState) : Prop :=
  ∀ i, takenFrom i s.log ++ s.mailboxSet.queueAt i = pushedInto i s.log

/-- A step keeps the messages of a mailbox in order. -/
theorem Actor.Step.conserved {A : Actor} {env : Env} {s s' : ActorState} {t : Thread}
    {new : List Thread} (h : A.Step env s t s' new) (hI : Conserved s) : Conserved s' := by
  intro i
  have hi := hI i
  cases h with
  | push m j set hpush =>
      rw [pushedInto_emit, takenFrom_emit, ← hi, ActorState.emit_mailboxSet,
        MailboxSet.queueAt_push hpush]
      by_cases hj : j = i <;> simp [Event.pushedInto, Event.takenFrom, hj]
  | pop limit executed j m set hpop =>
      rw [pushedInto_emit, takenFrom_emit, ← hi, ActorState.emit_mailboxSet,
        MailboxSet.queueAt_tryPop hpop]
      by_cases hj : j = i <;> simp [Event.pushedInto, Event.takenFrom, hj]
  | _ => simpa [Event.pushedInto, Event.takenFrom] using hi

/-- **What is pushed has been popped or is queued**, in every reachable state. -/
theorem conserved_of_exec {A : Actor} {tr : List (ActorPool × ActorAction)} {p : ActorPool}
    (h : A.machine.Exec tr p) : Conserved p.shared := by
  refine Actor.invariant (I := fun p => Conserved p.shared) ?_ ?_ ?_ h
  · intro i
    simp [Actor.initial, takenFrom, pushedInto]
  · intro _ p i s t _ hI hat
    cases hat <;> exact hI
  · intro _ s s' l t r new env _ hI hstep
    exact hstep.conserved hI

/-! ### Popped, executed, in hand -/

/-- The message of mailbox `i` the thread has popped and not yet executed. -/
def Thread.inHand (i : ℕ) : Thread → List Message
  | .activation (.execute _ _ j m) => if j = i then [m] else []
  | _ => []

/-- What is popped from a mailbox has been executed or is in the hands of a thread. -/
def Served (p : ActorPool) : Prop :=
  ∀ i, takenFrom i p.shared.log
    = executedFrom i p.shared.log ++ p.threads.flatMap (Thread.inHand i)

@[simp] theorem inHand_at (i : ℕ) (c : Caller) (pc : TryActivatePc) :
    (c.at pc).inHand i = [] := by cases c <;> rfl

@[simp] theorem inHand_after (i : ℕ) (c : Caller) :
    c.after.flatMap (Thread.inHand i) = [] := by cases c <;> rfl

/-- Only the owner of the flag has a message in hand. -/
theorem inHand_of_owns (i : ℕ) (t : Thread) (h : t.owns = 0) : t.inHand i = [] := by
  rcases t with ⟨m, j, pc⟩ | ⟨k, pc⟩ | pc
  · rfl
  · rfl
  · cases pc <;> simp [Thread.owns, Thread.inHand] at h ⊢

/-- A step hands on the popped messages, those of the other threads being `hands`. -/
theorem Actor.Step.served {A : Actor} {env : Env} {s s' : ActorState} {t : Thread}
    {new : List Thread} (h : A.Step env s t s' new) {i : ℕ} {before after : List Message}
    (hexcl : t.owns = 1 → before = [] ∧ after = [])
    (hI : takenFrom i s.log = executedFrom i s.log ++ (before ++ (t.inHand i ++ after))) :
    takenFrom i s'.log
      = executedFrom i s'.log ++ (before ++ (new.flatMap (Thread.inHand i) ++ after)) := by
  cases h with
  | lose | win | dropped => simpa using hI
  | schedule =>
      rw [inHand_at] at hI
      simpa [Thread.inHand] using hI
  | count m j pc hpc =>
      rcases hpc with ⟨-, rfl⟩ | ⟨-, rfl⟩ <;>
        simpa [Thread.inHand, Event.takenFrom, Event.executedFrom] using hI
  | popNone limit executed j pc hnone hpc =>
      rcases hpc with rfl | rfl <;> simpa [Thread.inHand] using hI
  | pop limit executed j m set hpop =>
      -- nobody else has a message in hand, so this one is the last that was popped
      obtain ⟨rfl, rfl⟩ := hexcl rfl
      rw [takenFrom_emit, executedFrom_emit, hI]
      by_cases hj : j = i <;> simp [Thread.inHand, Event.takenFrom, Event.executedFrom, hj]
  | execute limit executed j m pc hpc =>
      obtain ⟨rfl, rfl⟩ := hexcl rfl
      have hnew : ([Thread.activation pc]).flatMap (Thread.inHand i) = [] := by
        rcases hpc with ⟨-, rfl⟩ | ⟨-, rfl⟩ <;> rfl
      rw [takenFrom_emit, executedFrom_emit, hI, hnew]
      by_cases hj : j = i <;> simp [Thread.inHand, Event.takenFrom, Event.executedFrom, hj]
  | _ => simpa [Thread.inHand, Event.takenFrom, Event.executedFrom] using hI

/-- **What is popped has been executed or is in the hands of the owner**, in every reachable
state. -/
theorem served_of_exec {A : Actor} {tr : List (ActorPool × ActorAction)} {p : ActorPool}
    (h : A.machine.Exec tr p) : Served p := by
  refine Actor.invariant ?_ ?_ ?_ h
  · intro i
    simp [Actor.initial, takenFrom, executedFrom]
  · intro _ p j s t _ hI hat i
    have hi := hI i
    cases hat <;> simpa [Thread.inHand] using hi
  · intro _ s s' l t r new env hex hI hstep i
    have hi := hI i
    simp only [List.flatMap_append, List.flatMap_cons, List.append_assoc] at hi ⊢
    refine hstep.served ?_ hi
    intro ht
    have hempty : ∀ u ∈ l ++ r, u.inHand i = [] := by
      intro u hu
      have howns := others_eq_zero_of_owns hex ht (w := Thread.owns) fun _ h => h
      exact inHand_of_owns i u (Pool.others_eq_zero_iff.1 howns u hu)
    exact ⟨List.flatMap_eq_nil_iff.2 fun u hu => hempty u (List.mem_append_left r hu),
      List.flatMap_eq_nil_iff.2 fun u hu => hempty u (List.mem_append_right l hu)⟩

/-- What has been executed from a mailbox is the beginning of what was pushed into it. -/
theorem executedFrom_isPrefix {A : Actor} {tr : List (ActorPool × ActorAction)} {p : ActorPool}
    (h : A.machine.Exec tr p) (i : ℕ) :
    executedFrom i p.shared.log <+: pushedInto i p.shared.log := by
  have htaken : executedFrom i p.shared.log <+: takenFrom i p.shared.log := by
    rw [served_of_exec h i]
    exact List.prefix_append _ _
  have hpushed : takenFrom i p.shared.log <+: pushedInto i p.shared.log := by
    rw [← conserved_of_exec h i]
    exact List.prefix_append _ _
  exact htaken.trans hpushed

/-! ### No message is executed twice -/

/-- The event pushes the message. -/
def Event.pushes (m : Message) : Event → ℕ
  | .pushed m' _ => if m' = m then 1 else 0
  | _ => 0

/-- The event executes the message. -/
def Event.executes (m : Message) : Event → ℕ
  | .executed m' _ _ _ => if m' = m then 1 else 0
  | _ => 0

/-- The thread is about to queue the message. -/
def Thread.pushing (m : Message) : Thread → ℕ
  | .producer m' _ .push => if m' = m then 1 else 0
  | _ => 0

/-- The thread is about to execute the message. -/
def Thread.executing (m : Message) : Thread → ℕ
  | .activation (.execute _ _ _ m') => if m' = m then 1 else 0
  | _ => 0

@[simp] theorem pushing_at (m : Message) (c : Caller) (pc : TryActivatePc) :
    (c.at pc).pushing m = 0 := by cases c <;> rfl

@[simp] theorem pushing_after (m : Message) (c : Caller) :
    (c.after.map (Thread.pushing m)).sum = 0 := by cases c <;> rfl

@[simp] theorem executing_at (m : Message) (c : Caller) (pc : TryActivatePc) :
    (c.at pc).executing m = 0 := by cases c <;> rfl

@[simp] theorem executing_after (m : Message) (c : Caller) :
    (c.after.map (Thread.executing m)).sum = 0 := by cases c <;> rfl

/-- A message is pushed by the thread that came with it. -/
theorem Actor.Step.pushes_le {A : Actor} {env : Env} {s s' : ActorState} {t : Thread}
    {new : List Thread} (h : A.Step env s t s' new) (m : Message) :
    tally (Event.pushes m) s'.log + (new.map (Thread.pushing m)).sum
      ≤ tally (Event.pushes m) s.log + t.pushing m := by
  cases h with
  | lose | win | dropped => simp
  | schedule =>
      rw [pushing_at]
      simp [Thread.pushing]
  | count m' i pc hpc =>
      rcases hpc with ⟨-, rfl⟩ | ⟨-, rfl⟩ <;> simp [Thread.pushing, Event.pushes]
  | _ => simp [Thread.pushing, Event.pushes]

theorem submitted_pushing (p : ActorPool) (m i : ℕ) :
    (Thread.producer p.shared.submitted i .push).pushing m
      = if p.shared.submitted = m then 1 else 0 := rfl

/-- No message is pushed twice, in whatever mailbox. -/
theorem pushes_le_one {A : Actor} {tr : List (ActorPool × ActorAction)} {p : ActorPool}
    (h : A.machine.Exec tr p) (m : ℕ) : tally (Event.pushes m) p.shared.log ≤ 1 := by
  have hinv : tally (Event.pushes m) p.shared.log + p.total (Thread.pushing m)
      ≤ flag (decide (m < p.shared.submitted)) := by
    refine Actor.invariant (I := fun p => tally (Event.pushes m) p.shared.log
      + p.total (Thread.pushing m) ≤ flag (decide (m < p.shared.submitted))) ?_ ?_ ?_ h
    · simp [Actor.initial]
    · intro _ p i s t _ hI hat
      rw [Pool.total_arrive _ p]
      cases hat with
      | pushMessage i hroom =>
          -- the number of the new message has not been given before
          rw [submitted_pushing]
          simp only [flag, decide_eq_true_eq] at hI ⊢
          split_ifs at hI ⊢ <;> omega
      | asyncDestroy => simpa [Thread.pushing] using hI
    · intro _ s s' l t r new env _ hI hstep
      have hle := hstep.pushes_le m
      have hsub := hstep.submitted_eq
      rw [Pool.total_before] at hI
      rw [Pool.total_after]
      simp only [hsub] at hI ⊢
      omega
  have hflag := flag_le_one (decide (m < p.shared.submitted))
  omega

/-- A message that was pushed is queued, about to be executed, or executed. -/
theorem Actor.Step.executes_eq {A : Actor} {env : Env} {s s' : ActorState} {t : Thread}
    {new : List Thread} (h : A.Step env s t s' new) (m : Message) :
    tally (Event.executes m) s'.log + (new.map (Thread.executing m)).sum
        + s'.mailboxSet.messages.count m + tally (Event.pushes m) s.log
      = tally (Event.executes m) s.log + t.executing m + s.mailboxSet.messages.count m
        + tally (Event.pushes m) s'.log := by
  cases h with
  | push m' i set hpush =>
      have hcount := (MailboxSet.messages_push hpush).count_eq m
      rw [List.count_cons] at hcount
      simp [Thread.executing, Event.executes, Event.pushes] at hcount ⊢
      omega
  | pop limit executed i m' set hpop =>
      have hcount := (MailboxSet.messages_tryPop hpop).count_eq m
      rw [List.count_cons] at hcount
      simp [Thread.executing, Event.executes, Event.pushes] at hcount ⊢
      omega
  | lose | win | dropped => simp
  | schedule =>
      rw [executing_at]
      simp [Thread.executing]
  | count m' i pc hpc =>
      rcases hpc with ⟨-, rfl⟩ | ⟨-, rfl⟩ <;>
        simp [Thread.executing, Event.executes, Event.pushes]
  | popNone limit executed i pc hnone hpc =>
      rcases hpc with rfl | rfl <;> simp [Thread.executing]
  | execute limit executed i m' pc hpc =>
      rcases hpc with ⟨-, rfl⟩ | ⟨-, rfl⟩ <;>
        simp [Thread.executing, Event.executes, Event.pushes]
  | _ => simp [Thread.executing, Event.executes, Event.pushes]

/-- No message is executed twice, from whatever mailboxes. -/
theorem executes_le_one {A : Actor} {tr : List (ActorPool × ActorAction)} {p : ActorPool}
    (h : A.machine.Exec tr p) (m : Message) : tally (Event.executes m) p.shared.log ≤ 1 := by
  have hinv : tally (Event.executes m) p.shared.log + p.total (Thread.executing m)
      + p.shared.mailboxSet.messages.count m = tally (Event.pushes m) p.shared.log := by
    refine Actor.invariant (I := fun p => tally (Event.executes m) p.shared.log
      + p.total (Thread.executing m) + p.shared.mailboxSet.messages.count m
        = tally (Event.pushes m) p.shared.log) ?_ ?_ ?_ h
    · simp [Actor.initial]
    · intro _ p i s t _ hI hat
      rw [Pool.total_arrive _ p]
      cases hat <;> simpa [Thread.executing] using hI
    · intro _ s s' l t r new env _ hI hstep
      have heq := hstep.executes_eq m
      rw [Pool.total_before] at hI
      rw [Pool.total_after]
      simp only at hI ⊢
      omega
  have hpushed := pushes_le_one h m
  omega

/-! ### Serial execution -/

/-- **Serial execution, first in, first out.**  In every run, the messages executed from a mailbox
are the beginning of the messages pushed into it, and no message is executed twice. -/
theorem executed_in_push_order {A : Actor} {tr : List (ActorPool × ActorAction)} {p : ActorPool}
    (h : A.machine.Exec tr p) :
    (∀ i, executedFrom i p.shared.log <+: pushedInto i p.shared.log) ∧
      ∀ m, tally (Event.executes m) p.shared.log ≤ 1 :=
  ⟨executedFrom_isPrefix h, executes_le_one h⟩

/-- An actor with two mailboxes whose activations execute one message each. -/
def Actor.twoMailboxes : Actor :=
  ⟨{ ActorConfig.default with
      maxMessageExecutedPerActivation := 1
      mailboxConfigs := [.unboundedMailbox, .boundedMailbox 2] }, false⟩

/-- A message for the first mailbox arrives after two for the second and is executed first; each
activation executes one message, and the third one is still queued. -/
theorem executed_in_push_order_two :
    ∃ tr p, Actor.twoMailboxes.machine.Exec tr p ∧
      pushedInto 0 p.shared.log = [2] ∧ pushedInto 1 p.shared.log = [0, 1] ∧
      executedFrom 0 p.shared.log = [2] ∧ executedFrom 1 p.shared.log = [0] ∧
      (∀ i, executedFrom i p.shared.log <+: pushedInto i p.shared.log) ∧
        ∀ m, tally (Event.executes m) p.shared.log ≤ 1 := by
  let L : List ActorAction := [.arrive (.pushMessage 1), .arrive (.pushMessage 1)]
    ++ threadSteps 0 4 Env.calm ++ threadSteps 1 3 Env.calm ++ [.arrive (.pushMessage 0)]
    ++ threadSteps 1 3 Env.calm ++ threadSteps 0 20 Env.calm
  obtain ⟨p, hex, hp⟩ := Machine.exists_exec_of_replay (Actor.machine_init Actor.twoMailboxes) L
    (fun p => (pushedInto 0 p.shared.log, pushedInto 1 p.shared.log,
      executedFrom 0 p.shared.log, executedFrom 1 p.shared.log)) ([2], [0, 1], [2], [0]) (by decide)
  simp only [Prod.mk.injEq] at hp
  exact ⟨_, p, hex, hp.1, hp.2.1, hp.2.2.1, hp.2.2.2, executed_in_push_order hex⟩

end ExActor
