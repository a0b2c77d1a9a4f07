/-
**The limit of an activation, and the operations that wait for it.**

An activation executes no more messages than `max_message_executed_per_activation`, so that other
actors get their turn.  An actor with messages left activates itself again at the end, and on the
worker of a pool the new operation goes into the slot, which the worker empties before it returns to
the queue.  What waits in the queue is then overtaken, and overtaken again for as long as the actor
has messages.  The other way to be overtaken is the order of the queue, which is kept for each
thread that pushes, and not between threads.

Every time an actor overtakes an operation that waits it gains one activation; without that it has
at most the one that it had when the operation was put into the queue.

Main definitions:

* `Thread.budget`, `messagesExecuted`, `allowance` — what an activation may still execute, what an
  actor has executed, and both together;
* `WorkSharingThreadPool.Waiting` — the operation of an actor waits in the queue;
* `WorkSharingThreadPool.overtakes` — a step puts one actor before another that waits.

Main results:

* `withinLimit_of_exec` — no activation passes its limit;
* `WorkSharingThreadPool.Waiting.executed_le` — how much an actor executes while another waits;
* `WorkSharingThreadPool.waiting_bounded` — at most two limits, when the other is overtaken at most
  once.
-/

import ExActor.WorkSharingThreadPool
import Mathlib.Algebra.BigOperators.Ring.List

set_option relaxedAutoImplicit false
set_option autoImplicit false

namespace ExActor

/-! ### The limit of an activation -/

/-- How many messages the activation may still execute, when the limit of its actor is `L`. -/
def Thread.budget (L : ℕ) : Thread → ℕ
  | .activation .entry => L
  | .activation .loadPendingToBeDestroyed => L
  | .activation .loadLimit => L
  | .activation (.tryPop _ executed _) => L - executed
  | .activation (.execute _ executed _ _) => L - executed
  | _ => 0

/-- The activation is below the limit and may execute one more message. -/
def Thread.WithinLimit (L : ℕ) : Thread → Prop
  | .activation (.tryPop limit executed _) => limit ≤ L ∧ executed < L
  | .activation (.execute limit executed _ _) => limit ≤ L ∧ executed < L
  | _ => True

/-- One for a message that was executed. -/
def Event.execution : Event → ℕ
  | .executed .. => 1
  | _ => 0

/-- How many messages the actor has executed. -/
def messagesExecuted (p : ActorPool) : ℕ := tally Event.execution p.shared.log

/-- What the actor has executed, and what its activations may still execute. -/
def allowance (L : ℕ) (p : ActorPool) : ℕ := messagesExecuted p + p.total (Thread.budget L)

theorem withinLimit_at (L : ℕ) (c : Caller) (pc : TryActivatePc) : (c.at pc).WithinLimit L := by
  cases c <;> trivial

theorem withinLimit_after (L : ℕ) (c : Caller) : ∀ u ∈ c.after, u.WithinLimit L := by
  cases c <;> simp [Caller.after, Thread.WithinLimit]

@[simp] theorem budget_at (L : ℕ) (c : Caller) (pc : TryActivatePc) : (c.at pc).budget L = 0 := by
  cases c <;> rfl

@[simp] theorem budget_after (L : ℕ) (c : Caller) :
    (c.after.map (Thread.budget L)).sum = 0 := by cases c <;> rfl

section Limit

variable {A : Actor} {env : Env} {s s' : ActorState} {t : Thread} {new : List Thread}

/-- A step keeps every activation within the limit. -/
theorem Actor.Step.withinLimit (h : A.Step env s t s' new)
    (hL : 0 < A.config.maxMessageExecutedPerActivation)
    (ht : t.WithinLimit A.config.maxMessageExecutedPerActivation) :
    ∀ u ∈ new, u.WithinLimit A.config.maxMessageExecutedPerActivation := by
  cases h with
  | lose c hact => exact withinLimit_after _ c
  | win c hact => simpa using withinLimit_at _ c .schedule
  | dropped c hok hj => exact withinLimit_after _ c
  | schedule c sc hok hj hst hn =>
      intro u hu
      rcases List.mem_append.1 hu with hu | hu
      · exact withinLimit_after _ c u hu
      · obtain rfl := List.mem_singleton.1 hu
        trivial
  | count m i pc hpc =>
      rcases hpc with ⟨-, rfl⟩ | ⟨-, rfl⟩ <;> simp [Thread.WithinLimit]
  | loadLimit => simpa [Thread.WithinLimit] using hL
  | popNone limit executed i pc hnone hpc =>
      rcases hpc with rfl | rfl
      · simpa [Thread.WithinLimit] using ht
      · simp [Thread.WithinLimit]
  | pop limit executed i m set hpop => simpa [Thread.WithinLimit] using ht
  | execute limit executed i m pc hpc =>
      rcases hpc with ⟨-, rfl⟩ | ⟨hlt, rfl⟩
      · simp [Thread.WithinLimit]
      · simpa [Thread.WithinLimit] using ⟨ht.1, hlt.trans_le ht.1⟩
  | _ => simp [Thread.WithinLimit]

/-- **No activation passes its limit**, in every reachable state. -/
theorem withinLimit_of_exec (hL : 0 < A.config.maxMessageExecutedPerActivation)
    {tr : List (ActorPool × ActorAction)} {p : ActorPool} (h : A.machine.Exec tr p) :
    ∀ t ∈ p.threads, t.WithinLimit A.config.maxMessageExecutedPerActivation := by
  refine Actor.invariant (I := fun p => ∀ t ∈ p.threads,
    t.WithinLimit A.config.maxMessageExecutedPerActivation) ?_ ?_ ?_ h
  · simp
  · intro _ p i s t _ hI hat
    exact Pool.forall_arrive hI (fun _ hu => hu) (by cases hat <;> trivial)
  · intro _ s s' l t r new env _ hI hstep
    have ht := hI t (by simp)
    exact Pool.forall_after hI (fun _ hu => hu) (hstep.withinLimit hL ht)

/-- A step takes what it executes from the budget, which only the start of an activation fills. -/
theorem Actor.Step.executed_add_budget_le (h : A.Step env s t s' new) {L : ℕ}
    (ht : t.WithinLimit L) :
    tally Event.execution s'.log + (new.map (Thread.budget L)).sum
      ≤ tally Event.execution s.log + (t.budget L + L * t.waits) := by
  cases h with
  | lose c hact => simp
  | win c hact => simp
  | dropped c hok hj => simp
  | schedule c sc hok hj hst hn => simp [Thread.budget]
  | start => simp [Thread.budget, Thread.waits]
  | count m i pc hpc =>
      rcases hpc with ⟨-, rfl⟩ | ⟨-, rfl⟩ <;>
        simp [Thread.budget, Thread.waits, Event.execution]
  | popNone limit executed i pc hnone hpc =>
      rcases hpc with rfl | rfl <;> simp [Thread.budget, Thread.waits]
  | execute limit executed i m pc hpc =>
      obtain ⟨-, hlt⟩ := ht
      rcases hpc with ⟨-, rfl⟩ | ⟨-, rfl⟩ <;>
        simp [Thread.budget, Thread.waits, Event.execution] <;> omega
  | _ => simp [Thread.budget, Thread.waits, Event.execution]

/-- A step adds to the allowance only at the start of an activation. -/
theorem Actor.Step.allowance_le {p : ActorPool} {l r : List Thread}
    (h : A.Step env p.shared t s' new) (hthreads : p.threads = l ++ t :: r) {L : ℕ}
    (ht : t.WithinLimit L) :
    allowance L ⟨s', l ++ new ++ r⟩ ≤ allowance L p + L * t.waits := by
  have hbudget := h.executed_add_budget_le ht
  rw [allowance, allowance, Pool.total_after, Pool.total_of_threads hthreads]
  simp only [messagesExecuted]
  omega

/-- An arrival does not change the allowance. -/
theorem allowance_arrive {p : ActorPool} {i : Arrival} (h : ArrivedAs p i s' t) (L : ℕ) :
    allowance L ⟨s', p.threads ++ [t]⟩ = allowance L p := by
  rw [allowance, Pool.total_arrive _ p]
  cases h <;> rfl

end Limit

/-- Only the owner of the flag has a budget, or will have one. -/
theorem budget_add_waits_le (L : ℕ) (t : Thread) : t.budget L + L * t.waits ≤ L * t.owns := by
  rcases t with ⟨m, i, pc⟩ | ⟨k, pc⟩ | pc
  · simp [Thread.budget, Thread.waits]
  · simp [Thread.budget, Thread.waits]
  · cases pc <;> simp [Thread.budget, Thread.waits, Thread.owns]

/-- The budgets of the activations of an actor, and of those that wait, are one limit at most. -/
theorem budget_le_of_exec {A : Actor} {tr : List (ActorPool × ActorAction)} {p : ActorPool}
    (h : A.machine.Exec tr p) (L : ℕ) :
    p.total (Thread.budget L) + L * p.total Thread.waits ≤ L := by
  have howned : p.total Thread.owns ≤ 1 :=
    (owned_of_exec h).trans (flag_le_one p.shared.activated)
  have hsum := Pool.total_le_total (p := p) fun t _ => budget_add_waits_le L t
  simp only [Pool.total, List.sum_map_add, List.sum_map_mul_left] at hsum howned ⊢
  calc _ ≤ _ := hsum
    _ ≤ L := by simpa using Nat.mul_le_mul_left L howned

/-! ### Overtaking an operation that waits -/

section Before

variable {ι : Type} [DecidableEq ι] {a b x : ι}

/-- What is pushed now is not before what is in the queue. -/
theorem takeWhile_append_of_mem {l : List ι} (h : b ∈ l) (r : List ι) :
    (l ++ r).takeWhile (· ≠ b) = l.takeWhile (· ≠ b) := by
  induction l with
  | nil => simp at h
  | cons y l ih =>
      by_cases hy : y = b
      · simp [hy]
      · have hl := ih ((List.mem_cons.1 h).resolve_left (Ne.symm hy))
        rw [List.cons_append, List.takeWhile_cons, List.takeWhile_cons, hl]

/-- What leaves the queue leaves the part before `b`, unless it overtakes `b`. -/
theorem count_takeWhile_eraseIdx {l : List ι} {i : ℕ} (hx : l[i]? = some x) (hxb : x ≠ b) :
    ((l.eraseIdx i).takeWhile (· ≠ b)).count a + (if x = a then 1 else 0)
      = (l.takeWhile (· ≠ b)).count a + if x = a ∧ b ∈ l.take i then 1 else 0 := by
  induction l generalizing i with
  | nil => simp at hx
  | cons y l ih =>
      cases i with
      | zero =>
          obtain rfl : y = x := by simpa using hx
          simp [hxb, List.count_cons]
      | succ i =>
          have hl := ih (i := i) (by simpa using hx)
          by_cases hy : y = b
          · simp [hy]
          · simp only [List.eraseIdx_cons_succ, List.take_succ_cons, List.mem_cons, Ne.symm hy,
              false_or, List.takeWhile_cons, ne_eq, hy, not_false_eq_true, decide_true, if_true,
              List.count_cons]
            simp only [ne_eq] at hl
            omega

end Before

namespace WorkSharingThreadPool

variable {ι : Type} [DecidableEq ι]

/-- How many operations of `a` the worker takes before that of `b`, which is in the queue. -/
def ahead (s : WorkSharingThreadPool ι) (a b : ι) : ℕ :=
  (if s.localSlot = some a then 1 else 0) + (s.operations.takeWhile (· ≠ b)).count a

/-- The step puts `a` before `b`, which is in the queue: an operation of `a` is put into the slot of
the worker, or is popped although it was pushed later than that of `b`. -/
def overtakes (A : ι → Actor) (a b : ι) (s : WorkSharingThreadPool ι) :
    WorkSharingAction ι → Bool
  | .arrive _ _ => false
  | .run x n env caller =>
      x = a ∧ caller = .worker ∧ s.localSlot = none ∧ (A a).spawns (s.actors a) n env
  | .execute i => s.localSlot = none ∧ s.operations[i]? = some a ∧ b ∈ s.operations.take i

/-- A run in which the operation of `b` was put into the queue, which led to the state `s₁`, and is
still there: the steps `tr` have led from `s₁` to the state `s`. -/
inductive Waiting (A : ι → Actor) (b : ι) (s₁ : WorkSharingThreadPool ι) :
    List (WorkSharingThreadPool ι × WorkSharingAction ι) → WorkSharingThreadPool ι → Prop
  | put {tr : List (WorkSharingThreadPool ι × WorkSharingAction ι)}
      {s₀ : WorkSharingThreadPool ι} {act : WorkSharingAction ι} :
      (machine A).Exec tr s₀ → next A s₀ act = some s₁ → b ∉ s₀.operations →
      b ∈ s₁.operations → Waiting A b s₁ [] s₁
  | step {tr : List (WorkSharingThreadPool ι × WorkSharingAction ι)}
      {s s' : WorkSharingThreadPool ι} {act : WorkSharingAction ι} :
      Waiting A b s₁ tr s → next A s act = some s' → b ∈ s'.operations →
      Waiting A b s₁ (tr ++ [(s, act)]) s'

variable {A : ι → Actor} {a b : ι} {s s' s₁ : WorkSharingThreadPool ι}
  {tr : List (WorkSharingThreadPool ι × WorkSharingAction ι)}

theorem Waiting.mem (h : Waiting A b s₁ tr s) : b ∈ s.operations := by
  cases h with
  | put _ _ _ hmem => exact hmem
  | step _ _ hmem => exact hmem

theorem Waiting.exec (h : Waiting A b s₁ tr s) : ∃ tr', (machine A).Exec tr' s := by
  induction h with
  | put hexec hnext _ _ => exact ⟨_, hexec.step hnext⟩
  | step _ hnext _ ih =>
      obtain ⟨tr', hexec⟩ := ih
      exact ⟨_, hexec.step hnext⟩

/-- What `a` may execute before the worker takes the operation of `b`, if it does not overtake. -/
def credit (A : ι → Actor) (a b : ι) (s : WorkSharingThreadPool ι) : ℕ :=
  (s.actors a).total (Thread.budget (A a).config.maxMessageExecutedPerActivation)
    + (A a).config.maxMessageExecutedPerActivation * s.ahead a b

/-- Where an enqueued operation goes: behind `b`, unless it overtakes `b`. -/
theorem ahead_enqueueOperation (hb : b ∈ s.operations) (caller : ThreadId) (x : ι) :
    (s.enqueueOperation caller x).ahead a b
      = s.ahead a b + if x = a ∧ caller = .worker ∧ s.localSlot = none then 1 else 0 := by
  unfold enqueueOperation
  split
  · next hslot =>
      change (if some x = some a then 1 else 0) + (s.operations.takeWhile (· ≠ b)).count a = _
      simp only [ahead, hslot, reduceCtorEq, if_false, Option.some.injEq, and_self, and_true]
      omega
  · next hslot =>
      have hops : operations { s with queue := s.queue ++ [(caller, x)] }
          = s.operations ++ [x] := by
        simp [operations]
      have hnot : ¬(x = a ∧ caller = .worker ∧ s.localSlot = none) := fun h => hslot h.2
      change (if s.localSlot = some a then 1 else 0) + ((operations _).takeWhile (· ≠ b)).count a
        = _
      rw [hops, takeWhile_append_of_mem hb, if_neg hnot]
      rfl

/-- What the worker takes was ahead of `b`, or overtakes it now. -/
theorem ahead_nextOperation {i : ℕ} {x : ι} (hop : s.nextOperation i = some (x, s'))
    (hone : s.pending b ≤ 1) (hb : b ∈ s.operations) (hb' : b ∈ s'.operations) (hab : a ≠ b) :
    s'.ahead a b + (if x = a then 1 else 0)
      = s.ahead a b + if overtakes A a b s (.execute i) then 1 else 0 := by
  have hcount := List.count_pos_iff.2 hb
  have hcount' := List.count_pos_iff.2 hb'
  have hpending := pending_nextOperation hop b
  -- what is taken is not the operation of `b`, which is the only one and stays
  have hxb : x ≠ b := by
    rintro rfl
    rw [if_pos rfl] at hpending
    simp only [pending] at hpending hone
    omega
  rcases nextOperation_cases hop with ⟨hslot, rfl⟩ | ⟨hslot, hget, rfl⟩
  · change 0 + (s.operations.takeWhile (· ≠ b)).count a + _ = _
    simp only [ahead, overtakes, hslot, Option.some.injEq, reduceCtorEq, false_and,
      decide_false, Bool.false_eq_true, if_false]
    omega
  · have hbefore := count_takeWhile_eraseIdx (a := a) hget hxb
    change (if s.localSlot = some a then 1 else 0) + ((operations _).takeWhile (· ≠ b)).count a
      + _ = _
    rw [operations_eraseIdx]
    simp only [ahead, overtakes, hslot, hget, Option.some.injEq, true_and, decide_eq_true_eq,
      reduceCtorEq, if_false]
    omega

/-- The allowance of `a` when one actor changes. -/
theorem allowance_setActor_le {x : ι} {p : ActorPool} {L k : ℕ}
    (h : a = x → allowance L p ≤ allowance L (s.actors a) + k) :
    allowance L ((s.setActor x p).actors a) ≤ allowance L (s.actors a) + k := by
  by_cases hax : a = x
  · subst hax
    rw [setActor_self]
    exact h rfl
  · rw [setActor_of_ne hax]
    exact Nat.le_add_right _ _

/-- What `a` gains in its allowance, and what it loses of the operations ahead of `b`. -/
theorem executed_add_credit_le_of (started overtaken : ℕ)
    (hallowance : allowance (A a).config.maxMessageExecutedPerActivation (s'.actors a)
      ≤ allowance (A a).config.maxMessageExecutedPerActivation (s.actors a)
        + (A a).config.maxMessageExecutedPerActivation * started)
    (hahead : s'.ahead a b + started ≤ s.ahead a b + overtaken) :
    messagesExecuted (s'.actors a) + credit A a b s'
      ≤ messagesExecuted (s.actors a) + credit A a b s
        + (A a).config.maxMessageExecutedPerActivation * overtaken := by
  have hmul := Nat.mul_le_mul_left (A a).config.maxMessageExecutedPerActivation hahead
  rw [Nat.mul_add, Nat.mul_add] at hmul
  rw [allowance, allowance] at hallowance
  rw [credit, credit]
  omega

/-- **A step takes what `a` executes from its credit**, and gives it one more activation when it
overtakes `b`. -/
theorem Step.executed_add_credit_le {act : WorkSharingAction ι} (h : Step A s act s') (hab : a ≠ b)
    (hone : s.pending b ≤ 1) (hb : b ∈ s.operations) (hb' : b ∈ s'.operations)
    (hlimit : ∀ t ∈ (s.actors a).threads,
      t.WithinLimit (A a).config.maxMessageExecutedPerActivation) :
    messagesExecuted (s'.actors a) + credit A a b s'
      ≤ messagesExecuted (s.actors a) + credit A a b s
        + (A a).config.maxMessageExecutedPerActivation
          * if overtakes A a b s act then 1 else 0 := by
  cases h with
  | arrive x i shared t hnext hat =>
      refine executed_add_credit_le_of 0 _ (allowance_setActor_le ?_) (Nat.le_add_right _ _)
      rintro rfl
      exact (allowance_arrive hat _).le
  | run x l r t shared new env caller executing hnext hthreads hwaits hstep hnew =>
      refine executed_add_credit_le_of 0 _ (allowance_setActor_le (s := s) ?_)
        (Nat.le_add_right _ _)
      rintro rfl
      have hle := hstep.allowance_le hthreads (hlimit t (by rw [hthreads]; simp))
      rwa [hwaits] at hle
  | enqueue x l r t shared new env caller hnext hthreads hwaits hstep hnew hspawns =>
      refine executed_add_credit_le_of 0 _ ?_ ?_
      · rw [enqueueOperation_actors]
        refine allowance_setActor_le ?_
        rintro rfl
        have hle := hstep.allowance_le hthreads (hlimit t (by rw [hthreads]; simp))
        rwa [hwaits] at hle
      · rw [ahead_enqueueOperation (s := s.setActor x _) hb, Nat.add_zero]
        refine Nat.add_le_add_left ?_ _
        split
        · next hover =>
            -- an operation of `a` goes into the slot: this is what `overtakes` says
            obtain ⟨rfl, rfl, hslot⟩ := hover
            rw [setActor_localSlot] at hslot
            simp [overtakes, hslot, hspawns]
        · exact Nat.zero_le _
  | execute x i s₁ l r hidle hop hnext hthreads =>
      -- what starts now was ahead of `b`, unless it overtakes `b` in the queue
      refine executed_add_credit_le_of (if x = a then 1 else 0) _ ?_
        (ahead_nextOperation hop hone hb hb' hab).le
      rw [← actors_of_nextOperation hop]
      refine allowance_setActor_le (s := s₁) ?_
      rintro rfl
      have hstart : (A a).Step .calm (s.actors a).shared (.activation .scheduled)
          (s.actors a).shared [.activation .entry] := .start
      rw [if_pos rfl, actors_of_nextOperation hop]
      exact hstart.allowance_le hthreads (hlimit _ (by rw [hthreads]; simp))

/-- What is ahead of an operation that was just put into the queue is one activation at most. -/
theorem credit_le_of_exec (h : (machine A).Exec tr s) (a b : ι) :
    credit A a b s ≤ (A a).config.maxMessageExecutedPerActivation := by
  obtain ⟨tr', hexec⟩ := exec_actor h a
  have hbudget := budget_le_of_exec hexec (A a).config.maxMessageExecutedPerActivation
  have hahead : s.ahead a b ≤ s.pending a :=
    Nat.add_le_add_left ((List.takeWhile_sublist _).count_le a) _
  have hmul := Nat.mul_le_mul_left (A a).config.maxMessageExecutedPerActivation hahead
  rw [placed_of_exec h a] at hbudget
  rw [credit]
  omega

/-- How often `a` has overtaken `b`. -/
def overtaken (A : ι → Actor) (a b : ι)
    (tr : List (WorkSharingThreadPool ι × WorkSharingAction ι)) : ℕ :=
  tr.countP fun p => overtakes A a b p.1 p.2

/-- **While the operation of `b` waits, `a` executes one limit, and one more for every time that it
overtakes `b`**, counting what it may still execute before `b`. -/
theorem Waiting.executed_le (h : Waiting A b s₁ tr s) (hab : a ≠ b)
    (hL : 0 < (A a).config.maxMessageExecutedPerActivation) :
    messagesExecuted (s.actors a) + credit A a b s
      ≤ messagesExecuted (s₁.actors a)
        + (A a).config.maxMessageExecutedPerActivation * (1 + overtaken A a b tr) := by
  induction h with
  | put hexec hnext _ _ =>
      have hcredit := credit_le_of_exec (hexec.step hnext) a b
      simpa [overtaken] using hcredit
  | @step tr s s' act hwaiting hnext hmem ih =>
      obtain ⟨tr', hexec⟩ := hwaiting.exec
      obtain ⟨tr'', hexec_a⟩ := exec_actor hexec a
      have hle := (step_of_next hnext).executed_add_credit_le hab (pending_le_one hexec b)
        hwaiting.mem hmem (withinLimit_of_exec hL hexec_a)
      have hcount : overtaken A a b (tr ++ [(s, act)])
          = overtaken A a b tr + if overtakes A a b s act then 1 else 0 := by
        simp [overtaken, List.countP_append, List.countP_singleton]
      rw [hcount, ← Nat.add_assoc, Nat.mul_add, ← Nat.add_assoc]
      exact hle.trans (Nat.add_le_add_right ih _)

/-- **While the operation of `b` waits in the queue, `a` executes at most twice its limit**, if it
overtakes `b` at most once. -/
theorem waiting_bounded (h : Waiting A b s₁ tr s) (hab : a ≠ b)
    (hL : 1 ≤ (A a).config.maxMessageExecutedPerActivation)
    (hovertaken : overtaken A a b tr ≤ 1) :
    messagesExecuted (s.actors a)
      ≤ messagesExecuted (s₁.actors a) + 2 * (A a).config.maxMessageExecutedPerActivation := by
  have hexecuted := h.executed_le hab hL
  have hmul := Nat.mul_le_mul_left (A a).config.maxMessageExecutedPerActivation
    (Nat.add_le_add_left hovertaken 1)
  omega

/-! ### Running a list of actions -/

theorem Waiting.replay (h : Waiting A b s₁ tr s) {acts : List (WorkSharingAction ι)}
    (hreplay : (machine A).replay s acts = some s')
    (hmem : ∀ p ∈ (machine A).replayTrace s acts, b ∈ p.1.operations) (hb : b ∈ s'.operations) :
    Waiting A b s₁ (tr ++ (machine A).replayTrace s acts) s' := by
  induction acts generalizing tr s with
  | nil =>
      obtain rfl : s = s' := Option.some.inj hreplay
      simpa [Machine.replayTrace] using h
  | cons act acts ih =>
      obtain ⟨t, hnext, hrest⟩ := Option.bind_eq_some_iff.1 hreplay
      have htrace : (machine A).replayTrace s (act :: acts)
          = (s, act) :: (machine A).replayTrace t acts := by
        simp [Machine.replayTrace, hnext]
      rw [htrace] at hmem ⊢
      -- the next state is either on the trace or the last one
      have ht : b ∈ t.operations := by
        cases acts with
        | nil =>
            obtain rfl : t = s' := Option.some.inj hrest
            exact hb
        | cons act' acts => exact hmem _ (List.mem_cons_of_mem _ List.mem_cons_self)
      have hwaiting := ih (h.step hnext ht) hrest fun p hp => hmem p (List.mem_cons_of_mem _ hp)
      simpa using hwaiting

/-- The states `s₁` and `s` and the steps between them, where the action `act` puts the operation of
`b` into the queue. -/
def replayWaiting (A : ι → Actor) (b : ι) (before : List (WorkSharingAction ι))
    (act : WorkSharingAction ι) (acts : List (WorkSharingAction ι)) :
    Option (WorkSharingThreadPool ι × List (WorkSharingThreadPool ι × WorkSharingAction ι)
      × WorkSharingThreadPool ι) :=
  ((machine A).replay (initial A) before).bind fun s₀ =>
    (next A s₀ act).bind fun s₁ =>
      ((machine A).replay s₁ acts).bind fun s =>
        if b ∉ s₀.operations ∧ b ∈ s₁.operations ∧ b ∈ s.operations ∧
            ∀ p ∈ (machine A).replayTrace s₁ acts, b ∈ p.1.operations then
          some (s₁, (machine A).replayTrace s₁ acts, s)
        else none

/-- A closed run, read off at one place. -/
theorem Waiting.exists_of_replay {β : Type} (before : List (WorkSharingAction ι))
    (act : WorkSharingAction ι) (acts : List (WorkSharingAction ι))
    (f : WorkSharingThreadPool ι → List (WorkSharingThreadPool ι × WorkSharingAction ι) →
      WorkSharingThreadPool ι → β) (v : β)
    (h : (replayWaiting A b before act acts).map (fun r => f r.1 r.2.1 r.2.2) = some v) :
    ∃ s₁ tr s, Waiting A b s₁ tr s ∧ f s₁ tr s = v := by
  obtain ⟨⟨s₁, tr, s⟩, hreplay, hv⟩ := Option.map_eq_some_iff.1 h
  obtain ⟨s₀, hs₀, hreplay⟩ := Option.bind_eq_some_iff.1 hreplay
  obtain ⟨s₂, hs₁, hreplay⟩ := Option.bind_eq_some_iff.1 hreplay
  obtain ⟨s₃, hs, hreplay⟩ := Option.bind_eq_some_iff.1 hreplay
  split at hreplay
  · next hmem =>
      obtain ⟨hnot, hput, hlast, htrace⟩ := hmem
      obtain ⟨rfl, rfl, rfl⟩ : s₂ = s₁ ∧ _ = tr ∧ s₃ = s := by simpa using hreplay
      have hexec := Machine.exec_of_replay (M := machine A) rfl hs₀
      exact ⟨s₂, _, s₃, (Waiting.put hexec hs₁ hnot hput).replay hs htrace hlast, hv⟩
  · simp at hreplay

end WorkSharingThreadPool

/-! ### Two actors -/

/-- The actors that share a worker. -/
inductive TwoActors
  | a
  | b
deriving DecidableEq

/-- An actor that executes one message in an activation. -/
def Actor.oneMessage : Actor :=
  ⟨{ ActorConfig.default with maxMessageExecutedPerActivation := 1 }, false⟩

namespace TwoActors

open WorkSharingThreadPool

/-- The thread takes some steps. -/
def steps (x : TwoActors) (n count : ℕ) (caller : ThreadId) :
    List (WorkSharingAction TwoActors) := List.replicate count (.run x n .calm caller)

/-- Three messages for `a`, whose activation begins, and one for `b`, up to its `Schedule`. -/
def backlog : List (WorkSharingAction TwoActors) :=
  [.arrive .a (.pushMessage 0)] ++ steps .a 0 4 (.external 0)
    ++ [.arrive .a (.pushMessage 0)] ++ steps .a 1 3 (.external 0)
    ++ [.arrive .a (.pushMessage 0)] ++ steps .a 1 3 (.external 0)
    ++ [.execute 0, .arrive .b (.pushMessage 0)] ++ steps .b 0 3 (.external 1)

/-- The activation of `a` executes a message, activates `a` again and returns, and the worker takes
what it finds in its slot. -/
def activation : List (WorkSharingAction TwoActors) := steps .a 0 11 .worker ++ [.execute 0]

end TwoActors

open WorkSharingThreadPool in
/-- The activation of `a` that `b` finds running is followed by another, through the slot. -/
theorem waiting_bounded_twice : ∃ s₁ tr s,
    Waiting (fun _ : TwoActors => Actor.oneMessage) .b s₁ tr s ∧
      messagesExecuted (s.actors .a) ≤ messagesExecuted (s₁.actors .a) + 2 ∧
      messagesExecuted (s.actors .a) = 2 := by
  obtain ⟨s₁, tr, s, h, hv⟩ := Waiting.exists_of_replay
    (A := fun _ : TwoActors => Actor.oneMessage) (b := .b) TwoActors.backlog
    (.run .b 0 .calm (.external 1)) (TwoActors.activation ++ TwoActors.steps .a 0 5 .worker)
    (fun _ tr s => (overtaken (fun _ => Actor.oneMessage) .a .b tr,
      messagesExecuted (s.actors .a))) (1, 2) (by decide)
  obtain ⟨hovertaken, hexecuted⟩ := Prod.mk.inj hv
  exact ⟨s₁, tr, s, h, waiting_bounded h (by decide) (by decide) hovertaken.le, hexecuted⟩

open WorkSharingThreadPool in
/-- **The limit does not prevent starvation.**  With three messages for `a`, all three are executed
while `b` waits. -/
theorem waiting_starved : ∃ s₁ tr s,
    Waiting (fun _ : TwoActors => Actor.oneMessage) .b s₁ tr s ∧
      messagesExecuted (s₁.actors .a)
          + 2 * Actor.oneMessage.config.maxMessageExecutedPerActivation
        < messagesExecuted (s.actors .a) := by
  obtain ⟨s₁, tr, s, h, hv⟩ := Waiting.exists_of_replay
    (A := fun _ : TwoActors => Actor.oneMessage) (b := .b) TwoActors.backlog
    (.run .b 0 .calm (.external 1))
    (TwoActors.activation ++ TwoActors.activation ++ TwoActors.steps .a 0 5 .worker)
    (fun s₁ _ s => (messagesExecuted (s₁.actors .a), messagesExecuted (s.actors .a))) (0, 3)
    (by decide)
  obtain ⟨hbefore, hafter⟩ := Prod.mk.inj hv
  refine ⟨s₁, tr, s, h, ?_⟩
  rw [hbefore, hafter]
  decide

end ExActor
