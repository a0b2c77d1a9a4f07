/-
**The destruction of an actor.**

`AsyncDestroy` sets `pending_to_be_destroyed_`, counts one message, tries to activate the actor and
waits for its scope.  The instance is reset by an activation, on the destroy branch of
`PullMailboxAndRun`, and that branch may run before, between or after the steps of `AsyncDestroy`:
the flag is visible before the message is counted.  While the destruction is pending and the
instance is still there, either somebody owns `activated_`, or an activation is about to load the
counter, which the extra message keeps from being zero, or `AsyncDestroy` itself is still on its
way to the compare-exchange.  So when the scope has been joined the instance is gone.

A push to a destroyed actor is another matter.  `PullMailboxAndRun` compares `user_class_instance_`
with null before it uses it; `ShouldActivate` does not.

Main definitions:

* `QuietAfterReset` — no message was executed after the reset;
* `DestroyedOnce` — `AsyncDestroy` is called once, after every push has returned;
* `Thread.willDestroy` — the thread will see that the destruction is pending;
* `AsksBeforeReset` — the step does not call the hook of an actor that was reset.

Main results:

* `resets_of_exec` — the instance is reset at most once, and it is null exactly after that;
* `pending_of_exec` — a pending destruction is in progress, has failed or has joined the scope;
* `willDestroy_of_exec` — a pending destruction does not get stuck;
* `destroyed_actor_reset_once` — **the destruction protocol**;
* `null_instance_iff` — **when a null instance is dereferenced**, and `hook_on_null_instance`, a run
  in which it is.
-/

import ExActor.ActorWakeup
import Mathlib.Data.List.TakeWhile

set_option relaxedAutoImplicit false
set_option autoImplicit false

namespace ExActor

/-! ### The reset -/

/-- The instance is reset at most once, and it is null exactly after that. -/
theorem resets_of_exec {A : Actor} {tr : List (ActorPool × ActorAction)} {p : ActorPool}
    (h : A.machine.Exec tr p) : p.shared.log.count .reset = flag (!p.shared.userClassInstance) := by
  refine Actor.invariant (I := fun p => p.shared.log.count .reset
    = flag (!p.shared.userClassInstance)) ?_ ?_ ?_ h
  · rfl
  · intro _ p i s t _ hI hat
    cases hat <;> exact hI
  · intro _ s s' l t r new env hex hI hstep
    cases hstep with
    | reset =>
        simpa [ActorState.emit, instance_of_needsInstance hex rfl] using hI
    | _ => simpa [ActorState.emit] using hI

/-- The event records that a message was executed. -/
def Event.isExecuted : Event → Bool
  | .executed _ _ _ _ => true
  | _ => false

/-- No message was executed after the reset. -/
def QuietAfterReset (log : List Event) : Prop :=
  ∀ e ∈ log.dropWhile (· ≠ .reset), e.isExecuted = false

theorem quietAfterReset_append {log : List Event} {e : Event} (h : QuietAfterReset log)
    (he : e.isExecuted = true → .reset ∉ log) : QuietAfterReset (log ++ [e]) := by
  intro e' he'
  rw [List.dropWhile_append] at he'
  split at he'
  · next hnone =>
      -- nothing was reset before
      by_cases hr : e = .reset
      · subst hr
        simp at he'
        subst he'
        rfl
      · simp [hr] at he'
  · next hsome =>
      rcases List.mem_append.1 he' with hold | hnew
      · exact h e' hold
      · obtain rfl := List.mem_singleton.1 hnew
        cases hex : e'.isExecuted with
        | false => rfl
        | true =>
            have hnot := he hex
            refine absurd (List.isEmpty_iff.2 (List.dropWhile_eq_nil_iff.2 fun a ha => ?_)) hsome
            rw [decide_eq_true_eq]
            rintro rfl
            exact hnot ha

/-- **No message is executed after the reset**, and none without the instance, in any run. -/
theorem quietAfterReset_of_exec {A : Actor} {tr : List (ActorPool × ActorAction)} {p : ActorPool}
    (h : A.machine.Exec tr p) : QuietAfterReset p.shared.log := by
  refine Actor.invariant (I := fun p => QuietAfterReset p.shared.log) ?_ ?_ ?_ h
  · simp [QuietAfterReset, Actor.initial]
  · intro _ p i s t _ hI hat
    cases hat <;> exact hI
  · intro _ s s' l t r new env hex hI hstep
    cases hstep with
    | execute limit executed i m pc hpc =>
        refine quietAfterReset_append hI fun _ => List.count_eq_zero.1 ?_
        simpa [instance_of_needsInstance hex rfl] using resets_of_exec hex
    | hookThrew =>
        exact quietAfterReset_append (quietAfterReset_append hI (by simp [Event.isExecuted]))
          (by simp [Event.isExecuted])
    | lose | win | dropped | schedule | setPending | countDestroy | join | start | entryAlive
    | entryNull | alreadyDestroyed | pending | notPending | storeDestroyed | subDestroyed
    | loadLimit | popNone | store | loadZero | loadPos | ret => exact hI
    | _ => exact quietAfterReset_append hI (by simp [Event.isExecuted])

/-! ### The calls of `AsyncDestroy` -/

/-- The thread is an `AsyncDestroy` that has not looked at `pending_to_be_destroyed_`. -/
def Thread.calling : Thread → ℕ
  | .destroyer _ .setPendingToBeDestroyed => 1
  | _ => 0

/-- The thread is the `AsyncDestroy` that has set `pending_to_be_destroyed_`. -/
def Thread.destroying : Thread → ℕ
  | .destroyer _ .setPendingToBeDestroyed => 0
  | .destroyer _ _ => 1
  | _ => 0

/-- `AsyncDestroy` completed. -/
def Event.destroyEnded : Event → ℕ
  | .destroyed _ => 1
  | _ => 0

/-- Where a destruction stands, with the numbers of the threads that are calling and destroying. -/
structure Destruction (s : ActorState) (calling destroying : ℕ) : Prop where
  /-- No call is lost. -/
  calls : calling + destroying + tally Event.destroyEnded s.log + tally Event.destroyFailed s.log
    = s.destroyCalls
  /-- Only the call that has set the flag goes on. -/
  unique : destroying ≤ flag s.pendingToBeDestroyed
  called : s.pendingToBeDestroyed = true → 0 < s.destroyCalls
  ended : 0 < tally Event.destroyEnded s.log + tally Event.destroyFailed s.log →
    s.pendingToBeDestroyed = true
  /-- A pending destruction is in progress, has failed, or has joined the scope. -/
  progress : s.pendingToBeDestroyed = true →
    0 < destroying + s.joined + tally Event.destroyFailed s.log
  scope : s.asyncScope.state ≠ .isOpen → s.pendingToBeDestroyed = true

/-- A call that goes on has set the flag. -/
theorem Destruction.isPending {s : ActorState} {calling destroying : ℕ}
    (h : Destruction s calling destroying) (hpos : 0 < destroying) :
    s.pendingToBeDestroyed = true := by
  by_contra hp
  have hunique := h.unique
  rw [Bool.not_eq_true] at hp
  rw [hp, flag_false] at hunique
  omega

@[simp] theorem calling_at (c : Caller) (pc : TryActivatePc) : (c.at pc).calling = 0 := by
  cases c <;> rfl

@[simp] theorem calling_after (c : Caller) : (c.after.map Thread.calling).sum = 0 := by
  cases c <;> rfl

@[simp] theorem destroying_at (c : Caller) (pc : TryActivatePc) :
    (c.at pc).destroying = (c.after.map Thread.destroying).sum := by cases c <;> rfl

/-- A step of another thread, or one that only moves on, changes nothing about a destruction. -/
theorem Destruction.same {s s' : ActorState} {c d c' d' : ℕ} (h : Destruction s c d)
    (hc : c' = c) (hd : d' = d) (hcalls : s'.destroyCalls = s.destroyCalls)
    (hpending : s'.pendingToBeDestroyed = s.pendingToBeDestroyed)
    (hended : tally Event.destroyEnded s'.log = tally Event.destroyEnded s.log)
    (hfailed : tally Event.destroyFailed s'.log = tally Event.destroyFailed s.log)
    (hjoined : s.joined ≤ s'.joined)
    (hscope : s'.asyncScope.state ≠ .isOpen → s.asyncScope.state ≠ .isOpen) :
    Destruction s' c' d' := by
  subst hc hd
  refine ⟨?_, ?_, ?_, ?_, ?_, ?_⟩
  · rw [hended, hfailed, hcalls]
    exact h.calls
  · rw [hpending]
    exact h.unique
  · rw [hpending, hcalls]
    exact h.called
  · rw [hended, hfailed, hpending]
    exact h.ended
  · rw [hpending, hfailed]
    intro hp
    have := h.progress hp
    omega
  · rw [hpending]
    exact fun hs => h.scope (hscope hs)

theorem SimpleCountingScope.open_disassociate {sc : SimpleCountingScope}
    (h : sc.disassociate.state ≠ .isOpen) : sc.state ≠ .isOpen := by
  intro ho
  simp [disassociate, ho] at h

theorem Actor.Step.destruction {A : Actor} {env : Env} {s s' : ActorState} {t : Thread}
    {new : List Thread} (h : A.Step env s t s' new) {c d : ℕ}
    (hI : Destruction s (t.calling + c) (t.destroying + d)) :
    Destruction s' ((new.map Thread.calling).sum + c) ((new.map Thread.destroying).sum + d) := by
  have hjoined := h.joined_le
  cases h with
  | lose | win | dropped =>
      refine hI.same ?_ ?_ rfl rfl rfl rfl hjoined id <;> simp
  | schedule c' sc hok hj hst hn =>
      refine hI.same ?_ ?_ rfl rfl rfl rfl hjoined (by rw [← hst]; exact id)
      · rw [calling_at]
        simp [Thread.calling]
      · rw [destroying_at]
        simp [Thread.destroying]
  | setPendingLose k hp =>
      obtain ⟨hcalls, hunique, hcalled, hended, hprogress, hscope⟩ := hI
      simp only [Thread.calling, Thread.destroying] at hcalls hunique hprogress
      refine ⟨?_, by simpa using hunique, hcalled, fun _ => hp, ?_, hscope⟩
      · simp [Event.destroyEnded, Event.destroyFailed] at hcalls ⊢
        omega
      · simpa [Event.destroyFailed] using hprogress
  | setPending k hp =>
      obtain ⟨hcalls, hunique, hcalled, hended, hprogress, hscope⟩ := hI
      simp only [Thread.calling, Thread.destroying, hp, flag_false] at hcalls hunique
      refine ⟨?_, ?_, fun _ => ?_, fun _ => rfl, fun _ => ?_, fun _ => rfl⟩
      · simp [Thread.calling, Thread.destroying]
        omega
      · simp [Thread.destroying]
        omega
      · simp only
        omega
      · simp [Thread.destroying]
  | destroyThrew k e he =>
      have hp : s.pendingToBeDestroyed = true := hI.isPending (by simp [Thread.destroying])
      obtain ⟨hcalls, hunique, hcalled, hended, hprogress, hscope⟩ := hI
      simp only [Thread.calling, Thread.destroying] at hcalls hunique
      refine ⟨?_, ?_, hcalled, fun _ => hp, fun _ => ?_, fun _ => hp⟩
      · simp [Event.destroyEnded, Event.destroyFailed] at hcalls ⊢
        omega
      · simp at hunique ⊢
        omega
      · simp [Event.destroyFailed]
  | join k =>
      have hp : s.pendingToBeDestroyed = true := hI.isPending (by simp [Thread.destroying])
      obtain ⟨hcalls, hunique, hcalled, hended, hprogress, hscope⟩ := hI
      refine ⟨hcalls, hunique, hcalled, fun _ => hp, fun _ => ?_, fun _ => hp⟩
      simp [Thread.destroying]
  | joined k hj =>
      obtain ⟨hcalls, hunique, hcalled, hended, hprogress, hscope⟩ := hI
      have hp : s.pendingToBeDestroyed = true := hscope (by simp [hj])
      simp only [Thread.calling, Thread.destroying] at hcalls hunique
      refine ⟨?_, ?_, hcalled, fun _ => hp, fun _ => ?_, fun _ => hp⟩
      · simp [Event.destroyEnded, Event.destroyFailed] at hcalls ⊢
        omega
      · simp at hunique ⊢
        omega
      · simp [ActorState.joined, hj]
  | ret => exact hI.same rfl rfl rfl rfl rfl rfl hjoined SimpleCountingScope.open_disassociate
  | count m i pc hpc =>
      rcases hpc with ⟨-, rfl⟩ | ⟨-, rfl⟩ <;>
        exact hI.same rfl rfl rfl rfl (by simp [Event.destroyEnded]) (by simp [Event.destroyFailed])
          hjoined id
  | _ =>
      refine hI.same ?_ ?_ rfl rfl ?_ ?_ hjoined id <;>
        simp [Thread.calling, Thread.destroying, Event.destroyEnded, Event.destroyFailed]

/-- **Where a destruction stands**, in every reachable state. -/
theorem destruction_of_exec {A : Actor} {tr : List (ActorPool × ActorAction)} {p : ActorPool}
    (h : A.machine.Exec tr p) :
    Destruction p.shared (p.total Thread.calling) (p.total Thread.destroying) := by
  refine Actor.invariant (I := fun p =>
    Destruction p.shared (p.total Thread.calling) (p.total Thread.destroying)) ?_ ?_ ?_ h
  · exact ⟨rfl, Nat.zero_le _, by simp [Actor.initial], by simp [Actor.initial],
      by simp [Actor.initial], by simp [Actor.initial, SimpleCountingScope.empty]⟩
  · intro _ p i s t _ hI hat
    rw [Pool.total_arrive _ p, Pool.total_arrive _ p]
    cases hat with
    | pushMessage i hroom => exact hI.same rfl rfl rfl rfl rfl rfl le_rfl id
    | asyncDestroy =>
        obtain ⟨hcalls, hunique, hcalled, hended, hprogress, hscope⟩ := hI
        refine ⟨?_, ?_, fun _ => Nat.succ_pos _, hended, ?_, hscope⟩
        · simp only [Thread.calling, Thread.destroying]
          omega
        · simpa [Thread.destroying] using hunique
        · simpa [Thread.destroying, ActorState.joined] using hprogress
  · intro _ s s' l t r new env _ hI hstep
    rw [Pool.total_before, Pool.total_before] at hI
    rw [Pool.total_after, Pool.total_after]
    exact hstep.destruction hI

/-! ### One destruction, after every push has returned -/

/-- `AsyncDestroy` is called once, when every `PushMessage` has returned, and no `PushMessage` is
called after that; a `PushMessage` does not return if its `Schedule` throws. -/
def DestroyedOnce (p : ActorPool) : ActorAction → Prop
  | .arrive (.pushMessage _) => p.shared.destroyCalls = 0
  | .arrive .asyncDestroy => p.shared.destroyCalls = 0 ∧ p.total Thread.isProducer = 0
  | .run n env => ∀ t ∈ p.threads[n]?, t.pushSchedules = 1 → env.connect = .ok ()

instance (p : ActorPool) (a : ActorAction) : Decidable (DestroyedOnce p a) :=
  match a with
  | .arrive (.pushMessage _) => inferInstanceAs (Decidable (_ = _))
  | .arrive .asyncDestroy => inferInstanceAs (Decidable (_ ∧ _))
  | .run n _ => inferInstanceAs (Decidable (∀ t ∈ p.threads[n]?, _))

/-- What the condition gives at every moment. -/
structure CalledOnce (p : ActorPool) : Prop where
  calls : p.shared.destroyCalls ≤ 1
  producers : 0 < p.shared.destroyCalls → p.total Thread.isProducer = 0
  pushes : tally Event.pushThrew p.shared.log = 0

@[simp] theorem isProducer_after (c : Caller) : (c.after.map Thread.isProducer).sum = 0 := by
  cases c <;> rfl

/-- Producers come from outside only. -/
theorem Actor.Step.isProducer_le {A : Actor} {env : Env} {s s' : ActorState} {t : Thread}
    {new : List Thread} (h : A.Step env s t s' new) :
    (new.map Thread.isProducer).sum ≤ t.isProducer := by
  cases h with
  | lose | dropped => simp
  | win c => cases c <;> simp [Caller.at, Thread.isProducer]
  | schedule => simp [Thread.isProducer]
  | _ => simp [Thread.isProducer]

theorem calledOnce_of_exec {A : Actor} {tr : List (ActorPool × ActorAction)} {p : ActorPool}
    (h : A.machine.Exec tr p) (hD : Machine.Meets DestroyedOnce tr) : CalledOnce p := by
  refine Actor.invariantWhere ?_ ?_ ?_ h hD
  · exact ⟨Nat.zero_le _, fun _ => rfl, rfl⟩
  · intro _ p i s t _ _ hI hok hat
    cases hat with
    | pushMessage i hroom =>
        have hcalls : p.shared.destroyCalls = 0 := hok
        exact ⟨hI.calls, fun hpos => absurd hcalls (Nat.pos_iff_ne_zero.1 hpos), hI.pushes⟩
    | asyncDestroy =>
        obtain ⟨hcalls, hproducers⟩ := hok
        refine ⟨by simp [hcalls], fun _ => ?_, hI.pushes⟩
        rw [Pool.total_arrive _ p, hproducers]
        rfl
  · intro _ s s' l t r new env _ _ hI hok hstep
    have hle := hstep.isProducer_le
    have hcalls := hstep.destroyCalls_eq
    have hproducers := hI.producers
    rw [Pool.total_before] at hproducers
    refine ⟨by simpa [hcalls] using hI.calls, fun hpos => ?_, ?_⟩
    · have := hproducers (by simpa [hcalls] using hpos)
      rw [Pool.total_after]
      omega
    · have hpushes : tally Event.pushThrew s.log = 0 := hI.pushes
      cases hstep with
      | pushThrew m i e he => simp [DestroyedOnce, Thread.pushSchedules, he] at hok
      | _ => simpa [Event.pushThrew] using hpushes

/-- The thread is an `AsyncDestroy` that has not begun to wait for the scope. -/
def Thread.beforeJoin : Thread → ℕ
  | .destroyer _ .awaitJoin => 0
  | .destroyer _ _ => 1
  | _ => 0

theorem beforeJoin_le (t : Thread) : t.beforeJoin ≤ t.calling + t.destroying := by
  rcases t with ⟨m, i, pc⟩ | ⟨k, pc⟩ | pc
  · simp [Thread.beforeJoin]
  · cases pc <;> simp [Thread.beforeJoin, Thread.calling, Thread.destroying]
  · simp [Thread.beforeJoin]

@[simp] theorem beforeJoin_at (c : Caller) (pc : TryActivatePc) :
    (c.at pc).beforeJoin = (c.after.map Thread.beforeJoin).sum := by cases c <;> rfl

/-- A step that keeps a thread before its join keeps the scope open. -/
theorem Actor.Step.beforeJoin {A : Actor} {env : Env} {s s' : ActorState} {t : Thread}
    {new : List Thread} (h : A.Step env s t s' new) {rest : ℕ}
    (hjoin : ∀ k, t = .destroyer k .join → rest = 0)
    (hI : 0 < t.beforeJoin + rest → s.asyncScope.state = .isOpen)
    (hpos : 0 < (new.map Thread.beforeJoin).sum + rest) : s'.asyncScope.state = .isOpen := by
  cases h with
  | lose | win | dropped => exact hI (by simpa using hpos)
  | schedule c sc hok hj hst hn =>
      rw [beforeJoin_at] at hI
      exact hst.trans (hI (by simpa [Thread.beforeJoin] using hpos))
  | join k => simp [Thread.beforeJoin, hjoin k rfl] at hpos
  | ret =>
      have hopen := hI (by simpa [Thread.beforeJoin] using hpos)
      simp [SimpleCountingScope.disassociate, hopen]
  | count m i pc hpc =>
      rcases hpc with ⟨-, rfl⟩ | ⟨-, rfl⟩ <;> exact hI (by simpa [Thread.beforeJoin] using hpos)
  | setPendingLose | setPending | countDestroy | destroyThrew =>
      exact hI (by simp [Thread.beforeJoin])
  | _ => exact hI (by simpa [Thread.beforeJoin] using hpos)

/-- Until the one `AsyncDestroy` joins the scope, it is open. -/
theorem open_of_beforeJoin {A : Actor} {tr : List (ActorPool × ActorAction)} {p : ActorPool}
    (h : A.machine.Exec tr p) (hD : Machine.Meets DestroyedOnce tr) :
    0 < p.total Thread.beforeJoin → p.shared.asyncScope.state = .isOpen := by
  refine Actor.invariantWhere (I := fun p => 0 < p.total Thread.beforeJoin →
    p.shared.asyncScope.state = .isOpen) ?_ ?_ ?_ h hD
  · exact fun _ => rfl
  · intro _ p i s t hex _ hI hok hat hpos
    rw [Pool.total_arrive _ p] at hpos
    cases hat with
    | pushMessage i hroom => exact hI hpos
    | asyncDestroy =>
        by_contra hscope
        have hdes := destruction_of_exec hex
        have hcalled := hdes.called (hdes.scope hscope)
        have hcalls : p.shared.destroyCalls = 0 := hok.1
        omega
  · intro _ s s' l t r new env hex hmeets hI _ hstep hpos
    rw [Pool.total_before] at hI
    rw [Pool.total_after] at hpos
    refine hstep.beforeJoin ?_ hI hpos
    rintro k rfl
    have hcalls := (calledOnce_of_exec hex hmeets).calls
    have hdes := (destruction_of_exec hex).calls
    have hle := Pool.others_le_others (l := l) (r := r) fun u _ => beforeJoin_le u
    rw [Pool.total_before Thread.calling, Pool.total_before Thread.destroying] at hdes
    rw [Pool.others_add] at hle
    simp only [Thread.calling, Thread.destroying] at hdes hcalls
    omega

/-! ### A pending destruction does not get stuck -/

/-- The thread will see that the destruction is pending: it is an activation that has not finished
with the counter, or the `AsyncDestroy` before its attempt to activate the actor. -/
def Thread.willDestroy : Thread → ℕ
  | .destroyer _ .fetchAdd => 1
  | .destroyer _ (.tryActivate _) => 1
  | .activation .fetchSubDestroyed => 0
  | .activation .ret => 0
  | .activation _ => 1
  | _ => 0

theorem owns_le_willDestroy (t : Thread) : t.owns ≤ t.willDestroy + t.isProducer := by
  rcases t with ⟨m, i, pc⟩ | ⟨k, pc⟩ | pc
  · cases pc with
    | tryActivate pc => cases pc <;> simp [Thread.owns, Thread.isProducer]
    | _ => simp [Thread.owns]
  · cases pc with
    | tryActivate pc => cases pc <;> simp [Thread.owns, Thread.willDestroy]
    | _ => simp [Thread.owns]
  · cases pc with
    | tryActivate pc => cases pc <;> simp [Thread.owns, Thread.willDestroy]
    | _ => simp [Thread.owns, Thread.willDestroy]

/-- Whoever owes the counter something, or is owed something, is on the way. -/
theorem credit_eq_zero {t : Thread} (hwill : t.willDestroy = 0) (hproducer : t.isProducer = 0)
    (hreset : t.afterReset = 0) : t.credit = 0 := by
  rcases t with ⟨m, i, pc⟩ | ⟨k, pc⟩ | pc
  · simp [Thread.isProducer] at hproducer
  · cases pc <;> simp_all [Thread.willDestroy, Thread.credit]
  · cases pc <;> simp_all [Thread.willDestroy, Thread.afterReset, Thread.credit]

/-- While the destruction is pending and nobody else is on the way, an activation that has cleared
the flag does not read zero. -/
theorem counter_ne_zero {A : Actor} {tr : List (ActorPool × ActorAction)} {p : ActorPool}
    (h : A.machine.Exec tr p) (hpending : p.shared.pendingToBeDestroyed = true)
    (halive : p.shared.userClassInstance = true)
    (hcredit : p.total Thread.credit = 0) : p.shared.pendingMessageCount ≠ 0 := by
  intro hzero
  have hroom := liveObjects_le h
  have hbal : balance p = p.shared.mailboxSet.queued + 1 := by
    simp [balance, ActorState.base, hpending, halive, hcredit]
  have htracks := tracks_of_exec h
  rw [hbal] at htracks
  unfold liveObjects addressSpace at hroom
  have := (htracks.eq_zero_iff (by omega) (by omega)).1 hzero
  omega

/-- A step keeps somebody on the way. -/
theorem Actor.Step.willDestroy {A : Actor} {env : Env} {s s' : ActorState} {t : Thread}
    {new : List Thread} (h : A.Step env s t s' new) {rest : ℕ} (hproducer : t.isProducer = 0)
    (hnull : t.afterReset = 0) (hscope : ∀ c pc, t = Caller.at c pc → s.asyncScope.state ≠ .joined)
    (howner : ∀ c, t = Caller.at c .cas → s.activated = true →
      0 < rest + tally Event.destroyFailed s.log)
    (hzero : t = .activation .loadPendingMessageCount → s.pendingToBeDestroyed = true →
      s.pendingMessageCount = 0 → 0 < rest + tally Event.destroyFailed s.log)
    (hI : s.pendingToBeDestroyed = true →
      0 < t.willDestroy + rest + tally Event.destroyFailed s.log)
    (halive : s'.userClassInstance = true) (hpending : s'.pendingToBeDestroyed = true) :
    0 < (new.map Thread.willDestroy).sum + rest + tally Event.destroyFailed s'.log := by
  cases h with
  | lose c hact =>
      have := howner c rfl hact
      omega
  | win c => cases c <;> simp_all [Caller.at, Thread.willDestroy, Thread.isProducer]
  | dropped c hok hj => exact absurd hj (hscope c .schedule rfl)
  | schedule => simp [Thread.willDestroy]
  | pushFull | push | count | hookThrew | approve | veto | pushThrew =>
      simp [Thread.isProducer] at hproducer
  | alreadyDestroyed | storeDestroyed | subDestroyed => simp [Thread.afterReset] at hnull
  | destroyThrew => simp [Event.destroyFailed]
  | reset => simp at halive
  | loadZero hz =>
      have := hzero rfl hpending hz
      simp [Thread.willDestroy]
      omega
  | popNone limit executed i pc hnone hpc =>
      rcases hpc with rfl | rfl <;> simp [Thread.willDestroy]
  | execute limit executed i m pc hpc =>
      rcases hpc with ⟨-, rfl⟩ | ⟨-, rfl⟩ <;> simp [Thread.willDestroy]
  | setPendingLose | join | joined | ret =>
      simpa [Thread.willDestroy, Event.destroyFailed] using hI hpending
  | _ => simp [Thread.willDestroy]

/-- While the scope is joined, no thread is in `TryActivate`. -/
theorem not_joined_of_caller {A : Actor} {tr : List (ActorPool × ActorAction)} {s : ActorState}
    {l r : List Thread} {c : Caller} {pc : TryActivatePc}
    (h : A.machine.Exec tr ⟨s, l ++ c.at pc :: r⟩) (hD : Machine.Meets DestroyedOnce tr)
    (hproducer : (c.at pc).isProducer = 0) : s.asyncScope.state ≠ .joined := by
  intro hj
  have hassoc := associations_of_exec h
  have hopen := open_of_beforeJoin h hD
  rw [Pool.total_before] at hassoc hopen
  rw [beforeJoin_at] at hopen
  simp only [s.asyncScope.drained hj] at hassoc
  cases c with
  | push m i => simp [Caller.at, Thread.isProducer] at hproducer
  | destroy k =>
      have := hopen (by simp [Caller.after, Thread.beforeJoin])
      simp [hj] at this
  | pull =>
      simp only [Caller.at, Thread.isActivation] at hassoc
      omega

/-- **A pending destruction does not get stuck**: until the instance is reset, somebody will see
that it is pending. -/
theorem willDestroy_of_exec {A : Actor} {tr : List (ActorPool × ActorAction)} {p : ActorPool}
    (h : A.machine.Exec tr p) (hD : Machine.Meets DestroyedOnce tr) :
    p.shared.userClassInstance = true → p.shared.pendingToBeDestroyed = true →
      0 < p.total Thread.willDestroy + tally Event.destroyFailed p.shared.log := by
  refine Actor.invariantWhere (I := fun p => p.shared.userClassInstance = true →
    p.shared.pendingToBeDestroyed = true →
      0 < p.total Thread.willDestroy + tally Event.destroyFailed p.shared.log) ?_ ?_ ?_ h hD
  · simp [Actor.initial]
  · intro _ p i s t _ _ hI _ hat
    rw [Pool.total_arrive _ p]
    cases hat <;> simpa [Thread.willDestroy] using hI
  · intro _ s s' l t r new env hex hmeets hI _ hstep halive' hpending'
    have halive : s.userClassInstance = true := by
      have := hstep.instance_le
      cases hs : s.userClassInstance with
      | true => rfl
      | false => simp_all
    have hdes := destruction_of_exec hex
    have honce := calledOnce_of_exec hex hmeets
    rw [Pool.total_before, Pool.total_before] at hdes
    have hcalled := (hstep.destruction hdes).called hpending'
    rw [hstep.destroyCalls_eq] at hcalled
    have hproducers := honce.producers hcalled
    have hproducer : ∀ u ∈ l ++ r, u.isProducer = 0 := fun u hu =>
      Pool.total_eq_zero_iff.1 hproducers u (by
        rcases List.mem_append.1 hu with hu | hu <;> simp [hu])
    have hreset : ∀ u ∈ l ++ t :: r, u.afterReset = 0 := by
      refine Pool.total_eq_zero_iff (p := ⟨s, l ++ t :: r⟩).1
        (Nat.eq_zero_of_not_pos fun hpos => ?_)
      have := instanceNull_of_exec hex hpos
      simp [halive] at this
    have htproducer := Pool.total_eq_zero_iff.1 hproducers t (by simp)
    have htreset := hreset t (by simp)
    rw [Pool.total_before] at hI
    rw [Pool.total_after]
    refine hstep.willDestroy htproducer htreset ?_ ?_ ?_ (hI halive) halive' hpending'
    · rintro c pc rfl
      exact not_joined_of_caller hex hmeets htproducer
    · rintro c rfl hact
      have hjoined := not_joined_of_caller hex hmeets htproducer
      have hflag := activated_le_of_exec hex
      have hle : Pool.others Thread.owns l r ≤ Pool.others Thread.willDestroy l r :=
        Pool.others_le_others fun u hu => by
          have := owns_le_willDestroy u
          rwa [hproducer u hu] at this
      rw [Pool.total_before] at hflag
      simp [hact, ActorState.losses, ActorState.joined, hjoined, halive, honce.pushes] at hflag
      omega
    · rintro rfl hpending hz
      by_contra hnone
      have hwill : Pool.others Thread.willDestroy l r = 0 := by omega
      have hcredit : ∀ u ∈ l ++ r, u.credit = 0 := fun u hu =>
        credit_eq_zero (Pool.others_eq_zero_iff.1 hwill u hu) (hproducer u hu)
          (hreset u (by rcases List.mem_append.1 hu with hu | hu <;> simp [hu]))
      refine counter_ne_zero hex hpending halive (List.sum_eq_zero ?_) hz
      intro x hx
      obtain ⟨u, hu, rfl⟩ := List.mem_map.1 hx
      rcases List.mem_append.1 hu with hu | hu
      · exact hcredit u (List.mem_append_left _ hu)
      · rcases List.mem_cons.1 hu with rfl | hu
        · rfl
        · exact hcredit u (List.mem_append_right _ hu)

/-- When the only `AsyncDestroy` has completed, it has joined the scope. -/
theorem joined_of_destroyed {p : ActorPool}
    (hdes : Destruction p.shared (p.total Thread.calling) (p.total Thread.destroying))
    (hcalls : p.shared.destroyCalls ≤ 1) {k : ℕ} (hk : .destroyed k ∈ p.shared.log) :
    p.shared.pendingToBeDestroyed = true ∧ p.shared.asyncScope.state = .joined ∧
      p.total Thread.calling + p.total Thread.destroying = 0 ∧
      tally Event.destroyFailed p.shared.log = 0 := by
  have hended := le_tally_of_mem (w := Event.destroyEnded) hk
  have htotal := hdes.calls
  simp only [Event.destroyEnded] at hended
  have hpending := hdes.ended (by omega)
  have hprogress := hdes.progress hpending
  refine ⟨hpending, ?_, by omega, by omega⟩
  by_contra hj
  simp only [ActorState.joined, hj, decide_false, flag_false] at hprogress
  omega

/-- **The destruction protocol.**  When the scope has been joined and `AsyncDestroy` completes, the
instance has been reset exactly once, no activation is scheduled or running, and no message was
executed after the reset. -/
theorem destroyed_actor_reset_once {A : Actor} {tr : List (ActorPool × ActorAction)}
    {p : ActorPool} (h : A.machine.Exec tr p) (hD : Machine.Meets DestroyedOnce tr) {k : ℕ}
    (hk : .destroyed k ∈ p.shared.log) :
    p.shared.asyncScope.state = .joined ∧ p.shared.log.count .reset = 1 ∧
      p.shared.userClassInstance = false ∧ p.total Thread.isActivation = 0 ∧
      QuietAfterReset p.shared.log := by
  have honce := calledOnce_of_exec h hD
  obtain ⟨hpending, hj, hnone, hfailed⟩ :=
    joined_of_destroyed (destruction_of_exec h) honce.calls hk
  have hassoc := associations_of_exec h
  rw [p.shared.asyncScope.drained hj] at hassoc
  have hwill : p.total Thread.willDestroy = 0 := by
    refine Pool.total_eq_zero_iff.2 fun t ht => ?_
    have hact := Pool.total_eq_zero_iff.1 hassoc.symm t ht
    have hdes := Pool.le_total_of_mem (w := Thread.destroying) ht
    rcases t with ⟨m, i, pc⟩ | ⟨k, pc⟩ | pc
    · rfl
    · cases pc <;> simp [Thread.willDestroy, Thread.destroying] at hdes ⊢ <;> omega
    · simp [Thread.isActivation] at hact
  have hnull : p.shared.userClassInstance = false := by
    cases halive : p.shared.userClassInstance with
    | false => rfl
    | true =>
        have := willDestroy_of_exec h hD halive hpending
        omega
  refine ⟨hj, ?_, hnull, hassoc.symm, quietAfterReset_of_exec h⟩
  rw [resets_of_exec h, hnull]
  rfl

/-- The destroy branch runs before `AsyncDestroy` has counted its message, on an activation that was
scheduled for a push; the activation that `AsyncDestroy` then schedules finds the instance null. -/
theorem destroyed_actor_reset_once_early : ∃ tr p, Actor.plain.machine.Exec tr p ∧
    p.shared.mailboxSet.messages = [0] ∧ p.shared.log.count .reset = 1 ∧
    p.total Thread.isActivation = 0 ∧ QuietAfterReset p.shared.log := by
  let L : List ActorAction := [.arrive (.pushMessage 0)] ++ threadSteps 0 4 Env.calm
    ++ [.arrive .asyncDestroy, .run 1 Env.calm] ++ threadSteps 0 6 Env.calm
    ++ threadSteps 1 4 Env.calm ++ [.run 0 Env.calm] ++ threadSteps 1 4 Env.calm
    ++ [.run 0 Env.calm]
  obtain ⟨p, hex, hp⟩ := Machine.exists_exec_of_replay (Actor.machine_init Actor.plain) L
    (fun p => (p.shared.mailboxSet.messages, decide (.destroyed 0 ∈ p.shared.log)))
    ([0], true) (by decide)
  simp only [Prod.mk.injEq, decide_eq_true_eq] at hp
  obtain ⟨-, hreset, -, hact, hquiet⟩ := destroyed_actor_reset_once hex (by decide) hp.2
  exact ⟨_, p, hex, hp.1, hreset, hact, hquiet⟩

/-! ### Pushing to a destroyed actor -/

/-- The event records a use of a null instance. -/
def Event.onNull : Event → Bool
  | .hook _ false _ => true
  | .executed _ _ false _ => true
  | _ => false

/-- A null instance was never dereferenced. -/
def NullSafe (p : ActorPool) : Prop := ∀ e ∈ p.shared.log, e.onNull = false

/-- The step does not call the hook of an actor whose instance was reset before. -/
def AsksBeforeReset (p : ActorPool) : ActorAction → Prop
  | .run n _ => ∀ t ∈ p.threads[n]?, t.asksHook = 1 → .reset ∉ p.shared.log
  | .arrive _ => True

instance (p : ActorPool) (a : ActorAction) : Decidable (AsksBeforeReset p a) :=
  match a with
  | .run n _ => inferInstanceAs (Decidable (∀ t ∈ p.threads[n]?, _))
  | .arrive _ => isTrue trivial

/-- The instance is there until the history has a reset. -/
theorem instance_iff_of_exec {A : Actor} {tr : List (ActorPool × ActorAction)} {p : ActorPool}
    (h : A.machine.Exec tr p) : p.shared.userClassInstance = true ↔ .reset ∉ p.shared.log := by
  rw [← List.count_eq_zero, resets_of_exec h]
  cases p.shared.userClassInstance <;> simp

/-- A call of the hook is recorded. -/
theorem Actor.Step.hook_mem {A : Actor} {env : Env} {s s' : ActorState} {t : Thread}
    {new : List Thread} (h : A.Step env s t s' new) (ht : t.asksHook = 1) :
    ∃ m answer, .hook m s.userClassInstance answer ∈ s'.log := by
  cases h with
  | hookThrew m i e he | approve m i he | veto m i he =>
      exact ⟨m, env.shouldActivate, by simp [ActorState.emit, he]⟩
  | lose | win | dropped | schedule => simp at ht
  | _ => simp [Thread.asksHook] at ht

/-- A step dereferences null only if it calls the hook of an actor that was reset. -/
theorem Actor.Step.nullSafe {A : Actor} {env : Env} {s s' : ActorState} {t : Thread}
    {new : List Thread} (h : A.Step env s t s' new)
    (halive : t.needsInstance = 1 → s.userClassInstance = true)
    (hhook : t.asksHook = 1 → s.userClassInstance = true)
    (hI : ∀ e ∈ s.log, e.onNull = false) : ∀ e ∈ s'.log, e.onNull = false := by
  intro e he
  cases h with
  | execute limit executed i m pc hpc =>
      rcases List.mem_append.1 he with he | he
      · exact hI e he
      · rw [List.mem_singleton.1 he, halive rfl]
        rfl
  | approve m i hans | veto m i hans =>
      rcases List.mem_append.1 he with he | he
      · exact hI e he
      · rw [List.mem_singleton.1 he, hhook rfl]
        rfl
  | hookThrew m i w hans =>
      rcases List.mem_append.1 he with he | he
      · rcases List.mem_append.1 he with he | he
        · exact hI e he
        · rw [List.mem_singleton.1 he, hhook rfl]
          rfl
      · rw [List.mem_singleton.1 he]
        rfl
  | lose | win | dropped | schedule | setPending | countDestroy | join | start | entryAlive
  | entryNull | alreadyDestroyed | pending | notPending | storeDestroyed | subDestroyed | loadLimit
  | popNone | store | loadZero | loadPos | ret => exact hI e he
  | _ =>
      rcases List.mem_append.1 he with he | he
      · exact hI e he
      · rw [List.mem_singleton.1 he]
        rfl

theorem nullSafe_of_exec {A : Actor} {tr : List (ActorPool × ActorAction)} {p : ActorPool}
    (h : A.machine.Exec tr p) (hB : Machine.Meets AsksBeforeReset tr) : NullSafe p := by
  refine Actor.invariantWhere ?_ ?_ ?_ h hB
  · simp [NullSafe, Actor.initial]
  · intro _ p i s t _ _ hI _ hat
    cases hat <;> exact hI
  · intro _ s s' l t r new env hex _ hI hok hstep
    refine hstep.nullSafe (instance_of_needsInstance hex) ?_ hI
    exact fun hasks => (instance_iff_of_exec hex).2 (hok t (by simp) hasks)

/-- Without the hook nothing is asked. -/
theorem asksBeforeReset_of_no_hook {A : Actor} (hhook : A.hasShouldActivateHook = false)
    {tr : List (ActorPool × ActorAction)} {p : ActorPool} (h : A.machine.Exec tr p) :
    Machine.Meets AsksBeforeReset tr := by
  rintro ⟨q, a⟩ hmem
  obtain ⟨tr₁, tr₂, rfl⟩ := List.append_of_mem hmem
  have hasks := Pool.total_eq_zero_iff.1 (asksHook_of_exec hhook h.split.1)
  cases a with
  | arrive i => trivial
  | run n env =>
      intro t ht hone
      have := hasks t (List.mem_of_getElem? ht)
      omega

/-- **When a null instance is dereferenced.**  Never by an actor without the hook; and by one with
the hook exactly if the hook is called after the reset. -/
theorem null_instance_iff {A : Actor} {tr : List (ActorPool × ActorAction)} {p : ActorPool}
    (h : A.machine.Exec tr p) :
    (A.hasShouldActivateHook = false → NullSafe p) ∧
      (NullSafe p ↔ Machine.Meets AsksBeforeReset tr) := by
  refine ⟨fun hhook => nullSafe_of_exec h (asksBeforeReset_of_no_hook hhook h), ?_,
    nullSafe_of_exec h⟩
  intro hsafe
  induction h with
  | init _ => exact Machine.meets_nil _
  | @step tr q p a hex hn ih =>
      rw [Machine.meets_append, Machine.meets_singleton]
      refine ⟨ih fun e he => hsafe e ((Actor.log_prefix_of_next hn).subset he), ?_⟩
      rcases Actor.next_cases hn with ⟨i, s, t, rfl, -, -⟩ |
        ⟨l, t, r, s', new, env, hp, rfl, hstep, rfl⟩
      · trivial
      · intro u hu hasks
        obtain rfl : t = u := by simpa [hp] using hu
        obtain ⟨m, answer, hmem⟩ := hstep.hook_mem hasks
        have := hsafe _ hmem
        refine (instance_iff_of_exec hex).1 ?_
        cases halive : q.shared.userClassInstance with
        | true => rfl
        | false => simp [halive, Event.onNull] at this

/-- The hook is called before the destroy branch resets the instance. -/
theorem null_instance_iff_before_reset : ∃ tr p, Actor.gated.machine.Exec tr p ∧
    .hook 0 true (.ok true) ∈ p.shared.log ∧ .reset ∈ p.shared.log ∧ NullSafe p := by
  let L : List ActorAction := [.arrive (.pushMessage 0), .run 0 Env.calm, .run 0 Env.calm,
    .arrive .asyncDestroy] ++ threadSteps 1 4 Env.calm ++ [.run 0 Env.calm]
    ++ threadSteps 2 4 Env.calm
  obtain ⟨p, hex, hp⟩ := Machine.exists_exec_of_replay (Actor.machine_init Actor.gated) L
    (fun p => (decide (.hook 0 true (.ok true) ∈ p.shared.log), decide (.reset ∈ p.shared.log)))
    (true, true) (by decide)
  simp only [Prod.mk.injEq, decide_eq_true_eq] at hp
  exact ⟨_, p, hex, hp.1, hp.2, (null_instance_iff hex).2.2 (by decide)⟩

/-- A push to an actor whose `AsyncDestroy` has completed calls the hook through a null pointer. -/
theorem hook_on_null_instance : ∃ tr p, Actor.gated.machine.Exec tr p ∧
    .destroyed 0 ∈ p.shared.log ∧ ¬ NullSafe p := by
  let L : List ActorAction := [.arrive .asyncDestroy] ++ threadSteps 0 4 Env.calm
    ++ threadSteps 1 7 Env.calm ++ [.run 0 Env.calm, .run 0 Env.calm,
      .arrive (.pushMessage 0)] ++ threadSteps 0 3 Env.calm
  obtain ⟨p, hex, hp⟩ := Machine.exists_exec_of_replay (Actor.machine_init Actor.gated) L
    (fun p => (decide (.destroyed 0 ∈ p.shared.log),
      decide (.hook 0 false (.ok true) ∈ p.shared.log))) (true, true) (by decide)
  simp only [Prod.mk.injEq, decide_eq_true_eq] at hp
  refine ⟨_, p, hex, hp.1, ?_⟩
  intro hsafe
  exact absurd (hsafe _ hp.2) (by decide)

end ExActor
