/-
**Mutual exclusion of an actor.**

`activated_` is a token.  A thread owns it from the compare-exchange of `TryActivate` that set the
flag, through the activation that this schedules, until that activation clears the flag; an
activation that finds the actor already destroyed never clears it, and then nobody owns it any
more.  At any time there is at most one owner, and only while the flag is set.

The token is all that orders the activations: `PullMailboxAndRun` goes on after it has cleared the
flag, so the tail of one activation overlaps the body of the next.

Main definitions:

* `Thread.owns`, `Thread.inside`, `Thread.touches` — who owns the flag, who is between the entry of
  `PullMailboxAndRun` and its `activated_.store(false)`, who works on the mailboxes or the instance;
* `Owned` — at most one thread owns the flag, and only while it is set;
* `InstanceAlive` — a thread that relies on the instance has it.

Main results:

* `owned_of_exec` — `Owned` holds in every reachable state;
* `at_most_one_inside` — **mutual exclusion**;
* `instanceAlive_of_exec`, `instanceNull_of_exec` — between its entry check and its reset an
  activation has the instance, and after that nobody has;
* `associations_of_exec` — the scope counts the activations.
-/

import ExActor.ActorStep

set_option relaxedAutoImplicit false
set_option autoImplicit false

namespace ExActor

/-! ### The owner of the flag -/

/-- The thread owns `activated_`: it has set the flag, or runs the activation scheduled for it. -/
def Thread.owns : Thread → ℕ
  | .producer _ _ (.tryActivate .schedule) => 1
  | .producer _ _ _ => 0
  | .destroyer _ (.tryActivate .schedule) => 1
  | .destroyer _ _ => 0
  | .activation .fetchSubDestroyed => 0
  | .activation .loadPendingMessageCount => 0
  | .activation (.tryActivate .cas) => 0
  | .activation .ret => 0
  | .activation _ => 1

/-- The thread is between the entry of `PullMailboxAndRun` and its `activated_.store(false)`; the
path of an actor that is already destroyed has no such store and counts up to its return. -/
def Thread.inside : Thread → ℕ
  | .activation .entry => 1
  | .activation .loadRemaining => 1
  | .activation .loadPendingToBeDestroyed => 1
  | .activation .reset => 1
  | .activation .storeActivatedDestroyed => 1
  | .activation .loadLimit => 1
  | .activation (.tryPop ..) => 1
  | .activation (.execute ..) => 1
  | .activation (.fetchSub ..) => 1
  | .activation .storeActivated => 1
  | _ => 0

/-- The thread's next step pops a mailbox, executes a message or resets `user_class_instance_`. -/
def Thread.touches : Thread → ℕ
  | .activation .reset => 1
  | .activation (.tryPop ..) => 1
  | .activation (.execute ..) => 1
  | _ => 0

/-- The thread has passed the check that `user_class_instance_` is not null, and may still use or
reset it. -/
def Thread.needsInstance : Thread → ℕ
  | .activation .loadPendingToBeDestroyed => 1
  | .activation .reset => 1
  | .activation .loadLimit => 1
  | .activation (.tryPop ..) => 1
  | .activation (.execute ..) => 1
  | .activation (.fetchSub ..) => 1
  | _ => 0

/-- The thread is an activation, scheduled or running. -/
def Thread.isActivation : Thread → ℕ
  | .activation _ => 1
  | _ => 0

/-- One where the flag is set. -/
def flag (b : Bool) : ℕ := if b then 1 else 0

@[simp] theorem flag_true : flag true = 1 := rfl

@[simp] theorem flag_false : flag false = 0 := rfl

theorem flag_le_one (b : Bool) : flag b ≤ 1 := by cases b <;> simp

/-- At most one thread owns `activated_`, and only while it is set. -/
def Owned (p : ActorPool) : Prop := p.total Thread.owns ≤ flag p.shared.activated

theorem inside_le_owns (t : Thread) : t.inside ≤ t.owns := by
  rcases t with ⟨m, i, pc⟩ | ⟨k, pc⟩ | pc
  · simp [Thread.inside]
  · simp [Thread.inside]
  · cases pc <;> simp [Thread.inside, Thread.owns]

theorem touches_le_inside (t : Thread) : t.touches ≤ t.inside := by
  rcases t with ⟨m, i, pc⟩ | ⟨k, pc⟩ | pc
  · simp [Thread.touches]
  · simp [Thread.touches]
  · cases pc <;> simp [Thread.touches, Thread.inside]

theorem needsInstance_le_owns (t : Thread) : t.needsInstance ≤ t.owns := by
  rcases t with ⟨m, i, pc⟩ | ⟨k, pc⟩ | pc
  · simp [Thread.needsInstance]
  · simp [Thread.needsInstance]
  · cases pc <;> simp [Thread.needsInstance, Thread.owns]

@[simp] theorem owns_at_cas (c : Caller) : (c.at .cas).owns = 0 := by cases c <;> rfl

@[simp] theorem owns_at_schedule (c : Caller) : (c.at .schedule).owns = 1 := by cases c <;> rfl

@[simp] theorem owns_after (c : Caller) : (c.after.map Thread.owns).sum = 0 := by
  cases c <;> rfl

/-- A step keeps at most one owner. -/
theorem Actor.Step.owned {A : Actor} {env : Env} {s s' : ActorState} {t : Thread}
    {new : List Thread} (h : A.Step env s t s' new) {rest : ℕ}
    (hr : t.owns + rest ≤ flag s.activated) :
    (new.map Thread.owns).sum + rest ≤ flag s'.activated := by
  have hle := flag_le_one s.activated
  cases h with
  | lose c hact => simpa using hr
  | win c hact =>
      -- the flag was clear, so there was no owner
      simp only [hact, flag_false, owns_at_cas] at hr
      simp only [List.map_cons, List.map_nil, List.sum_cons, List.sum_nil, owns_at_schedule,
        flag_true]
      omega
  | dropped c hok hj =>
      simp only [owns_at_schedule] at hr
      simp only [owns_after]
      omega
  | schedule c sc hok hj hst hn =>
      -- the caller hands the flag over to the activation
      simp only [owns_at_schedule] at hr
      simpa [Thread.owns] using hr
  | store | storeDestroyed =>
      -- the owner clears the flag, and nobody owned it beside the owner
      simp only [Thread.owns] at hr
      simp only [List.map_cons, List.map_nil, List.sum_cons, List.sum_nil, Thread.owns,
        flag_false]
      omega
  | count m i pc hpc =>
      rcases hpc with ⟨-, rfl⟩ | ⟨-, rfl⟩ <;> simpa [Thread.owns, ActorState.emit] using hr
  | popNone limit executed i pc hnone hpc =>
      rcases hpc with rfl | rfl <;> simpa [Thread.owns] using hr
  | execute limit executed i m pc hpc =>
      rcases hpc with ⟨-, rfl⟩ | ⟨-, rfl⟩ <;> simpa [Thread.owns, ActorState.emit] using hr
  | _ =>
      simp [Thread.owns, ActorState.emit] at hr ⊢
      try omega

/-- **At most one thread owns the flag**, in every reachable state. -/
theorem owned_of_exec {A : Actor} {tr : List (ActorPool × ActorAction)} {p : ActorPool}
    (h : A.machine.Exec tr p) : Owned p := by
  refine Actor.invariant ?_ ?_ ?_ h
  · simp [Owned]
  · intro _ p i s t _ hI hat
    have := Pool.total_arrive Thread.owns p s t
    cases hat <;> simpa [Owned, this, Thread.owns] using hI
  · intro _ s s' l t r new env _ hI hstep
    unfold Owned at hI ⊢
    rw [Pool.total_before] at hI
    rw [Pool.total_after]
    exact hstep.owned hI

/-- What only an owner has, nobody has beside the owner. -/
theorem others_eq_zero_of_owns {A : Actor} {tr : List (ActorPool × ActorAction)} {s : ActorState}
    {l r : List Thread} {t : Thread} (h : A.machine.Exec tr ⟨s, l ++ t :: r⟩) (ht : t.owns = 1)
    {w : Thread → ℕ} (hw : ∀ u, u.owns = 0 → w u = 0) : Pool.others w l r = 0 := by
  have hown : Pool.total Thread.owns ⟨s, l ++ t :: r⟩ ≤ flag s.activated := owned_of_exec h
  have hflag := flag_le_one s.activated
  rw [Pool.total_before, ht] at hown
  exact Pool.others_eq_zero hw (by omega)

/-- **Mutual exclusion.**  At most one `PullMailboxAndRun` is between its entry and its
`activated_.store(false)`, so at most one thread pops the mailboxes, executes a message or resets
the instance. -/
theorem at_most_one_inside {A : Actor} {tr : List (ActorPool × ActorAction)} {p : ActorPool}
    (h : A.machine.Exec tr p) :
    p.total Thread.inside ≤ 1 ∧ p.total Thread.touches ≤ 1 := by
  have hown : p.total Thread.owns ≤ flag p.shared.activated := owned_of_exec h
  have hflag := flag_le_one p.shared.activated
  have hinside := Pool.total_le_total (p := p) fun t _ => inside_le_owns t
  have htouch := Pool.total_le_total (p := p) fun t _ => touches_le_inside t
  omega

/-- Two activations at once: the first has cleared the flag and scheduled the second, and the
second has begun before the first has returned. -/
theorem at_most_one_inside_overlapping :
    ∃ tr p, Actor.plain.machine.Exec tr p ∧
      p.threads = [.activation .ret, .activation .entry, .producer 1 0 (.tryActivate .cas)] ∧
      p.total Thread.inside ≤ 1 ∧ p.total Thread.touches ≤ 1 := by
  obtain ⟨p, hex, hp⟩ := Machine.exists_exec_of_replay (Actor.machine_init Actor.plain)
    ([.arrive (.pushMessage 0)] ++ threadSteps 0 10 Env.calm
      ++ [.arrive (.pushMessage 0), .run 1 Env.calm, .run 1 Env.calm]
      ++ threadSteps 0 5 Env.calm ++ [.run 1 Env.calm])
    Pool.threads
    [.activation .ret, .activation .entry, .producer 1 0 (.tryActivate .cas)] (by decide)
  exact ⟨_, p, hex, hp, at_most_one_inside hex⟩

/-! ### The instance and the scope -/

/-- While a thread relies on `user_class_instance_`, the instance is there. -/
def InstanceAlive (p : ActorPool) : Prop :=
  0 < p.total Thread.needsInstance → p.shared.userClassInstance = true

@[simp] theorem needsInstance_at (c : Caller) (pc : TryActivatePc) :
    (c.at pc).needsInstance = 0 := by cases c <;> rfl

@[simp] theorem needsInstance_after (c : Caller) :
    (c.after.map Thread.needsInstance).sum = 0 := by cases c <;> rfl

/-- Only the owner resets the instance, when nobody else relies on it. -/
theorem Actor.Step.instanceAlive {A : Actor} {env : Env} {s s' : ActorState} {t : Thread}
    {new : List Thread} (h : A.Step env s t s' new) {rest : ℕ} (hexcl : t.owns = 1 → rest = 0)
    (hI : 0 < t.needsInstance + rest → s.userClassInstance = true)
    (hpos : 0 < (new.map Thread.needsInstance).sum + rest) : s'.userClassInstance = true := by
  cases h with
  | lose | dropped => exact hI (by simp at hpos ⊢; omega)
  | win c hact => exact hI (by simp at hpos ⊢; omega)
  | schedule c sc hok hj hst hn => exact hI (by simp [Thread.needsInstance] at hpos ⊢; omega)
  | reset => simp [hexcl rfl, Thread.needsInstance] at hpos
  | entryAlive halive => exact halive
  | count m i pc hpc =>
      rcases hpc with ⟨-, rfl⟩ | ⟨-, rfl⟩ <;>
        exact hI (by simpa [Thread.needsInstance] using hpos)
  | popNone | execute | pop => exact hI (by simp [Thread.needsInstance])
  | _ => exact hI (by simp [Thread.needsInstance] at hpos ⊢; try omega)

/-- **An activation that relies on the instance has it**, in every reachable state. -/
theorem instanceAlive_of_exec {A : Actor} {tr : List (ActorPool × ActorAction)} {p : ActorPool}
    (h : A.machine.Exec tr p) : InstanceAlive p := by
  refine Actor.invariant ?_ ?_ ?_ h
  · simp [InstanceAlive]
  · intro _ p i s t _ hI hat
    have := Pool.total_arrive Thread.needsInstance p s t
    cases hat <;> simpa [InstanceAlive, this, Thread.needsInstance] using hI
  · intro _ s s' l t r new env hex hI hstep hpos
    have howned : Pool.total Thread.owns ⟨s, l ++ t :: r⟩ ≤ flag s.activated := owned_of_exec hex
    have hflag := flag_le_one s.activated
    -- the others rely on the instance only as owners of the flag
    have hothers := Pool.others_le_others (l := l) (r := r) fun u _ => needsInstance_le_owns u
    rw [Pool.total_before] at howned
    unfold InstanceAlive at hI
    rw [Pool.total_before] at hI
    rw [Pool.total_after] at hpos
    exact hstep.instanceAlive (fun ht => by omega) hI hpos

theorem instance_of_needsInstance {A : Actor} {tr : List (ActorPool × ActorAction)}
    {s : ActorState} {l r : List Thread} {t : Thread} (h : A.machine.Exec tr ⟨s, l ++ t :: r⟩)
    (ht : t.needsInstance = 1) : s.userClassInstance = true := by
  refine instanceAlive_of_exec h ?_
  rw [Pool.total_before, ht]
  omega

/-- The thread has reset the instance, or has found it reset. -/
def Thread.afterReset : Thread → ℕ
  | .activation .loadRemaining => 1
  | .activation .storeActivatedDestroyed => 1
  | .activation .fetchSubDestroyed => 1
  | _ => 0

@[simp] theorem afterReset_at (c : Caller) (pc : TryActivatePc) : (c.at pc).afterReset = 0 := by
  cases c <;> rfl

@[simp] theorem afterReset_after (c : Caller) : (c.after.map Thread.afterReset).sum = 0 := by
  cases c <;> rfl

/-- Nothing brings the instance back. -/
theorem Actor.Step.instanceNull {A : Actor} {env : Env} {s s' : ActorState} {t : Thread}
    {new : List Thread} (h : A.Step env s t s' new) {rest : ℕ}
    (hI : 0 < t.afterReset + rest → s.userClassInstance = false)
    (hpos : 0 < (new.map Thread.afterReset).sum + rest) : s'.userClassInstance = false := by
  cases h with
  | lose | win | dropped => exact hI (by simpa using hpos)
  | schedule =>
      rw [afterReset_at] at hI
      exact hI (by simpa [Thread.afterReset] using hpos)
  | reset => rfl
  | entryNull hnull => exact hnull
  | count m i pc hpc =>
      rcases hpc with ⟨-, rfl⟩ | ⟨-, rfl⟩ <;> exact hI (by simpa [Thread.afterReset] using hpos)
  | popNone limit executed i pc hnone hpc =>
      rcases hpc with rfl | rfl <;> exact hI (by simpa [Thread.afterReset] using hpos)
  | execute limit executed i m pc hpc =>
      rcases hpc with ⟨-, rfl⟩ | ⟨-, rfl⟩ <;> exact hI (by simpa [Thread.afterReset] using hpos)
  | alreadyDestroyed | storeDestroyed | subDestroyed =>
      exact hI (by simp [Thread.afterReset])
  | _ => exact hI (by simpa [Thread.afterReset] using hpos)

/-- **An activation that takes the instance for destroyed is right**, in every reachable state. -/
theorem instanceNull_of_exec {A : Actor} {tr : List (ActorPool × ActorAction)} {p : ActorPool}
    (h : A.machine.Exec tr p) :
    0 < p.total Thread.afterReset → p.shared.userClassInstance = false := by
  refine Actor.invariant (I := fun p => 0 < p.total Thread.afterReset →
    p.shared.userClassInstance = false) ?_ ?_ ?_ h
  · simp
  · intro _ p i s t _ hI hat
    rw [Pool.total_arrive _ p]
    cases hat <;> simpa [Thread.afterReset] using hI
  · intro _ s s' l t r new env _ hI hstep hpos
    rw [Pool.total_before] at hI
    rw [Pool.total_after] at hpos
    exact hstep.instanceNull hI hpos

theorem instance_of_afterReset {A : Actor} {tr : List (ActorPool × ActorAction)}
    {s : ActorState} {l r : List Thread} {t : Thread} (h : A.machine.Exec tr ⟨s, l ++ t :: r⟩)
    (ht : t.afterReset = 1) : s.userClassInstance = false := by
  refine instanceNull_of_exec h ?_
  rw [Pool.total_before, ht]
  omega

@[simp] theorem isActivation_at_cas (c : Caller) :
    (c.at .cas).isActivation = (c.after.map Thread.isActivation).sum := by cases c <;> rfl

@[simp] theorem isActivation_at_schedule (c : Caller) :
    (c.at .schedule).isActivation = (c.after.map Thread.isActivation).sum := by cases c <;> rfl

/-- An association comes and goes with its activation. -/
theorem Actor.Step.associations {A : Actor} {env : Env} {s s' : ActorState} {t : Thread}
    {new : List Thread} (h : A.Step env s t s' new) {rest : ℕ}
    (hI : s.asyncScope.associations = t.isActivation + rest) :
    s'.asyncScope.associations = (new.map Thread.isActivation).sum + rest := by
  cases h with
  | lose | win | dropped => simpa using hI
  | schedule c sc hok hj hst hn =>
      simp only [isActivation_at_schedule] at hI
      simp only [List.map_append, List.sum_append, List.map_cons, List.map_nil, List.sum_cons,
        List.sum_nil, Thread.isActivation, hn]
      omega
  | _ => simp [Thread.isActivation, ActorState.emit] at hI ⊢; try omega

/-- The scope counts the activations. -/
theorem associations_of_exec {A : Actor} {tr : List (ActorPool × ActorAction)} {p : ActorPool}
    (h : A.machine.Exec tr p) :
    p.shared.asyncScope.associations = p.total Thread.isActivation := by
  refine Actor.invariant
    (I := fun p => p.shared.asyncScope.associations = p.total Thread.isActivation) ?_ ?_ ?_ h
  · rfl
  · intro _ p i s t _ hI hat
    rw [Pool.total_arrive _ p]
    cases hat <;> simpa [Thread.isActivation] using hI
  · intro _ s s' l t r new env _ hI hstep
    rw [Pool.total_before] at hI
    rw [Pool.total_after]
    exact hstep.associations hI

end ExActor
