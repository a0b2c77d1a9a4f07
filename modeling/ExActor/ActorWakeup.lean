/-
**No lost wakeup.**

A producer makes its message visible, counts it, and only then tries to activate the actor; an
activation clears `activated_` and only then reads the counter again.  Whoever comes second sees
the other: while the flag is clear and the counter is not zero, some thread is still on its way to
the compare-exchange of `TryActivate`.  When no thread is left the counter is zero, and by the
accounting of `ExActor/ActorAccounting.lean` so is the number of queued messages.

This needs that every producer tries to activate, so it is about actors without the
`ExActorShouldActivate` hook; `ExActor/ActorApproval.lean` is about the others.

Main definitions:

* `Quiescent` — no `PushMessage` in progress, no activation scheduled or running;
* `Thread.willCheck` — the thread is on its way to a compare-exchange of `TryActivate`.

Main results:

* `wakeup_of_exec` — a clear flag and a nonzero counter have a thread on its way;
* `quiescent_mailboxes_empty` — **no lost wakeup**.
-/

import ExActor.ActorAccounting

set_option relaxedAutoImplicit false
set_option autoImplicit false

namespace ExActor

/-! ### Quiescence -/

/-- The thread is a `PushMessage`. -/
def Thread.isProducer : Thread → ℕ
  | .producer _ _ _ => 1
  | _ => 0

/-- No `PushMessage` is in progress and no activation is scheduled or running. -/
structure Quiescent (p : ActorPool) : Prop where
  producers : p.total Thread.isProducer = 0
  activations : p.total Thread.isActivation = 0

/-- A quiescent actor that nobody destroys has no threads at all. -/
theorem Quiescent.threads_eq_nil {p : ActorPool} (h : Quiescent p) (hun : Untouched p) :
    p.threads = [] := by
  rw [List.eq_nil_iff_forall_not_mem]
  intro t ht
  have hprod := Pool.total_eq_zero_iff.1 h.producers t ht
  have hact := Pool.total_eq_zero_iff.1 h.activations t ht
  have hdes := Pool.total_eq_zero_iff.1 hun.threads t ht
  cases t with
  | producer m i pc => simp [Thread.isProducer] at hprod
  | destroyer k pc => simp [Thread.destroys] at hdes
  | activation pc => simp [Thread.isActivation] at hact

/-! ### Actors without the hook -/

/-- The thread is about to call the hook. -/
def Thread.asksHook : Thread → ℕ
  | .producer _ _ .shouldActivate => 1
  | _ => 0

@[simp] theorem asksHook_at (c : Caller) (pc : TryActivatePc) : (c.at pc).asksHook = 0 := by
  cases c <;> rfl

@[simp] theorem asksHook_after (c : Caller) : (c.after.map Thread.asksHook).sum = 0 := by
  cases c <;> rfl

/-- The hook is called only where the class defines it. -/
theorem asksHook_of_exec {A : Actor} (hhook : A.hasShouldActivateHook = false)
    {tr : List (ActorPool × ActorAction)} {p : ActorPool} (h : A.machine.Exec tr p) :
    p.total Thread.asksHook = 0 := by
  refine Actor.invariant (I := fun p => p.total Thread.asksHook = 0) ?_ ?_ ?_ h
  · rfl
  · intro _ p i s t _ hI hat
    rw [Pool.total_arrive _ p]
    cases hat <;> simpa [Thread.asksHook] using hI
  · intro _ s s' l t r new env _ hI hstep
    rw [Pool.total_before] at hI
    rw [Pool.total_after]
    cases hstep with
    | count m i pc hpc =>
        rcases hpc with ⟨hh, -⟩ | ⟨-, rfl⟩
        · simp [hhook] at hh
        · simpa [Thread.asksHook] using hI
    | popNone limit executed i pc hnone hpc =>
        rcases hpc with rfl | rfl <;> simpa [Thread.asksHook] using hI
    | execute limit executed i m pc hpc =>
        rcases hpc with ⟨-, rfl⟩ | ⟨-, rfl⟩ <;> simpa [Thread.asksHook] using hI
    | hookThrew | approve | veto => simp [Thread.asksHook] at hI
    | lose | win | dropped => simpa using hI
    | schedule =>
        rw [asksHook_at] at hI
        simpa [Thread.asksHook] using hI
    | _ => simpa [Thread.asksHook] using hI

/-! ### Who is on the way -/

/-- The thread is on its way to a compare-exchange of `TryActivate`: it stands before it, or before
the load that decides whether an activation tries. -/
def Thread.willCheck : Thread → ℕ
  | .producer _ _ (.tryActivate .cas) => 1
  | .destroyer _ (.tryActivate .cas) => 1
  | .activation .loadPendingMessageCount => 1
  | .activation (.tryActivate .cas) => 1
  | _ => 0

@[simp] theorem willCheck_at_schedule (c : Caller) : (c.at .schedule).willCheck = 0 := by
  cases c <;> rfl

@[simp] theorem willCheck_after (c : Caller) : (c.after.map Thread.willCheck).sum = 0 := by
  cases c <;> rfl

/-- While the flag is clear and nobody is on the way, the counter is zero. -/
def Awake (p : ActorPool) : Prop :=
  p.shared.activated = false → p.total Thread.willCheck = 0 → p.shared.pendingMessageCount = 0

/-- The owner of the flag is a witness that it is set. -/
theorem activated_of_owns {A : Actor} {tr : List (ActorPool × ActorAction)} {s : ActorState}
    {l r : List Thread} {t : Thread} (h : A.machine.Exec tr ⟨s, l ++ t :: r⟩) (ht : t.owns = 1) :
    s.activated = true := by
  have hown : Pool.total Thread.owns ⟨s, l ++ t :: r⟩ ≤ flag s.activated := owned_of_exec h
  rw [Pool.total_before, ht] at hown
  cases hact : s.activated with
  | true => rfl
  | false =>
      rw [hact, flag_false] at hown
      omega

/-- A step that leaves the flag clear and nobody on the way leaves the counter at zero. -/
theorem Actor.Step.awake {A : Actor} {env : Env} {s s' : ActorState} {t : Thread}
    {new : List Thread} (h : A.Step env s t s' new) (hhook : t.asksHook = 0)
    (hno : A.hasShouldActivateHook = false) (hdes : t.destroys = 0)
    (hown : t.owns = 1 → s.activated = true) {rest : ℕ}
    (hI : s.activated = false → t.willCheck + rest = 0 → s.pendingMessageCount = 0)
    (hact : s'.activated = false) (hnone : (new.map Thread.willCheck).sum + rest = 0) :
    s'.pendingMessageCount = 0 := by
  cases h with
  | count m i pc hpc =>
      rcases hpc with ⟨hh, -⟩ | ⟨-, rfl⟩
      · simp [hno] at hh
      · simp [Thread.willCheck] at hnone
  | hookThrew | approve | veto => simp [Thread.asksHook] at hhook
  | lose c hact' => simp [hact] at hact'
  | win => simp at hact
  | dropped | schedule => simp [hown (owns_at_schedule _)] at hact
  | pushThrew => simp [ActorState.emit, hown rfl] at hact
  | countDestroy => simp [Thread.destroys] at hdes
  | subDestroyed => simp [Thread.destroys] at hdes
  | storeDestroyed => simp [Thread.destroys] at hdes
  | reset => simp [ActorState.emit, hown rfl] at hact
  | sub => simp [ActorState.emit, hown rfl] at hact
  | store => simp [Thread.willCheck] at hnone
  | loadZero hz => exact hz
  | loadPos => simp [Thread.willCheck] at hnone
  | popNone | loadLimit | start | entryAlive | entryNull | alreadyDestroyed | pending
  | notPending =>
      simp [hown rfl] at hact
  | pop | execute => simp [ActorState.emit, hown rfl] at hact
  | setPendingLose | setPending | destroyThrew | join | joined => simp [Thread.destroys] at hdes
  | pushFull | push =>
      exact hI hact (by simpa [Thread.willCheck] using hnone)
  | ret => exact hI hact (by simpa [Thread.willCheck] using hnone)

/-- **A clear flag and a nonzero counter have a thread on its way**, in every reachable state of
an actor without the hook that nobody destroys. -/
theorem wakeup_of_exec {A : Actor} (hhook : A.hasShouldActivateHook = false)
    {tr : List (ActorPool × ActorAction)} {p : ActorPool} (h : A.machine.Exec tr p)
    (hC : Machine.Meets NotDestroyed tr) : Awake p := by
  refine Actor.invariantWhere ?_ ?_ ?_ h hC
  · intro _ _
    rfl
  · intro _ p i s t _ _ hI _ hat hact hnone
    rw [Pool.total_arrive _ p] at hnone
    have hnone' : Pool.total Thread.willCheck p = 0 := Nat.eq_zero_of_add_eq_zero_right hnone
    cases hat <;> exact hI hact hnone'
  · intro _ s s' l t r new env hex hC' hI _ hstep hact hnone
    have hasks := asksHook_of_exec hhook hex
    have hdes := (untouched_of_exec hex hC').threads
    rw [Pool.total_before] at hasks hdes
    unfold Awake at hI
    rw [Pool.total_before] at hI
    rw [Pool.total_after] at hnone
    exact hstep.awake (by omega) hhook (by omega) (activated_of_owns hex) hI hact hnone

/-- In range, the counter of an actor at rest counts the queued messages. -/
theorem queued_eq_zero {A : Actor} {tr : List (ActorPool × ActorAction)} {p : ActorPool}
    (h : A.machine.Exec tr p) (hun : Untouched p) (htaken : p.total Thread.takenHere = 0)
    (huncounted : p.total Thread.uncounted = 0) (hzero : p.shared.pendingMessageCount = 0) :
    p.shared.mailboxSet.queued = 0 := by
  have htracks := tracks_of_exec h
  have hroom := liveObjects_le h
  have hbal := balance_eq hun
  unfold liveObjects addressSpace at hroom
  have := (htracks.eq_zero_iff (by omega) (by omega)).1 hzero
  omega

/-- **No lost wakeup.**  In every quiescent state all mailboxes are empty and
`pending_message_count_` is zero. -/
theorem quiescent_mailboxes_empty {A : Actor} (hhook : A.hasShouldActivateHook = false)
    {tr : List (ActorPool × ActorAction)} {p : ActorPool} (h : A.machine.Exec tr p)
    (hC : Machine.Meets NotDestroyed tr) (hS : Machine.Meets ScheduleOk tr) (hq : Quiescent p) :
    (∀ q ∈ p.shared.mailboxSet.mailboxes, q.queue = []) ∧ p.shared.pendingMessageCount = 0 := by
  have hun := untouched_of_exec h hC
  have hnil := hq.threads_eq_nil hun
  have htotal : ∀ w : Thread → ℕ, p.total w = 0 := by
    intro w
    simp [Pool.total, hnil]
  have hact := activated_eq_false_of_total h hC hS (htotal _)
  have hzero := wakeup_of_exec hhook h hC hact (htotal _)
  exact ⟨MailboxSet.queued_eq_zero_iff.1 (queued_eq_zero h hun (htotal _) (htotal _) hzero), hzero⟩

/-- Two producers and two activations: the second message is pushed while the first activation
runs, which therefore schedules the second, and the run ends quiescent. -/
theorem quiescent_mailboxes_empty_two_producers :
    ∃ tr p, Actor.plain.machine.Exec tr p ∧
      p.shared.log.count (.pushed 0 0) = 1 ∧ p.shared.log.count (.pushed 1 0) = 1 ∧
      (∀ q ∈ p.shared.mailboxSet.mailboxes, q.queue = []) ∧
      p.shared.pendingMessageCount = 0 := by
  let L : List ActorAction := [.arrive (.pushMessage 0)] ++ threadSteps 0 10 Env.calm
    ++ [.arrive (.pushMessage 0), .run 1 Env.calm, .run 1 Env.calm]
    ++ threadSteps 0 6 Env.calm ++ [.run 1 Env.calm] ++ threadSteps 0 10 Env.calm
  obtain ⟨p, hex, hp⟩ := Machine.exists_exec_of_replay (Actor.machine_init Actor.plain) L
    (fun p => (p.threads, p.shared.log.count (.pushed 0 0), p.shared.log.count (.pushed 1 0)))
    ([], 1, 1) (by decide)
  simp only [Prod.mk.injEq] at hp
  have hq : Quiescent p := ⟨by simp [Pool.total, hp.1], by simp [Pool.total, hp.1]⟩
  exact ⟨_, p, hex, hp.2.1, hp.2.2,
    quiescent_mailboxes_empty rfl hex (by decide) (by decide) hq⟩

end ExActor
