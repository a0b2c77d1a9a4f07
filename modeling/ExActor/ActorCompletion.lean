/-
**When the receiver of a message waits for ever.**

Whoever has sent a message and awaits it is resumed by the receiver of the message: the activation
that executes the message completes it, or `set_error` does when the push throws.  An actor is stuck
when none of its threads can take a step, and then a receiver that is still waiting waits for ever.

Four things leave a message behind.  The actor is destroyed.  The `Schedule` of another push throws
and leaves `activated_` set without an owner.  The hook refuses the last push that could have
activated the actor.  Or the message is executed after its receiver was asked to stop, which no code
of this repository does.  `Unhindered` excludes these as long as the message is not completed, and
nothing else can go wrong.

Main definitions:

* `Actor.Stuck` — no thread can take a step;
* `firstCompletion` — how the receiver of a message is completed;
* `Harmless`, `SparesMessage`, `Unhindered` — the step does not leave the message behind.

Main results:

* `Actor.Stuck.thread_cases` — what is left in an actor that is stuck;
* `completed_of_stuck` — **no receiver waits for ever**, in a run that is not hindered;
* `not_stops_of_exec` — and none is stopped.
-/

import ExActor.ActorApproval
import ExActor.ActorDestroy
import ExActor.ActorSubmission

set_option relaxedAutoImplicit false
set_option autoImplicit false

namespace ExActor

/-! ### Actors that are stuck -/

/-- No thread can take a step. -/
def Actor.Stuck (A : Actor) (p : ActorPool) : Prop := ∀ n env, A.machine.next p (.run n env) = none

/-- Only two threads are ever held up, where nothing throws: a push into a mailbox that does not
exist, and an `AsyncDestroy` that waits for its scope. -/
theorem Actor.run_eq_none {A : Actor} {s : ActorState} {t : Thread}
    (h : A.run s t Env.calm = none) :
    (∃ m i, t = .producer m i .push ∧ s.mailboxSet.mailboxCount ≤ i) ∨
      ∃ k, t = .destroyer k .awaitJoin ∧ s.asyncScope.state ≠ .joined := by
  cases t with
  | producer m i pc =>
      cases pc with
      | push =>
          refine Or.inl ⟨m, i, rfl, Nat.not_lt.1 fun hlt => ?_⟩
          obtain ⟨result, hresult⟩ := Option.ne_none_iff_exists'.1
            (MailboxSet.push_ne_none_iff.2 hlt : s.mailboxSet.push i m ≠ none)
          cases result <;> simp [Actor.run, pushMessageStep, hresult] at h
      | fetchAdd | shouldActivate => simp [Actor.run, pushMessageStep, Env.calm] at h
      | tryActivate pc =>
          cases pc with
          | cas => cases hact : s.activated <;>
              simp [Actor.run, pushMessageStep, tryActivateStep, hact] at h
          | schedule => cases hsc : s.asyncScope.tryAssociate <;>
              simp [Actor.run, pushMessageStep, tryActivateStep, Env.calm, hsc] at h
  | destroyer k pc =>
      cases pc with
      | setPendingToBeDestroyed =>
          cases hp : s.pendingToBeDestroyed <;> simp [Actor.run, asyncDestroyStep, hp] at h
      | fetchAdd | join => simp [Actor.run, asyncDestroyStep] at h
      | tryActivate pc =>
          cases pc with
          | cas => cases hact : s.activated <;>
              simp [Actor.run, asyncDestroyStep, tryActivateStep, hact] at h
          | schedule => cases hsc : s.asyncScope.tryAssociate <;>
              simp [Actor.run, asyncDestroyStep, tryActivateStep, Env.calm, hsc] at h
      | awaitJoin => exact Or.inr ⟨k, rfl, by simpa [Actor.run, asyncDestroyStep] using h⟩
  | activation pc =>
      have hsome := pullMailboxAndRunStep_isSome A s pc
      rw [Option.isSome_iff_ne_none] at hsome
      exact absurd h hsome

theorem Actor.Stuck.run_eq_none {A : Actor} {p : ActorPool} (h : A.Stuck p) {t : Thread}
    (ht : t ∈ p.threads) : A.run p.shared t Env.calm = none := by
  obtain ⟨s, ts⟩ := p
  obtain ⟨l, r, rfl⟩ := List.append_of_mem ht
  by_contra hrun
  obtain ⟨⟨s', new⟩, hsome⟩ := Option.ne_none_iff_exists'.1 hrun
  have hnext := h l.length Env.calm
  rw [Actor.next_here hsome l r] at hnext
  cases hnext

/-! ### The wait for the scope -/

/-- A scope that is being joined waits for something. -/
def SimpleCountingScope.Waits (sc : SimpleCountingScope) : Prop :=
  sc.state = .openAndJoining → 0 < sc.associations

theorem SimpleCountingScope.waits_startJoin (sc : SimpleCountingScope) : sc.startJoin.Waits := by
  unfold startJoin Waits
  split
  · simp
  · next h => exact fun _ => Nat.pos_of_ne_zero h

theorem SimpleCountingScope.Waits.disassociate {sc : SimpleCountingScope} (h : sc.Waits) :
    sc.disassociate.Waits := by
  unfold SimpleCountingScope.disassociate Waits at *
  split
  · simp
  · next hlast =>
      intro hjoining
      have := h hjoining
      have : ¬ sc.associations ≤ 1 := fun hle => hlast ⟨hjoining, hle⟩
      simp only
      omega

theorem SimpleCountingScope.startJoin_state (sc : SimpleCountingScope) :
    sc.startJoin.state ≠ .isOpen := by
  unfold startJoin
  split <;> simp

/-- An `AsyncDestroy` that waits has started to join the scope. -/
theorem joining_of_exec {A : Actor} {tr : List (ActorPool × ActorAction)} {p : ActorPool}
    (h : A.machine.Exec tr p) : p.shared.asyncScope.Waits ∧
      ∀ t ∈ p.threads, ∀ k, t = .destroyer k .awaitJoin → p.shared.asyncScope.state ≠ .isOpen := by
  refine Actor.invariant (I := fun p => p.shared.asyncScope.Waits ∧ ∀ t ∈ p.threads, ∀ k,
    t = .destroyer k .awaitJoin → p.shared.asyncScope.state ≠ .isOpen) ?_ ?_ ?_ h
  · exact ⟨by simp [SimpleCountingScope.Waits, Actor.initial, SimpleCountingScope.empty], by simp⟩
  · intro _ p i s t _ hI hat
    cases hat <;> exact ⟨hI.1, Pool.forall_arrive hI.2 (fun _ hu => hu) (by simp)⟩
  · intro _ s s' l t r new env _ hI hstep
    have hothers := fun u hu => hI.2 u (Pool.mem_of_mem_others hu)
    cases hstep with
    | schedule c sc hok hj hst hn =>
        refine ⟨fun _ => ?_, Pool.forall_replace (fun u hu k hk => ?_) ?_⟩
        · simp only [hn]
          omega
        · simpa [hst] using hothers u hu k hk
        · cases c <;> simp [Caller.after]
    | join k =>
        exact ⟨SimpleCountingScope.waits_startJoin _,
          Pool.forall_replace (fun _ _ _ _ => SimpleCountingScope.startJoin_state _)
            fun _ _ _ _ => SimpleCountingScope.startJoin_state _⟩
    | ret =>
        refine ⟨hI.1.disassociate, Pool.forall_replace (fun u hu k hk hopen => ?_) (by simp)⟩
        have hne := hothers u hu k hk
        unfold SimpleCountingScope.disassociate at hopen
        split at hopen
        · simp at hopen
        · exact hne hopen
    | count m i pc hpc =>
        refine ⟨hI.1, Pool.forall_replace hothers ?_⟩
        rcases hpc with ⟨-, rfl⟩ | ⟨-, rfl⟩ <;> simp
    | lose c | dropped c =>
        exact ⟨hI.1, Pool.forall_replace hothers (by cases c <;> simp [Caller.after])⟩
    | win c => exact ⟨hI.1, Pool.forall_replace hothers (by cases c <;> simp [Caller.at])⟩
    | _ => exact ⟨hI.1, Pool.forall_replace hothers (by simp)⟩

/-- **What is left in an actor that is stuck**: pushes into mailboxes that do not exist. -/
theorem Actor.Stuck.thread_cases {A : Actor} {tr : List (ActorPool × ActorAction)} {p : ActorPool}
    (h : A.machine.Exec tr p) (hstuck : A.Stuck p) {t : Thread} (ht : t ∈ p.threads) :
    ∃ m i, t = .producer m i .push ∧ p.shared.mailboxSet.mailboxCount ≤ i := by
  have hheld := fun u hu => Actor.run_eq_none (hstuck.run_eq_none (t := u) hu)
  rcases hheld t ht with hpush | ⟨k, rfl, hstate⟩
  · exact hpush
  · -- the scope waits for an activation, and no activation is held up
    exfalso
    obtain ⟨hwaits, hjoining⟩ := joining_of_exec h
    have hpos : 0 < p.shared.asyncScope.associations := by
      refine hwaits ?_
      cases hsc : p.shared.asyncScope.state with
      | isOpen => exact absurd hsc (hjoining _ ht k rfl)
      | openAndJoining => rfl
      | joined => exact absurd hsc hstate
    rw [associations_of_exec h] at hpos
    refine hpos.ne' (Pool.total_eq_zero_iff.2 fun u hu => ?_)
    rcases hheld u hu with ⟨m, i, rfl, -⟩ | ⟨k', rfl, -⟩
    · rfl
    · rfl

/-- No thread of an actor that is stuck weighs anything that such a push does not. -/
theorem Actor.Stuck.total_eq_zero {A : Actor} {tr : List (ActorPool × ActorAction)} {p : ActorPool}
    (h : A.machine.Exec tr p) (hstuck : A.Stuck p) {w : Thread → ℕ}
    (hw : ∀ m i, w (.producer m i .push) = 0) : p.total w = 0 := by
  refine Pool.total_eq_zero_iff.2 fun t ht => ?_
  obtain ⟨m, i, rfl, -⟩ := hstuck.thread_cases h ht
  exact hw m i

/-! ### Messages that are not completed -/

/-- Every message is on its way to its mailbox, in it, in the hands of an activation, or
completed. -/
theorem Actor.Step.le_completions {A : Actor} {env : Env} {s s' : ActorState} {t : Thread}
    {new : List Thread} (h : A.Step env s t s' new) (m : Message) :
    t.holds m + s.mailboxSet.messages.count m + tally (Event.completes m) s.log
      ≤ (new.map (Thread.holds m)).sum + s'.mailboxSet.messages.count m
        + tally (Event.completes m) s'.log := by
  cases h with
  | push m' i set hpush =>
      have hcount := (MailboxSet.messages_push hpush).count_eq m
      rw [List.count_cons] at hcount
      simp [ActorState.emit, Thread.holds, tally, Event.completes] at hcount ⊢
      omega
  | pop limit executed i m' set hpop =>
      have hcount := (MailboxSet.messages_tryPop hpop).count_eq m
      rw [List.count_cons] at hcount
      simp [ActorState.emit, Thread.holds, tally, Event.completes] at hcount ⊢
      omega
  | lose | win | dropped => simp
  | schedule =>
      rw [holds_at]
      simp [Thread.holds]
  | count m' i pc hpc =>
      rcases hpc with ⟨-, rfl⟩ | ⟨-, rfl⟩ <;>
        simp [ActorState.emit, Thread.holds, tally, Event.completes]
  | popNone limit executed i pc hnone hpc =>
      rcases hpc with rfl | rfl <;> simp [Thread.holds]
  | execute limit executed i m' pc hpc =>
      rcases hpc with ⟨-, rfl⟩ | ⟨-, rfl⟩ <;>
        simp [ActorState.emit, Thread.holds, tally, Event.completes] <;> omega
  | pushFull =>
      simp [ActorState.emit, Thread.holds, tally, Event.completes]
      omega
  | _ => simp [ActorState.emit, Thread.holds, tally, Event.completes]

/-- The push of every message has still to ask the hook, has asked it, or is over. -/
theorem Actor.Step.le_asked {A : Actor} {env : Env} {s s' : ActorState} {t : Thread}
    {new : List Thread} (h : A.Step env s t s' new) (hhook : A.hasShouldActivateHook = true)
    (m : Message) :
    t.before m .asked + tally (Event.passes m .asked) s.log + tally (Event.completes m) s.log
      ≤ (new.map (Thread.before m .asked)).sum + tally (Event.passes m .asked) s'.log
        + tally (Event.completes m) s'.log := by
  cases h with
  | lose | win | dropped => simp
  | schedule =>
      rw [before_at]
      simp [Thread.before]
  | count m' i pc hpc =>
      rcases hpc with ⟨-, rfl⟩ | ⟨hno, -⟩
      · simp [Thread.before, Event.passes, Event.completes]
      · simp [hhook] at hno
  | popNone limit executed i pc hnone hpc =>
      rcases hpc with rfl | rfl <;> simp [Thread.before]
  | execute limit executed i m' pc hpc =>
      rcases hpc with ⟨-, rfl⟩ | ⟨-, rfl⟩ <;>
        simp [Thread.before, Event.passes, Event.completes]
  | _ => simp [Thread.before, Event.passes, Event.completes] <;> omega

/-- **A message that is not completed is somewhere.** -/
theorem present_of_submitted {A : Actor} {tr : List (ActorPool × ActorAction)} {p : ActorPool}
    (h : A.machine.Exec tr p) {m : ℕ} (hm : m < p.shared.submitted) :
    0 < p.total (Thread.holds m) + p.shared.mailboxSet.messages.count m
      + completions m p.shared.log := by
  refine Actor.invariant (I := fun p => m < p.shared.submitted → 0 < p.total (Thread.holds m)
    + p.shared.mailboxSet.messages.count m + completions m p.shared.log) ?_ ?_ ?_ h hm
  · simp [Actor.initial]
  · intro _ p i s t _ hI hat hlt
    rw [Pool.total_arrive _ p]
    cases hat with
    | pushMessage i hroom =>
        rw [submitted_holds]
        rcases Nat.lt_succ_iff_lt_or_eq.1 hlt with hlt | rfl
        · have := hI hlt
          simp only at this ⊢
          omega
        · simp only [if_true]
          omega
    | asyncDestroy => simpa [Thread.holds] using hI hlt
  · intro _ s s' l t r new env _ hI hstep hlt
    have hle := hstep.le_completions m
    have hold := hI (hstep.submitted_eq ▸ hlt)
    rw [Pool.total_before] at hold
    rw [Pool.total_after]
    simp only [completions] at hold ⊢
    omega

/-- **The hook is asked for every message**, where there is one. -/
theorem asked_of_submitted {A : Actor} (hhook : A.hasShouldActivateHook = true)
    {tr : List (ActorPool × ActorAction)} {p : ActorPool} (h : A.machine.Exec tr p) {m : ℕ}
    (hm : m < p.shared.submitted) :
    0 < p.total (Thread.before m .asked) + tally (Event.passes m .asked) p.shared.log
      + completions m p.shared.log := by
  refine Actor.invariant (I := fun p => m < p.shared.submitted →
    0 < p.total (Thread.before m .asked) + tally (Event.passes m .asked) p.shared.log
      + completions m p.shared.log) ?_ ?_ ?_ h hm
  · simp [Actor.initial]
  · intro _ p i s t _ hI hat hlt
    rw [Pool.total_arrive _ p]
    cases hat with
    | pushMessage i hroom =>
        have hnew : (Thread.producer p.shared.submitted i .push).before m .asked
            = if p.shared.submitted = m then 1 else 0 := rfl
        rw [hnew]
        rcases Nat.lt_succ_iff_lt_or_eq.1 hlt with hlt | rfl
        · have := hI hlt
          simp only at this ⊢
          omega
        · simp only [if_true]
          omega
    | asyncDestroy => simpa [Thread.before] using hI hlt
  · intro _ s s' l t r new env _ hI hstep hlt
    have hle := hstep.le_asked hhook m
    have hold := hI (hstep.submitted_eq ▸ hlt)
    rw [Pool.total_before] at hold
    rw [Pool.total_after]
    simp only [completions] at hold ⊢
    omega

/-! ### Steps that do not leave a message behind -/

/-- The thread is the push of the message. -/
def Thread.pushes (m : Message) : Thread → Bool
  | .producer m' _ _ => m' = m
  | _ => false

/-- The thread is about to execute the message. -/
def Thread.executes (m : Message) : Thread → Bool
  | .activation (.execute _ _ _ m') => m' = m
  | _ => false

/-- The hook was called for the push of the message. -/
def Asked (log : List Event) (m : Message) : Prop := 0 < tally (Event.passes m .asked) log

instance (log : List Event) (m : Message) : Decidable (Asked log m) :=
  inferInstanceAs (Decidable (_ < _))

/-- A step of the thread does not leave the message behind. -/
structure Harmless (m : Message) (p : ActorPool) (env : Env) (t : Thread) : Prop where
  /-- `Schedule` throws for the push of the message only, whose sender is told so. -/
  schedule : t.pushSchedules = 1 → t.pushes m = false → env.connect = .ok ()
  /-- A push that the hook refuses is not the last one that could have activated the actor for the
  message. -/
  hook : t.asksHook = 1 → env.shouldActivate ≠ .ok true → m ∈ p.shared.mailboxSet.messages →
    (if t.pushes m then env.shouldActivate = .ok false else Asked p.shared.log m) →
      p.shared.activated = true ∨ 0 < p.total Thread.willCheck ∨
        t.early p.shared.log < p.total (Thread.early p.shared.log)
  /-- The receiver of the message is not asked to stop. -/
  stop : t.executes m = true → env.stopRequested = false

instance (m : Message) (p : ActorPool) (env : Env) (t : Thread) : Decidable (Harmless m p env t) :=
  decidable_of_iff
    ((t.pushSchedules = 1 → t.pushes m = false → env.connect = .ok ()) ∧
      (t.asksHook = 1 → env.shouldActivate ≠ .ok true → m ∈ p.shared.mailboxSet.messages →
        (if t.pushes m then env.shouldActivate = .ok false else Asked p.shared.log m) →
          p.shared.activated = true ∨ 0 < p.total Thread.willCheck ∨
            t.early p.shared.log < p.total (Thread.early p.shared.log)) ∧
      (t.executes m = true → env.stopRequested = false))
    ⟨fun h => ⟨h.1, h.2.1, h.2.2⟩, fun h => ⟨h.schedule, h.hook, h.stop⟩⟩

/-- The action is not `AsyncDestroy`, and its step does not leave the message behind. -/
def SparesMessage (m : Message) (p : ActorPool) : ActorAction → Prop
  | .arrive .asyncDestroy => False
  | .arrive (.pushMessage _) => True
  | .run n env => ∀ t ∈ p.threads[n]?, Harmless m p env t

/-- As long as the message is not completed, nothing leaves it behind. -/
def Unhindered (m : Message) (p : ActorPool) (a : ActorAction) : Prop :=
  completions m p.shared.log = 0 → SparesMessage m p a

instance (m : Message) (p : ActorPool) (a : ActorAction) : Decidable (SparesMessage m p a) :=
  match a with
  | .arrive .asyncDestroy => isFalse id
  | .arrive (.pushMessage _) => isTrue trivial
  | .run n _ => inferInstanceAs (Decidable (∀ t ∈ p.threads[n]?, _))

instance (m : Message) (p : ActorPool) (a : ActorAction) : Decidable (Unhindered m p a) :=
  inferInstanceAs (Decidable (_ → _))

/-! ### No receiver waits for ever -/

theorem completions_eq_zero_iff {m : Message} {log : List Event} :
    completions m log = 0 ↔ ∀ e ∈ log, e.completes m = 0 := by
  simp [completions, tally, List.sum_eq_zero_iff_forall_eq_nat]

/-- What was completed stays completed. -/
theorem meets_sparesMessage {A : Actor} {m : Message} {tr : List (ActorPool × ActorAction)}
    {p : ActorPool} (h : A.machine.Exec tr p) (hU : Machine.Meets (Unhindered m) tr)
    (hzero : completions m p.shared.log = 0) : Machine.Meets (SparesMessage m) tr := by
  induction h with
  | init _ => exact Machine.meets_nil _
  | @step tr p p' a _ hn ih =>
      obtain ⟨hU, hlast⟩ := (Machine.meets_append ..).1 hU
      have hmono : completions m p.shared.log ≤ completions m p'.shared.log :=
        tally_mono (Actor.log_prefix_of_next hn)
      have hzero' : completions m p.shared.log = 0 := by omega
      exact (Machine.meets_append ..).2 ⟨ih hU hzero',
        (Machine.meets_singleton ..).2 ((Machine.meets_singleton ..).1 hlast hzero')⟩

theorem Actor.Step.pushThrew_le {A : Actor} {m : Message} {env : Env} {s s' : ActorState}
    {t : Thread} {new : List Thread} (h : A.Step env s t s' new)
    (hschedule : t.pushSchedules = 1 → t.pushes m = false → env.connect = .ok ())
    (hI : tally Event.pushThrew s.log ≤ completions m s.log) :
    tally Event.pushThrew s'.log ≤ completions m s'.log := by
  unfold completions at hI ⊢
  cases h with
  | pushThrew m' i e he =>
      have hpush : m' = m := by
        by_contra hne
        have hok := hschedule rfl (decide_eq_false hne)
        rw [he] at hok
        cases hok
      simp [Event.pushThrew, Event.completes, hpush]
      omega
  | lose | win | dropped | schedule | setPending | countDestroy | join | start | entryAlive
  | entryNull | alreadyDestroyed | pending | notPending | storeDestroyed | subDestroyed | loadLimit
  | popNone | store | loadZero | loadPos | ret => exact hI
  | _ =>
      simp [Event.pushThrew, Event.completes]
      omega

/-- The `Schedule` of a push throws for the message at most. -/
theorem pushThrew_le_completions {A : Actor} {m : Message} {tr : List (ActorPool × ActorAction)}
    {p : ActorPool} (h : A.machine.Exec tr p) (hS : Machine.Meets (SparesMessage m) tr) :
    tally Event.pushThrew p.shared.log ≤ completions m p.shared.log := by
  refine Actor.invariantWhere
    (I := fun p => tally Event.pushThrew p.shared.log ≤ completions m p.shared.log) ?_ ?_ ?_ h hS
  · exact Nat.zero_le _
  · intro _ p i s t _ _ hI _ hat
    cases hat <;> exact hI
  · intro _ s s' l t r new env _ _ hI hok hstep
    exact hstep.pushThrew_le (hok t (Pool.getElem?_middle l r t)).schedule hI

/-- The message waits, and its push has asked the hook. -/
def Outstanding (m : Message) (log : List Event) (x : Message) : Prop :=
  x = m ∧ Asked log m ∧ completions m log = 0

theorem exists_hook_of_asked {log : List Event} {m : Message} (h : Asked log m) :
    ∃ alive answer, .hook m alive answer ∈ log := by
  by_contra hnone
  refine Nat.pos_iff_ne_zero.1 h (List.sum_eq_zero_iff_forall_eq_nat.2 fun n hn => ?_)
  obtain ⟨e, he, rfl⟩ := List.mem_map.1 hn
  cases e with
  | hook m' alive answer =>
      by_cases hm : m' = m
      · subst hm
        exact absurd ⟨alive, answer, he⟩ hnone
      · simp [Event.passes, hm]
  | _ => rfl

theorem expects_outstanding (m : Message) : Expects (Outstanding m) where
  asked := by
    rintro log x ⟨rfl, hasked, -⟩
    exact exists_hook_of_asked hasked
  kept := by
    rintro log e x ⟨rfl, hasked, hzero⟩
    obtain ⟨alive, answer, hmem⟩ := exists_hook_of_asked hasked
    rcases List.mem_append.1 hmem with hmem | hmem
    · have hpos := le_tally_of_mem (w := Event.passes x .asked) hmem
      simp only [Event.passes, if_true] at hpos
      have hle : completions x log ≤ completions x (log ++ [e]) :=
        tally_mono (List.prefix_append log [e])
      exact Or.inl ⟨rfl, hpos, by omega⟩
    · exact Or.inr ⟨alive, answer, (List.mem_singleton.1 hmem).symm⟩

/-- What a push does that the hook refuses. -/
theorem Actor.Step.refused {A : Actor} {env : Env} {s s' : ActorState} {t : Thread}
    {new : List Thread} (h : A.Step env s t s' new) (hasks : t.asksHook = 1)
    (hrefused : env.shouldActivate ≠ .ok true) (m : Message) :
    new = [] ∧ s'.mailboxSet = s.mailboxSet ∧ s'.activated = s.activated ∧
      (t.pushes m = false → Asked s'.log m → Asked s.log m) ∧
      (t.pushes m = true → completions m s'.log = 0 → env.shouldActivate = .ok false) := by
  cases h with
  | veto m' i hv =>
      refine ⟨rfl, rfl, rfl, fun hm hasked => ?_, fun _ _ => hv⟩
      have hne : m' ≠ m := of_decide_eq_false hm
      simpa [Asked, Event.passes, hne] using hasked
  | hookThrew m' i e he =>
      refine ⟨rfl, rfl, rfl, fun hm hasked => ?_, fun hm hzero => ?_⟩
      · have hne : m' ≠ m := of_decide_eq_false hm
        simpa [Asked, Event.passes, hne] using hasked
      · -- the sender of the message is told
        have heq : m' = m := of_decide_eq_true hm
        simp [completions, Event.completes, heq] at hzero
  | approve m' i he => exact absurd he hrefused
  | lose | win | dropped | schedule => simp at hasks
  | _ => simp [Thread.asksHook] at hasks

/-- A push that the hook refuses keeps `NotStranded`, if it is harmless. -/
theorem notStranded_of_harmless {A : Actor} {m : Message} {env : Env} {s s' : ActorState}
    {l r new : List Thread} {t : Thread} (hok : Harmless m ⟨s, l ++ t :: r⟩ env t)
    (hstep : A.Step env s t s' new) (hasks : t.asksHook = 1)
    (hrefused : env.shouldActivate ≠ .ok true) :
    NotStranded (Outstanding m) ⟨s', l ++ new ++ r⟩ := by
  rintro hact hcheck hearly x hx ⟨rfl, hasked, hzero⟩
  obtain ⟨rfl, hset, hflag, hother, hown⟩ := hstep.refused hasks hrefused x
  have hmono := Pool.others_le_others (l := l) (r := r) fun u _ => early_mono hstep.log_prefix u
  have hcheck' : t.willCheck = 0 := by
    rcases t with ⟨m, i, pc⟩ | ⟨k, pc⟩ | pc
    · cases pc <;> simp_all [Thread.asksHook, Thread.willCheck]
    · simp [Thread.asksHook] at hasks
    · simp [Thread.asksHook] at hasks
  rw [Pool.total_after, List.map_nil, List.sum_nil, Nat.zero_add] at hcheck hearly
  have hwaits : if t.pushes x then env.shouldActivate = .ok false else Asked s.log x := by
    split
    · next hpush => exact hown hpush hzero
    · next hpush => exact hother (Bool.not_eq_true _ ▸ hpush) hasked
  rcases hok.hook hasks hrefused (hset ▸ hx) hwaits with hactive | hway | hbefore
  · simp only at hact hactive
    simp [hflag, hactive] at hact
  · rw [Pool.total_before, hcheck', hcheck] at hway
    exact absurd hway (lt_irrefl 0)
  · rw [Pool.total_before] at hbefore
    simp only at hearly hbefore
    omega

/-- The flag of an actor that is stuck was not lost. -/
theorem activated_eq_false_of_stuck {A : Actor} {m : Message}
    {tr : List (ActorPool × ActorAction)} {p : ActorPool} (h : A.machine.Exec tr p)
    (hS : Machine.Meets (SparesMessage m) tr) (hun : Untouched p) (hstuck : A.Stuck p)
    (hzero : completions m p.shared.log = 0) : p.shared.activated = false := by
  have hflag := activated_le_of_exec h
  have hpush := pushThrew_le_completions h hS
  have hdestroy : tally Event.destroyFailed p.shared.log = 0 := by
    by_contra hne
    have := (destruction_of_exec h).ended (by omega)
    simp [hun.pending] at this
  rw [hzero, Nat.le_zero] at hpush
  simp only [hstuck.total_eq_zero h (w := Thread.owns) (fun _ _ => rfl), ActorState.losses,
    ActorState.joined, hun.alive, hun.scope, hpush, hdestroy] at hflag
  cases hact : p.shared.activated with
  | false => rfl
  | true => simp [hact] at hflag

/-- **No receiver waits for ever.**  When an actor is stuck after a run in which nothing has left
the message behind, the message has been completed, provided that its mailbox exists. -/
theorem completed_of_stuck {A : Actor} {m : ℕ} {tr : List (ActorPool × ActorAction)}
    {p : ActorPool} (h : A.machine.Exec tr p) (hU : Machine.Meets (Unhindered m) tr)
    (hstuck : A.Stuck p) (hm : m < p.shared.submitted)
    (hindex : ∀ i, .producer m i .push ∈ p.threads → i < p.shared.mailboxSet.mailboxCount) :
    0 < completions m p.shared.log := by
  by_contra hnot
  have hzero : completions m p.shared.log = 0 := Nat.eq_zero_of_not_pos hnot
  have hS := meets_sparesMessage h hU hzero
  have hN : Machine.Meets NotDestroyed tr := hS.mono fun q a hq => by
    cases a with
    | arrive i => cases i with
      | pushMessage i => trivial
      | asyncDestroy => exact hq
    | run n env => trivial
  have hun := untouched_of_exec h hN
  have hact := activated_eq_false_of_stuck h hS hun hstuck hzero
  have hleft (w : Thread → ℕ) (hw : ∀ m i, w (.producer m i .push) = 0) : p.total w = 0 :=
    hstuck.total_eq_zero h hw
  -- the push of the message is over, so the message is in its mailbox
  have hgone : ∀ t ∈ p.threads, ∀ i, t ≠ .producer m i .push := by
    rintro t ht i rfl
    obtain ⟨m', i', heq, hle⟩ := hstuck.thread_cases h ht
    cases heq
    exact absurd (hindex i ht) (Nat.not_lt.2 hle)
  have hover (w : Thread → ℕ) (hw : ∀ m' i, m' ≠ m → w (.producer m' i .push) = 0) :
      p.total w = 0 := by
    refine Pool.total_eq_zero_iff.2 fun t ht => ?_
    obtain ⟨m', i, rfl, -⟩ := hstuck.thread_cases h ht
    exact hw m' i fun heq => hgone _ ht i (heq ▸ rfl)
  have hholds : p.total (Thread.holds m) = 0 := hover _ fun m' i hne => by simp [Thread.holds, hne]
  have hqueued : m ∈ p.shared.mailboxSet.messages := by
    have hpresent := present_of_submitted h hm
    rw [hholds, hzero] at hpresent
    exact List.count_pos_iff.1 (by omega)
  cases hhook : A.hasShouldActivateHook with
  | false =>
      -- the counter of an actor without the hook is zero when nobody is on the way
      have hpending := wakeup_of_exec hhook h hN hact (hleft _ fun _ _ => rfl)
      have hempty := queued_eq_zero h hun (hleft _ fun _ _ => rfl) (hleft _ fun _ _ => rfl) hpending
      obtain ⟨q, hq, hmq⟩ := MailboxSet.mem_messages.1 hqueued
      simp [MailboxSet.queued_eq_zero_iff.1 hempty q hq] at hmq
  | true =>
      have hnot : NotStranded (Outstanding m) p :=
        (expects_outstanding m).notStranded_of_exec h hN hS
          fun s s' l t r new env hok hstep hasks hrefused _ =>
            notStranded_of_harmless (hok t (Pool.getElem?_middle l r t)) hstep hasks hrefused
      refine hnot hact (hleft _ fun _ _ => rfl) (hleft _ fun _ _ => rfl) m hqueued ⟨rfl, ?_, hzero⟩
      have hasked := asked_of_submitted hhook h hm
      have hbefore : p.total (Thread.before m .asked) = 0 :=
        hover _ fun m' i hne => by simp [Thread.before, hne]
      rw [hbefore, hzero] at hasked
      simpa [Asked] using hasked

/-! ### How a receiver is completed -/

/-- What completes the receiver of the message: the first event that does. -/
def firstCompletion (log : List Event) (m : Message) : Option Event :=
  log.find? fun e => 0 < e.completes m

/-- The event stops a receiver. -/
def Event.stops : Event → Bool
  | .executed _ _ _ .setStopped => true
  | _ => false

theorem firstCompletion_eq_none_iff {log : List Event} {m : Message} :
    firstCompletion log m = none ↔ completions m log = 0 := by
  rw [completions_eq_zero_iff, firstCompletion, List.find?_eq_none]
  simp

/-- A receiver is completed by its first completion for good. -/
theorem firstCompletion_of_prefix {log log' : List Event} {m : Message} {e : Event}
    (h : log <+: log') (he : firstCompletion log m = some e) : firstCompletion log' m = some e := by
  obtain ⟨es, rfl⟩ := h
  unfold firstCompletion at he ⊢
  rw [List.find?_append, he, Option.some_or]

/-- A receiver is stopped where its message is executed after a stop was requested. -/
theorem Actor.Step.stops {A : Actor} {env : Env} {s s' : ActorState} {t : Thread}
    {new : List Thread} (h : A.Step env s t s' new) {m : Message} {e : Event} (he : e ∈ s'.log)
    (hcompletes : 0 < e.completes m) (hstops : e.stops = true) :
    e ∈ s.log ∨ t.executes m = true ∧ env.stopRequested = true := by
  cases h with
  | execute limit executed i m' pc hpc =>
      rcases List.mem_append.1 he with he | he
      · exact Or.inl he
      · obtain rfl := List.mem_singleton.1 he
        refine Or.inr ⟨?_, ?_⟩
        · simp only [Event.completes] at hcompletes
          split at hcompletes
          · next heq => simp [Thread.executes, heq]
          · cases hcompletes
        · cases hstop : env.stopRequested with
          | true => rfl
          | false => simp [Event.stops, executeMessage, hstop] at hstops
  | hookThrew =>
      rcases List.mem_append.1 he with he | he
      · rcases List.mem_append.1 he with he | he
        · exact Or.inl he
        · simp [List.mem_singleton.1 he, Event.stops] at hstops
      · simp [List.mem_singleton.1 he, Event.stops] at hstops
  | lose | win | dropped | schedule | setPending | countDestroy | join | start | entryAlive
  | entryNull | alreadyDestroyed | pending | notPending | storeDestroyed | subDestroyed | loadLimit
  | popNone | store | loadZero | loadPos | ret => exact Or.inl he
  | _ =>
      rcases List.mem_append.1 he with he | he
      · exact Or.inl he
      · simp [List.mem_singleton.1 he, Event.stops] at hstops

/-- **The receiver is not stopped**, in a run that is not hindered. -/
theorem not_stops_of_exec {A : Actor} {m : Message} {tr : List (ActorPool × ActorAction)}
    {p : ActorPool} (h : A.machine.Exec tr p) (hU : Machine.Meets (Unhindered m) tr) :
    ∀ e, firstCompletion p.shared.log m = some e → e.stops = false := by
  refine Actor.invariantWhere
    (I := fun p => ∀ e, firstCompletion p.shared.log m = some e → e.stops = false) ?_ ?_ ?_ h hU
  · simp [firstCompletion, Actor.initial]
  · intro _ p i s t _ _ hI _ hat
    cases hat <;> exact hI
  · intro _ s s' l t r new env _ _ hI hok hstep e he
    cases hold : firstCompletion s.log m with
    | some e' =>
        have hnew := firstCompletion_of_prefix hstep.log_prefix hold
        obtain rfl := Option.some.inj (hnew.symm.trans he)
        exact hI e' hold
    | none =>
        have hharmless := hok (firstCompletion_eq_none_iff.1 hold) t (Pool.getElem?_middle l r t)
        have hfind : s'.log.find? (fun e => decide (0 < e.completes m)) = some e := he
        have hcompletes : 0 < e.completes m := by simpa using List.find?_some hfind
        by_contra hstops
        rcases hstep.stops (List.mem_of_find?_eq_some hfind) hcompletes
          (Bool.not_eq_false _ ▸ hstops) with hmem | ⟨hexecutes, hstop⟩
        · have := completions_eq_zero_iff.1 (firstCompletion_eq_none_iff.1 hold) e hmem
          omega
        · simp [hharmless.stop hexecutes] at hstop

end ExActor
