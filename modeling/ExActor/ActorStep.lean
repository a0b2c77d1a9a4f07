/-
**What a step of an actor can do.**

`Actor.Step` lists the ways through `PushMessage`, `AsyncDestroy` and `PullMailboxAndRun`, one
constructor for each, with the condition under which the source takes it.  Every invariant of the
actor is proved by cases on it and never unfolds the step functions.  `TryActivate` is shared by
the three functions, so its four ways are stated once, for any `Caller`.

Main definitions:

* `Caller` — who called `TryActivate`;
* `Actor.Step`, `ArrivedAs` — what a step can do, and what an arrival brings;
* `tally` — the sum of a weight over the history.

Main results:

* `Actor.step_of_run` — every step is one of `Actor.Step`;
* `Actor.next_cases` — what an action of the machine does;
* `Actor.invariantWhere`, `Actor.invariant` — the invariant rules;
* `mailboxCount_of_exec` — an actor keeps the number of mailboxes it was configured with.
-/

import ExActor.Actor
import Mathlib.Algebra.Order.BigOperators.Group.List
import Mathlib.Algebra.Order.Group.Nat

set_option relaxedAutoImplicit false
set_option autoImplicit false

namespace ExActor

/-! ### What a step can do -/

/-- The callers of `TryActivate`. -/
inductive Caller
  | push (m : Message) (mailboxIndex : ℕ)
  | destroy (k : ℕ)
  | pull

/-- The caller inside `TryActivate`. -/
def Caller.at : Caller → TryActivatePc → Thread
  | .push m mailboxIndex, pc => .producer m mailboxIndex (.tryActivate pc)
  | .destroy k, pc => .destroyer k (.tryActivate pc)
  | .pull, pc => .activation (.tryActivate pc)

/-- The caller after `TryActivate` has returned. -/
def Caller.after : Caller → List Thread
  | .push _ _ => []
  | .destroy k => [.destroyer k .join]
  | .pull => [.activation .ret]

/-- What a step can do: `A.Step env s t s' new` replaces the thread `t` by the threads `new`. -/
inductive Actor.Step (A : Actor) (env : Env) (s : ActorState) :
    Thread → ActorState → List Thread → Prop
  | pushFull (m : Message) (i : ℕ) : s.mailboxSet.push i m = some (.error (.mailboxFull i)) →
      Step A env s (.producer m i .push) (s.emit (.setError m (.mailboxFull i))) []
  | push (m : Message) (i : ℕ) (set : MailboxSet) : s.mailboxSet.push i m = some (.ok set) →
      Step A env s (.producer m i .push) ({ s with mailboxSet := set }.emit (.pushed m i))
        [.producer m i .fetchAdd]
  | count (m : Message) (i : ℕ) (pc : PushPc) :
      (A.hasShouldActivateHook = true ∧ pc = .shouldActivate) ∨
        (A.hasShouldActivateHook = false ∧ pc = .tryActivate .cas) →
      Step A env s (.producer m i .fetchAdd)
        ({ s with pendingMessageCount := s.pendingMessageCount + 1 }.emit (.counted m))
        [.producer m i pc]
  | hookThrew (m : Message) (i : ℕ) (e : String) : env.shouldActivate = .error e →
      Step A env s (.producer m i .shouldActivate)
        ((s.emit (.hook m s.userClassInstance (.error e))).emit
          (.setError m (.shouldActivate e))) []
  | approve (m : Message) (i : ℕ) : env.shouldActivate = .ok true →
      Step A env s (.producer m i .shouldActivate)
        (s.emit (.hook m s.userClassInstance (.ok true))) [.producer m i (.tryActivate .cas)]
  | veto (m : Message) (i : ℕ) : env.shouldActivate = .ok false →
      Step A env s (.producer m i .shouldActivate)
        (s.emit (.hook m s.userClassInstance (.ok false))) []
  | lose (c : Caller) : s.activated = true → Step A env s (c.at .cas) s c.after
  | win (c : Caller) : s.activated = false →
      Step A env s (c.at .cas) { s with activated := true } [c.at .schedule]
  | dropped (c : Caller) : env.connect = .ok () → s.asyncScope.state = .joined →
      Step A env s (c.at .schedule) s c.after
  | schedule (c : Caller) (sc : SimpleCountingScope) : env.connect = .ok () →
      s.asyncScope.state ≠ .joined → sc.state = s.asyncScope.state →
      sc.associations = s.asyncScope.associations + 1 →
      Step A env s (c.at .schedule) { s with asyncScope := sc }
        (c.after ++ [.activation .scheduled])
  | pushThrew (m : Message) (i : ℕ) (e : String) : env.connect = .error e →
      Step A env s (.producer m i (.tryActivate .schedule)) (s.emit (.setError m (.connect e))) []
  | setPendingLose (k : ℕ) : s.pendingToBeDestroyed = true →
      Step A env s (.destroyer k .setPendingToBeDestroyed) (s.emit (.destroyed k)) []
  | setPending (k : ℕ) : s.pendingToBeDestroyed = false →
      Step A env s (.destroyer k .setPendingToBeDestroyed) { s with pendingToBeDestroyed := true }
        [.destroyer k .fetchAdd]
  | countDestroy (k : ℕ) :
      Step A env s (.destroyer k .fetchAdd)
        { s with pendingMessageCount := s.pendingMessageCount + 1 }
        [.destroyer k (.tryActivate .cas)]
  | destroyThrew (k : ℕ) (e : String) : env.connect = .error e →
      Step A env s (.destroyer k (.tryActivate .schedule))
        (s.emit (.destroyThrew k (.connect e))) []
  | join (k : ℕ) :
      Step A env s (.destroyer k .join) { s with asyncScope := s.asyncScope.startJoin }
        [.destroyer k .awaitJoin]
  | joined (k : ℕ) : s.asyncScope.state = .joined →
      Step A env s (.destroyer k .awaitJoin) (s.emit (.destroyed k)) []
  | start : Step A env s (.activation .scheduled) s [.activation .entry]
  | entryAlive : s.userClassInstance = true →
      Step A env s (.activation .entry) s [.activation .loadPendingToBeDestroyed]
  | entryNull : s.userClassInstance = false →
      Step A env s (.activation .entry) s [.activation .loadRemaining]
  | alreadyDestroyed : Step A env s (.activation .loadRemaining) s [.activation .ret]
  | pending : s.pendingToBeDestroyed = true →
      Step A env s (.activation .loadPendingToBeDestroyed) s [.activation .reset]
  | notPending : s.pendingToBeDestroyed = false →
      Step A env s (.activation .loadPendingToBeDestroyed) s [.activation .loadLimit]
  | reset : Step A env s (.activation .reset) ({ s with userClassInstance := false }.emit .reset)
      [.activation .storeActivatedDestroyed]
  | storeDestroyed : Step A env s (.activation .storeActivatedDestroyed)
      { s with activated := false } [.activation .fetchSubDestroyed]
  | subDestroyed : Step A env s (.activation .fetchSubDestroyed)
      { s with pendingMessageCount := s.pendingMessageCount - 1 } [.activation .ret]
  | loadLimit : Step A env s (.activation .loadLimit) s
      [.activation (.tryPop
        (min A.config.maxMessageExecutedPerActivation s.pendingMessageCount.toNat) 0 0)]
  | popNone (limit executed i : ℕ) (pc : PullPc) : s.mailboxSet.tryPop i = none →
      pc = .tryPop limit executed (i + 1) ∨ pc = .fetchSub limit executed →
      Step A env s (.activation (.tryPop limit executed i)) s [.activation pc]
  | pop (limit executed i : ℕ) (m : Message) (set : MailboxSet) :
      s.mailboxSet.tryPop i = some (m, set) →
      Step A env s (.activation (.tryPop limit executed i))
        ({ s with mailboxSet := set }.emit (.taken m i))
        [.activation (.execute limit executed i m)]
  | execute (limit executed i : ℕ) (m : Message) (pc : PullPc) :
      (limit ≤ executed + 1 ∧ pc = .fetchSub limit (executed + 1)) ∨
        (executed + 1 < limit ∧ pc = .tryPop limit (executed + 1) i) →
      Step A env s (.activation (.execute limit executed i m))
        (s.emit (.executed m i s.userClassInstance (executeMessage env))) [.activation pc]
  | sub (limit executed : ℕ) : Step A env s (.activation (.fetchSub limit executed))
      ({ s with pendingMessageCount :=
          s.pendingMessageCount - BitVec.ofNat 64 executed }.emit
            (.subtracted s.pendingMessageCount executed)) [.activation .storeActivated]
  | store : Step A env s (.activation .storeActivated) { s with activated := false }
      [.activation .loadPendingMessageCount]
  | loadZero : s.pendingMessageCount = 0 →
      Step A env s (.activation .loadPendingMessageCount) s [.activation .ret]
  | loadPos : s.pendingMessageCount ≠ 0 →
      Step A env s (.activation .loadPendingMessageCount) s [.activation (.tryActivate .cas)]
  | ret : Step A env s (.activation .ret)
      { s with asyncScope := s.asyncScope.disassociate } []

@[simp] theorem SimpleCountingScope.disassociate_associations (sc : SimpleCountingScope) :
    sc.disassociate.associations = sc.associations - 1 := by
  unfold disassociate
  split
  · next h => simp only; omega
  · rfl

@[simp] theorem SimpleCountingScope.startJoin_associations (sc : SimpleCountingScope) :
    sc.startJoin.associations = sc.associations := by
  unfold startJoin
  split
  · next h => exact h.symm
  · rfl

theorem SimpleCountingScope.tryAssociate_eq_none_iff {sc : SimpleCountingScope} :
    sc.tryAssociate = none ↔ sc.state = .joined := by
  unfold tryAssociate
  split <;> simp_all

theorem SimpleCountingScope.tryAssociate_eq_some {sc sc' : SimpleCountingScope}
    (h : sc.tryAssociate = some sc') :
    sc.state ≠ .joined ∧ sc'.state = sc.state ∧ sc'.associations = sc.associations + 1 := by
  unfold tryAssociate at h
  split at h
  · simp at h
  · next hj =>
      obtain rfl := Option.some.inj h
      exact ⟨hj, rfl, rfl⟩

/-- A step of `TryActivate` that does not throw is one of `Actor.Step`, whoever called it. -/
theorem tryActivateStep_spec {A : Actor} {s s' : ActorState} {env : Env} {pc : TryActivatePc}
    {r : TryActivateResult} {new : List Thread} (c : Caller)
    (h : tryActivateStep s env pc = (s', r, new)) :
    match r with
    | .next pc' => A.Step env s (c.at pc) s' (c.at pc' :: new)
    | .returned => A.Step env s (c.at pc) s' (c.after ++ new)
    | .threw e => pc = .schedule ∧ s' = s ∧ new = [] ∧
        ∃ w, env.connect = .error w ∧ e = .connect w := by
  cases pc with
  | cas =>
      simp only [tryActivateStep] at h
      split at h
      · next hact =>
          obtain ⟨rfl, rfl, rfl⟩ := by simpa using h
          simpa using .lose c hact
      · next hact =>
          obtain ⟨rfl, rfl, rfl⟩ := by simpa using h
          exact .win c (by simpa using hact)
  | schedule =>
      simp only [tryActivateStep] at h
      split at h
      · next w hw =>
          obtain ⟨rfl, rfl, rfl⟩ := by simpa using h
          exact ⟨rfl, rfl, rfl, w, hw, rfl⟩
      · next hok =>
          split at h
          · next hsc =>
              obtain ⟨rfl, rfl, rfl⟩ := by simpa using h
              simpa using .dropped c hok (SimpleCountingScope.tryAssociate_eq_none_iff.1 hsc)
          · next sc hsc =>
              obtain ⟨rfl, rfl, rfl⟩ := by simpa using h
              obtain ⟨h₁, h₂, h₃⟩ := SimpleCountingScope.tryAssociate_eq_some hsc
              exact .schedule c sc hok h₁ h₂ h₃

theorem pushMessageStep_spec {A : Actor} {s s' : ActorState} {m : Message} {i : ℕ} {env : Env}
    {pc : PushPc} {new : List Thread} (h : pushMessageStep A s m i env pc = some (s', new)) :
    A.Step env s (.producer m i pc) s' new := by
  cases pc with
  | push =>
      simp only [pushMessageStep] at h
      split at h
      · simp at h
      · next e he =>
          obtain ⟨rfl, rfl⟩ := by simpa using h
          obtain ⟨rfl, -⟩ := MailboxSet.push_eq_error_iff.1 he
          exact .pushFull m i he
      · next set hset =>
          obtain ⟨rfl, rfl⟩ := by simpa using h
          exact .push m i set hset
  | fetchAdd =>
      obtain ⟨rfl, rfl⟩ := by simpa [pushMessageStep] using h
      refine .count m i _ ?_
      cases A.hasShouldActivateHook <;> simp
  | shouldActivate =>
      simp only [pushMessageStep] at h
      split at h
      · next e he =>
          obtain ⟨rfl, rfl⟩ := by simpa using h
          rw [he]
          exact .hookThrew m i e he
      · next he =>
          obtain ⟨rfl, rfl⟩ := by simpa using h
          rw [he]
          exact .approve m i he
      · next he =>
          obtain ⟨rfl, rfl⟩ := by simpa using h
          rw [he]
          exact .veto m i he
  | tryActivate pc =>
      simp only [pushMessageStep] at h
      split at h
      · next hstep =>
          obtain ⟨rfl, rfl⟩ := by simpa using h
          exact tryActivateStep_spec (.push m i) hstep
      · next hstep =>
          obtain ⟨rfl, rfl⟩ := by simpa using h
          exact tryActivateStep_spec (.push m i) hstep
      · next hstep =>
          obtain ⟨rfl, rfl⟩ := by simpa using h
          obtain ⟨rfl, rfl, rfl, w, hw, rfl⟩ := tryActivateStep_spec (A := A) (.push m i) hstep
          exact .pushThrew m i w hw

theorem asyncDestroyStep_spec {A : Actor} {s s' : ActorState} {k : ℕ} {env : Env}
    {pc : DestroyPc} {new : List Thread} (h : asyncDestroyStep s k env pc = some (s', new)) :
    A.Step env s (.destroyer k pc) s' new := by
  cases pc with
  | setPendingToBeDestroyed =>
      simp only [asyncDestroyStep] at h
      split at h
      · next hp =>
          obtain ⟨rfl, rfl⟩ := by simpa using h
          exact .setPendingLose k hp
      · next hp =>
          obtain ⟨rfl, rfl⟩ := by simpa using h
          exact .setPending k (by simpa using hp)
  | fetchAdd =>
      obtain ⟨rfl, rfl⟩ := by simpa [asyncDestroyStep] using h
      exact .countDestroy k
  | tryActivate pc =>
      simp only [asyncDestroyStep] at h
      split at h
      · next hstep =>
          obtain ⟨rfl, rfl⟩ := by simpa using h
          exact tryActivateStep_spec (.destroy k) hstep
      · next hstep =>
          obtain ⟨rfl, rfl⟩ := by simpa using h
          exact tryActivateStep_spec (.destroy k) hstep
      · next hstep =>
          obtain ⟨rfl, rfl⟩ := by simpa using h
          obtain ⟨rfl, rfl, rfl, w, hw, rfl⟩ := tryActivateStep_spec (A := A) (.destroy k) hstep
          exact .destroyThrew k w hw
  | join =>
      obtain ⟨rfl, rfl⟩ := by simpa [asyncDestroyStep] using h
      exact .join k
  | awaitJoin =>
      simp only [asyncDestroyStep] at h
      split at h
      · next hj =>
          obtain ⟨rfl, rfl⟩ := by simpa using h
          exact .joined k hj
      · simp at h

theorem walk_zero (s : ActorState) (limit executed : ℕ) :
    walk s limit executed 0 = .tryPop limit executed 0 := by
  simp [walk, MailboxSet.mailboxCount, s.mailboxSet.pos]

theorem walk_cases (s : ActorState) (limit executed i : ℕ) :
    walk s limit executed i = .tryPop limit executed i ∨
      walk s limit executed i = .fetchSub limit executed := by
  unfold walk
  split
  · exact Or.inl rfl
  · exact Or.inr rfl

theorem pullMailboxAndRunStep_spec {A : Actor} {s s' : ActorState} {env : Env} {pc : PullPc}
    {new : List Thread} (h : pullMailboxAndRunStep A s env pc = some (s', new)) :
    A.Step env s (.activation pc) s' new := by
  cases pc with
  | scheduled =>
      obtain ⟨rfl, rfl⟩ := by simpa [pullMailboxAndRunStep] using h
      exact .start
  | entry =>
      simp only [pullMailboxAndRunStep] at h
      split at h
      · next hu =>
          obtain ⟨rfl, rfl⟩ := by simpa using h
          exact .entryAlive hu
      · next hu =>
          obtain ⟨rfl, rfl⟩ := by simpa using h
          exact .entryNull (by simpa using hu)
  | loadRemaining =>
      obtain ⟨rfl, rfl⟩ := by simpa [pullMailboxAndRunStep] using h
      exact .alreadyDestroyed
  | loadPendingToBeDestroyed =>
      simp only [pullMailboxAndRunStep] at h
      split at h
      · next hp =>
          obtain ⟨rfl, rfl⟩ := by simpa using h
          exact .pending hp
      · next hp =>
          obtain ⟨rfl, rfl⟩ := by simpa using h
          exact .notPending (by simpa using hp)
  | reset =>
      obtain ⟨rfl, rfl⟩ := by simpa [pullMailboxAndRunStep] using h
      exact .reset
  | storeActivatedDestroyed =>
      obtain ⟨rfl, rfl⟩ := by simpa [pullMailboxAndRunStep] using h
      exact .storeDestroyed
  | fetchSubDestroyed =>
      obtain ⟨rfl, rfl⟩ := by simpa [pullMailboxAndRunStep] using h
      exact .subDestroyed
  | loadLimit =>
      simp only [pullMailboxAndRunStep, walk_zero] at h
      obtain ⟨rfl, rfl⟩ := by simpa using h
      exact .loadLimit
  | tryPop limit executed i =>
      simp only [pullMailboxAndRunStep] at h
      split at h
      · next hnone =>
          obtain ⟨rfl, rfl⟩ := by simpa using h
          exact .popNone limit executed i _ hnone (walk_cases ..)
      · next m set hpop =>
          obtain ⟨rfl, rfl⟩ := by simpa using h
          exact .pop limit executed i m set hpop
  | execute limit executed i m =>
      simp only [pullMailboxAndRunStep] at h
      split at h
      · next hle =>
          obtain ⟨rfl, rfl⟩ := by simpa using h
          exact .execute limit executed i m _ (Or.inl ⟨hle, rfl⟩)
      · next hle =>
          obtain ⟨rfl, rfl⟩ := by simpa using h
          exact .execute limit executed i m _ (Or.inr ⟨by omega, rfl⟩)
  | fetchSub limit executed =>
      obtain ⟨rfl, rfl⟩ := by simpa [pullMailboxAndRunStep] using h
      exact .sub limit executed
  | storeActivated =>
      obtain ⟨rfl, rfl⟩ := by simpa [pullMailboxAndRunStep] using h
      exact .store
  | loadPendingMessageCount =>
      simp only [pullMailboxAndRunStep] at h
      split at h
      · next hz =>
          obtain ⟨rfl, rfl⟩ := by simpa using h
          exact .loadZero hz
      · next hz =>
          obtain ⟨rfl, rfl⟩ := by simpa using h
          exact .loadPos hz
  | tryActivate pc =>
      simp only [pullMailboxAndRunStep] at h
      split at h
      · next hstep =>
          obtain ⟨rfl, rfl⟩ := by simpa using h
          exact tryActivateStep_spec .pull hstep
      · next hstep =>
          obtain ⟨rfl, rfl⟩ := by simpa using h
          exact tryActivateStep_spec .pull hstep
      · simp at h
  | ret =>
      obtain ⟨rfl, rfl⟩ := by simpa [pullMailboxAndRunStep] using h
      exact .ret

/-- **Every step is one of `Actor.Step`.** -/
theorem Actor.step_of_run {A : Actor} {s s' : ActorState} {t : Thread} {env : Env}
    {new : List Thread} (h : A.run s t env = some (s', new)) : A.Step env s t s' new := by
  cases t with
  | producer m i pc => exact pushMessageStep_spec h
  | destroyer k pc => exact asyncDestroyStep_spec h
  | activation pc => exact pullMailboxAndRunStep_spec h

/-! ### Sums over the history -/

/-- The sum of a weight over the history. -/
def tally (w : Event → ℕ) (log : List Event) : ℕ := (log.map w).sum

@[simp] theorem tally_nil (w : Event → ℕ) : tally w [] = 0 := rfl

@[simp] theorem tally_emit (w : Event → ℕ) (s : ActorState) (e : Event) :
    tally w (s.emit e).log = tally w s.log + w e := by
  simp [tally, ActorState.emit]

theorem tally_mono {w : Event → ℕ} {log log' : List Event} (h : log <+: log') :
    tally w log ≤ tally w log' := by
  obtain ⟨es, rfl⟩ := h
  simp [tally]

theorem le_tally_of_mem {w : Event → ℕ} {log : List Event} {e : Event} (h : e ∈ log) :
    w e ≤ tally w log :=
  List.le_sum_of_mem (List.mem_map_of_mem h)

/-! ### Invariants of an actor -/

/-- What an arrival brings. -/
inductive ArrivedAs (p : ActorPool) : Arrival → ActorState → Thread → Prop
  | pushMessage (i : ℕ) : liveObjects p + 2 ≤ addressSpace →
      ArrivedAs p (.pushMessage i) { p.shared with submitted := p.shared.submitted + 1 }
        (.producer p.shared.submitted i .push)
  | asyncDestroy : ArrivedAs p .asyncDestroy
      { p.shared with destroyCalls := p.shared.destroyCalls + 1 }
      (.destroyer p.shared.destroyCalls .setPendingToBeDestroyed)

theorem arriveActor_spec {p : ActorPool} {i : Arrival} {s : ActorState} {t : Thread}
    (h : arriveActor p i = some (s, t)) : ArrivedAs p i s t := by
  cases i with
  | pushMessage i =>
      simp only [arriveActor] at h
      split at h
      · next hroom =>
          obtain ⟨rfl, rfl⟩ := by simpa using h
          exact .pushMessage i hroom
      · simp at h
  | asyncDestroy =>
      obtain ⟨rfl, rfl⟩ := by simpa [arriveActor] using h
      exact .asyncDestroy

/-- **What an action of the machine does**: an arrival, or a step of one of the threads. -/
theorem Actor.next_cases {A : Actor} {p p' : ActorPool} {a : ActorAction}
    (h : A.machine.next p a = some p') :
    (∃ i s t, a = .arrive i ∧ ArrivedAs p i s t ∧ p' = ⟨s, p.threads ++ [t]⟩) ∨
      ∃ l t r s' new env, p.threads = l ++ t :: r ∧ a = .run l.length env ∧
        A.Step env p.shared t s' new ∧ p' = ⟨s', l ++ new ++ r⟩ := by
  cases a with
  | arrive i =>
      obtain ⟨s, t, hat, rfl⟩ := ThreadProgram.next_arrive_iff.1 h
      exact Or.inl ⟨i, s, t, rfl, arriveActor_spec hat, rfl⟩
  | run n env =>
      obtain ⟨l, t, r, s, new, hp, rfl, hrun, rfl⟩ := ThreadProgram.next_run_iff.1 h
      exact Or.inr ⟨l, t, r, s, new, env, hp, rfl, Actor.step_of_run hrun, rfl⟩

/-- Nothing holds an activation up. -/
theorem pullMailboxAndRunStep_isSome (A : Actor) (s : ActorState) (pc : PullPc) :
    (pullMailboxAndRunStep A s Env.calm pc).isSome = true := by
  cases pc with
  | tryActivate pc =>
      cases pc with
      | cas => cases hact : s.activated <;> simp [pullMailboxAndRunStep, tryActivateStep, hact]
      | schedule =>
          cases hsc : s.asyncScope.tryAssociate <;>
            simp [pullMailboxAndRunStep, tryActivateStep, Env.calm, hsc]
  | tryPop | execute | entry | loadPendingToBeDestroyed | loadPendingMessageCount =>
      simp only [pullMailboxAndRunStep]
      split <;> rfl
  | _ => rfl

/-- The history is only added to. -/
theorem Actor.Step.log_prefix {A : Actor} {env : Env} {s s' : ActorState} {t : Thread}
    {new : List Thread} (h : A.Step env s t s' new) : s.log <+: s'.log := by
  cases h with
  | hookThrew => exact ⟨_, by simp only [ActorState.emit, List.append_assoc]; rfl⟩
  | lose | win | dropped | schedule | setPending | countDestroy | join | start | entryAlive
  | entryNull | alreadyDestroyed | pending | notPending | storeDestroyed | subDestroyed | loadLimit
  | popNone | store | loadZero | loadPos | ret => exact List.prefix_rfl
  | _ => exact List.prefix_append _ _

/-- Only an arrival submits. -/
theorem Actor.Step.submitted_eq {A : Actor} {env : Env} {s s' : ActorState} {t : Thread}
    {new : List Thread} (h : A.Step env s t s' new) : s'.submitted = s.submitted := by
  cases h <;> rfl

theorem Actor.Step.destroyCalls_eq {A : Actor} {env : Env} {s s' : ActorState} {t : Thread}
    {new : List Thread} (h : A.Step env s t s' new) : s'.destroyCalls = s.destroyCalls := by
  cases h <;> rfl

theorem Actor.log_prefix_of_next {A : Actor} {p p' : ActorPool} {a : ActorAction}
    (h : A.machine.next p a = some p') : p.shared.log <+: p'.shared.log := by
  rcases Actor.next_cases h with ⟨i, s, t, -, hat, rfl⟩ | ⟨l, t, r, s', new, env, -, -, hstep, rfl⟩
  · cases hat <;> exact List.prefix_rfl
  · exact hstep.log_prefix

/-- **The invariant rule of an actor**: the actions are the arrivals and the steps of
`Actor.Step`. -/
theorem Actor.invariantWhere {A : Actor} {C : ActorPool → ActorAction → Prop}
    {I : ActorPool → Prop} (hinit : I ⟨A.initial, []⟩)
    (harrive : ∀ tr p i s t, A.machine.Exec tr p → Machine.Meets C tr → I p → C p (.arrive i) →
      ArrivedAs p i s t → I ⟨s, p.threads ++ [t]⟩)
    (hstep : ∀ tr s s' l t r new env, A.machine.Exec tr ⟨s, l ++ t :: r⟩ → Machine.Meets C tr →
      I ⟨s, l ++ t :: r⟩ → C ⟨s, l ++ t :: r⟩ (.run l.length env) → A.Step env s t s' new →
      I ⟨s', l ++ new ++ r⟩)
    {tr : List (ActorPool × ActorAction)} {p : ActorPool} (h : A.machine.Exec tr p)
    (hok : Machine.Meets C tr) : I p := by
  refine ThreadProgram.invariantWhere ?_ ?_ ?_ h hok
  · rintro s rfl
    exact hinit
  · intro tr p i s t hex hmeets hI hoka hat
    exact harrive tr p i s t hex hmeets hI hoka (arriveActor_spec hat)
  · intro tr s s' l t r new env hex hmeets hI hoka hrun
    exact hstep tr s s' l t r new env hex hmeets hI hoka (Actor.step_of_run hrun)

/-- The invariant rule of an actor, for all executions. -/
theorem Actor.invariant {A : Actor} {I : ActorPool → Prop} (hinit : I ⟨A.initial, []⟩)
    (harrive : ∀ tr p i s t, A.machine.Exec tr p → I p → ArrivedAs p i s t →
      I ⟨s, p.threads ++ [t]⟩)
    (hstep : ∀ tr s s' l t r new env, A.machine.Exec tr ⟨s, l ++ t :: r⟩ →
      I ⟨s, l ++ t :: r⟩ → A.Step env s t s' new → I ⟨s', l ++ new ++ r⟩)
    {tr : List (ActorPool × ActorAction)} {p : ActorPool} (h : A.machine.Exec tr p) : I p :=
  Actor.invariantWhere (C := fun _ _ => True) hinit
    (fun tr p i s t hex _ hI _ => harrive tr p i s t hex hI)
    (fun tr s s' l t r new env hex _ hI _ => hstep tr s s' l t r new env hex hI) h
    (Machine.meets_true tr)

/-! ### The number of mailboxes -/

/-- A step does not change the number of mailboxes. -/
theorem Actor.Step.mailboxCount_eq {A : Actor} {env : Env} {s s' : ActorState} {t : Thread}
    {new : List Thread} (h : A.Step env s t s' new) :
    s'.mailboxSet.mailboxCount = s.mailboxSet.mailboxCount := by
  cases h with
  | push m i set hpush => exact MailboxSet.mailboxCount_push hpush
  | pop limit executed i m set hpop => exact MailboxSet.mailboxCount_tryPop hpop
  | _ => rfl

/-- **An actor keeps the number of mailboxes it was configured with.** -/
theorem mailboxCount_of_exec {A : Actor} {tr : List (ActorPool × ActorAction)} {p : ActorPool}
    (h : A.machine.Exec tr p) :
    p.shared.mailboxSet.mailboxCount = max 1 A.config.mailboxConfigs.length := by
  refine Actor.invariant (I := fun p =>
    p.shared.mailboxSet.mailboxCount = max 1 A.config.mailboxConfigs.length) ?_ ?_ ?_ h
  · exact MailboxSet.mailboxCount_ofConfigs A.config.mailboxConfigs
  · intro _ p i s t _ hI hat
    cases hat with
    | pushMessage i hroom => exact hI
    | asyncDestroy => exact hI
  · intro _ s s' l t r new env _ hI hstep
    exact hstep.mailboxCount_eq.trans hI

end ExActor
