/-
**When `pending_message_count_` wraps around.**

An activation executes at most `message_execution_limit` messages, which is at most the counter it
loaded, except that the limit is checked only after the first message: with a limit of zero it
executes one message if there is one.  The counter can be zero at that load, because an activation
may be scheduled by a producer whose message has already been executed and subtracted.  If the one
message is not counted yet, `fetch_sub(message_executed)` is applied to zero and the counter wraps
around to `2 ^ 64 - 1`, until the message is counted.

This is the only way.  In a run in which it does not happen, the counter is the balance itself and
never exceeds the number of messages pushed.

Main definitions:

* `NeverWraps` — every `fetch_sub` of the history was applied to a value that is large enough;
* `CountedFirst` — the step is not the `fetch_sub` of an activation with a zero limit while every
  queued or executed message is still uncounted.

Main results:

* `counterOk_of_exec`, `CounterOk.counter_eq` — without such a step, the counter is the balance;
* `neverWraps_iff_countedFirst` — **the counter never wraps exactly in the runs without such a
  step**;
* `counter_wraps` — a run with such a step.
-/

import ExActor.ActorWakeup
import Mathlib.Algebra.BigOperators.Ring.List

set_option relaxedAutoImplicit false
set_option autoImplicit false

namespace ExActor

/-! ### What the history says of the counter -/

/-- The event records a push. -/
def Event.isPushed : Event → Bool
  | .pushed _ _ => true
  | _ => false

/-- The number of messages ever pushed. -/
def pushedTotal (log : List Event) : ℕ := log.countP Event.isPushed

/-- Every `fetch_sub(message_executed)` was applied to a value of at least `message_executed`. -/
def NeverWraps (p : ActorPool) : Prop :=
  ∀ before executed, .subtracted before executed ∈ p.shared.log → executed ≤ before.toNat

/-- When an activation whose limit was zero has executed a message and comes to subtract it, not
every message that is queued or executed is still uncounted. -/
def CountedFirst (p : ActorPool) : ActorAction → Prop
  | .run n _ => p.threads[n]? = some (.activation (.fetchSub 0 1)) →
      p.total Thread.uncounted ≤ p.shared.mailboxSet.queued
  | .arrive _ => True

instance (p : ActorPool) (a : ActorAction) : Decidable (CountedFirst p a) :=
  match a with
  | .run n _ => inferInstanceAs (Decidable (p.threads[n]? = some (.activation (.fetchSub 0 1)) → _))
  | .arrive _ => isTrue trivial

/-! ### What an activation executes -/

/-- The limit of the activation, while it counts against it. -/
def Thread.limit : Thread → ℕ
  | .activation (.tryPop limit _ _) => limit
  | .activation (.execute limit _ _ _) => limit
  | .activation (.fetchSub limit _) => limit
  | _ => 0

/-- What an activation knows of its limit: no counter is larger than the address space, and the
limit is checked after every message but not before the first one. -/
def Thread.Within : Thread → Prop
  | .activation (.tryPop limit executed _) =>
      limit ≤ addressSpace ∧ (executed = 0 ∨ executed < limit)
  | .activation (.execute limit executed _ _) =>
      limit ≤ addressSpace ∧ (executed = 0 ∨ executed < limit)
  | .activation (.fetchSub limit executed) => limit ≤ addressSpace ∧ executed ≤ max 1 limit
  | _ => True

@[simp] theorem limit_at (c : Caller) (pc : TryActivatePc) : (c.at pc).limit = 0 := by
  cases c <;> rfl

@[simp] theorem limit_after (c : Caller) : (c.after.map Thread.limit).sum = 0 := by
  cases c <;> rfl

@[simp] theorem takenHere_at (c : Caller) (pc : TryActivatePc) : (c.at pc).takenHere = 0 := by
  cases c <;> rfl

@[simp] theorem takenHere_after (c : Caller) : (c.after.map Thread.takenHere).sum = 0 := by
  cases c <;> rfl

theorem limit_eq_zero_of_owns (t : Thread) (h : t.owns = 0) : t.limit = 0 := by
  rcases t with ⟨m, i, pc⟩ | ⟨k, pc⟩ | pc
  · rfl
  · rfl
  · cases pc <;> simp_all [Thread.owns, Thread.limit]

@[simp] theorem pushedTotal_nil : pushedTotal [] = 0 := rfl

theorem pushedTotal_emit (s : ActorState) (e : Event) :
    pushedTotal (s.emit e).log = pushedTotal s.log + if e.isPushed then 1 else 0 := by
  simp [pushedTotal, ActorState.emit, List.countP_append, List.countP_singleton]

/-- Only a push adds to the messages that are queued or taken. -/
theorem Actor.Step.queued_add_takenHere {A : Actor} {env : Env} {s s' : ActorState} {t : Thread}
    {new : List Thread} (h : A.Step env s t s' new) {rest : ℕ}
    (hI : s.mailboxSet.queued + (t.takenHere + rest) ≤ pushedTotal s.log) :
    s'.mailboxSet.queued + ((new.map Thread.takenHere).sum + rest) ≤ pushedTotal s'.log := by
  cases h with
  | push m i set hpush =>
      rw [pushedTotal_emit]
      simp [ActorState.emit, Thread.takenHere, Event.isPushed, MailboxSet.queued_push hpush]
        at hI ⊢
      omega
  | pop limit executed i m set hpop =>
      have hq := MailboxSet.queued_tryPop hpop
      rw [pushedTotal_emit]
      simp [ActorState.emit, Thread.takenHere, Event.isPushed] at hI ⊢
      omega
  | lose | win | dropped => simpa using hI
  | schedule =>
      rw [takenHere_at] at hI
      simpa [Thread.takenHere] using hI
  | count m i pc hpc =>
      rw [pushedTotal_emit]
      rcases hpc with ⟨-, rfl⟩ | ⟨-, rfl⟩ <;>
        simpa [ActorState.emit, Thread.takenHere, Event.isPushed] using hI
  | popNone limit executed i pc hnone hpc =>
      rcases hpc with rfl | rfl <;> simpa [Thread.takenHere] using hI
  | execute limit executed i m pc hpc =>
      rw [pushedTotal_emit]
      rcases hpc with ⟨-, rfl⟩ | ⟨-, rfl⟩ <;>
        simpa [ActorState.emit, Thread.takenHere, Event.isPushed] using hI
  | sub limit executed =>
      rw [pushedTotal_emit]
      simp [ActorState.emit, Thread.takenHere, Event.isPushed] at hI ⊢
      omega
  | hookThrew m i e he =>
      rw [pushedTotal_emit, pushedTotal_emit]
      simpa [ActorState.emit, Thread.takenHere, Event.isPushed] using hI
  | setPending | countDestroy | join | start | entryAlive | entryNull | alreadyDestroyed | pending
  | notPending | storeDestroyed | subDestroyed | loadLimit | store | loadZero | loadPos | ret =>
      simpa [Thread.takenHere] using hI
  | _ =>
      rw [pushedTotal_emit]
      simpa [ActorState.emit, Thread.takenHere, Event.isPushed] using hI

/-- Messages are queued or taken only after they have been pushed. -/
theorem queued_add_takenHere_le {A : Actor} {tr : List (ActorPool × ActorAction)} {p : ActorPool}
    (h : A.machine.Exec tr p) :
    p.shared.mailboxSet.queued + p.total Thread.takenHere ≤ pushedTotal p.shared.log := by
  refine Actor.invariant (I := fun p => p.shared.mailboxSet.queued + p.total Thread.takenHere
    ≤ pushedTotal p.shared.log) ?_ ?_ ?_ h
  · simp [Actor.initial]
  · intro _ p i s t _ hI hat
    rw [Pool.total_arrive _ p]
    cases hat <;> simpa [Thread.takenHere] using hI
  · intro _ s s' l t r new env _ hI hstep
    rw [Pool.total_before] at hI
    rw [Pool.total_after]
    exact hstep.queued_add_takenHere hI

/-! ### The counter and the balance -/

/-- Only an owner of the flag has taken anything. -/
theorem Thread.Within.takenHere_le {t : Thread} (h : t.Within) :
    t.takenHere ≤ addressSpace * t.owns := by
  have hpos : 1 ≤ addressSpace := by simp [addressSpace]
  rcases t with ⟨m, i, pc⟩ | ⟨k, pc⟩ | pc
  · simp [Thread.takenHere]
  · simp [Thread.takenHere]
  · cases pc with
    | tryPop | execute | fetchSub =>
        simp only [Thread.Within] at h
        simp only [Thread.takenHere, Thread.owns]
        omega
    | _ => simp [Thread.takenHere]

/-- What holds of the counter as long as no uncounted message is subtracted from zero. -/
structure CounterOk (p : ActorPool) : Prop where
  within : ∀ t ∈ p.threads, t.Within
  limit : ((p.total Thread.limit : ℕ) : ℤ) ≤ balance p

/-- The messages taken at any time fit in the address space. -/
theorem CounterOk.takenHere_le {p : ActorPool} (h : CounterOk p) (hown : Owned p) :
    p.total Thread.takenHere ≤ addressSpace := by
  calc p.total Thread.takenHere
      ≤ p.total (fun t => addressSpace * t.owns) :=
        Pool.total_le_total fun t ht => (h.within t ht).takenHere_le
    _ = addressSpace * p.total Thread.owns := by
        simp only [Pool.total]
        exact List.sum_map_mul_left ..
    _ ≤ addressSpace * 1 := Nat.mul_le_mul_left _ (hown.trans (flag_le_one _))
    _ = addressSpace := Nat.mul_one _

/-- **The counter is the balance.** -/
theorem CounterOk.counter_eq {A : Actor} {tr : List (ActorPool × ActorAction)} {p : ActorPool}
    (hok : CounterOk p) (h : A.machine.Exec tr p) (hC : Machine.Meets NotDestroyed tr) :
    (p.shared.pendingMessageCount.toNat : ℤ) = balance p := by
  have hlimit := hok.limit
  have htaken := hok.takenHere_le (owned_of_exec h)
  have hroom := liveObjects_le h
  have hbal := balance_eq (untouched_of_exec h hC)
  unfold liveObjects addressSpace at *
  refine (tracks_of_exec h).toNat_eq ?_ ?_
  · omega
  · omega

/-- The threads that a step leaves behind keep within their limits. -/
theorem Actor.Step.within {A : Actor} {env : Env} {s s' : ActorState} {t : Thread}
    {new : List Thread} (h : A.Step env s t s' new) (ht : t.Within)
    (hload : t = .activation .loadLimit → s.pendingMessageCount.toNat ≤ addressSpace) :
    ∀ u ∈ new, u.Within := by
  cases h with
  | lose c | dropped c => cases c <;> simp [Caller.after, Thread.Within]
  | win c => cases c <;> simp [Caller.at, Thread.Within]
  | schedule c => cases c <;> simp [Caller.after, Thread.Within]
  | loadLimit =>
      have := hload rfl
      simp [Thread.Within]
      omega
  | popNone limit executed i pc hnone hpc =>
      simp only [Thread.Within] at ht
      rcases hpc with rfl | rfl <;> simp [Thread.Within] <;> omega
  | execute limit executed i m pc hpc =>
      simp only [Thread.Within] at ht
      rcases hpc with ⟨hle, rfl⟩ | ⟨hlt, rfl⟩ <;> simp [Thread.Within] <;> omega
  | pop => simpa [Thread.Within] using ht
  | _ => simp_all [Thread.Within]

/-- A step keeps the limits covered by the balance, where a limit is loaded from the balance and
no more is subtracted than there is. -/
theorem Actor.Step.limit_le {A : Actor} {env : Env} {s s' : ActorState} {t : Thread}
    {new : List Thread} (h : A.Step env s t s' new) (hdes : t.destroys = 0) {others : ℕ} {rest : ℤ}
    (hload : t = .activation .loadLimit →
      others = 0 ∧ (s.pendingMessageCount.toNat : ℤ) ≤ s.base + (t.credit + rest))
    (hsub : ∀ limit executed, t = .activation (.fetchSub limit executed) →
      others = 0 ∧ (executed : ℤ) ≤ s.base + (t.credit + rest))
    (hI : ((t.limit + others : ℕ) : ℤ) ≤ s.base + (t.credit + rest)) :
    (((new.map Thread.limit).sum + others : ℕ) : ℤ)
      ≤ s'.base + ((new.map Thread.credit).sum + rest) := by
  cases h with
  | push m i set hpush =>
      simp [ActorState.base, ActorState.emit, Thread.credit, Thread.limit,
        MailboxSet.queued_push hpush] at hI ⊢
      omega
  | count m i pc hpc =>
      rcases hpc with ⟨-, rfl⟩ | ⟨-, rfl⟩ <;>
        simp [ActorState.base, ActorState.emit, Thread.credit, Thread.limit] at hI ⊢ <;> omega
  | lose | win | dropped => simpa [ActorState.base] using hI
  | schedule =>
      rw [credit_at, limit_at] at hI
      simpa [ActorState.base, Thread.credit, Thread.limit] using hI
  | loadLimit =>
      obtain ⟨rfl, hle⟩ := hload rfl
      simp [ActorState.base, Thread.credit, Thread.limit] at hle ⊢
      omega
  | popNone limit executed i pc hnone hpc =>
      rcases hpc with rfl | rfl <;> simpa [Thread.credit, Thread.limit] using hI
  | pop limit executed i m set hpop =>
      have hq := MailboxSet.queued_tryPop hpop
      simp [ActorState.base, ActorState.emit, Thread.credit, Thread.limit, ← hq] at hI ⊢
      omega
  | execute limit executed i m pc hpc =>
      rcases hpc with ⟨-, rfl⟩ | ⟨-, rfl⟩ <;>
        simpa [ActorState.base, ActorState.emit, Thread.credit, Thread.limit] using hI
  | sub limit executed =>
      obtain ⟨rfl, hle⟩ := hsub limit executed rfl
      simp [ActorState.base, ActorState.emit, Thread.credit, Thread.limit] at hle ⊢
      omega
  | setPendingLose | setPending | countDestroy | destroyThrew | join | joined =>
      simp [Thread.destroys] at hdes
  | alreadyDestroyed | reset | storeDestroyed | subDestroyed => simp [Thread.destroys] at hdes
  | _ => simpa [ActorState.base, ActorState.emit, Thread.credit, Thread.limit] using hI

/-- What an activation is about to subtract is in the counter, unless its limit was zero and nothing
is counted. -/
theorem CounterOk.executed_le {s : ActorState} {l r : List Thread} {limit executed : ℕ}
    (hok : CounterOk ⟨s, l ++ .activation (.fetchSub limit executed) :: r⟩)
    (hun : Untouched ⟨s, l ++ .activation (.fetchSub limit executed) :: r⟩)
    (htaken : Pool.others Thread.takenHere l r = 0)
    (hcounted : limit = 0 → executed = 1 →
      Pool.total Thread.uncounted ⟨s, l ++ .activation (.fetchSub limit executed) :: r⟩
        ≤ s.mailboxSet.queued) :
    (executed : ℤ) ≤ balance ⟨s, l ++ .activation (.fetchSub limit executed) :: r⟩ := by
  have hbal := balance_eq hun
  have hlimit := hok.limit
  have hwithin := hok.within (.activation (.fetchSub limit executed)) (by simp)
  simp only [Thread.Within] at hwithin
  rw [Pool.total_before] at hlimit
  rw [Pool.total_before Thread.takenHere, htaken] at hbal
  simp only [Thread.limit, Thread.takenHere] at hlimit hbal
  rcases Nat.lt_or_ge limit executed with hlt | hge
  · -- more than the limit is one message on a zero limit
    have := hcounted (by omega) (by omega)
    omega
  · omega

/-- As long as no uncounted message is subtracted from zero, the counter is the balance. -/
theorem counterOk_of_exec {A : Actor} {tr : List (ActorPool × ActorAction)} {p : ActorPool}
    (h : A.machine.Exec tr p) (hC : Machine.Meets NotDestroyed tr)
    (hF : Machine.Meets CountedFirst tr) : CounterOk p := by
  refine Actor.invariantWhere ?_ ?_ ?_ h ((Machine.meets_and ..).2 ⟨hC, hF⟩)
  · exact ⟨by simp, by simp [balance, Actor.initial, ActorState.base]⟩
  · intro _ p i s t _ _ hI hok hat
    cases hat with
    | pushMessage i hroom =>
        refine ⟨Pool.forall_arrive hI.within (fun _ hu => hu) trivial, ?_⟩
        have hlimit := hI.limit
        unfold balance at hlimit ⊢
        rw [Pool.total_arrive Thread.limit p, Pool.total_arrive Thread.credit p]
        simpa [ActorState.base, Thread.limit, Thread.credit] using hlimit
    | asyncDestroy => exact absurd hok.1 id
  · intro _ s s' l t r new env hex hmeets hI hok hstep
    have hC' := ((Machine.meets_and ..).1 hmeets).1
    have hun := untouched_of_exec hex hC'
    have hcounter := hI.counter_eq hex hC'
    have hdes := hun.threads
    have hlimit := hI.limit
    have hbal := balance_eq hun
    have hroom := liveObjects_le hex
    rw [Pool.total_before] at hdes
    refine ⟨Pool.forall_after hI.within (fun _ hu => hu)
      (hstep.within (hI.within t (by simp)) ?_), ?_⟩
    · rintro rfl
      have htaken := others_eq_zero_of_owns hex rfl takenHere_eq_zero_of_owns
      rw [Pool.total_before Thread.takenHere, htaken] at hbal
      simp only [Thread.takenHere, liveObjects] at hbal hroom hcounter
      omega
    · unfold balance at hlimit hcounter ⊢
      rw [Pool.total_before, Pool.total_before] at hlimit
      rw [Pool.total_before] at hcounter
      rw [Pool.total_after, Pool.total_after]
      refine hstep.limit_le (by omega) ?_ ?_ hlimit
      · rintro rfl
        exact ⟨others_eq_zero_of_owns hex rfl limit_eq_zero_of_owns, hcounter.le⟩
      · rintro limit executed rfl
        refine ⟨others_eq_zero_of_owns hex rfl limit_eq_zero_of_owns, ?_⟩
        have hle := hI.executed_le hun
          (others_eq_zero_of_owns hex rfl takenHere_eq_zero_of_owns) (by
            rintro rfl rfl
            exact hok.2 (by simp))
        unfold balance at hle
        rwa [Pool.total_before] at hle

/-! ### The counter never wraps -/

/-- Only the last step of an activation subtracts what it has executed. -/
theorem Actor.Step.neverWraps {A : Actor} {env : Env} {s s' : ActorState} {t : Thread}
    {new : List Thread} (h : A.Step env s t s' new)
    (hsub : ∀ limit executed, t = .activation (.fetchSub limit executed) →
      executed ≤ s.pendingMessageCount.toNat)
    (hI : ∀ before executed, .subtracted before executed ∈ s.log → executed ≤ before.toNat)
    (before : SizeT) (executed : ℕ) (hmem : .subtracted before executed ∈ s'.log) :
    executed ≤ before.toNat := by
  cases h with
  | sub limit executed' =>
      simp only [ActorState.emit, List.mem_append, List.mem_singleton, Event.subtracted.injEq]
        at hmem
      rcases hmem with hmem | ⟨rfl, rfl⟩
      · exact hI before executed hmem
      · exact hsub limit executed rfl
  | _ => exact hI before executed (by simpa [ActorState.emit] using hmem)

/-- The last step of an activation records what it subtracts. -/
theorem Actor.Step.subtracted {A : Actor} {env : Env} {s s' : ActorState} {t : Thread}
    {new : List Thread} (h : A.Step env s t s' new) {limit executed : ℕ}
    (ht : t = .activation (.fetchSub limit executed)) :
    .subtracted s.pendingMessageCount executed ∈ s'.log := by
  cases h with
  | sub limit executed' =>
      obtain ⟨rfl, rfl⟩ := by simpa using ht
      simp [ActorState.emit]
  | lose c | win c | dropped c | schedule c => cases c <;> simp [Caller.at] at ht
  | _ => simp at ht

/-- The counter is large enough for every `fetch_sub`. -/
theorem neverWraps_of_exec {A : Actor} {tr : List (ActorPool × ActorAction)} {p : ActorPool}
    (h : A.machine.Exec tr p) (hC : Machine.Meets NotDestroyed tr)
    (hF : Machine.Meets CountedFirst tr) : NeverWraps p := by
  refine Actor.invariantWhere ?_ ?_ ?_ h ((Machine.meets_and ..).2 ⟨hC, hF⟩)
  · simp [NeverWraps, Actor.initial]
  · intro _ p i s t _ _ hI _ hat
    cases hat <;> exact hI
  · intro _ s s' l t r new env hex hmeets hI hok hstep
    obtain ⟨hC', hF'⟩ := (Machine.meets_and ..).1 hmeets
    have hcok := counterOk_of_exec hex hC' hF'
    refine hstep.neverWraps ?_ hI
    rintro limit executed rfl
    have hle := hcok.executed_le (untouched_of_exec hex hC')
      (others_eq_zero_of_owns hex rfl takenHere_eq_zero_of_owns) (by
        rintro rfl rfl
        exact hok.2 (by simp))
    rw [← hcok.counter_eq hex hC'] at hle
    exact_mod_cast hle

/-- The counter is at most the number of messages ever pushed. -/
theorem counter_le_pushedTotal {A : Actor} {tr : List (ActorPool × ActorAction)} {p : ActorPool}
    (h : A.machine.Exec tr p) (hC : Machine.Meets NotDestroyed tr)
    (hF : Machine.Meets CountedFirst tr) :
    p.shared.pendingMessageCount.toNat ≤ pushedTotal p.shared.log := by
  have hcounter := (counterOk_of_exec h hC hF).counter_eq h hC
  have hbal := balance_eq (untouched_of_exec h hC)
  have hpushed := queued_add_takenHere_le h
  omega

/-- The `fetch_sub` of an uncounted message on a zero limit is applied to zero. -/
theorem countedFirst_of_neverWraps {A : Actor} {tr : List (ActorPool × ActorAction)}
    {p p' : ActorPool} {a : ActorAction} (h : A.machine.Exec tr p)
    (hC : Machine.Meets NotDestroyed tr) (hF : Machine.Meets CountedFirst tr)
    (hn : A.machine.next p a = some p') (hwraps : NeverWraps p') : CountedFirst p a := by
  rcases Actor.next_cases hn with ⟨i, s, t, rfl, -, -⟩ |
    ⟨l, t, r, s', new, env, hp, rfl, hstep, rfl⟩
  · trivial
  · intro ht
    obtain ⟨s, ts⟩ := p
    simp only at hp
    subst hp
    obtain rfl : t = .activation (.fetchSub 0 1) := by simpa using ht
    have hcounter := (counterOk_of_exec h hC hF).counter_eq h hC
    have hbal := balance_eq (untouched_of_exec h hC)
    rw [Pool.total_before Thread.takenHere,
      others_eq_zero_of_owns h rfl takenHere_eq_zero_of_owns] at hbal
    have hle := hwraps s.pendingMessageCount 1 (hstep.subtracted rfl)
    simp only [Thread.takenHere] at hbal hcounter ⊢
    omega

/-- **When the counter wraps around.**  In a run in which nobody destroys the actor, every
`fetch_sub(message_executed)` is applied to a value of at least `message_executed` and the counter
is at all times at most the number of messages ever pushed, exactly if every activation whose limit
was zero subtracts its message when not every queued or executed message is still uncounted. -/
theorem neverWraps_iff_countedFirst {A : Actor} {tr : List (ActorPool × ActorAction)}
    {p : ActorPool} (h : A.machine.Exec tr p) (hC : Machine.Meets NotDestroyed tr) :
    (NeverWraps p ∧ ∀ q ∈ tr.map Prod.fst ++ [p],
      q.shared.pendingMessageCount.toNat ≤ pushedTotal q.shared.log) ↔
      Machine.Meets CountedFirst tr := by
  constructor
  · rintro ⟨hwraps, -⟩
    induction h with
    | init _ => exact Machine.meets_nil _
    | @step tr q p a hex hn ih =>
        rw [Machine.meets_append] at hC ⊢
        have hF := ih hC.1 fun before executed hmem =>
          hwraps before executed ((Actor.log_prefix_of_next hn).subset hmem)
        refine ⟨hF, (Machine.meets_singleton ..).2 ?_⟩
        exact countedFirst_of_neverWraps hex hC.1 hF hn hwraps
  · intro hF
    refine ⟨neverWraps_of_exec h hC hF, ?_⟩
    intro q hq
    rcases List.mem_append.1 hq with hq | hq
    · obtain ⟨⟨q, a⟩, hmem, rfl⟩ := List.mem_map.1 hq
      obtain ⟨tr₁, tr₂, rfl⟩ := List.append_of_mem hmem
      rw [Machine.meets_append] at hC hF
      exact counter_le_pushedTotal h.split.1 hC.1 hF.1
    · rw [List.mem_singleton.1 hq]
      exact counter_le_pushedTotal h hC hF

/-- Two producers and two activations, and the counter never wraps. -/
theorem neverWraps_iff_countedFirst_two_producers :
    ∃ tr p, Actor.plain.machine.Exec tr p ∧
      p.shared.log.count (.subtracted 2 2) = 1 ∧ p.shared.log.count (.subtracted 0 0) = 1 ∧
      NeverWraps p ∧ ∀ q ∈ tr.map Prod.fst ++ [p],
        q.shared.pendingMessageCount.toNat ≤ pushedTotal q.shared.log := by
  let L : List ActorAction := [.arrive (.pushMessage 0)] ++ threadSteps 0 4 Env.calm
    ++ [.arrive (.pushMessage 0), .run 1 Env.calm, .run 1 Env.calm]
    ++ threadSteps 0 23 Env.calm
  obtain ⟨p, hex, hp⟩ := Machine.exists_exec_of_replay (Actor.machine_init Actor.plain) L
    (fun p => (p.shared.log.count (.subtracted 2 2), p.shared.log.count (.subtracted 0 0)))
    (1, 1) (by decide)
  simp only [Prod.mk.injEq] at hp
  exact ⟨_, p, hex, hp.1, hp.2, (neverWraps_iff_countedFirst hex (by decide)).2 (by decide)⟩

/-- An activation whose limit was zero executes a message that is queued and not counted: the
counter wraps around. -/
def wrapRun : List ActorAction :=
  [.arrive (.pushMessage 0)] ++ threadSteps 0 4 Env.calm
    -- the second message is counted, and then executed by the activation of the first
    ++ [.arrive (.pushMessage 0), .run 1 Env.calm, .run 1 Env.calm]
    ++ threadSteps 0 12 Env.calm
    -- its producer activates the actor again, on a zero counter
    ++ threadSteps 0 6 Env.calm
    -- the third message is queued, executed and subtracted before it is counted
    ++ [.arrive (.pushMessage 0), .run 1 Env.calm] ++ threadSteps 0 3 Env.calm

theorem counter_wraps : ∃ tr p, Actor.plain.machine.Exec tr p ∧ Machine.Meets NotDestroyed tr ∧
    Machine.Meets ScheduleOk tr ∧ ¬ NeverWraps p ∧ pushedTotal p.shared.log = 3 ∧
    p.shared.pendingMessageCount.toNat = 2 ^ 64 - 1 := by
  obtain ⟨p, hex, hp⟩ := Machine.exists_exec_of_replay (Actor.machine_init Actor.plain) wrapRun
    (fun p => (decide (.subtracted 0 1 ∈ p.shared.log), pushedTotal p.shared.log,
      p.shared.pendingMessageCount.toNat)) (true, 3, 2 ^ 64 - 1) (by decide)
  simp only [Prod.mk.injEq, decide_eq_true_eq] at hp
  refine ⟨_, p, hex, by decide, by decide, ?_, hp.2⟩
  intro hwraps
  exact absurd (hwraps 0 1 hp.1) (by decide)

end ExActor
