/-
**Completions that use the semaphore again.**

Both places that complete an operation run its continuation on the thread that completes it.
`Acquire` gives the mutex back first.  `OnDrainedOperation::start` completes its operation under the
mutex, so that a continuation which takes the mutex, because it starts an operation or because its
`Acquire` finds the count drained, waits for itself.

Main definitions:

* `SelfLocks` — the thread tries to take the mutex while it holds it;
* `KeepsOffMutex` — what is called under the mutex does not take it.

Main results:

* `SelfLocks.stuck` — such a thread takes no step;
* `never_self_locks_iff` — **when no thread waits for itself**, and `self_locks`, a run in which one
  does.
-/

import ExActor.DrainSemaphore

set_option relaxedAutoImplicit false
set_option autoImplicit false

namespace ExActor

/-! ### A thread that waits for itself -/

/-- The thread tries to take the mutex while it holds it. -/
def SelfLocks : List Instr → Prop
  | .lock _ :: rest | .drain :: rest => countOf Instr.isUnlock rest ≠ 0
  | _ => False

/-- The call takes the mutex: it starts an operation, or finds the count drained. -/
def Call.takesMutex (count : ℤ) : Call → Bool
  | .acquire n => decide (count ≤ n.val)
  | .release _ => false
  | .start _ => true

/-- The thread does not make a call that takes the mutex while it holds it. -/
def keepsOffMutex (count : ℤ) : List Instr → Bool
  | .call c :: rest => countOf Instr.isUnlock rest == 0 || !c.takesMutex count
  | _ => true

/-- A call that a thread makes while it holds the mutex does not take it. -/
def KeepsOffMutex (p : SemaphorePool) : SemaphoreAction → Prop
  | .run i _ => (p.threads[i]?.all (keepsOffMutex p.shared.count)) = true
  | .arrive _ => True

instance (p : SemaphorePool) : DecidablePred (KeepsOffMutex p)
  | .run _ _ => inferInstanceAs (Decidable (_ = true))
  | .arrive _ => instDecidableTrue

instance : DecidablePred SelfLocks := fun t => by
  unfold SelfLocks
  split <;> infer_instance

theorem SelfLocks.holds {t : List Instr} (h : SelfLocks t) : countOf Instr.isUnlock t ≠ 0 := by
  unfold SelfLocks at h
  split at h
  · rw [countOf_cons]
    omega
  · rw [countOf_cons]
    omega
  · exact h.elim

/-- **It waits for ever**: no step of the thread is possible. -/
theorem SelfLocks.stuck {tr : List (SemaphorePool × SemaphoreAction)} {p : SemaphorePool}
    {t : List Instr} (h : semaphoreMachine.Exec tr p) (ht : t ∈ p.threads) (hself : SelfLocks t) :
    p.shared.step t = none := by
  have hlocked : p.shared.locked = true := by
    have hmutex := (guarded_of_exec h).mutex
    have hle := Pool.le_total_of_mem (w := countOf Instr.isUnlock) ht
    have hholds := hself.holds
    exact Bool.toNat_eq_one.1 (by have := Bool.toNat_le p.shared.locked; omega)
  unfold SelfLocks at hself
  split at hself
  · simp [SemaphoreState.step, hlocked]
  · simp [SemaphoreState.step, hlocked]
  · exact hself.elim

/-! ### When no thread waits for itself -/

/-- What is below the top of a stack does not take the mutex. -/
theorem not_selfLocks_of_pending {t : List Instr} (h : ∀ i ∈ t, i.pending = true) :
    ¬ SelfLocks t := by
  intro hself
  unfold SelfLocks at hself
  split at hself
  · exact Bool.noConfusion (h _ List.mem_cons_self)
  · exact Bool.noConfusion (h _ List.mem_cons_self)
  · exact hself

/-- **The step lemma.** -/
theorem SemaphoreStep.not_selfLocks {s s' : SemaphoreState} {t t' : List Instr}
    (h : SemaphoreStep s t s' t') (hstack : Stack t)
    (hok : ∀ c rest, t = .call c :: rest → countOf Instr.isUnlock rest ≠ 0 →
      c.takesMutex s.count = false) : ¬ SelfLocks t' := by
  have htail := hstack.tail
  cases h with
  | acquireDrained n rest hdrained =>
      intro hself
      have hoff := hok (.acquire n) rest rfl hself
      exact absurd hdrained (of_decide_eq_false hoff)
  | start receiver rest =>
      intro hself
      exact Bool.noConfusion (hok (.start receiver) rest rfl hself)
  | lock | loadDrained | load => exact id
  | acquire | release | pushBack | unlock => exact not_selfLocks_of_pending htail
  | drain rest => exact not_selfLocks_of_pending (pending_drained htail)
  | complete op rest => exact not_selfLocks_of_pending (pending_completed htail)

/-- The run lemma. -/
theorem not_selfLocks_of_exec {tr : List (SemaphorePool × SemaphoreAction)} {p : SemaphorePool}
    (h : semaphoreMachine.Exec tr p) (hok : Machine.Meets KeepsOffMutex tr) :
    ∀ t ∈ p.threads, ¬ SelfLocks t := by
  refine semaphore_invariantWhere (I := fun p => ∀ t ∈ p.threads, ¬ SelfLocks t) ?_ ?_ ?_ h hok
  · intro count _ _ t ht
    simp at ht
  · intro p c hI
    exact Pool.forall_arrive hI (fun _ => id) id
  · intro tr s s' l t r t' hex hI hok hstep
    refine Pool.forall_after hI (fun _ => id) fun u hu => ?_
    rw [eq_of_mem_goesOn hu]
    refine hstep.not_selfLocks ((guarded_of_exec hex).wellFormed t (by simp)) ?_
    rintro c rest rfl hheld
    have hoff : keepsOffMutex s.count (.call c :: rest) = true := by
      simpa only [KeepsOffMutex, Pool.getElem?_middle, Option.all_some] using hok
    simpa [keepsOffMutex, hheld] using hoff

/-- A call that takes the mutex while the thread holds it. -/
theorem selfLocks_of_next {p p' : SemaphorePool} {a : SemaphoreAction}
    (hn : semaphoreMachine.next p a = some p') (hok : ¬ KeepsOffMutex p a) :
    ∃ t ∈ p'.threads, SelfLocks t := by
  cases a with
  | arrive c => exact absurd trivial hok
  | run i k =>
      obtain ⟨l, t, r, s', t', hp, rfl, hstep, rfl⟩ := semaphoreStep_of_next hn
      simp only [KeepsOffMutex, hp, Pool.getElem?_middle, Option.all_some, Bool.not_eq_true] at hok
      unfold keepsOffMutex at hok
      split at hok
      · next c rest =>
          obtain ⟨hheld, htakes⟩ : countOf Instr.isUnlock rest ≠ 0 ∧
              c.takesMutex p.shared.count = true := by simpa using hok
          have hself : SelfLocks t' := by
            cases hstep with
            | acquireDrained n rest _ => exact hheld
            | start receiver rest => exact hheld
            | acquire n rest hpositive =>
                exact absurd (of_decide_eq_true htakes) (not_le.2 hpositive)
            | release n => exact Bool.noConfusion htakes
          have hgoesOn : t' ∈ goesOn t' := mem_goesOn fun hnil => by rw [hnil] at hself; exact hself
          exact ⟨t', List.mem_append_left _ (List.mem_append_right _ hgoesOn), hself⟩
      · simp at hok

/-- **When no thread waits for itself**: in a run no thread ever tries to take the mutex while it
holds it, if and only if no call that is made under the mutex takes it. -/
theorem never_self_locks_iff {tr : List (SemaphorePool × SemaphoreAction)} {p : SemaphorePool}
    (h : semaphoreMachine.Exec tr p) :
    (∀ q ∈ Machine.states tr p, ∀ t ∈ q.threads, ¬ SelfLocks t) ↔
      Machine.Meets KeepsOffMutex tr := by
  constructor
  · rintro hnever ⟨q, a⟩ hmem
    by_contra hok
    obtain ⟨q', hn, hq'⟩ := h.next_mem_states hmem
    obtain ⟨t, ht, hself⟩ := selfLocks_of_next hn hok
    exact hnever q' hq' t ht hself
  · intro hok q hq
    obtain ⟨tr', tr'', rfl, hex⟩ := h.of_mem_states hq
    exact not_selfLocks_of_exec hex ((Machine.meets_append ..).1 hok).1

/-- The count is 1, and an operation waits whose continuation acquires and starts an operation.
`Acquire` completes it, and no thread waits for itself. -/
theorem never_self_locks_acquire : ∃ tr p, semaphoreMachine.Exec tr p ∧
    p.shared.completed = [0, 1] ∧
    ∀ q ∈ Machine.states tr p, ∀ t ∈ q.threads, ¬ SelfLocks t := by
  obtain ⟨p, hex, hp⟩ := Machine.exists_exec_of_replay
    (semaphoreMachine_init 1 (by decide) (by decide))
    (startAndWait [.acquire 1, .start []] ++
      .arrive (.acquire 1) :: List.replicate 10 (.run 0 ()))
    (fun p => p.shared.completed) [0, 1] (by decide)
  exact ⟨_, p, hex, hp, (never_self_locks_iff hex).2 (by decide)⟩

/-- The semaphore is drained, and the continuation of an operation acquires: the thread that starts
it waits for itself. -/
theorem self_locks : ∃ tr p, semaphoreMachine.Exec tr p ∧ ∃ t ∈ p.threads, SelfLocks t := by
  obtain ⟨p, hex, hp⟩ := Machine.exists_exec_of_replay
    (semaphoreMachine_init 0 (by decide) (by decide))
    (startAndWait [.acquire 1])
    (fun p => p.threads.any fun t => decide (SelfLocks t)) true (by decide)
  obtain ⟨t, ht, hself⟩ := List.any_eq_true.1 hp
  exact ⟨_, p, hex, t, ht, of_decide_eq_true hself⟩

end ExActor
