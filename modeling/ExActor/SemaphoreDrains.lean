/-
**Which operations the semaphore completes.**

The list of waiters is emptied by `Acquire` when it finds the count drained, some time after it has
changed the count.  In between the `Acquire` is on its way to the list, and whoever waits when it
gets there is completed.

If the count is drained, somebody is on the way to the list or nobody waits: this is the invariant
that no waiter is lost.  A `Release` that wraps the count around breaks it, since a negative count
is drained and `Release` completes nobody.

On the other hand an operation that finds the count positive, and queues itself while an `Acquire`
is still on its way, is completed by an `Acquire` that took place before it was started.

Main definitions:

* `Covered` — somebody is on the way to the list, or nobody waits;
* `ReleasesInRange` — a `Release` does not wrap around, or does no harm;
* `DrainedDuring` — the count was drained while an operation was in progress;
* `QueuesUndrained` — nobody queues while an `Acquire` is on its way.

Main results:

* `no_waiter_lost` — **when no waiter is lost**, and `waiter_lost`, a run in which one is;
* `completed_only_drained` — **when an operation is completed only for a drained semaphore**, and
  `completed_undrained`, a run in which one is completed for another reason.
-/

import ExActor.DrainSemaphore

set_option relaxedAutoImplicit false
set_option autoImplicit false

namespace ExActor

/-! ### The count -/

theorem le_toInt64 (x : ℤ) : -2 ^ 63 ≤ toInt64 x := by
  have h := Int.le_bmod (x := x) (m := 2 ^ 64) (by decide)
  unfold toInt64
  omega

theorem toInt64_lt (x : ℤ) : toInt64 x < 2 ^ 63 := by
  have h := Int.bmod_lt (x := x) (m := 2 ^ 64) (by decide)
  unfold toInt64
  omega

/-- A value of the type is kept. -/
theorem toInt64_of_inRange {x : ℤ} (hlow : -2 ^ 63 ≤ x) (hhigh : x < 2 ^ 63) : toInt64 x = x :=
  Int.bmod_eq_of_le_mul_two (by omega) (by omega)

/-- A sum that is too large wraps around. -/
theorem toInt64_of_wraps {x : ℤ} (hlow : 2 ^ 63 ≤ x) (hhigh : x < 2 ^ 64) :
    toInt64 x = x - 2 ^ 64 := by
  have hsame := toInt64_of_inRange (x := x - 2 ^ 64) (by omega) (by omega)
  rw [← hsame]
  exact (Int.sub_mul_bmod_self_right x 1 (2 ^ 64)).symm

/-- The count is an `int64_t`. -/
def CountInRange (p : SemaphorePool) : Prop := -2 ^ 63 ≤ p.shared.count ∧ p.shared.count < 2 ^ 63

theorem countInRange_of_exec {tr : List (SemaphorePool × SemaphoreAction)} {p : SemaphorePool}
    (h : semaphoreMachine.Exec tr p) : CountInRange p := by
  refine semaphore_invariantWhere (C := fun _ _ => True) (I := CountInRange) ?_ ?_ ?_ h
    (Machine.meets_true tr)
  · exact fun count hlow hhigh => ⟨hlow, hhigh⟩
  · exact fun p c hI => hI
  · intro tr s s' l t r t' _ hI _ hstep
    cases hstep with
    | acquireDrained | acquire | release => exact ⟨le_toInt64 _, toInt64_lt _⟩
    | _ => exact hI

/-! ### On the way to the list -/

/-- The thread is about to empty the list. -/
def Instr.isDrain : Instr → Bool
  | .drain => true
  | _ => false

/-- The thread is about to append to the list. -/
def Instr.isPushBack : Instr → Bool
  | .pushBack _ => true
  | _ => false

/-- While the mutex is free nobody is about to append to the list. -/
theorem Guarded.noPushBack {p : SemaphorePool} (h : Guarded p) (hfree : p.shared.locked = false) :
    p.total (countOf Instr.isPushBack) = 0 := by
  refine Pool.total_eq_zero_iff.2 fun t ht => ?_
  cases t with
  | nil => rfl
  | cons i rest =>
      have hhead := h.free hfree _ ht i rfl
      have htail := (h.wellFormed _ ht).tail
      have hnone : ∀ j ∈ i :: rest, Instr.isPushBack j = false := by
        intro j hj
        rcases List.mem_cons.1 hj with rfl | hj
        · cases j <;> simp_all [Instr.isPushBack, Instr.inStart]
        · have hpending := htail j hj
          cases j <;> simp_all [Instr.isPushBack, Instr.pending]
      exact List.countP_eq_zero.2 fun j hj => by simp [hnone j hj]

/-- Somebody is on the way to the list, or nobody waits. -/
def Covered (p : SemaphorePool) : Prop :=
  p.total (countOf Instr.isDrain) ≠ 0 ∨
    (p.shared.waiters = [] ∧ p.total (countOf Instr.isPushBack) = 0)

/-- What neither drains nor queues keeps it. -/
theorem Covered.frame {s s' : SemaphoreState} {l r : List (List Instr)} {t t' : List Instr}
    (h : Covered ⟨s, l ++ t :: r⟩) (hwaiters : s'.waiters = s.waiters)
    (hdrain : countOf Instr.isDrain t' = countOf Instr.isDrain t)
    (hpushBack : countOf Instr.isPushBack t' = countOf Instr.isPushBack t) :
    Covered ⟨s', l ++ goesOn t' ++ r⟩ := by
  have hdrains : Pool.total (countOf Instr.isDrain) ⟨s', l ++ goesOn t' ++ r⟩
      = Pool.total (countOf Instr.isDrain) ⟨s, l ++ t :: r⟩ :=
    Pool.total_replace _ _ _ _ (by rw [sum_goesOn countOf_nil, hdrain])
  have hpushBacks : Pool.total (countOf Instr.isPushBack) ⟨s', l ++ goesOn t' ++ r⟩
      = Pool.total (countOf Instr.isPushBack) ⟨s, l ++ t :: r⟩ :=
    Pool.total_replace _ _ _ _ (by rw [sum_goesOn countOf_nil, hpushBack])
  rw [Covered, hdrains, hpushBacks, hwaiters]
  exact h

/-! ### Operations in progress -/

/-- The operation was started and is not completed. -/
def InProgress (p : SemaphorePool) (id : ℕ) : Prop :=
  id < p.shared.started ∧ id ∉ p.shared.completed

section InProgress

variable {tr : List (SemaphorePool × SemaphoreAction)} {p : SemaphorePool}
  {op : OnDrainedOperation}

theorem inProgress_of_pos (h : semaphoreMachine.Exec tr p) {id : ℕ}
    (hpos : 0 < p.total (countOf (Instr.worksOn id)) + waitsIn id p.shared.waiters) :
    InProgress p id := by
  have hplaces := accounted_of_exec h id
  have hle := Bool.toNat_le (decide (id < p.shared.started))
  unfold places at hplaces
  refine ⟨of_decide_eq_true (Bool.toNat_eq_one.1 (by omega)), fun hmem => ?_⟩
  have hcount := List.count_pos_iff.2 hmem
  omega

/-- What waits is in progress. -/
theorem inProgress_of_waits (h : semaphoreMachine.Exec tr p) (hop : op ∈ p.shared.waiters) :
    InProgress p op.id := by
  have hwaits : 0 < waitsIn op.id p.shared.waiters :=
    List.countP_pos_iff.2 ⟨op, hop, beq_self_eq_true op.id⟩
  exact inProgress_of_pos h (by omega)

/-- What a thread has in hand is in progress. -/
theorem inProgress_of_worksOn (h : semaphoreMachine.Exec tr p) {t : List Instr} {i : Instr}
    (ht : t ∈ p.threads) (hi : i ∈ t) (hworks : i.worksOn op.id = true) :
    InProgress p op.id := by
  have hhand : 0 < countOf (Instr.worksOn op.id) t := List.countP_pos_iff.2 ⟨i, hi, hworks⟩
  have hle := Pool.le_total_of_mem (w := countOf (Instr.worksOn op.id)) ht
  exact inProgress_of_pos h (by omega)

end InProgress

/-! ### No waiter is lost -/

/-- A `Release` does not wrap the count around, or somebody is on the way to the list, or nobody
waits. -/
def ReleasesInRange (p : SemaphorePool) : SemaphoreAction → Prop
  | .run i _ =>
      match p.threads[i]? with
      | some (.call (.release n) :: _) => p.shared.count + n.val < 2 ^ 63 ∨ Covered p
      | _ => True
  | .arrive _ => True

instance (p : SemaphorePool) : Decidable (Covered p) := inferInstanceAs (Decidable (_ ∨ _))

instance (p : SemaphorePool) (a : SemaphoreAction) : Decidable (ReleasesInRange p a) := by
  unfold ReleasesInRange
  split
  · split <;> infer_instance
  · infer_instance

/-- While the count is drained the waiters are covered. -/
def DrainedCovered (p : SemaphorePool) : Prop := p.shared.count ≤ 0 → Covered p

/-- The step lemma. -/
theorem DrainedCovered.step {s s' : SemaphoreState} {l r : List (List Instr)} {t t' : List Instr}
    (h : DrainedCovered ⟨s, l ++ t :: r⟩) (hguarded : Guarded ⟨s, l ++ t :: r⟩)
    (hrange : CountInRange ⟨s, l ++ t :: r⟩)
    (hok : ReleasesInRange ⟨s, l ++ t :: r⟩ (.run l.length ())) (hstep : SemaphoreStep s t s' t') :
    DrainedCovered ⟨s', l ++ goesOn t' ++ r⟩ := by
  obtain ⟨hlow, hhigh⟩ := hrange
  dsimp only at hlow hhigh
  intro hdrained
  cases hstep with
  | acquireDrained n rest _ =>
      refine Or.inl ?_
      rw [Pool.total_after, sum_goesOn countOf_nil, countOf_cons]
      simp [Instr.isDrain]
  | acquire n rest hpositive =>
      -- the count stays positive
      have hcount : toInt64 (s.count - n.val) = s.count - n.val :=
        toInt64_of_inRange (by omega) (by omega)
      dsimp only at hdrained
      omega
  | release n =>
      have hcovered : Covered ⟨s, l ++ (.call (.release n) :: t') :: r⟩ := by
        simp only [ReleasesInRange, Pool.getElem?_middle] at hok
        rcases hok with hfits | hcovered
        · have hcount : toInt64 (s.count + n.val) = s.count + n.val :=
            toInt64_of_inRange (by omega) hfits
          refine h ?_
          dsimp only at hdrained ⊢
          omega
        · exact hcovered
      exact hcovered.frame rfl (by simp [Instr.isDrain]) (by simp [Instr.isPushBack])
  | drain rest hfree =>
      refine Or.inr ⟨rfl, ?_⟩
      have hnone := hguarded.noPushBack hfree
      rw [Pool.total_before, countOf_cons] at hnone
      have hcompletes : countOf Instr.isPushBack (s.waiters.map .complete) = 0 := by
        simp [countOf_map, Instr.isPushBack]
      rw [Pool.total_after, sum_goesOn countOf_nil, countOf_append, hcompletes]
      omega
  | load op rest hpositive => exact absurd hdrained (not_le.2 hpositive)
  | pushBack op rest =>
      rcases h hdrained with hdrains | ⟨-, hnone⟩
      · refine Or.inl ?_
        rw [Pool.total_before] at hdrains
        rw [Pool.total_after, sum_goesOn countOf_nil]
        simpa [Instr.isDrain] using hdrains
      · rw [Pool.total_before, countOf_cons] at hnone
        simp [Instr.isPushBack] at hnone
  | complete op rest =>
      refine (h hdrained).frame rfl ?_ ?_
      · rw [countOf_append, countOf_call (fun _ => rfl), countOf_cons]
        simp [Instr.isDrain]
      · rw [countOf_append, countOf_call (fun _ => rfl), countOf_cons]
        simp [Instr.isPushBack]
  | start | lock | loadDrained | unlock =>
      exact (h hdrained).frame rfl (by simp [Instr.isDrain]) (by simp [Instr.isPushBack])

/-- The run lemma. -/
theorem drainedCovered_of_exec {tr : List (SemaphorePool × SemaphoreAction)} {p : SemaphorePool}
    (h : semaphoreMachine.Exec tr p) (hok : Machine.Meets ReleasesInRange tr) :
    DrainedCovered p := by
  refine semaphore_invariantWhere (I := DrainedCovered) ?_ ?_ ?_ h hok
  · intro count _ _ _
    exact Or.inr ⟨rfl, rfl⟩
  · intro p c hI hdrained
    refine (hI hdrained).imp (fun hdrains => ?_) fun hnone => ⟨hnone.1, ?_⟩
    · rw [Pool.total_arrive _ p]
      simpa [Instr.isDrain] using hdrains
    · rw [Pool.total_arrive _ p, hnone.2]
      rfl
  · intro tr s s' l t r t' hex hI hok hstep
    exact hI.step (guarded_of_exec hex) (countInRange_of_exec hex) hok hstep

/-- No operation is completed twice. -/
theorem completed_nodup {tr : List (SemaphorePool × SemaphoreAction)} {p : SemaphorePool}
    (h : semaphoreMachine.Exec tr p) : p.shared.completed.Nodup := by
  refine List.nodup_iff_count.2 fun id => ?_
  have hplaces := accounted_of_exec h id
  have hle := Bool.toNat_le (decide (id < p.shared.started))
  unfold places at hplaces
  omega

/-- When nobody does anything, what was started and does not wait was completed. -/
theorem completed_of_quiescent {tr : List (SemaphorePool × SemaphoreAction)} {p : SemaphorePool}
    (h : semaphoreMachine.Exec tr p) (hquiet : p.threads = []) (hnone : p.shared.waiters = [])
    {id : ℕ} (hid : id < p.shared.started) : id ∈ p.shared.completed := by
  have hplaces := accounted_of_exec h id
  have hhands : p.total (countOf (Instr.worksOn id)) = 0 := by simp [Pool.total, hquiet]
  rw [places, hhands, hnone, decide_eq_true hid] at hplaces
  refine List.count_pos_iff.1 ?_
  simp only [waitsIn, List.countP_nil, Bool.toNat_true] at hplaces
  omega

/-- **When no waiter is lost.**  No operation is completed twice.  In every run in which no
`Release` wraps the count around while somebody waits and nobody is on the way to the list, in every
state in which no call is in progress and the count is drained, every operation that was started was
completed.  And every other `Release`, if no other call is in progress, leaves such a state with an
operation that was not. -/
theorem no_waiter_lost {tr : List (SemaphorePool × SemaphoreAction)} {p : SemaphorePool}
    (h : semaphoreMachine.Exec tr p) :
    p.shared.completed.Nodup ∧
    (Machine.Meets ReleasesInRange tr → p.threads = [] → p.shared.count ≤ 0 →
      ∀ id < p.shared.started, id ∈ p.shared.completed) ∧
    (∀ n q, p.threads = [[.call (.release n)]] → semaphoreMachine.next p (.run 0 ()) = some q →
      ¬ ReleasesInRange p (.run 0 ()) → q.threads = [] ∧ q.shared.count ≤ 0 ∧
        ∃ id < q.shared.started, id ∉ q.shared.completed) := by
  refine ⟨completed_nodup h, fun hok hquiet hdrained id hid => ?_, fun n q hthreads hn hwraps => ?_⟩
  · refine completed_of_quiescent h hquiet ?_ hid
    rcases drainedCovered_of_exec h hok hdrained with hdrains | ⟨hnone, -⟩
    · simp [Pool.total, hquiet] at hdrains
    · exact hnone
  · -- the only call in progress ends, and nobody takes the waiter out of the list
    have hq : q = ⟨{ p.shared with count := toInt64 (p.shared.count + n.val) }, []⟩ := by
      simpa [semaphoreMachine, ThreadProgram.machine, ThreadProgram.next, semaphoreProgram,
        hthreads, SemaphoreState.step, goesOn] using hn.symm
    subst hq
    simp only [ReleasesInRange, hthreads, List.getElem?_cons_zero, not_or, not_lt] at hwraps
    obtain ⟨hwraps, huncovered⟩ := hwraps
    refine ⟨rfl, ?_, ?_⟩
    · have hhigh := (countInRange_of_exec h).2
      rw [toInt64_of_wraps hwraps (by omega)]
      dsimp only
      omega
    · have hwaits : p.shared.waiters ≠ [] := by
        intro hnone
        exact huncovered (Or.inr ⟨hnone, by simp [Pool.total, hthreads, Instr.isPushBack]⟩)
      obtain ⟨op, hop⟩ := List.exists_mem_of_ne_nil _ hwaits
      exact ⟨op.id, inProgress_of_waits (p := p) h hop⟩

/-- The count is 1, an operation waits, and an `Acquire` drains the semaphore. -/
theorem no_waiter_lost_acquire : ∃ tr p, semaphoreMachine.Exec tr p ∧ p.threads = [] ∧
    p.shared.count = 0 ∧ p.shared.started = 1 ∧ 0 ∈ p.shared.completed := by
  obtain ⟨p, hex, hp⟩ := Machine.exists_exec_of_replay
    (semaphoreMachine_init 1 (by decide) (by decide))
    (startAndWait [] ++ [.arrive (.acquire 1), .run 0 (), .run 0 (), .run 0 ()])
    (fun p => (p.threads.length, p.shared.count, p.shared.started)) (0, 0, 1) (by decide)
  simp only [Prod.mk.injEq] at hp
  obtain ⟨hthreads, hcount, hstarted⟩ := hp
  have hquiet := List.eq_nil_of_length_eq_zero hthreads
  exact ⟨_, p, hex, hquiet, hcount, hstarted,
    (no_waiter_lost hex).2.1 (by decide) hquiet hcount.le 0 (by omega)⟩

/-- The count is the largest `int64_t`, an operation waits, and a `Release` makes the count
negative: no call is in progress, and the operation is never completed. -/
theorem waiter_lost : ∃ tr p, semaphoreMachine.Exec tr p ∧ p.threads = [] ∧ p.shared.count ≤ 0 ∧
    ∃ id < p.shared.started, id ∉ p.shared.completed := by
  obtain ⟨p, hex, hp⟩ := Machine.exists_exec_of_replay
    (semaphoreMachine_init (2 ^ 63 - 1) (by decide) (by decide))
    (startAndWait [] ++ [.arrive (.release 1), .run 0 ()])
    (fun p => (p.threads.length, p.shared.count, p.shared.started, p.shared.completed))
    (0, -2 ^ 63, 1, []) (by decide)
  simp only [Prod.mk.injEq] at hp
  obtain ⟨hthreads, hcount, hstarted, hcompleted⟩ := hp
  exact ⟨_, p, hex, List.eq_nil_of_length_eq_zero hthreads, by omega, 0, by omega,
    by simp [hcompleted]⟩

/-! ### Completion only for a drained semaphore -/

section Origins

variable {s s' : SemaphoreState} {t t' : List Instr} {op : OnDrainedOperation}

/-- Where an operation that is about to be completed comes from. -/
theorem SemaphoreStep.complete_mem (h : SemaphoreStep s t s' t') (hop : .complete op ∈ t') :
    .complete op ∈ t ∨ (.drain ∈ t ∧ op ∈ s.waiters) ∨ (.load op ∈ t ∧ s.count ≤ 0) := by
  cases h with
  | drain rest =>
      rcases List.mem_append.1 hop with hop | hop
      · obtain ⟨op', hop', heq⟩ := List.mem_map.1 hop
        obtain rfl := Instr.complete.inj heq
        exact Or.inr (Or.inl ⟨List.mem_cons_self, hop'⟩)
      · exact Or.inl (List.mem_cons_of_mem _ hop)
  | complete op' rest =>
      rcases List.mem_append.1 hop with hop | hop
      · simp at hop
      · exact Or.inl (List.mem_cons_of_mem _ hop)
  | loadDrained op' rest hdrained =>
      rcases List.mem_cons.1 hop with heq | hop
      · obtain rfl := Instr.complete.inj heq
        exact Or.inr (Or.inr ⟨List.mem_cons_self, hdrained⟩)
      · exact Or.inl (List.mem_cons_of_mem _ hop)
  | _ => simp_all

/-- Where an operation that waits or is about to wait comes from. -/
theorem SemaphoreStep.queued (h : SemaphoreStep s t s' t')
    (hop : op ∈ s'.waiters ∨ .pushBack op ∈ t') :
    op ∈ s.waiters ∨ .pushBack op ∈ t ∨ (t.head? = some (.load op) ∧ 0 < s.count ∧ s' = s) := by
  cases h with
  | pushBack op' rest =>
      rcases hop with hop | hop
      · rcases List.mem_append.1 hop with hop | hop
        · exact Or.inl hop
        · obtain rfl := List.mem_singleton.1 hop
          exact Or.inr (Or.inl List.mem_cons_self)
      · exact Or.inr (Or.inl (List.mem_cons_of_mem _ hop))
  | load op' rest hpositive =>
      rcases hop with hop | hop
      · exact Or.inl hop
      · rcases List.mem_cons.1 hop with heq | hop
        · obtain rfl := Instr.pushBack.inj heq
          exact Or.inr (Or.inr ⟨rfl, hpositive, rfl⟩)
        · exact Or.inr (Or.inl (List.mem_cons_of_mem _ hop))
  | loadDrained op' rest hdrained =>
      rcases hop with hop | hop
      · exact Or.inl hop
      · rcases List.mem_cons.1 hop with heq | hop
        · exact Instr.noConfusion heq
        · exact Or.inr (Or.inl (List.mem_cons_of_mem _ hop))
  | _ => simp_all

/-- Where a completed operation comes from. -/
theorem SemaphoreStep.completed_mem {id : ℕ} (h : SemaphoreStep s t s' t')
    (hid : id ∈ s'.completed) :
    id ∈ s.completed ∨ ∃ op : OnDrainedOperation, .complete op ∈ t ∧ op.id = id := by
  cases h with
  | complete op rest =>
      rcases List.mem_append.1 hid with hid | hid
      · exact Or.inl hid
      · exact Or.inr ⟨op, List.mem_cons_self, (List.mem_singleton.1 hid).symm⟩
  | _ => exact Or.inl hid

/-- An `Acquire` is on the way to the list since a step that found or left the count drained. -/
theorem SemaphoreStep.drain_mem (h : SemaphoreStep s t s' t') (hdrain : .drain ∈ t') :
    .drain ∈ t ∨ ((s.count ≤ 0 ∨ s'.count ≤ 0) ∧ s'.started = s.started ∧
      s'.completed = s.completed) := by
  cases h with
  | acquireDrained n rest hdrained =>
      refine Or.inr ⟨?_, rfl, rfl⟩
      by_cases hpositive : 0 < s.count
      · have hcount : toInt64 (s.count - n.val) = s.count - n.val :=
          toInt64_of_inRange (by omega) (by omega)
        refine Or.inr ?_
        dsimp only
        omega
      · exact Or.inl (not_lt.1 hpositive)
  | drain rest =>
      rcases List.mem_append.1 hdrain with hdrain | hdrain
      · simp at hdrain
      · exact Or.inl (List.mem_cons_of_mem _ hdrain)
  | complete op rest =>
      rcases List.mem_append.1 hdrain with hdrain | hdrain
      · simp at hdrain
      · exact Or.inl (List.mem_cons_of_mem _ hdrain)
  | _ => simp_all

end Origins

/-- While the operation was in progress the count was drained. -/
def DrainedDuring (tr : List (SemaphorePool × SemaphoreAction)) (p : SemaphorePool) (id : ℕ) :
    Prop :=
  ∃ q ∈ Machine.states tr p, InProgress q id ∧ q.shared.count ≤ 0

/-- An operation that finds the count positive, and queues itself, does so while no `Acquire` is on
its way to the list. -/
def QueuesUndrained (p : SemaphorePool) : SemaphoreAction → Prop
  | .run i _ =>
      match p.threads[i]? with
      | some (.load _ :: _) => p.shared.count ≤ 0 ∨ p.total (countOf Instr.isDrain) = 0
      | _ => True
  | .arrive _ => True

instance (p : SemaphorePool) (a : SemaphoreAction) : Decidable (QueuesUndrained p a) := by
  unfold QueuesUndrained
  split
  · split <;> infer_instance
  · infer_instance

/-- The operation waits, or is about to. -/
def Queued (p : SemaphorePool) (op : OnDrainedOperation) : Prop :=
  op ∈ p.shared.waiters ∨ ∃ t ∈ p.threads, .pushBack op ∈ t

/-- `D` holds of an operation that is completed, or is about to be, or is queued while an `Acquire`
is on its way to the list. -/
structure DrainedOnly (D : ℕ → Prop) (p : SemaphorePool) : Prop where
  queued : ∀ t ∈ p.threads, .drain ∈ t → ∀ op, Queued p op → D op.id
  inHand : ∀ t ∈ p.threads, ∀ op, .complete op ∈ t → D op.id
  completed : ∀ id ∈ p.shared.completed, D id

/-- The threads after a step. -/
theorem mem_after {l r : List (List Instr)} {t t' u : List Instr} (h : u ∈ l ++ goesOn t' ++ r) :
    u ∈ l ++ t :: r ∨ u = t' := by
  rcases List.mem_append.1 h with h | h
  · rcases List.mem_append.1 h with h | h
    · exact Or.inl (List.mem_append_left _ h)
    · exact Or.inr (eq_of_mem_goesOn h)
  · exact Or.inl (List.mem_append_right _ (List.mem_cons_of_mem t h))

/-- A call that arrives works on no operation. -/
theorem DrainedOnly.arrive {D D' : ℕ → Prop} {p : SemaphorePool} (h : DrainedOnly D p) (c : Call)
    (hD : ∀ id, D id → D' id) : DrainedOnly D' ⟨p.shared, p.threads ++ [[.call c]]⟩ := by
  have hmem : ∀ i : Instr, i ≠ .call c → ∀ u ∈ p.threads ++ [[.call c]], i ∈ u →
      u ∈ p.threads := by
    intro i hi u hu hiu
    rcases List.mem_append.1 hu with hu | hu
    · exact hu
    · obtain rfl := List.mem_singleton.1 hu
      exact absurd (List.mem_singleton.1 hiu) hi
  refine ⟨fun u hu hdrain op hop => ?_, fun u hu op hop => ?_, fun id hid => ?_⟩
  · refine hD _ (h.queued u (hmem _ (by simp) u hu hdrain) hdrain op (hop.imp_right ?_))
    rintro ⟨v, hv, hpush⟩
    exact ⟨v, hmem _ (by simp) v hv hpush, hpush⟩
  · exact hD _ (h.inHand u (hmem _ (by simp) u hu hop) op hop)
  · exact hD _ (h.completed id hid)

/-- **The step lemma**, where `D'` adds to `D` what is in progress while the count is drained. -/
theorem DrainedOnly.step {D D' : ℕ → Prop} {tr : List (SemaphorePool × SemaphoreAction)}
    {s s' : SemaphoreState} {l r : List (List Instr)} {t t' : List Instr}
    (h : DrainedOnly D ⟨s, l ++ t :: r⟩) (hex : semaphoreMachine.Exec tr ⟨s, l ++ t :: r⟩)
    (hok : QueuesUndrained ⟨s, l ++ t :: r⟩ (.run l.length ())) (hstep : SemaphoreStep s t s' t')
    (hD : ∀ id, D id → D' id)
    (hbefore : ∀ id, InProgress ⟨s, l ++ t :: r⟩ id → s.count ≤ 0 → D' id)
    (hafter : ∀ id, InProgress ⟨s', l ++ goesOn t' ++ r⟩ id → s'.count ≤ 0 → D' id) :
    DrainedOnly D' ⟨s', l ++ goesOn t' ++ r⟩ := by
  obtain ⟨hqueued, hinHand, hcompleted⟩ := h
  have ht : t ∈ l ++ t :: r := by simp
  refine ⟨fun u hu hdrain op hop => ?_, fun u hu op hop => ?_, fun id hid => ?_⟩
  · -- the operation was queued before the step, unless it found the count positive
    have horigin : Queued ⟨s, l ++ t :: r⟩ op ∨
        (t.head? = some (.load op) ∧ 0 < s.count ∧ s' = s) := by
      have hhere : op ∈ s'.waiters ∨ .pushBack op ∈ t' → Queued ⟨s, l ++ t :: r⟩ op ∨
          (t.head? = some (.load op) ∧ 0 < s.count ∧ s' = s) := by
        intro hhere
        rcases hstep.queued hhere with hwaits | hpush | hload
        · exact Or.inl (Or.inl hwaits)
        · exact Or.inl (Or.inr ⟨t, ht, hpush⟩)
        · exact Or.inr hload
      rcases hop with hwaits | ⟨v, hv, hpush⟩
      · exact hhere (Or.inl hwaits)
      · rcases mem_after hv with hv | rfl
        · exact Or.inl (Or.inr ⟨v, hv, hpush⟩)
        · exact hhere (Or.inr hpush)
    -- the `Acquire` was on its way before the step, unless the step is its own
    have hway : (∃ v ∈ l ++ t :: r, .drain ∈ v) ∨ ((s.count ≤ 0 ∨ s'.count ≤ 0) ∧
        s'.started = s.started ∧ s'.completed = s.completed) := by
      rcases mem_after hu with hu | rfl
      · exact Or.inl ⟨u, hu, hdrain⟩
      · rcases hstep.drain_mem hdrain with hdrain | hnew
        · exact Or.inl ⟨t, ht, hdrain⟩
        · exact Or.inr hnew
    rcases horigin with hop | ⟨hload, hpositive, rfl⟩
    · rcases hway with ⟨v, hv, hdrain⟩ | ⟨hcount, hstarted, hdone⟩
      · exact hD _ (hqueued v hv hdrain op hop)
      · have hprogress : InProgress ⟨s, l ++ t :: r⟩ op.id := by
          rcases hop with hwaits | ⟨v, hv, hpush⟩
          · exact inProgress_of_waits hex hwaits
          · exact inProgress_of_worksOn hex hv hpush (beq_self_eq_true op.id)
        rcases hcount with hcount | hcount
        · exact hbefore _ hprogress hcount
        · refine hafter _ ?_ hcount
          unfold InProgress at hprogress ⊢
          rw [hstarted, hdone]
          exact hprogress
    · obtain ⟨rest, rfl⟩ := List.head?_eq_some_iff.1 hload
      simp only [QueuesUndrained, Pool.getElem?_middle] at hok
      rcases hok with hcount | hnone
      · exact absurd hcount (not_le.2 hpositive)
      · rcases hway with ⟨v, hv, hdrain⟩ | ⟨hcount, -⟩
        · have hzero := Pool.total_eq_zero_iff.1 hnone v hv
          exact absurd rfl (List.countP_eq_zero.1 hzero _ hdrain)
        · omega
  · rcases mem_after hu with hu | rfl
    · exact hD _ (hinHand u hu op hop)
    · rcases hstep.complete_mem hop with hop | ⟨hdrain, hwaits⟩ | ⟨hload, hdrained⟩
      · exact hD _ (hinHand t ht op hop)
      · exact hD _ (hqueued t ht hdrain op (Or.inl hwaits))
      · exact hbefore _ (inProgress_of_worksOn hex ht hload (beq_self_eq_true op.id)) hdrained
  · rcases hstep.completed_mem hid with hid | ⟨op, hop, rfl⟩
    · exact hD _ (hcompleted id hid)
    · exact hD _ (hinHand t ht op hop)

/-- A run that goes on keeps what it has seen. -/
theorem DrainedDuring.snoc {tr : List (SemaphorePool × SemaphoreAction)} {p q : SemaphorePool}
    {a : SemaphoreAction} {id : ℕ} (h : DrainedDuring tr p id) :
    DrainedDuring (tr ++ [(p, a)]) q id := by
  obtain ⟨q', hq', hprogress⟩ := h
  refine ⟨q', List.mem_append_left _ ?_, hprogress⟩
  simpa [Machine.states] using hq'

/-- The run lemma. -/
theorem drainedOnly_of_exec {tr : List (SemaphorePool × SemaphoreAction)} {p : SemaphorePool}
    (h : semaphoreMachine.Exec tr p) (hok : Machine.Meets QueuesUndrained tr) :
    DrainedOnly (DrainedDuring tr p) p := by
  induction h with
  | @init p h0 =>
      obtain ⟨s, ts⟩ := p
      obtain ⟨⟨count, -, -, rfl⟩, rfl⟩ := h0
      exact ⟨by simp, by simp, by simp [SemaphoreState.initial]⟩
  | @step tr p p' a hex hn ih =>
      rw [Machine.meets_append, Machine.meets_singleton] at hok
      have hI := ih hok.1
      cases a with
      | arrive c =>
          obtain ⟨s, t, hat, rfl⟩ := (ThreadProgram.next_arrive_iff (P := semaphoreProgram)).1 hn
          obtain ⟨rfl, rfl⟩ := Prod.mk.inj (Option.some.inj hat)
          exact hI.arrive c fun id hid => hid.snoc
      | run n k =>
          obtain ⟨l, t, r, s', t', hp, rfl, hstep, rfl⟩ := semaphoreStep_of_next hn
          obtain ⟨s, ts⟩ := p
          obtain rfl : ts = l ++ t :: r := hp
          refine hI.step hex hok.2 hstep (fun id hid => hid.snoc) ?_ ?_
          · intro id hprogress hcount
            exact ⟨_, List.mem_append_left _ (by simp), hprogress, hcount⟩
          · intro id hprogress hcount
            exact ⟨_, List.mem_append_right _ (List.mem_singleton_self _), hprogress, hcount⟩

/-- **When an operation is completed only for a drained semaphore.**  In every run in which no
operation queues itself while an `Acquire` is on its way to the list, the count was drained at some
moment between the start and the completion of each operation. -/
theorem completed_only_drained {tr : List (SemaphorePool × SemaphoreAction)} {p : SemaphorePool}
    (h : semaphoreMachine.Exec tr p) (hok : Machine.Meets QueuesUndrained tr) :
    ∀ id ∈ p.shared.completed, DrainedDuring tr p id :=
  (drainedOnly_of_exec h hok).completed

/-- The count is 1, an operation waits, and an `Acquire` drains the semaphore. -/
theorem completed_only_drained_acquire : ∃ tr p, semaphoreMachine.Exec tr p ∧
    p.shared.completed = [0] ∧ DrainedDuring tr p 0 := by
  obtain ⟨p, hex, hp⟩ := Machine.exists_exec_of_replay
    (semaphoreMachine_init 1 (by decide) (by decide))
    (startAndWait [] ++ [.arrive (.acquire 1), .run 0 (), .run 0 (), .run 0 ()])
    (fun p => p.shared.completed) [0] (by decide)
  exact ⟨_, p, hex, hp, completed_only_drained hex (by decide) 0 (by simp [hp])⟩

/-- An `Acquire` drains the semaphore, and before it takes the mutex a `Release` makes the count
positive: the operation that is started then queues itself, and the `Acquire` completes it. -/
def releasedBeforeStart : List SemaphoreAction :=
  [.arrive (.acquire 1), .run 0 (), .arrive (.release 1), .run 1 ()] ++
    [.arrive (.start []), .run 1 (), .run 1 (), .run 1 (), .run 1 (), .run 1 ()] ++
      [.run 0 (), .run 0 ()]

/-- All the while from its start to its completion the count is 1. -/
theorem completed_undrained : ∃ tr p, semaphoreMachine.Exec tr p ∧ p.shared.completed = [0] ∧
    ¬ DrainedDuring tr p 0 := by
  obtain ⟨p, hex, hp⟩ := Machine.exists_exec_of_replay
    (semaphoreMachine_init 1 (by decide) (by decide)) releasedBeforeStart
    (fun p => (p.shared.count, p.shared.completed)) (1, [0]) (by decide)
  simp only [Prod.mk.injEq] at hp
  refine ⟨_, p, hex, hp.2, ?_⟩
  rintro ⟨q, hq, hprogress, hcount⟩
  rcases List.mem_append.1 hq with hq | hq
  · have hpositive : ∀ q ∈ (semaphoreMachine.replayTrace ⟨.initial 1, []⟩ releasedBeforeStart).map
        Prod.fst, 0 < q.shared.started → 0 < q.shared.count := by decide
    exact absurd hcount (not_le.2 (hpositive q hq hprogress.1))
  · obtain rfl := List.mem_singleton.1 hq
    omega

end ExActor
