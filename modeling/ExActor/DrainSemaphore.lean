/-
**The semaphore, with its waiters and their continuations.**

`Semaphore` of `util.h` keeps a count that is changed by atomic operations and a list of waiting
`OnDrained` operations under a mutex.  `Acquire` lowers the count and, if it finds or leaves it
drained, empties the list and completes what was in it; `OnDrainedOperation::start` takes the mutex,
and completes its operation at once or puts it in the list.

A completion runs the continuation of the operation on the same thread before it returns, and the
continuation may use the same semaphore: it is a list of calls, some of which start operations with
continuations of their own.  What a thread still has to do is therefore a stack, and a completion
pushes the calls of the continuation onto it.

`count_` is an `int64_t`: its value is an integer, and an atomic operation wraps around.  In
`Acquire` the lock, the move of the list and the unlock are one step.

Main definitions:

* `Call`, `OnDrainedOperation`, `Instr` — calls, operations, what a thread has to do next;
* `SemaphoreState`, `SemaphoreState.step` — the shared state, one step of a thread;
* `semaphoreMachine` — all interleavings.

Main results:

* `SemaphoreStep`, `step_spec` — what each step does;
* `guarded_of_exec` — one thread at a time holds the mutex;
* `accounted_of_exec` — **every started operation is in one place**.
-/

import ExActor.Interleaving

set_option relaxedAutoImplicit false
set_option autoImplicit false

namespace ExActor

/-! ### Calls -/

/-- An `int64_t` argument that is not negative. -/
abbrev Permits := Fin (2 ^ 63)

/-- The value of an `int64_t` that is congruent to `x`. -/
def toInt64 (x : ℤ) : ℤ := x.bmod (2 ^ 64)

/-- A call of a method of the semaphore.  What is started has a continuation. -/
inductive Call
  | acquire (n : Permits)
  | release (n : Permits)
  | start (receiver : List Call)

/-- An `OnDrainedOperation` that was started: its number, and what its receiver does when it is
completed. -/
structure OnDrainedOperation where
  id : ℕ
  receiver : List Call

/-- What a thread does next. -/
inductive Instr
  | call (c : Call)
  /-- `Acquire` has found the count drained: it takes the waiters out of the list. -/
  | drain
  /-- `start` takes the mutex. -/
  | lock (op : OnDrainedOperation)
  /-- `start` reads the count. -/
  | load (op : OnDrainedOperation)
  | pushBack (op : OnDrainedOperation)
  | unlock
  | complete (op : OnDrainedOperation)

/-! ### The state -/

/-- The members of `Semaphore`, with the number of operations that were started and the numbers of
those that were completed. -/
structure SemaphoreState where
  count : ℤ
  waiters : List OnDrainedOperation
  /-- Somebody holds `waiters_mu_`. -/
  locked : Bool
  started : ℕ
  completed : List ℕ

/-- The constructor. -/
def SemaphoreState.initial (count : ℤ) : SemaphoreState := ⟨count, [], false, 0, []⟩

/-- One step of a thread with this stack. -/
def SemaphoreState.step (s : SemaphoreState) : List Instr → Option (SemaphoreState × List Instr)
  | .call (.acquire n) :: rest =>
      some ({ s with count := toInt64 (s.count - n.val) },
        if s.count ≤ n.val then .drain :: rest else rest)
  | .call (.release n) :: rest => some ({ s with count := toInt64 (s.count + n.val) }, rest)
  | .call (.start receiver) :: rest =>
      some ({ s with started := s.started + 1 }, .lock ⟨s.started, receiver⟩ :: rest)
  | .drain :: rest =>
      if s.locked then none
      else some ({ s with waiters := [] }, s.waiters.map .complete ++ rest)
  | .lock op :: rest =>
      if s.locked then none else some ({ s with locked := true }, .load op :: .unlock :: rest)
  | .load op :: rest =>
      some (s, if s.count ≤ 0 then .complete op :: rest else .pushBack op :: rest)
  | .pushBack op :: rest => some ({ s with waiters := s.waiters ++ [op] }, rest)
  | .unlock :: rest => some ({ s with locked := false }, rest)
  | .complete op :: rest =>
      some ({ s with completed := s.completed ++ [op.id] }, op.receiver.map .call ++ rest)
  | [] => none

/-- A thread whose stack is empty has ended. -/
def goesOn : List Instr → List (List Instr)
  | [] => []
  | i :: rest => [i :: rest]

/-- Threads that each make one call. -/
def semaphoreProgram : ThreadProgram SemaphoreState (List Instr) Unit Call where
  run s t _ := (s.step t).map fun p => (p.1, goesOn p.2)
  arrive p c := some (p.shared, [.call c])

/-- All interleavings, from any initial count. -/
def semaphoreMachine : Machine (Pool SemaphoreState (List Instr)) (PoolAction Unit Call) :=
  semaphoreProgram.machine fun s =>
    ∃ count : ℤ, -2 ^ 63 ≤ count ∧ count < 2 ^ 63 ∧ s = .initial count

theorem semaphoreMachine_init (count : ℤ) (hlow : -2 ^ 63 ≤ count) (hhigh : count < 2 ^ 63) :
    semaphoreMachine.init ⟨.initial count, []⟩ :=
  ⟨⟨count, hlow, hhigh, rfl⟩, rfl⟩

/-- The semaphore and the threads that use it. -/
abbrev SemaphorePool := Pool SemaphoreState (List Instr)

abbrev SemaphoreAction := PoolAction Unit Call

/-- An operation is started, and its thread takes five steps. -/
def startAndWait (receiver : List Call) : List SemaphoreAction :=
  .arrive (.start receiver) :: List.replicate 5 (.run 0 ())

/-! ### The steps -/

/-- **What a step does**, by what the thread does next. -/
inductive SemaphoreStep (s : SemaphoreState) : List Instr → SemaphoreState → List Instr → Prop
  | acquireDrained (n : Permits) (rest : List Instr) : s.count ≤ n.val →
      SemaphoreStep s (.call (.acquire n) :: rest)
        { s with count := toInt64 (s.count - n.val) } (.drain :: rest)
  | acquire (n : Permits) (rest : List Instr) : n.val < s.count →
      SemaphoreStep s (.call (.acquire n) :: rest)
        { s with count := toInt64 (s.count - n.val) } rest
  | release (n : Permits) (rest : List Instr) :
      SemaphoreStep s (.call (.release n) :: rest)
        { s with count := toInt64 (s.count + n.val) } rest
  | start (receiver : List Call) (rest : List Instr) :
      SemaphoreStep s (.call (.start receiver) :: rest)
        { s with started := s.started + 1 } (.lock ⟨s.started, receiver⟩ :: rest)
  | drain (rest : List Instr) : s.locked = false →
      SemaphoreStep s (.drain :: rest) { s with waiters := [] } (s.waiters.map .complete ++ rest)
  | lock (op : OnDrainedOperation) (rest : List Instr) : s.locked = false →
      SemaphoreStep s (.lock op :: rest) { s with locked := true } (.load op :: .unlock :: rest)
  | loadDrained (op : OnDrainedOperation) (rest : List Instr) : s.count ≤ 0 →
      SemaphoreStep s (.load op :: rest) s (.complete op :: rest)
  | load (op : OnDrainedOperation) (rest : List Instr) : 0 < s.count →
      SemaphoreStep s (.load op :: rest) s (.pushBack op :: rest)
  | pushBack (op : OnDrainedOperation) (rest : List Instr) :
      SemaphoreStep s (.pushBack op :: rest) { s with waiters := s.waiters ++ [op] } rest
  | unlock (rest : List Instr) :
      SemaphoreStep s (.unlock :: rest) { s with locked := false } rest
  | complete (op : OnDrainedOperation) (rest : List Instr) :
      SemaphoreStep s (.complete op :: rest)
        { s with completed := s.completed ++ [op.id] } (op.receiver.map .call ++ rest)

theorem step_spec {s s' : SemaphoreState} {t t' : List Instr} (h : s.step t = some (s', t')) :
    SemaphoreStep s t s' t' := by
  cases t with
  | nil => simp [SemaphoreState.step] at h
  | cons i rest =>
      cases i with
      | call c =>
          cases c with
          | acquire n =>
              obtain ⟨rfl, rfl⟩ := Prod.mk.inj (Option.some.inj h)
              split
              · next hdrained => exact .acquireDrained n rest hdrained
              · next hdrained => exact .acquire n rest (not_le.1 hdrained)
          | release n =>
              obtain ⟨rfl, rfl⟩ := Prod.mk.inj (Option.some.inj h)
              exact .release n rest
          | start receiver =>
              obtain ⟨rfl, rfl⟩ := Prod.mk.inj (Option.some.inj h)
              exact .start receiver rest
      | drain =>
          simp only [SemaphoreState.step] at h
          split at h
          · simp at h
          · next hfree =>
              obtain ⟨rfl, rfl⟩ := Prod.mk.inj (Option.some.inj h)
              exact .drain rest (by simpa using hfree)
      | lock op =>
          simp only [SemaphoreState.step] at h
          split at h
          · simp at h
          · next hfree =>
              obtain ⟨rfl, rfl⟩ := Prod.mk.inj (Option.some.inj h)
              exact .lock op rest (by simpa using hfree)
      | load op =>
          obtain ⟨rfl, rfl⟩ := Prod.mk.inj (Option.some.inj h)
          split
          · next hdrained => exact .loadDrained op rest hdrained
          · next hdrained => exact .load op rest (not_le.1 hdrained)
      | pushBack op =>
          obtain ⟨rfl, rfl⟩ := Prod.mk.inj (Option.some.inj h)
          exact .pushBack op rest
      | unlock =>
          obtain ⟨rfl, rfl⟩ := Prod.mk.inj (Option.some.inj h)
          exact .unlock rest
      | complete op =>
          obtain ⟨rfl, rfl⟩ := Prod.mk.inj (Option.some.inj h)
          exact .complete op rest

/-! ### Threads that end -/

@[simp] theorem sum_goesOn {w : List Instr → ℕ} (hnil : w [] = 0) (t : List Instr) :
    ((goesOn t).map w).sum = w t := by
  cases t <;> simp [goesOn, hnil]

theorem eq_of_mem_goesOn {t u : List Instr} (h : u ∈ goesOn t) : u = t := by
  cases t with
  | nil => simp [goesOn] at h
  | cons i rest => exact List.mem_singleton.1 h

theorem mem_goesOn {t : List Instr} (h : t ≠ []) : t ∈ goesOn t := by
  cases t with
  | nil => exact absurd rfl h
  | cons i rest => exact List.mem_singleton_self _

/-- A step of a thread, by the position of the thread. -/
theorem semaphoreStep_of_next {p p' : SemaphorePool} {n : ℕ} {k : Unit}
    (hn : semaphoreMachine.next p (.run n k) = some p') :
    ∃ l t r s' t', p.threads = l ++ t :: r ∧ l.length = n ∧ SemaphoreStep p.shared t s' t' ∧
      p' = ⟨s', l ++ goesOn t' ++ r⟩ := by
  obtain ⟨l, t, r, s', new, hp, hlength, hr, rfl⟩ :=
    (ThreadProgram.next_run_iff (P := semaphoreProgram)).1 hn
  obtain ⟨⟨s₁, t'⟩, hstep, heq⟩ := Option.map_eq_some_iff.1 hr
  obtain ⟨rfl, rfl⟩ := Prod.mk.inj heq
  exact ⟨l, t, r, s₁, t', hp, hlength, step_spec hstep, rfl⟩

/-- **The invariant rule of the semaphore.** -/
theorem semaphore_invariantWhere {C : SemaphorePool → SemaphoreAction → Prop}
    {I : SemaphorePool → Prop}
    (hinit : ∀ count : ℤ, -2 ^ 63 ≤ count → count < 2 ^ 63 → I ⟨.initial count, []⟩)
    (harrive : ∀ p c, I p → I ⟨p.shared, p.threads ++ [[.call c]]⟩)
    (hrun : ∀ tr s s' l t r t', semaphoreMachine.Exec tr ⟨s, l ++ t :: r⟩ →
      I ⟨s, l ++ t :: r⟩ → C ⟨s, l ++ t :: r⟩ (.run l.length ()) → SemaphoreStep s t s' t' →
        I ⟨s', l ++ goesOn t' ++ r⟩)
    {tr : List (SemaphorePool × SemaphoreAction)} {p : SemaphorePool}
    (h : semaphoreMachine.Exec tr p) (hok : Machine.Meets C tr) : I p := by
  refine semaphoreProgram.invariantWhere ?_ ?_ ?_ h hok
  · rintro s ⟨count, hlow, hhigh, rfl⟩
    exact hinit count hlow hhigh
  · intro _ p c s t _ _ hI _ hat
    obtain ⟨rfl, rfl⟩ := Prod.mk.inj (Option.some.inj hat)
    exact harrive p c hI
  · intro tr s s' l t r new k hex _ hI hC hr
    obtain ⟨⟨s₁, t'⟩, hstep, heq⟩ := Option.map_eq_some_iff.1 hr
    obtain ⟨rfl, rfl⟩ := Prod.mk.inj heq
    exact hrun tr s s₁ l t r t' hex hI hC (step_spec hstep)

/-- How many instructions of the stack satisfy `f`. -/
def countOf (f : Instr → Bool) (t : List Instr) : ℕ := t.countP f

section countOf

variable {f : Instr → Bool}

@[simp] theorem countOf_nil : countOf f [] = 0 := rfl

@[simp] theorem countOf_cons (i : Instr) (t : List Instr) :
    countOf f (i :: t) = countOf f t + (f i).toNat := by
  cases hi : f i <;> simp [countOf, hi]

@[simp] theorem countOf_append (t t' : List Instr) :
    countOf f (t ++ t') = countOf f t + countOf f t' := List.countP_append

theorem countOf_map {α : Type} (g : α → Instr) (as : List α) :
    countOf f (as.map g) = as.countP fun a => f (g a) := List.countP_map

/-- What does not count calls does not count a continuation. -/
@[simp] theorem countOf_call (hf : ∀ c, f (.call c) = false) (calls : List Call) :
    countOf f (calls.map .call) = 0 := by
  simp [countOf_map, hf]

end countOf

/-! ### Stacks and the mutex -/

/-- What can be below the top of a stack. -/
def Instr.pending : Instr → Bool
  | .call _ | .unlock | .complete _ => true
  | _ => false

/-- The thread holds the mutex until then. -/
def Instr.isUnlock : Instr → Bool
  | .unlock => true
  | _ => false

/-- The thread reads the count or changes the list in `start`. -/
def Instr.inStart : Instr → Bool
  | .load _ | .pushBack _ => true
  | _ => false

/-- The waiters that a thread takes out of the list are pending. -/
theorem pending_drained {ops : List OnDrainedOperation} {rest : List Instr}
    (h : ∀ i ∈ rest, i.pending = true) : ∀ i ∈ ops.map .complete ++ rest, i.pending = true := by
  intro i hi
  rcases List.mem_append.1 hi with hi | hi
  · obtain ⟨op, -, rfl⟩ := List.mem_map.1 hi
    rfl
  · exact h i hi

/-- The calls of a continuation are pending. -/
theorem pending_completed {calls : List Call} {rest : List Instr}
    (h : ∀ i ∈ rest, i.pending = true) : ∀ i ∈ calls.map .call ++ rest, i.pending = true := by
  intro i hi
  rcases List.mem_append.1 hi with hi | hi
  · obtain ⟨c, -, rfl⟩ := List.mem_map.1 hi
    rfl
  · exact h i hi

/-- Only the top of a stack takes the mutex or works under it, and what works under it holds it. -/
structure Stack (t : List Instr) : Prop where
  tail : ∀ i ∈ t.tail, i.pending = true
  inStart : ∀ i ∈ t.head?, i.inStart = true → countOf Instr.isUnlock t.tail ≠ 0

theorem Stack.of_pending {t : List Instr} (h : ∀ i ∈ t, i.pending = true) : Stack t := by
  refine ⟨fun i hi => h i (List.mem_of_mem_tail hi), fun i hi hstart => ?_⟩
  have hpending := h i (List.mem_of_mem_head? hi)
  cases i <;> simp [Instr.inStart, Instr.pending] at hstart hpending

/-- **The step lemma**: a completion pushes calls, and nothing else is pushed below the top. -/
theorem Stack.step {s s' : SemaphoreState} {t t' : List Instr} (h : Stack t)
    (hstep : SemaphoreStep s t s' t') : Stack t' := by
  obtain ⟨htail, hstart⟩ := h
  cases hstep with
  | acquireDrained n rest => exact ⟨htail, by simp [Instr.inStart]⟩
  | start receiver rest => exact ⟨htail, by simp [Instr.inStart]⟩
  | loadDrained op rest => exact ⟨htail, by simp [Instr.inStart]⟩
  | load op rest => exact ⟨htail, fun i hi _ => hstart (.load op) rfl rfl⟩
  | lock op rest =>
      refine ⟨fun i hi => ?_, fun i _ _ => ?_⟩
      · rcases List.mem_cons.1 hi with rfl | hi
        · rfl
        · exact htail i hi
      · rw [List.tail_cons, countOf_cons]
        exact Nat.succ_ne_zero _
  | drain rest => exact Stack.of_pending (pending_drained htail)
  | complete op rest => exact Stack.of_pending (pending_completed htail)
  | acquire | release | pushBack | unlock => exact Stack.of_pending htail

/-- A step takes the mutex if it is free, or gives it back. -/
theorem SemaphoreStep.unlocks_eq {s s' : SemaphoreState} {t t' : List Instr}
    (h : SemaphoreStep s t s' t') (hle : countOf Instr.isUnlock t ≤ s.locked.toNat) :
    s.locked.toNat + countOf Instr.isUnlock t' = s'.locked.toNat + countOf Instr.isUnlock t := by
  cases h with
  | lock op rest hfree =>
      simp only [countOf_cons, hfree, Instr.isUnlock, Bool.toNat_true, Bool.toNat_false]
      omega
  | unlock rest =>
      rw [countOf_cons] at hle ⊢
      cases hlocked : s.locked <;> simp_all [Instr.isUnlock]
  | drain | complete => simp [Instr.isUnlock, countOf_map]
  | _ => simp [Instr.isUnlock]

/-- One thread at a time holds the mutex. -/
structure Guarded (p : SemaphorePool) : Prop where
  wellFormed : ∀ t ∈ p.threads, Stack t
  mutex : p.total (countOf Instr.isUnlock) = p.shared.locked.toNat

theorem guarded_of_exec {tr : List (SemaphorePool × SemaphoreAction)} {p : SemaphorePool}
    (h : semaphoreMachine.Exec tr p) : Guarded p := by
  refine semaphore_invariantWhere (C := fun _ _ => True) (I := Guarded) ?_ ?_ ?_ h
    (Machine.meets_true tr)
  · exact fun count _ _ => ⟨by simp, rfl⟩
  · intro p c hI
    refine ⟨Pool.forall_arrive hI.wellFormed (fun _ => id) ⟨by simp, by simp [Instr.inStart]⟩, ?_⟩
    rw [Pool.total_arrive _ p, hI.mutex]
    rfl
  · intro tr s s' l t r t' _ hI _ hstep
    have hle : countOf Instr.isUnlock t ≤ s.locked.toNat := by
      have hmutex := hI.mutex
      rw [Pool.total_before] at hmutex
      dsimp only at hmutex
      omega
    refine ⟨Pool.forall_after hI.wellFormed (fun _ => id) fun u hu => ?_, ?_⟩
    · rw [eq_of_mem_goesOn hu]
      exact (hI.wellFormed t (by simp)).step hstep
    · have hmutex := hI.mutex
      have hsame := hstep.unlocks_eq hle
      rw [Pool.total_before] at hmutex
      rw [Pool.total_after, sum_goesOn countOf_nil]
      dsimp only at hmutex ⊢
      omega

/-- While the mutex is free nobody works under it. -/
theorem Guarded.free {p : SemaphorePool} (h : Guarded p) (hfree : p.shared.locked = false) :
    ∀ t ∈ p.threads, ∀ i ∈ t.head?, i.inStart = false := by
  intro t ht i hi
  have hzero : countOf Instr.isUnlock t = 0 := by
    have hmutex := h.mutex
    rw [hfree] at hmutex
    exact Pool.total_eq_zero_iff.1 hmutex t ht
  by_contra hstart
  refine (h.wellFormed t ht).inStart i hi (by simpa using hstart) ?_
  cases t with
  | nil => rfl
  | cons j rest =>
      rw [countOf_cons] at hzero
      exact Nat.eq_zero_of_add_eq_zero_right hzero

/-! ### Where the operations are -/

/-- The thread has the operation in hand. -/
def Instr.worksOn (id : ℕ) : Instr → Bool
  | .lock op | .load op | .pushBack op | .complete op => op.id == id
  | _ => false

/-- How often the operation waits. -/
def waitsIn (id : ℕ) (ops : List OnDrainedOperation) : ℕ := ops.countP fun op => op.id == id

/-- The operation is in the hands of a thread, or waits, or was completed. -/
def places (p : SemaphorePool) (id : ℕ) : ℕ :=
  p.total (countOf (Instr.worksOn id)) + waitsIn id p.shared.waiters + p.shared.completed.count id

/-- A step moves an operation, and starts a new one. -/
theorem SemaphoreStep.places_eq {s s' : SemaphoreState} {t t' : List Instr}
    (h : SemaphoreStep s t s' t') (id : ℕ) :
    countOf (Instr.worksOn id) t' + waitsIn id s'.waiters + s'.completed.count id
        + (decide (id < s.started)).toNat
      = countOf (Instr.worksOn id) t + waitsIn id s.waiters + s.completed.count id
        + (decide (id < s'.started)).toNat := by
  cases h with
  | start receiver rest =>
      by_cases hid : s.started = id
      · subst hid
        simp [Instr.worksOn]
        omega
      · have hlt : id < s.started + 1 ↔ id < s.started := by omega
        simp [Instr.worksOn, hid, hlt]
  | pushBack op rest =>
      by_cases hid : op.id = id
      · simp [Instr.worksOn, waitsIn, List.countP_append, hid]
        omega
      · simp [Instr.worksOn, waitsIn, List.countP_append, hid]
  | complete op rest =>
      have hcalls : countOf (Instr.worksOn id) (op.receiver.map .call) = 0 :=
        countOf_call (fun _ => rfl) _
      by_cases hid : op.id = id
      · simp [Instr.worksOn, hcalls, hid]
        omega
      · simp [Instr.worksOn, hcalls, hid]
  | drain rest =>
      simp [Instr.worksOn, waitsIn, countOf_map]
      omega
  | _ => simp [Instr.worksOn]

/-- **Every started operation is in one place**, and an operation that was not started is
nowhere. -/
theorem accounted_of_exec {tr : List (SemaphorePool × SemaphoreAction)} {p : SemaphorePool}
    (h : semaphoreMachine.Exec tr p) (id : ℕ) :
    places p id = (decide (id < p.shared.started)).toNat := by
  refine semaphore_invariantWhere (C := fun _ _ => True)
    (I := fun p => places p id = (decide (id < p.shared.started)).toNat) ?_ ?_ ?_ h
    (Machine.meets_true tr)
  · intro count _ _
    simp [places, SemaphoreState.initial, waitsIn]
  · intro p c hI
    rw [places, Pool.total_arrive _ p]
    simpa [places, Instr.worksOn] using hI
  · intro tr s s' l t r t' _ hI _ hstep
    have hsame := hstep.places_eq id
    unfold places at hI ⊢
    rw [Pool.total_before] at hI
    rw [Pool.total_after, sum_goesOn countOf_nil]
    dsimp only at hI ⊢
    omega

end ExActor
