/-
**The work-sharing thread pool and the actors it serves.**

`WorkSharingThreadPool` runs operations; those of an actor are its activations, each an execution of
`PullMailboxAndRun`.  `EnqueueOperation` puts an operation into the shared queue, except on a worker
whose thread-local slot is free: there it goes into the slot.  A worker executes what it has popped
from the queue, and then whatever it finds in its slot, before it goes back to the queue.

The pool has one worker here, and any actors, each with all the threads that push messages to it or
destroy it.  The shared queue is a concurrent queue that is in order for each thread that pushes,
and gives no order between threads.

Main definitions:

* `WorkSharingThreadPool`, `WorkSharingThreadPool.machine` — the pool with its actors, and all
  interleavings;
* `enqueueOperation`, `tryPop`, `nextOperation` — where operations go, and which is next;
* `WorkSharingThreadPool.Step` — what a step can do;
* `Placed` — the activations that wait are the operations in the slot and in the queue.

Main results:

* `WorkSharingThreadPool.exec_actor` — every actor is in a state that it reaches by itself;
* `WorkSharingThreadPool.placed_of_exec` — `Placed` holds in every reachable state;
* `WorkSharingThreadPool.pending_le_one` — an actor has at most one operation in the pool.
-/

import ExActor.ActorExclusion
import Mathlib.Data.List.InsertIdx

set_option relaxedAutoImplicit false
set_option autoImplicit false

namespace ExActor

/-! ### The pool -/

/-- The threads that call `EnqueueOperation`: the worker of the pool, and the others. -/
inductive ThreadId
  | worker
  | external (k : ℕ)
deriving DecidableEq

/-- A pool with one worker, and the actors it serves.  An operation is the activation of an actor
and known by its actor. -/
structure WorkSharingThreadPool (ι : Type) where
  actors : ι → ActorPool
  /-- `queue_`, each operation with the thread that pushed it, oldest first. -/
  queue : List (ThreadId × ι)
  /-- `local_slot_` of the worker. -/
  localSlot : Option ι
  /-- The operation whose `Execute` the worker is in. -/
  executing : Option ι

/-- The actions of a pool: a call arrives at an actor, a thread of an actor takes a step, or the
worker takes the next operation. -/
inductive WorkSharingAction (ι : Type)
  | arrive (x : ι) (i : Arrival)
  | run (x : ι) (n : ℕ) (env : Env) (caller : ThreadId)
  | execute (i : ℕ)

/-- The thread is an activation that has been scheduled and not begun. -/
def Thread.waits : Thread → ℕ
  | .activation .scheduled => 1
  | _ => 0

/-- The step of the thread `n` spawns an activation. -/
def Actor.spawns (A : Actor) (p : ActorPool) (n : ℕ) (env : Env) : Bool :=
  ((p.threads[n]?).bind fun t => A.run p.shared t env).any fun r =>
    decide (.activation .scheduled ∈ r.2)

namespace WorkSharingThreadPool

variable {ι : Type}

/-- The operations in the queue. -/
def operations (s : WorkSharingThreadPool ι) : List ι := s.queue.map Prod.snd

/-- A message is being executed: what runs on the worker is code of a user. -/
def inUserCode (s : WorkSharingThreadPool ι) : Bool :=
  s.executing.any fun x => (s.actors x).threads.any fun
    | .activation (.execute ..) => true
    | _ => false

variable [DecidableEq ι]

/-- The threads and the state of one actor change. -/
def setActor (s : WorkSharingThreadPool ι) (x : ι) (p : ActorPool) : WorkSharingThreadPool ι :=
  { s with actors := Function.update s.actors x p }

/-- `EnqueueOperation`, called on a thread. -/
def enqueueOperation (s : WorkSharingThreadPool ι) (caller : ThreadId) (x : ι) :
    WorkSharingThreadPool ι :=
  if caller = .worker ∧ s.localSlot = none then { s with localSlot := some x }
  else { s with queue := s.queue ++ [(caller, x)] }

/-- `TryPop` or `Pop` of the queue: any operation that is the first of its thread. -/
def tryPop (s : WorkSharingThreadPool ι) (i : ℕ) : Option (ι × WorkSharingThreadPool ι) :=
  match s.queue[i]? with
  | none => none
  | some (caller, x) =>
      if caller ∈ (s.queue.take i).map Prod.fst then none
      else some (x, { s with queue := s.queue.eraseIdx i })

/-- The next operation of `WorkerThreadLoop`: the one in the slot, and the queue after that. -/
def nextOperation (s : WorkSharingThreadPool ι) (i : ℕ) : Option (ι × WorkSharingThreadPool ι) :=
  match s.localSlot with
  | some x => some (x, { s with localSlot := none })
  | none => s.tryPop i

/-- The thread may run on the caller.  An activation begins when the worker takes its operation, and
runs on the worker; other code runs on the worker inside a message. -/
def mayRun (s : WorkSharingThreadPool ι) (x : ι) (t : Thread) (caller : ThreadId) : Bool :=
  match t with
  | .activation .scheduled => false
  | .activation _ => caller = .worker ∧ s.executing = some x
  | _ => caller = .worker → s.inUserCode

/-- One step of the pool. -/
def next (A : ι → Actor) (s : WorkSharingThreadPool ι) :
    WorkSharingAction ι → Option (WorkSharingThreadPool ι)
  | .arrive x i => ((A x).machine.next (s.actors x) (.arrive i)).map (s.setActor x)
  | .run x n env caller =>
      match (s.actors x).threads[n]? with
      | none => none
      | some t =>
          if s.mayRun x t caller then
            ((A x).machine.next (s.actors x) (.run n env)).map fun p =>
              let s' := s.setActor x p
              if (A x).spawns (s.actors x) n env then s'.enqueueOperation caller x
              else if t = .activation .ret then { s' with executing := none }
              else s'
          else none
  | .execute i =>
      if s.executing = none then
        match s.nextOperation i with
        | none => none
        | some (x, s') =>
            let n := (s.actors x).threads.idxOf (.activation .scheduled)
            ((A x).machine.next (s.actors x) (.run n .calm)).map fun p =>
              { s'.setActor x p with executing := some x }
      else none

/-- The pool before anything was called. -/
def initial (A : ι → Actor) : WorkSharingThreadPool ι where
  actors x := ⟨(A x).initial, []⟩
  queue := []
  localSlot := none
  executing := none

/-- All interleavings. -/
def machine (A : ι → Actor) : Machine (WorkSharingThreadPool ι) (WorkSharingAction ι) where
  init s := s = initial A
  next := next A

/-! ### What a step can do -/

/-- What a step can do.  An activation that is spawned is enqueued by the thread that spawned it. -/
inductive Step (A : ι → Actor) (s : WorkSharingThreadPool ι) :
    WorkSharingAction ι → WorkSharingThreadPool ι → Prop
  | arrive (x : ι) (i : Arrival) (shared : ActorState) (t : Thread) :
      (A x).machine.next (s.actors x) (.arrive i)
        = some ⟨shared, (s.actors x).threads ++ [t]⟩ →
      ArrivedAs (s.actors x) i shared t →
      Step A s (.arrive x i) (s.setActor x ⟨shared, (s.actors x).threads ++ [t]⟩)
  | run (x : ι) (l r : List Thread) (t : Thread) (shared : ActorState) (new : List Thread)
      (env : Env) (caller : ThreadId) (executing : Option ι) :
      (A x).machine.next (s.actors x) (.run l.length env) = some ⟨shared, l ++ new ++ r⟩ →
      (s.actors x).threads = l ++ t :: r → t.waits = 0 →
      (A x).Step env (s.actors x).shared t shared new → (new.map Thread.waits).sum = 0 →
      Step A s (.run x l.length env caller)
        { s.setActor x ⟨shared, l ++ new ++ r⟩ with executing }
  | enqueue (x : ι) (l r : List Thread) (t : Thread) (shared : ActorState) (new : List Thread)
      (env : Env) (caller : ThreadId) :
      (A x).machine.next (s.actors x) (.run l.length env) = some ⟨shared, l ++ new ++ r⟩ →
      (s.actors x).threads = l ++ t :: r → t.waits = 0 →
      (A x).Step env (s.actors x).shared t shared new → (new.map Thread.waits).sum = 1 →
      (A x).spawns (s.actors x) l.length env = true →
      Step A s (.run x l.length env caller)
        ((s.setActor x ⟨shared, l ++ new ++ r⟩).enqueueOperation caller x)
  | execute (x : ι) (i : ℕ) (s₁ : WorkSharingThreadPool ι) (l r : List Thread) :
      s.executing = none → s.nextOperation i = some (x, s₁) →
      (A x).machine.next (s.actors x) (.run l.length .calm)
        = some ⟨(s.actors x).shared, l ++ [.activation .entry] ++ r⟩ →
      (s.actors x).threads = l ++ .activation .scheduled :: r →
      Step A s (.execute i)
        { s₁.setActor x ⟨(s.actors x).shared, l ++ [.activation .entry] ++ r⟩ with
          executing := some x }

end WorkSharingThreadPool

@[simp] theorem waits_at (c : Caller) (pc : TryActivatePc) : (c.at pc).waits = 0 := by
  cases c <;> rfl

@[simp] theorem waits_after (c : Caller) : (c.after.map Thread.waits).sum = 0 := by
  cases c <;> rfl

theorem waits_eq_zero_iff {t : Thread} : t.waits = 0 ↔ t ≠ .activation .scheduled := by
  rcases t with ⟨m, i, pc⟩ | ⟨k, pc⟩ | pc
  · simp [Thread.waits]
  · simp [Thread.waits]
  · cases pc <;> simp [Thread.waits]

/-- What `spawns` says of a step. -/
theorem Actor.spawns_eq {A : Actor} {p : ActorPool} {l r : List Thread} {t : Thread} {env : Env}
    {shared : ActorState} {new : List Thread} (hthreads : p.threads = l ++ t :: r)
    (hrun : A.run p.shared t env = some (shared, new)) :
    A.spawns p l.length env = decide (.activation .scheduled ∈ new) := by
  have ht : p.threads[l.length]? = some t := by simp [hthreads]
  rw [spawns, ht, Option.bind_some, hrun]
  rfl

/-- An activation that waits owns the flag. -/
theorem waits_le_owns (t : Thread) : t.waits ≤ t.owns := by
  by_cases ht : t.waits = 0
  · omega
  · obtain rfl := not_not.1 (mt waits_eq_zero_iff.2 ht)
    rfl

/-- A step spawns at most one activation. -/
theorem Actor.Step.waits_eq {A : Actor} {env : Env} {s s' : ActorState} {t : Thread}
    {new : List Thread} (h : A.Step env s t s' new) :
    (new.map Thread.waits).sum = if .activation .scheduled ∈ new then 1 else 0 := by
  have hnone {ts : List Thread} (hts : (ts.map Thread.waits).sum = 0) :
      (ts.map Thread.waits).sum = if .activation .scheduled ∈ ts then 1 else 0 := by
    rw [hts, if_neg fun hmem => ?_]
    exact waits_eq_zero_iff.1 (List.sum_eq_zero_iff_forall_eq_nat.1 hts _
      (List.mem_map_of_mem hmem)) rfl
  cases h with
  | schedule c sc hok hj hst hn => simp [Thread.waits]
  | lose c hact => exact hnone (waits_after c)
  | win c hact => exact hnone (by simp)
  | dropped c hok hj => exact hnone (waits_after c)
  | count m i pc hpc => rcases hpc with ⟨-, rfl⟩ | ⟨-, rfl⟩ <;> exact hnone rfl
  | popNone limit executed i pc hpop hpc => rcases hpc with rfl | rfl <;> exact hnone rfl
  | execute limit executed i m pc hpc =>
      rcases hpc with ⟨-, rfl⟩ | ⟨-, rfl⟩ <;> exact hnone rfl
  | _ => exact hnone rfl

namespace WorkSharingThreadPool

variable {ι : Type} [DecidableEq ι] {A : ι → Actor} {s s' : WorkSharingThreadPool ι}

theorem waits_of_mayRun {x : ι} {t : Thread} {caller : ThreadId}
    (h : s.mayRun x t caller = true) : t.waits = 0 := by
  rw [waits_eq_zero_iff]
  rintro rfl
  simp [mayRun] at h

/-- A step of a thread that runs already. -/
theorem step_of_next_run {x : ι} {n : ℕ} {env : Env} {caller : ThreadId}
    (h : next A s (.run x n env caller) = some s') : Step A s (.run x n env caller) s' := by
  simp only [next] at h
  cases ht : (s.actors x).threads[n]? with
  | none => simp [ht] at h
  | some t =>
      simp only [ht] at h
      split at h
      · next hmay =>
          obtain ⟨p, hp, hs'⟩ := Option.map_eq_some_iff.1 h
          obtain ⟨l, u, r, shared, new, hthreads, rfl, hrun, rfl⟩ :=
            ThreadProgram.next_run_iff.1 hp
          obtain rfl : u = t := by simpa [hthreads] using ht
          have hstep := Actor.step_of_run hrun
          have hwaits := waits_of_mayRun hmay
          have hspawns := Actor.spawns_eq hthreads hrun
          have hnew := hstep.waits_eq
          rw [hspawns] at hs'
          by_cases hmem : .activation .scheduled ∈ new
          · rw [if_pos hmem] at hnew
            rw [if_pos (by simpa using hmem)] at hs'
            obtain rfl := hs'
            exact .enqueue x l r u shared new env caller hp hthreads hwaits hstep hnew
              (by simpa [hspawns] using hmem)
          · rw [if_neg hmem] at hnew
            rw [if_neg (by simpa using hmem)] at hs'
            -- the worker is free again when the activation returns
            split at hs'
            · obtain rfl := hs'
              exact .run x l r u shared new env caller none hp hthreads hwaits hstep hnew
            · obtain rfl := hs'
              exact .run x l r u shared new env caller s.executing hp hthreads hwaits hstep hnew
      · simp at h

/-- The worker takes an operation. -/
theorem step_of_next_execute {i : ℕ} (h : next A s (.execute i) = some s') :
    Step A s (.execute i) s' := by
  simp only [next] at h
  split at h
  · next hidle =>
      cases hop : s.nextOperation i with
      | none => simp [hop] at h
      | some op =>
          obtain ⟨x, s₁⟩ := op
          simp only [hop] at h
          obtain ⟨p, hp, rfl⟩ := Option.map_eq_some_iff.1 h
          obtain ⟨l, t, r, shared, new, hthreads, hl, hrun, rfl⟩ :=
            ThreadProgram.next_run_iff.1 hp
          obtain rfl : t = .activation .scheduled := by
            have hlt : l.length < (s.actors x).threads.length := by simp [hthreads]
            have hmem := List.idxOf_lt_length_iff.1 (hl ▸ hlt)
            have hget := List.getElem?_idxOf hmem
            rw [← hl, hthreads] at hget
            simpa using hget
          obtain ⟨rfl, rfl⟩ := Prod.mk.inj (Option.some.inj hrun)
          rw [← hl] at hp
          exact .execute x i s₁ l r hidle hop hp hthreads
  · simp at h

/-- **Every step is one of `Step`.** -/
theorem step_of_next {act : WorkSharingAction ι} (h : next A s act = some s') :
    Step A s act s' := by
  cases act with
  | arrive x i =>
      obtain ⟨p, hp, rfl⟩ := Option.map_eq_some_iff.1 h
      obtain ⟨shared, t, hat, rfl⟩ := ThreadProgram.next_arrive_iff.1 hp
      exact .arrive x i shared t hp (arriveActor_spec hat)
  | run x n env caller => exact step_of_next_run h
  | execute i => exact step_of_next_execute h

omit [DecidableEq ι] in
/-- What the worker takes comes from the slot if there is something in it, and from the queue
otherwise. -/
theorem nextOperation_cases {i : ℕ} {x : ι} (h : s.nextOperation i = some (x, s')) :
    (s.localSlot = some x ∧ s' = { s with localSlot := none }) ∨
      (s.localSlot = none ∧ s.operations[i]? = some x ∧
        s' = { s with queue := s.queue.eraseIdx i }) := by
  unfold nextOperation at h
  cases hslot : s.localSlot with
  | some y =>
      simp only [hslot] at h
      obtain ⟨rfl, rfl⟩ := Prod.mk.inj (Option.some.inj h)
      exact Or.inl ⟨rfl, rfl⟩
  | none =>
      simp only [hslot, tryPop] at h
      cases hop : s.queue[i]? with
      | none => simp [hop] at h
      | some op =>
          obtain ⟨caller, y⟩ := op
          simp only [hop] at h
          split at h
          · simp at h
          · obtain ⟨rfl, rfl⟩ := Prod.mk.inj (Option.some.inj h)
            exact Or.inr ⟨rfl, by simp [operations, hop], rfl⟩

omit [DecidableEq ι] in
theorem actors_of_nextOperation {i : ℕ} {x : ι} (h : s.nextOperation i = some (x, s')) :
    s'.actors = s.actors := by
  rcases nextOperation_cases h with ⟨-, rfl⟩ | ⟨-, -, rfl⟩ <;> rfl

@[simp] theorem setActor_self (x : ι) (p : ActorPool) : (s.setActor x p).actors x = p :=
  Function.update_self ..

theorem setActor_of_ne {x y : ι} (h : y ≠ x) (p : ActorPool) :
    (s.setActor x p).actors y = s.actors y :=
  Function.update_of_ne h ..

@[simp] theorem setActor_localSlot (x : ι) (p : ActorPool) :
    (s.setActor x p).localSlot = s.localSlot := rfl

omit [DecidableEq ι] in
@[simp] theorem enqueueOperation_actors (caller : ThreadId) (x : ι) :
    (s.enqueueOperation caller x).actors = s.actors := by
  unfold enqueueOperation
  split <;> rfl

/-! ### The actors of the pool -/

/-- A step of the pool is a step of one actor at most. -/
theorem Step.actor {act : WorkSharingAction ι} (h : Step A s act s') (y : ι) :
    s'.actors y = s.actors y ∨ ∃ a, (A y).machine.next (s.actors y) a = some (s'.actors y) := by
  cases h with
  | arrive x i shared t hnext hat =>
      by_cases hy : y = x
      · subst hy
        exact Or.inr ⟨_, by rw [setActor_self]; exact hnext⟩
      · exact Or.inl (setActor_of_ne hy _)
  | run x l r t shared new env caller executing hnext hthreads hwaits hstep hnew =>
      by_cases hy : y = x
      · subst hy
        exact Or.inr ⟨_, hnext.trans (congrArg some (setActor_self y _).symm)⟩
      · exact Or.inl (setActor_of_ne hy _)
  | enqueue x l r t shared new env caller hnext hthreads hwaits hstep hnew hspawns =>
      rw [enqueueOperation_actors]
      by_cases hy : y = x
      · subst hy
        exact Or.inr ⟨_, hnext.trans (congrArg some (setActor_self y _).symm)⟩
      · exact Or.inl (setActor_of_ne hy _)
  | execute x i s₁ l r hidle hop hnext hthreads =>
      have hactors := actors_of_nextOperation hop
      by_cases hy : y = x
      · subst hy
        exact Or.inr ⟨_, hnext.trans (congrArg some (setActor_self y _).symm)⟩
      · exact Or.inl ((setActor_of_ne hy _).trans (congrFun hactors y))

/-- **Every actor is in a state that it reaches by itself.** -/
theorem exec_actor {tr : List (WorkSharingThreadPool ι × WorkSharingAction ι)}
    (h : (machine A).Exec tr s) (x : ι) : ∃ tr', (A x).machine.Exec tr' (s.actors x) := by
  induction h with
  | init h0 =>
      obtain rfl := h0
      exact ⟨[], .init (A x).machine_init⟩
  | step hex hn ih =>
      obtain ⟨tr', hexec⟩ := ih
      rcases (step_of_next hn).actor x with heq | ⟨a, hnext⟩
      · exact ⟨tr', heq ▸ hexec⟩
      · exact ⟨_, hexec.step hnext⟩

/-! ### Operations and activations -/

/-- How many operations of an actor are in the slot and in the queue. -/
def pending (s : WorkSharingThreadPool ι) (x : ι) : ℕ :=
  (if s.localSlot = some x then 1 else 0) + s.operations.count x

/-- The activations that wait are the operations in the slot and in the queue. -/
def Placed (s : WorkSharingThreadPool ι) : Prop :=
  ∀ x, (s.actors x).total Thread.waits = s.pending x

theorem pending_enqueueOperation (caller : ThreadId) (x y : ι) :
    (s.enqueueOperation caller x).pending y = s.pending y + if y = x then 1 else 0 := by
  unfold enqueueOperation
  split
  · next hslot =>
      change (if some x = some y then 1 else 0) + s.operations.count y = _
      simp only [pending, hslot.2, reduceCtorEq, if_false, Option.some.injEq, eq_comm (a := x)]
      omega
  · simp only [pending, operations, List.map_append, List.map_cons, List.map_nil,
      List.count_append, List.count_singleton, beq_iff_eq, eq_comm (a := x)]
    omega

omit [DecidableEq ι] in
theorem operations_eraseIdx (s : WorkSharingThreadPool ι) (i : ℕ) :
    operations { s with queue := s.queue.eraseIdx i } = s.operations.eraseIdx i :=
  (List.eraseIdx_map ..).symm

theorem pending_nextOperation {i : ℕ} {x : ι} (h : s.nextOperation i = some (x, s')) (y : ι) :
    s.pending y = s'.pending y + if y = x then 1 else 0 := by
  rcases nextOperation_cases h with ⟨hslot, rfl⟩ | ⟨hslot, hop, rfl⟩
  · change _ = 0 + s.operations.count y + _
    simp only [pending, hslot, Option.some.injEq, eq_comm (a := x)]
    omega
  · obtain ⟨hi, rfl⟩ := List.getElem?_eq_some_iff.1 hop
    change _ = (if s.localSlot = some y then 1 else 0) + (operations _).count y + _
    rw [operations_eraseIdx, pending, ← (List.getElem_cons_eraseIdx_perm hi).count_eq,
      List.count_cons]
    simp only [beq_iff_eq, eq_comm (a := y)]
    omega

/-- A step keeps the activations that wait in their places. -/
theorem Step.placed {act : WorkSharingAction ι} (h : Step A s act s') (hI : Placed s) :
    Placed s' := by
  intro y
  have hy := hI y
  cases h with
  | arrive x i shared t hnext hat =>
      change _ = s.pending y
      by_cases hyx : y = x
      · subst hyx
        rw [setActor_self, Pool.total_arrive Thread.waits (s.actors y), ← hy]
        cases hat <;> rfl
      · rw [setActor_of_ne hyx, hy]
  | run x l r t shared new env caller executing hnext hthreads hwaits hstep hnew =>
      change ((s.setActor x _).actors y).total _ = s.pending y
      by_cases hyx : y = x
      · subst hyx
        rw [Pool.total_of_threads hthreads, hwaits] at hy
        rw [setActor_self, Pool.total_after, hnew, hy]
      · rw [setActor_of_ne hyx, hy]
  | enqueue x l r t shared new env caller hnext hthreads hwaits hstep hnew hspawns =>
      rw [enqueueOperation_actors, pending_enqueueOperation]
      change _ = s.pending y + _
      by_cases hyx : y = x
      · subst hyx
        rw [Pool.total_of_threads hthreads, hwaits] at hy
        rw [setActor_self, Pool.total_after, hnew, if_pos rfl, ← hy]
        omega
      · rw [setActor_of_ne hyx, hy, if_neg hyx, Nat.add_zero]
  | execute x i s₁ l r hidle hop hnext hthreads =>
      -- one operation is taken, and one activation waits no longer
      have hpending := pending_nextOperation hop y
      change ((s₁.setActor x _).actors y).total _ = s₁.pending y
      by_cases hyx : y = x
      · subst hyx
        rw [Pool.total_of_threads hthreads] at hy
        rw [if_pos rfl] at hpending
        rw [setActor_self, Pool.total_after]
        simp only [Thread.waits, List.map_cons, List.map_nil, List.sum_cons, List.sum_nil] at hy ⊢
        omega
      · rw [if_neg hyx, Nat.add_zero] at hpending
        rw [setActor_of_ne hyx, actors_of_nextOperation hop, hy, hpending]

/-- **The activations that wait are the operations in the slot and in the queue**, in every
reachable state. -/
theorem placed_of_exec {tr : List (WorkSharingThreadPool ι × WorkSharingAction ι)}
    (h : (machine A).Exec tr s) : Placed s := by
  refine h.invariantWhere (C := fun _ _ => True) ?_ ?_ (Machine.meets_true tr)
  · rintro s rfl x
    rfl
  · intro tr s act s' _ _ hI _ hn
    exact (step_of_next hn).placed hI

/-- **An actor has at most one operation in the pool.** -/
theorem pending_le_one {tr : List (WorkSharingThreadPool ι × WorkSharingAction ι)}
    (h : (machine A).Exec tr s) (x : ι) : s.pending x ≤ 1 := by
  obtain ⟨tr', hexec⟩ := exec_actor h x
  have howned : (s.actors x).total Thread.owns ≤ _ := owned_of_exec hexec
  have hflag := flag_le_one (s.actors x).shared.activated
  have hwaits := Pool.total_le_total (p := s.actors x) fun t _ => waits_le_owns t
  rw [← placed_of_exec h x]
  omega

end WorkSharingThreadPool

end ExActor
