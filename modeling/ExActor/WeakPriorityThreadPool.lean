/-
**The weak-priority thread pool.**

`EnqueueOperation` pushes an operation into a random sub-queue and signals the semaphore.  A worker
waits for the semaphore and looks for an operation: it draws two sub-queues, reads their bitmaps
without a lock, and tries to pop from the better one and then from the other, until it has one.

An operation that is enqueued on a worker, inside the `Execute` of another one, goes into the
thread-local slot of that worker if the slot is free or holds a less urgent one, which is evicted
into a sub-queue; after `Execute` the worker executes what is in its slot, and only then waits
again.

Each critical section, each read of a bitmap, each signal and each wait is one step.  Workers and
calls from other threads arrive at any time, and the pool is not shut down.  An operation is known
by the number of the call of `EnqueueOperation` that accepted it.

Main definitions:

* `WeakPriorityThreadPool`, `WorkerAt`, `WeakPriorityThread` — the shared state, where a worker is,
  the threads;
* `checkPriority`, `LocalSlot.offer` — what `EnqueueOperation` does before it goes to a sub-queue;
* `WeakPriorityThreadPool.run`, `weakPriorityMachine` — one step of a thread, all interleavings.

Main results:

* `WeakPriorityStep`, `weakPriorityStep_of_run` — what a step can do.
-/

import ExActor.Interleaving
import ExActor.PrioritySubQueue

set_option relaxedAutoImplicit false
set_option autoImplicit false

namespace ExActor

/-! ### The pool -/

/-- `WeakPriorityThreadPool::Config`. -/
structure WeakPriorityConfig where
  threadCount : ℕ
  numSubQueues : ℕ

/-- `num_sub_queues_`: zero selects half the thread count, and two is the minimum. -/
def WeakPriorityConfig.subQueueCount (c : WeakPriorityConfig) : ℕ :=
  max 2 (if c.numSubQueues = 0 then c.threadCount / 2 else c.numSubQueues)

instance (c : WeakPriorityConfig) : NeZero c.subQueueCount :=
  ⟨by unfold WeakPriorityConfig.subQueueCount; omega⟩

/-- The members of the pool, with the priorities that the accepted operations came with, and the
operations that were executed. -/
structure WeakPriorityThreadPool (n : ℕ) where
  subQueues : Fin n → SubQueue
  sema : ℕ
  priorities : List Priority
  executed : List Operation

/-- The constructor. -/
def WeakPriorityThreadPool.initial (n : ℕ) : WeakPriorityThreadPool n :=
  ⟨fun _ => .empty, 0, [], []⟩

/-- `local_slot_` and `local_slot_priority_` of a worker. -/
structure LocalSlot where
  operation : Option Operation
  priority : Priority

/-- Where a worker is in `WorkerThreadLoop`. -/
inductive WorkerAt (n : ℕ)
  /-- It is at the head of the outer loop. -/
  | head
  | waiting
  /-- It enters `TryDequeueOperation`. -/
  | drawing
  | loadA (a b : Fin n)
  | loadB (a b : Fin n) (bmA : BitVec 64)
  | popFirst (first second : Fin n)
  | popSecond (second : Fin n)
  /-- It is about to execute an operation. -/
  | holding (operation : Operation)
  | executing (operation : Operation)
  /-- Inside `Execute` it enqueues another operation, and is about to push one into a sub-queue. -/
  | pushing (operation pushed : Operation) (priority : Priority)
  | signalling (operation : Operation)
  /-- It looks at its local slot after `Execute`. -/
  | draining

/-- A worker, or another thread inside a call of `EnqueueOperation`. -/
inductive WeakPriorityThread (n : ℕ)
  | worker (place : WorkerAt n) (slot : LocalSlot)
  | pushing (operation : Operation) (priority : Priority)
  | signalling

/-- What the environment decides in a step. -/
inductive WeakPriorityChoice
  | go
  /-- The wait for the semaphore times out. -/
  | timesOut
  | draws (a b : ℕ)
  /-- The code of the operation calls `EnqueueOperation`. -/
  | enqueues (priority : ℕ)

/-- What comes from outside. -/
inductive WeakPriorityArrival
  | worker
  | enqueues (priority : ℕ)

/-! ### Enqueueing -/

/-- The check of `EnqueueOperation`. -/
def checkPriority (priority : ℕ) : Except String Priority :=
  if h : priority < maxPriorityLevels then .ok ⟨priority, h⟩
  else .error "WeakPriorityThreadPool: priority must be less than 64"

/-- What `EnqueueOperation` does on a worker of the pool: the local slot after it, and the operation
that goes into a sub-queue. -/
def LocalSlot.offer (slot : LocalSlot) (operation : Operation) (priority : Priority) :
    LocalSlot × Option (Operation × Priority) :=
  match slot.operation with
  | none => (⟨some operation, priority⟩, none)
  | some evicted =>
      if priority < slot.priority then (⟨some operation, priority⟩, some (evicted, slot.priority))
      else (slot, some (operation, priority))

namespace WeakPriorityThreadPool

variable {n : ℕ} [NeZero n]

/-- The number of the operation that is accepted next. -/
def fresh (s : WeakPriorityThreadPool n) : Operation := s.priorities.length

/-- An operation is accepted. -/
def accept (s : WeakPriorityThreadPool n) (priority : Priority) : WeakPriorityThreadPool n :=
  { s with priorities := s.priorities ++ [priority] }

/-- A sub-queue changes. -/
def setSubQueue (s : WeakPriorityThreadPool n) (i : Fin n) (sq : SubQueue) :
    WeakPriorityThreadPool n :=
  { s with subQueues := Function.update s.subQueues i sq }

/-- The critical section of `EnqueueOperation`, for the number that was drawn. -/
def push (s : WeakPriorityThreadPool n) (draw : ℕ) (operation : Operation) (priority : Priority) :
    WeakPriorityThreadPool n :=
  let idx := Fin.ofNat n draw
  s.setSubQueue idx ((s.subQueues idx).push operation priority)

/-- `sema_.signal()`. -/
def signal (s : WeakPriorityThreadPool n) : WeakPriorityThreadPool n :=
  { s with sema := s.sema + 1 }

/-- One step of a worker. -/
def runWorker (s : WeakPriorityThreadPool n) (slot : LocalSlot) :
    WorkerAt n → WeakPriorityChoice → Option (WeakPriorityThreadPool n × WorkerAt n × LocalSlot)
  | .head, .go => some (s, .waiting, slot)
  | .waiting, .timesOut => some (s, .head, slot)
  | .waiting, .go =>
      if s.sema = 0 then none else some ({ s with sema := s.sema - 1 }, .drawing, slot)
  | .drawing, .draws a b =>
      let idxA := Fin.ofNat n a
      some (s, .loadA idxA (otherIndex idxA (Fin.ofNat n b)), slot)
  | .loadA a b, .go => some (s, .loadB a b (s.subQueues a).bitmap, slot)
  | .loadB a b bmA, .go =>
      match order a b bmA (s.subQueues b).bitmap with
      | none => some (s, .drawing, slot)
      | some (first, second) => some (s, .popFirst first second, slot)
  | .popFirst first second, .go =>
      (s.subQueues first).tryPop.map fun
        | (none, _) => (s, .popSecond second, slot)
        | (some op, sq) => (s.setSubQueue first sq, .holding op, slot)
  | .popSecond second, .go =>
      (s.subQueues second).tryPop.map fun
        | (none, _) => (s, .drawing, slot)
        | (some op, sq) => (s.setSubQueue second sq, .holding op, slot)
  | .holding op, .go => some (s, .executing op, slot)
  | .executing op, .enqueues priority =>
      match checkPriority priority with
      | .error _ => some (s, .executing op, slot)
      | .ok priority =>
          match slot.offer s.fresh priority with
          | (slot', none) => some (s.accept priority, .executing op, slot')
          | (slot', some (pushed, pushedPriority)) =>
              some (s.accept priority, .pushing op pushed pushedPriority, slot')
  | .executing op, .go => some ({ s with executed := s.executed ++ [op] }, .draining, slot)
  | .pushing op pushed priority, .draws a _ => some (s.push a pushed priority, .signalling op, slot)
  | .signalling op, .go => some (s.signal, .executing op, slot)
  | .draining, .go =>
      match slot.operation with
      | some op => some (s, .holding op, { slot with operation := none })
      | none => some (s, .head, slot)
  | _, _ => none

/-- One step of a thread. -/
def run (s : WeakPriorityThreadPool n) :
    WeakPriorityThread n → WeakPriorityChoice →
      Option (WeakPriorityThreadPool n × List (WeakPriorityThread n))
  | .worker place slot, k =>
      (s.runWorker slot place k).map fun (s', place', slot') => (s', [.worker place' slot'])
  | .pushing operation priority, .draws a _ => some (s.push a operation priority, [.signalling])
  | .signalling, .go => some (s.signal, [])
  | _, _ => none

/-- A worker is started, or a thread that is no worker of the pool calls `EnqueueOperation`, which
throws if the priority is too large. -/
def arrive (s : WeakPriorityThreadPool n) :
    WeakPriorityArrival → Option (WeakPriorityThreadPool n × WeakPriorityThread n)
  | .worker => some (s, .worker .head ⟨none, 0⟩)
  | .enqueues priority =>
      match checkPriority priority with
      | .error _ => none
      | .ok priority => some (s.accept priority, .pushing s.fresh priority)

end WeakPriorityThreadPool

/-- The threads of a pool with `n` sub-queues. -/
def weakPriorityProgram (n : ℕ) [NeZero n] : ThreadProgram (WeakPriorityThreadPool n)
    (WeakPriorityThread n) WeakPriorityChoice WeakPriorityArrival where
  run := WeakPriorityThreadPool.run
  arrive p := p.shared.arrive

/-- A pool and its threads. -/
abbrev WeakPriorityPool (n : ℕ) := Pool (WeakPriorityThreadPool n) (WeakPriorityThread n)

abbrev WeakPriorityAction := PoolAction WeakPriorityChoice WeakPriorityArrival

/-- All interleavings of a pool. -/
def weakPriorityMachine (c : WeakPriorityConfig) :
    Machine (WeakPriorityPool c.subQueueCount) WeakPriorityAction :=
  (weakPriorityProgram c.subQueueCount).machine fun s => s = .initial c.subQueueCount

/-! ### The steps -/

/-- The worker has waited successfully and has no operation yet. -/
def WorkerAt.searching {n : ℕ} : WorkerAt n → Bool
  | .drawing | .loadA .. | .loadB .. | .popFirst .. | .popSecond _ => true
  | _ => false

section steps

variable {n : ℕ} [NeZero n]

/-- **What a step of a worker does.** -/
inductive WorkerStep (s : WeakPriorityThreadPool n) :
    WorkerAt n → LocalSlot → WeakPriorityThreadPool n → WorkerAt n → LocalSlot → Prop
  | startsWait (slot : LocalSlot) : WorkerStep s .head slot s .waiting slot
  | timesOut (slot : LocalSlot) : WorkerStep s .waiting slot s .head slot
  | waits (slot : LocalSlot) (m : ℕ) : s.sema = m + 1 →
      WorkerStep s .waiting slot { s with sema := m } .drawing slot
  | searches (place place' : WorkerAt n) (slot : LocalSlot) : place.searching = true →
      place'.searching = true → WorkerStep s place slot s place' slot
  | pops (place : WorkerAt n) (slot : LocalSlot) (i : Fin n) (op : Operation) (sq : SubQueue) :
      place.searching = true → (s.subQueues i).tryPop = some (some op, sq) →
        WorkerStep s place slot (s.setSubQueue i sq) (.holding op) slot
  | begins (op : Operation) (slot : LocalSlot) :
      WorkerStep s (.holding op) slot s (.executing op) slot
  | rejects (op : Operation) (slot : LocalSlot) :
      WorkerStep s (.executing op) slot s (.executing op) slot
  | keeps (op : Operation) (slot : LocalSlot) (priority : Priority) : slot.operation = none →
      WorkerStep s (.executing op) slot (s.accept priority) (.executing op) ⟨some s.fresh, priority⟩
  | evicts (op : Operation) (slot : LocalSlot) (priority : Priority) (evicted : Operation) :
      slot.operation = some evicted → priority < slot.priority →
        WorkerStep s (.executing op) slot (s.accept priority) (.pushing op evicted slot.priority)
          ⟨some s.fresh, priority⟩
  | spills (op : Operation) (slot : LocalSlot) (priority : Priority) (kept : Operation) :
      slot.operation = some kept → slot.priority ≤ priority →
        WorkerStep s (.executing op) slot (s.accept priority) (.pushing op s.fresh priority) slot
  | ends (op : Operation) (slot : LocalSlot) :
      WorkerStep s (.executing op) slot { s with executed := s.executed ++ [op] } .draining slot
  | pushes (op pushed : Operation) (priority : Priority) (draw : ℕ) (slot : LocalSlot) :
      WorkerStep s (.pushing op pushed priority) slot (s.push draw pushed priority)
        (.signalling op) slot
  | signals (op : Operation) (slot : LocalSlot) :
      WorkerStep s (.signalling op) slot s.signal (.executing op) slot
  | takes (op : Operation) (slot : LocalSlot) : slot.operation = some op →
      WorkerStep s .draining slot s (.holding op) { slot with operation := none }
  | drained (slot : LocalSlot) : slot.operation = none → WorkerStep s .draining slot s .head slot

/-- A `tryPop` that finds nothing goes on, and one that finds an operation holds it. -/
theorem workerStep_of_tryPop {s s' : WeakPriorityThreadPool n} {place next place' : WorkerAt n}
    {slot slot' : LocalSlot} {i : Fin n} (hplace : place.searching = true)
    (hnext : next.searching = true)
    (h : ((s.subQueues i).tryPop.map fun
        | (none, _) => (s, next, slot)
        | (some op, sq) => (s.setSubQueue i sq, .holding op, slot)) = some (s', place', slot')) :
    WorkerStep s place slot s' place' slot' := by
  obtain ⟨⟨op, sq⟩, hpop, heq⟩ := Option.map_eq_some_iff.1 h
  cases op with
  | none =>
      obtain ⟨rfl, rfl, rfl⟩ := by simpa using heq
      exact .searches place next slot hplace hnext
  | some op =>
      obtain ⟨rfl, rfl, rfl⟩ := by simpa using heq
      exact .pops place slot i op sq hplace hpop

theorem workerStep_of_run {s s' : WeakPriorityThreadPool n} {place place' : WorkerAt n}
    {slot slot' : LocalSlot} {k : WeakPriorityChoice}
    (h : s.runWorker slot place k = some (s', place', slot')) :
    WorkerStep s place slot s' place' slot' := by
  unfold WeakPriorityThreadPool.runWorker at h
  split at h
  · obtain ⟨rfl, rfl, rfl⟩ := by simpa using h
    exact .startsWait slot
  · obtain ⟨rfl, rfl, rfl⟩ := by simpa using h
    exact .timesOut slot
  · split at h
    · simp at h
    · next hsema =>
        obtain ⟨m, hm⟩ := Nat.exists_eq_succ_of_ne_zero hsema
        obtain ⟨rfl, rfl, rfl⟩ := by simpa [hm] using h
        exact .waits slot m hm
  · obtain ⟨rfl, rfl, rfl⟩ := by simpa using h
    exact .searches _ _ slot rfl rfl
  · obtain ⟨rfl, rfl, rfl⟩ := by simpa using h
    exact .searches _ _ slot rfl rfl
  · split at h
    · obtain ⟨rfl, rfl, rfl⟩ := by simpa using h
      exact .searches _ _ slot rfl rfl
    · obtain ⟨rfl, rfl, rfl⟩ := by simpa using h
      exact .searches _ _ slot rfl rfl
  · exact workerStep_of_tryPop rfl rfl h
  · exact workerStep_of_tryPop rfl rfl h
  · obtain ⟨rfl, rfl, rfl⟩ := by simpa using h
    exact .begins _ slot
  · split at h
    · obtain ⟨rfl, rfl, rfl⟩ := by simpa using h
      exact .rejects _ slot
    · next priority _ =>
        unfold LocalSlot.offer at h
        cases hslot : slot.operation with
        | none =>
            obtain ⟨rfl, rfl, rfl⟩ := by simpa [hslot] using h
            exact .keeps _ slot priority hslot
        | some kept =>
            by_cases hlt : priority < slot.priority
            · obtain ⟨rfl, rfl, rfl⟩ := by simpa [hslot, hlt] using h
              exact .evicts _ slot priority kept hslot hlt
            · obtain ⟨rfl, rfl, rfl⟩ := by simpa [hslot, hlt] using h
              exact .spills _ slot priority kept hslot (not_lt.1 hlt)
  · obtain ⟨rfl, rfl, rfl⟩ := by simpa using h
    exact .ends _ slot
  · obtain ⟨rfl, rfl, rfl⟩ := by simpa using h
    exact .pushes _ _ _ _ slot
  · obtain ⟨rfl, rfl, rfl⟩ := by simpa using h
    exact .signals _ slot
  · split at h
    · next hslot =>
        obtain ⟨rfl, rfl, rfl⟩ := by simpa using h
        exact .takes _ slot hslot
    · next hslot =>
        obtain ⟨rfl, rfl, rfl⟩ := by simpa using h
        exact .drained slot hslot
  · simp at h

/-- **What a step of a thread does.** -/
inductive WeakPriorityStep (s : WeakPriorityThreadPool n) : WeakPriorityThread n →
    WeakPriorityThreadPool n → List (WeakPriorityThread n) → Prop
  | worker (s' : WeakPriorityThreadPool n) (place place' : WorkerAt n) (slot slot' : LocalSlot) :
      WorkerStep s place slot s' place' slot' →
        WeakPriorityStep s (.worker place slot) s' [.worker place' slot']
  | pushes (operation : Operation) (priority : Priority) (draw : ℕ) :
      WeakPriorityStep s (.pushing operation priority) (s.push draw operation priority)
        [.signalling]
  | signals : WeakPriorityStep s .signalling s.signal []

theorem weakPriorityStep_of_run {s s' : WeakPriorityThreadPool n} {t : WeakPriorityThread n}
    {new : List (WeakPriorityThread n)} {k : WeakPriorityChoice} (h : s.run t k = some (s', new)) :
    WeakPriorityStep s t s' new := by
  unfold WeakPriorityThreadPool.run at h
  split at h
  · obtain ⟨⟨s₁, place', slot'⟩, hrun, heq⟩ := Option.map_eq_some_iff.1 h
    obtain ⟨rfl, rfl⟩ := Prod.mk.inj heq
    exact .worker s₁ _ place' _ slot' (workerStep_of_run hrun)
  · obtain ⟨rfl, rfl⟩ := Prod.mk.inj (Option.some.inj h)
    exact .pushes _ _ _
  · obtain ⟨rfl, rfl⟩ := Prod.mk.inj (Option.some.inj h)
    exact .signals
  · simp at h

end steps

end ExActor
