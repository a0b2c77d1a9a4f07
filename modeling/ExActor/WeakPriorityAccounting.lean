/-
**The weak-priority thread pool loses and duplicates nothing.**

Every operation that was accepted is in a sub-queue, in a local slot, in the hands of a thread,
being executed, or executed, and only in one of them.  In a sub-queue it is in the stack of the
priority that it was enqueued with, although on its way there it may have been in a local slot, with
its priority beside it, and been evicted.

The semaphore counts the operations in the sub-queues only, up to those that were pushed and not yet
signalled and those whose permit was taken by a worker that has not yet found them; so while a
worker looks for an operation there is one.

Main definitions:

* `WeakPriorityThread.inLocalSlot`, `WeakPriorityThread.inHand`, `WeakPriorityThread.inExecution` —
  the operations that a thread has, and where;
* `WeakPriorityThread.Ok` — what it has comes with the right priority, and its slot is empty outside
  `Execute`;
* `WeakPriorityInvariant` — the invariant of the pool.

Main results:

* `weakPriorityInvariant_of_exec` — the invariant holds in every reachable state;
* `operations_accounted` — **every accepted operation is in exactly one place**.
-/

import ExActor.WeakPriorityThreadPool

set_option relaxedAutoImplicit false
set_option autoImplicit false

namespace ExActor

variable {n : ℕ}

/-! ### What a thread has -/

/-- The operations that the worker is moving. -/
def WorkerAt.inHand : WorkerAt n → List Operation
  | .holding op => [op]
  | .pushing _ pushed _ => [pushed]
  | _ => []

/-- The operation whose `Execute` the worker is in. -/
def WorkerAt.inExecution : WorkerAt n → List Operation
  | .executing op | .pushing op _ _ | .signalling op => [op]
  | _ => []

/-- The worker has pushed an operation and not signalled. -/
def WorkerAt.unsignalled : WorkerAt n → Bool
  | .signalling _ => true
  | _ => false

/-- The worker is inside `Execute`, or has just returned from it. -/
def WorkerAt.mayFill : WorkerAt n → Bool
  | .executing _ | .pushing .. | .signalling _ | .draining => true
  | _ => false

/-- The operation that the worker is about to push, with its priority. -/
def WorkerAt.pushed : WorkerAt n → Option (Operation × Priority)
  | .pushing _ pushed priority => some (pushed, priority)
  | _ => none

namespace WeakPriorityThread

def inLocalSlot : WeakPriorityThread n → List Operation
  | .worker _ slot => slot.operation.toList
  | _ => []

def inHand : WeakPriorityThread n → List Operation
  | .worker place _ => place.inHand
  | .pushing operation _ => [operation]
  | .signalling => []

def inExecution : WeakPriorityThread n → List Operation
  | .worker place _ => place.inExecution
  | _ => []

/-- All that the thread has. -/
def carries (t : WeakPriorityThread n) : List Operation :=
  t.inLocalSlot ++ t.inHand ++ t.inExecution

/-- The thread is a worker that has waited successfully and not yet dequeued. -/
def searching : WeakPriorityThread n → Bool
  | .worker place _ => place.searching
  | _ => false

/-- The thread has pushed an operation and not yet signalled. -/
def unsignalled : WeakPriorityThread n → Bool
  | .worker place _ => place.unsignalled
  | .pushing .. => false
  | .signalling => true

/-- What the thread has comes with the right priority, and the local slot is empty outside
`Execute`. -/
def Ok (s : WeakPriorityThreadPool n) : WeakPriorityThread n → Prop
  | .worker place slot =>
      (∀ op ∈ slot.operation, s.priorities[op]? = some slot.priority) ∧
      (∀ x ∈ place.pushed, s.priorities[x.1]? = some x.2) ∧
      (place.mayFill = false → slot.operation = none)
  | .pushing operation priority => s.priorities[operation]? = some priority
  | .signalling => True

end WeakPriorityThread

/-! ### What is in the sub-queues -/

namespace WeakPriorityThreadPool

variable {s : WeakPriorityThreadPool n}

/-- How often the operation is in the sub-queues. -/
def inSubQueues (s : WeakPriorityThreadPool n) (op : Operation) : ℕ :=
  ∑ i, (s.subQueues i).count op

/-- The number of operations in the sub-queues. -/
def size (s : WeakPriorityThreadPool n) : ℕ := ∑ i, (s.subQueues i).size

theorem inSubQueues_setSubQueue (i : Fin n) (sq : SubQueue) (op : Operation) :
    (s.setSubQueue i sq).inSubQueues op + (s.subQueues i).count op
      = s.inSubQueues op + sq.count op :=
  sum_update_add (fun sq => SubQueue.count sq op) s.subQueues i sq

theorem size_setSubQueue (i : Fin n) (sq : SubQueue) :
    (s.setSubQueue i sq).size + (s.subQueues i).size = s.size + sq.size :=
  sum_update_add SubQueue.size s.subQueues i sq

variable [NeZero n]

theorem inSubQueues_push (draw : ℕ) (operation : Operation) (priority : Priority)
    (op : Operation) :
    (s.push draw operation priority).inSubQueues op = s.inSubQueues op + [operation].count op := by
  have hset := inSubQueues_setSubQueue (s := s) (Fin.ofNat n draw)
    ((s.subQueues (Fin.ofNat n draw)).push operation priority) op
  rw [SubQueue.count_push] at hset
  simp only [push]
  omega

theorem size_push (draw : ℕ) (operation : Operation) (priority : Priority) :
    (s.push draw operation priority).size = s.size + 1 := by
  have hset := size_setSubQueue (s := s) (Fin.ofNat n draw)
    ((s.subQueues (Fin.ofNat n draw)).push operation priority)
  rw [SubQueue.size_push] at hset
  simp only [push]
  omega

end WeakPriorityThreadPool

/-- The sub-queues are well-formed, and what is in them is in the stack of its own priority. -/
structure SubQueuesOk (s : WeakPriorityThreadPool n) : Prop where
  wellFormed : ∀ i, (s.subQueues i).WellFormed
  ownPriority : ∀ i p, ∀ op ∈ (s.subQueues i).slots p, s.priorities[op]? = some p

/-- A sub-queue is replaced by one that is as good. -/
theorem SubQueuesOk.set {s : WeakPriorityThreadPool n} (h : SubQueuesOk s) (i : Fin n)
    {sq : SubQueue} (hwellFormed : sq.WellFormed)
    (hown : ∀ p, ∀ op ∈ sq.slots p, s.priorities[op]? = some p) :
    SubQueuesOk (s.setSubQueue i sq) := by
  refine ⟨fun j => ?_, fun j p op hop => ?_⟩
  · by_cases hj : j = i
    · subst hj
      simpa [WeakPriorityThreadPool.setSubQueue] using hwellFormed
    · simpa [WeakPriorityThreadPool.setSubQueue, Function.update_of_ne hj] using h.wellFormed j
  · by_cases hj : j = i
    · subst hj
      exact hown p op (by simpa [WeakPriorityThreadPool.setSubQueue] using hop)
    · refine h.ownPriority j p op ?_
      simpa [WeakPriorityThreadPool.setSubQueue, Function.update_of_ne hj] using hop

theorem SubQueuesOk.push [NeZero n] {s : WeakPriorityThreadPool n} (h : SubQueuesOk s) (draw : ℕ)
    {operation : Operation} {priority : Priority}
    (hown : s.priorities[operation]? = some priority) :
    SubQueuesOk (s.push draw operation priority) := by
  refine h.set _ ((h.wellFormed _).push operation priority) fun p op hop => ?_
  rcases SubQueue.mem_push hop with hop | ⟨rfl, rfl⟩
  · exact h.ownPriority _ p op hop
  · exact hown

theorem SubQueuesOk.pop {s : WeakPriorityThreadPool n} (h : SubQueuesOk s) {i : Fin n}
    {op : Operation} {sq : SubQueue} (hpop : (s.subQueues i).tryPop = some (some op, sq)) :
    SubQueuesOk (s.setSubQueue i sq) := by
  obtain ⟨pri, rest, hslot, rfl⟩ := SubQueue.tryPop_eq_some hpop
  exact h.set i ((h.wellFormed i).popBack hslot) fun p op hop =>
    h.ownPriority i p op (SubQueue.mem_of_mem_popBack hop)

/-- The priorities of the operations that were accepted do not change. -/
theorem getElem?_accept {priorities : List Priority} {op : Operation} {p priority : Priority}
    (h : priorities[op]? = some p) : (priorities ++ [priority])[op]? = some p := by
  obtain ⟨hlt, -⟩ := List.getElem?_eq_some_iff.1 h
  rw [List.getElem?_append_left hlt, h]

theorem SubQueuesOk.accept {s : WeakPriorityThreadPool n} (h : SubQueuesOk s)
    (priority : Priority) : SubQueuesOk (s.accept priority) :=
  ⟨h.wellFormed, fun i p op hop => getElem?_accept (h.ownPriority i p op hop)⟩

theorem WeakPriorityThread.Ok.accept {s : WeakPriorityThreadPool n} {t : WeakPriorityThread n}
    (h : t.Ok s) (priority : Priority) : t.Ok (s.accept priority) := by
  cases t with
  | worker place slot =>
      exact ⟨fun op hop => getElem?_accept (h.1 op hop),
        fun x hx => getElem?_accept (h.2.1 x hx), h.2.2⟩
  | pushing operation p => exact getElem?_accept h
  | signalling => exact trivial

/-! ### Where operations are -/

namespace WeakPriorityThreadPool

/-- How often the operation is in the sub-queues or was executed. -/
def has (s : WeakPriorityThreadPool n) (op : Operation) : ℕ :=
  s.inSubQueues op + s.executed.count op

/-- The operation was accepted. -/
def accepted (s : WeakPriorityThreadPool n) (op : Operation) : ℕ :=
  (decide (op < s.priorities.length)).toNat

variable {s : WeakPriorityThreadPool n}

theorem has_pop {i : Fin n} {popped : Operation} {sq : SubQueue}
    (hpop : (s.subQueues i).tryPop = some (some popped, sq)) (op : Operation) :
    (s.setSubQueue i sq).has op + [popped].count op = s.has op := by
  obtain ⟨pri, rest, hslot, rfl⟩ := SubQueue.tryPop_eq_some hpop
  have hset := s.inSubQueues_setSubQueue i ((s.subQueues i).popBack pri) op
  have hcount := SubQueue.count_popBack hslot op
  have hsame : (s.setSubQueue i ((s.subQueues i).popBack pri)).executed = s.executed := rfl
  unfold has
  rw [hsame]
  omega

theorem size_pop {i : Fin n} {popped : Operation} {sq : SubQueue}
    (hpop : (s.subQueues i).tryPop = some (some popped, sq)) :
    (s.setSubQueue i sq).size + 1 = s.size := by
  obtain ⟨pri, rest, hslot, rfl⟩ := SubQueue.tryPop_eq_some hpop
  have hset := s.size_setSubQueue i ((s.subQueues i).popBack pri)
  have hsize := SubQueue.size_popBack hslot
  omega

theorem has_push [NeZero n] (draw : ℕ) (operation : Operation) (priority : Priority)
    (op : Operation) :
    (s.push draw operation priority).has op = s.has op + [operation].count op := by
  have hpush := s.inSubQueues_push draw operation priority op
  have hsame : (s.push draw operation priority).executed = s.executed := rfl
  unfold has
  rw [hsame]
  omega

/-- The operation that is accepted is a new one. -/
theorem accepted_accept (priority : Priority) (op : Operation) :
    (s.accept priority).accepted op = s.accepted op + [s.fresh].count op := by
  unfold accepted accept fresh
  rw [List.length_append, List.length_singleton, List.count_singleton]
  by_cases heq : op = s.priorities.length
  · simp [heq]
  · have hiff : op < s.priorities.length + 1 ↔ op < s.priorities.length :=
      ⟨fun h => lt_of_le_of_ne (Nat.lt_succ_iff.1 h) heq, fun h => Nat.lt_succ_of_lt h⟩
    simp [hiff, Ne.symm heq]

/-- It has the priority that came with it. -/
theorem getElem?_fresh (s : WeakPriorityThreadPool n) (priority : Priority) :
    (s.accept priority).priorities[s.fresh]? = some priority := by
  simp [accept, fresh]

end WeakPriorityThreadPool

theorem WeakPriorityThread.count_carries (t : WeakPriorityThread n) (op : Operation) :
    t.carries.count op
      = t.inLocalSlot.count op + t.inHand.count op + t.inExecution.count op := by
  rw [carries, List.count_append, List.count_append]

/-- A worker that is searching has nothing. -/
theorem WorkerAt.eq_nil_of_searching {place : WorkerAt n} (h : place.searching = true) :
    place.inHand = [] ∧ place.inExecution = [] ∧ place.unsignalled = false := by
  cases place <;> simp_all [searching, inHand, inExecution, unsignalled]

/-! ### The steps -/

section steps

variable [NeZero n] {s s' : WeakPriorityThreadPool n} {place place' : WorkerAt n}
  {slot slot' : LocalSlot}

/-- A step of a worker keeps the sub-queues and the worker right. -/
theorem WorkerStep.ok (h : WorkerStep s place slot s' place' slot') (hs : SubQueuesOk s)
    (hok : (WeakPriorityThread.worker place slot).Ok s) :
    SubQueuesOk s' ∧ (WeakPriorityThread.worker place' slot').Ok s' := by
  obtain ⟨hslot, hpushed, hempty⟩ := hok
  cases h with
  | startsWait | timesOut => exact ⟨hs, hslot, by simp [WorkerAt.pushed], fun _ => hempty rfl⟩
  | waits slot m hm =>
      exact ⟨⟨hs.wellFormed, hs.ownPriority⟩, hslot, by simp [WorkerAt.pushed],
        fun _ => hempty rfl⟩
  | searches place place' slot hplace hplace' =>
      refine ⟨hs, hslot, ?_, fun _ => hempty ?_⟩
      · cases place' <;> simp_all [WorkerAt.pushed, WorkerAt.searching]
      · cases place <;> simp_all [WorkerAt.mayFill, WorkerAt.searching]
  | pops place slot i op sq hplace hpop =>
      refine ⟨hs.pop hpop, hslot, by simp [WorkerAt.pushed], fun _ => hempty ?_⟩
      cases place <;> simp_all [WorkerAt.mayFill, WorkerAt.searching]
  | begins op slot => exact ⟨hs, hslot, by simp [WorkerAt.pushed], by simp [WorkerAt.mayFill]⟩
  | rejects op slot => exact ⟨hs, hslot, hpushed, hempty⟩
  | keeps op slot priority hnone =>
      refine ⟨hs.accept priority, fun op hop => ?_, by simp [WorkerAt.pushed],
        by simp [WorkerAt.mayFill]⟩
      obtain rfl := Option.some.inj hop
      exact s.getElem?_fresh priority
  | evicts op slot priority evicted hevicted hlt =>
      refine ⟨hs.accept priority, fun op hop => ?_, fun x hx => ?_, by simp [WorkerAt.mayFill]⟩
      · obtain rfl := Option.some.inj hop
        exact s.getElem?_fresh priority
      · obtain rfl := Option.some.inj hx
        exact getElem?_accept (hslot evicted hevicted)
  | spills op slot priority kept hkept hle =>
      refine ⟨hs.accept priority, fun op hop => getElem?_accept (hslot op hop), fun x hx => ?_,
        by simp [WorkerAt.mayFill]⟩
      obtain rfl := Option.some.inj hx
      exact s.getElem?_fresh priority
  | ends op slot =>
      exact ⟨⟨hs.wellFormed, hs.ownPriority⟩, hslot, by simp [WorkerAt.pushed],
        by simp [WorkerAt.mayFill]⟩
  | pushes op pushed priority draw slot =>
      exact ⟨hs.push draw (hpushed (pushed, priority) rfl), hslot, by simp [WorkerAt.pushed],
        by simp [WorkerAt.mayFill]⟩
  | signals op slot =>
      exact ⟨⟨hs.wellFormed, hs.ownPriority⟩, hslot, by simp [WorkerAt.pushed],
        by simp [WorkerAt.mayFill]⟩
  | takes op slot hop => exact ⟨hs, by simp, by simp [WorkerAt.pushed], fun _ => rfl⟩
  | drained slot hnone => exact ⟨hs, hslot, by simp [WorkerAt.pushed], fun _ => hnone⟩

/-- A step of a worker moves operations, and accepts a new one. -/
theorem WorkerStep.moves (h : WorkerStep s place slot s' place' slot') (op : Operation) :
    (WeakPriorityThread.worker place' slot').carries.count op + s'.has op + s.accepted op
      = (WeakPriorityThread.worker place slot).carries.count op + s.has op + s'.accepted op := by
  simp only [WeakPriorityThread.count_carries, WeakPriorityThread.inLocalSlot,
    WeakPriorityThread.inHand, WeakPriorityThread.inExecution]
  cases h with
  | startsWait | timesOut | rejects | waits | signals | drained => rfl
  | begins running slot =>
      simp only [WorkerAt.inHand, WorkerAt.inExecution, List.count_nil]
      omega
  | searches place place' slot hplace hplace' =>
      obtain ⟨hhand, hexecution, -⟩ := WorkerAt.eq_nil_of_searching hplace
      obtain ⟨hhand', hexecution', -⟩ := WorkerAt.eq_nil_of_searching hplace'
      rw [hhand, hexecution, hhand', hexecution']
  | pops place slot i popped sq hplace hpop =>
      obtain ⟨hhand, hexecution, -⟩ := WorkerAt.eq_nil_of_searching hplace
      have hhas := s.has_pop hpop op
      have hsame : (s.setSubQueue i sq).accepted op = s.accepted op := rfl
      rw [hhand, hexecution, hsame]
      simp only [WorkerAt.inHand, WorkerAt.inExecution, List.count_nil]
      omega
  | keeps running slot priority hnone =>
      have hhas : (s.accept priority).has op = s.has op := rfl
      have haccepted := s.accepted_accept priority op
      simp only [hhas, hnone, Option.toList_none, Option.toList_some, WorkerAt.inHand,
        WorkerAt.inExecution, List.count_nil]
      omega
  | evicts running slot priority evicted hevicted hlt =>
      have hhas : (s.accept priority).has op = s.has op := rfl
      have haccepted := s.accepted_accept priority op
      simp only [hhas, hevicted, Option.toList_some, WorkerAt.inHand, WorkerAt.inExecution,
        List.count_nil]
      omega
  | spills running slot priority kept hkept hle =>
      have hhas : (s.accept priority).has op = s.has op := rfl
      have haccepted := s.accepted_accept priority op
      simp only [hhas, WorkerAt.inHand, WorkerAt.inExecution, List.count_nil]
      omega
  | ends running slot =>
      have hhas : WeakPriorityThreadPool.has { s with executed := s.executed ++ [running] } op
          = s.has op + [running].count op := by
        simp only [WeakPriorityThreadPool.has, WeakPriorityThreadPool.inSubQueues,
          List.count_append]
        omega
      rw [hhas]
      simp only [WeakPriorityThreadPool.accepted, WorkerAt.inHand, WorkerAt.inExecution,
        List.count_nil]
      omega
  | pushes running pushed priority draw slot =>
      have hhas := s.has_push draw pushed priority op
      have hsame : (s.push draw pushed priority).accepted op = s.accepted op := rfl
      simp only [hhas, hsame, WorkerAt.inHand, WorkerAt.inExecution, List.count_nil]
      omega
  | takes taken slot htaken =>
      simp only [htaken, Option.toList_none, Option.toList_some, WorkerAt.inHand,
        WorkerAt.inExecution, List.count_nil]
      omega

/-- A step of a worker keeps the permits: those that it takes, and those that it owes. -/
theorem WorkerStep.permits (h : WorkerStep s place slot s' place' slot') :
    s'.size + s.sema + (place.searching.toNat + place.unsignalled.toNat)
      = s.size + s'.sema + (place'.searching.toNat + place'.unsignalled.toNat) := by
  cases h with
  | startsWait | timesOut | begins | rejects | takes | drained => rfl
  | waits slot m hm =>
      have hsize : WeakPriorityThreadPool.size { s with sema := m } = s.size := rfl
      simp [hsize, hm, WorkerAt.searching, WorkerAt.unsignalled]
      omega
  | searches place place' slot hplace hplace' =>
      obtain ⟨-, -, hsignal⟩ := WorkerAt.eq_nil_of_searching hplace
      obtain ⟨-, -, hsignal'⟩ := WorkerAt.eq_nil_of_searching hplace'
      rw [hplace, hplace', hsignal, hsignal']
  | pops place slot i popped sq hplace hpop =>
      obtain ⟨-, -, hsignal⟩ := WorkerAt.eq_nil_of_searching hplace
      have hsize := s.size_pop hpop
      have hsame : (s.setSubQueue i sq).sema = s.sema := rfl
      rw [hplace, hsignal, hsame]
      simp only [WorkerAt.searching, WorkerAt.unsignalled, Bool.toNat_true, Bool.toNat_false]
      omega
  | keeps | evicts | spills | ends => rfl
  | pushes running pushed priority draw slot =>
      have hsize := s.size_push draw pushed priority
      have hsame : (s.push draw pushed priority).sema = s.sema := rfl
      simp only [hsize, hsame, WorkerAt.searching, WorkerAt.unsignalled, Bool.toNat_true,
        Bool.toNat_false]
      omega
  | signals running slot =>
      have hsize : s.signal.size = s.size := rfl
      have hsema : s.signal.sema = s.sema + 1 := rfl
      simp only [hsize, hsema, WorkerAt.searching, WorkerAt.unsignalled, Bool.toNat_true,
        Bool.toNat_false]
      omega

/-- A step of a thread keeps the sub-queues and the threads right. -/
theorem WeakPriorityStep.ok {t : WeakPriorityThread n} {new : List (WeakPriorityThread n)}
    (h : WeakPriorityStep s t s' new) (hs : SubQueuesOk s) (hok : t.Ok s) :
    SubQueuesOk s' ∧ ∀ u ∈ new, u.Ok s' := by
  cases h with
  | worker s' place place' slot slot' hstep =>
      obtain ⟨hs', hok'⟩ := hstep.ok hs hok
      refine ⟨hs', fun u hu => ?_⟩
      rwa [List.mem_singleton.1 hu]
  | pushes operation priority draw =>
      refine ⟨hs.push draw hok, fun u hu => ?_⟩
      rw [List.mem_singleton.1 hu]
      exact trivial
  | signals => exact ⟨⟨hs.wellFormed, hs.ownPriority⟩, by simp⟩

/-- The priorities that were accepted stay. -/
theorem WeakPriorityStep.priorities {t : WeakPriorityThread n} {new : List (WeakPriorityThread n)}
    (h : WeakPriorityStep s t s' new) :
    s'.priorities = s.priorities ∨ ∃ p, s'.priorities = s.priorities ++ [p] := by
  cases h with
  | worker s' place place' slot slot' hstep =>
      cases hstep with
      | keeps op slot priority | evicts op slot priority | spills op slot priority =>
          exact Or.inr ⟨priority, rfl⟩
      | _ => exact Or.inl rfl
  | pushes | signals => exact Or.inl rfl

/-- A step of a thread moves operations, and accepts a new one. -/
theorem WeakPriorityStep.moves {t : WeakPriorityThread n} {new : List (WeakPriorityThread n)}
    (h : WeakPriorityStep s t s' new) (op : Operation) :
    (new.map fun u => u.carries.count op).sum + s'.has op + s.accepted op
      = t.carries.count op + s.has op + s'.accepted op := by
  cases h with
  | worker s' place place' slot slot' hstep =>
      rw [List.map_singleton, List.sum_singleton]
      exact hstep.moves op
  | pushes operation priority draw =>
      have hhas := s.has_push draw operation priority op
      have hsame : (s.push draw operation priority).accepted op = s.accepted op := rfl
      simp only [List.map_singleton, List.sum_singleton, WeakPriorityThread.count_carries, hsame,
        WeakPriorityThread.inLocalSlot, WeakPriorityThread.inHand, WeakPriorityThread.inExecution,
        List.count_nil]
      omega
  | signals => rfl

/-- A step of a thread keeps the permits. -/
theorem WeakPriorityStep.permits {t : WeakPriorityThread n} {new : List (WeakPriorityThread n)}
    (h : WeakPriorityStep s t s' new) :
    s'.size + s.sema + (t.searching.toNat + t.unsignalled.toNat)
      = s.size + s'.sema + (new.map fun u => u.searching.toNat + u.unsignalled.toNat).sum := by
  cases h with
  | worker s' place place' slot slot' hstep =>
      rw [List.map_singleton, List.sum_singleton]
      exact hstep.permits
  | pushes operation priority draw =>
      have hsize := s.size_push draw operation priority
      have hsame : (s.push draw operation priority).sema = s.sema := rfl
      simp only [List.map_singleton, List.sum_singleton, hsame, WeakPriorityThread.searching,
        WeakPriorityThread.unsignalled, Bool.toNat_true, Bool.toNat_false]
      omega
  | signals =>
      have hsize : s.signal.size = s.size := rfl
      have hsema : s.signal.sema = s.sema + 1 := rfl
      simp only [hsize, hsema, List.map_nil, List.sum_nil, WeakPriorityThread.searching,
        WeakPriorityThread.unsignalled, Bool.toNat_true, Bool.toNat_false]
      omega

end steps

/-! ### The runs -/

/-- The invariant of the pool. -/
structure WeakPriorityInvariant (p : WeakPriorityPool n) : Prop where
  subQueues : SubQueuesOk p.shared
  threads : ∀ t ∈ p.threads, t.Ok p.shared
  placed : ∀ op, p.total (fun t => t.carries.count op) + p.shared.has op = p.shared.accepted op
  permits : p.shared.size
    = p.shared.sema + p.total fun t => t.searching.toNat + t.unsignalled.toNat

theorem WeakPriorityThread.Ok.of_priorities {s s' : WeakPriorityThreadPool n}
    {t : WeakPriorityThread n} (h : t.Ok s) (hsame : s'.priorities = s.priorities) : t.Ok s' := by
  cases t with
  | worker place slot =>
      unfold Ok at h ⊢
      rwa [hsame]
  | pushing operation priority =>
      unfold Ok at h ⊢
      rwa [hsame]
  | signalling => exact trivial

/-- An arrival adds a worker that has nothing, or a thread with a new operation in hand. -/
theorem WeakPriorityInvariant.arrive {p : WeakPriorityPool n} (h : WeakPriorityInvariant p)
    {i : WeakPriorityArrival} {s : WeakPriorityThreadPool n} {t : WeakPriorityThread n}
    (hat : p.shared.arrive i = some (s, t)) : WeakPriorityInvariant ⟨s, p.threads ++ [t]⟩ := by
  cases i with
  | worker =>
      obtain ⟨rfl, rfl⟩ := Prod.mk.inj (Option.some.inj hat)
      refine ⟨h.subQueues, Pool.forall_arrive h.threads (fun _ => id) ⟨by simp, ?_, fun _ => rfl⟩,
        fun op => ?_, ?_⟩
      · simp [WorkerAt.pushed]
      · rw [Pool.total_arrive _ p]
        exact h.placed op
      · rw [Pool.total_arrive _ p]
        exact h.permits
  | enqueues priority =>
      simp only [WeakPriorityThreadPool.arrive] at hat
      split at hat
      · simp at hat
      · next priority _ =>
          obtain ⟨rfl, rfl⟩ := Prod.mk.inj (Option.some.inj hat)
          refine ⟨h.subQueues.accept priority, Pool.forall_arrive h.threads
            (fun u hu => hu.accept priority) (p.shared.getElem?_fresh priority), fun op => ?_, ?_⟩
          · have hplaced := h.placed op
            have haccepted := p.shared.accepted_accept priority op
            have hhas : (p.shared.accept priority).has op = p.shared.has op := rfl
            rw [Pool.total_arrive _ p]
            simp only [WeakPriorityThread.count_carries, WeakPriorityThread.inLocalSlot,
              WeakPriorityThread.inHand, WeakPriorityThread.inExecution, List.count_nil]
              at hplaced ⊢
            omega
          · rw [Pool.total_arrive _ p]
            exact h.permits

theorem weakPriorityInvariant_of_exec {c : WeakPriorityConfig}
    {tr : List (WeakPriorityPool c.subQueueCount × WeakPriorityAction)}
    {p : WeakPriorityPool c.subQueueCount} (h : (weakPriorityMachine c).Exec tr p) :
    WeakPriorityInvariant p := by
  refine (weakPriorityProgram c.subQueueCount).invariantWhere (C := fun _ _ => True)
    (I := WeakPriorityInvariant) ?_ ?_ ?_ h (Machine.meets_true tr)
  · rintro s rfl
    refine ⟨⟨fun i => SubQueue.wellFormed_empty, fun i p op hop => ?_⟩, by simp, fun op => ?_, ?_⟩
    · simp [WeakPriorityThreadPool.initial, SubQueue.empty] at hop
    · simp [WeakPriorityThreadPool.initial, WeakPriorityThreadPool.has,
        WeakPriorityThreadPool.inSubQueues, WeakPriorityThreadPool.accepted]
    · simp [WeakPriorityThreadPool.initial, WeakPriorityThreadPool.size]
  · intro tr p i s t _ _ hI _ hat
    exact hI.arrive hat
  · intro tr s s' l t r new k _ _ hI _ hr
    have hstep := weakPriorityStep_of_run hr
    obtain ⟨hs, hnew⟩ := hstep.ok hI.subQueues (hI.threads t (by simp))
    refine ⟨hs, Pool.forall_after hI.threads (fun u hu => ?_) hnew, fun op => ?_, ?_⟩
    · rcases hstep.priorities with hsame | ⟨priority, hsame⟩
      · exact hu.of_priorities hsame
      · exact (hu.accept priority).of_priorities hsame
    · have hplaced := hI.placed op
      have hmoves := hstep.moves op
      rw [Pool.total_before] at hplaced
      rw [Pool.total_after]
      dsimp only at hplaced ⊢
      omega
    · have hpermits := hI.permits
      have hkept := hstep.permits
      rw [Pool.total_before] at hpermits
      rw [Pool.total_after]
      dsimp only at hpermits ⊢
      omega

/-- **The pool loses and duplicates nothing.**  Every accepted operation is in exactly one place,
and in a sub-queue only in the stack of its own priority.  The bitmaps are right, and `back()` is
never taken from an empty vector.  The operations in the sub-queues are the permits of the
semaphore, of the workers that are looking for one, and of the threads that have yet to signal.  And
the local slot is empty at the head of the outer loop, while the worker waits, and while it is
looking for an operation. -/
theorem operations_accounted {c : WeakPriorityConfig}
    {tr : List (WeakPriorityPool c.subQueueCount × WeakPriorityAction)}
    {p : WeakPriorityPool c.subQueueCount} (h : (weakPriorityMachine c).Exec tr p) :
    (∀ op < p.shared.priorities.length,
      p.shared.inSubQueues op + p.total (fun t => t.inLocalSlot.count op)
        + p.total (fun t => t.inHand.count op) + p.total (fun t => t.inExecution.count op)
        + p.shared.executed.count op = 1) ∧
    (∀ i q, ∀ op ∈ (p.shared.subQueues i).slots q, p.shared.priorities[op]? = some q) ∧
    (∀ i, (∀ q : Priority, (p.shared.subQueues i).bitmap.getLsbD q.val = true ↔
      (p.shared.subQueues i).slots q ≠ []) ∧ (p.shared.subQueues i).tryPop ≠ none) ∧
    p.shared.size = p.shared.sema + p.total (fun t => t.searching.toNat)
      + p.total (fun t => t.unsignalled.toNat) ∧
    (∀ place slot, .worker place slot ∈ p.threads →
      place = .head ∨ place = .waiting ∨ place.searching = true → slot.operation = none) := by
  have hI := weakPriorityInvariant_of_exec h
  refine ⟨fun op hop => ?_, hI.subQueues.ownPriority, fun i => ⟨hI.subQueues.wellFormed i, ?_⟩, ?_,
    fun place slot hmem hplace => (hI.threads _ hmem).2.2 ?_⟩
  · have hplaced := hI.placed op
    simp only [WeakPriorityThread.count_carries, Pool.total, List.sum_map_add] at hplaced ⊢
    simp only [WeakPriorityThreadPool.has, WeakPriorityThreadPool.accepted, hop, decide_true,
      Bool.toNat_true] at hplaced
    omega
  · rcases (hI.subQueues.wellFormed i).tryPop with ⟨hpop, -⟩ | ⟨pri, rest, op, hpop, -⟩
    · simp [hpop]
    · simp [hpop]
  · have hpermits := hI.permits
    simp only [Pool.total, List.sum_map_add] at hpermits ⊢
    omega
  · rcases hplace with rfl | rfl | hsearching
    · rfl
    · rfl
    · cases place <;> simp_all [WorkerAt.searching, WorkerAt.mayFill]

/-- An operation of priority 3 is executed, and enqueues one of priority 5 and then one of priority
2, which evicts it. -/
def evictionRun : List WeakPriorityAction :=
  [.arrive .worker, .arrive (.enqueues 3), .run 1 (.draws 0 0), .run 1 .go] ++
    [.run 0 .go, .run 0 .go, .run 0 (.draws 0 0), .run 0 .go, .run 0 .go, .run 0 .go, .run 0 .go] ++
      [.run 0 (.enqueues 5), .run 0 (.enqueues 2)]

/-- The evicted operation is in the hands of the worker, and nowhere else. -/
theorem operations_accounted_evicted : ∃ tr p, (weakPriorityMachine ⟨1, 0⟩).Exec tr p ∧
    p.shared.priorities = [3, 5, 2] ∧
    p.shared.inSubQueues 1 + p.total (fun t => t.inLocalSlot.count 1)
      + p.total (fun t => t.inHand.count 1) + p.total (fun t => t.inExecution.count 1)
      + p.shared.executed.count 1 = 1 := by
  obtain ⟨p, hex, hp⟩ := Machine.exists_exec_of_replay (M := weakPriorityMachine ⟨1, 0⟩)
    (s := ⟨.initial _, []⟩) ⟨rfl, rfl⟩ evictionRun (fun p => p.shared.priorities) [3, 5, 2]
    (by decide +kernel)
  exact ⟨_, p, hex, hp, (operations_accounted hex).1 1 (by simp [hp])⟩

end ExActor
