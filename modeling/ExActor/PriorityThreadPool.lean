/-
**The priority thread pool.**

`UnboundedBlockingPriorityQueue` is a `std::priority_queue` under a mutex with a condition variable.
`Push` inserts its element and notifies one thread while it holds the mutex; `Pop` waits for ten
milliseconds for an element.  The wait tests the queue under the mutex, falls asleep if it is empty,
and tests again whenever the thread has woken up and locked the mutex; when its time is over, it
tests for the last time.  The workers of `PriorityThreadPool` pop and execute, and what they execute
may enqueue.

A smaller number is more urgent.  Of elements with the same priority the queue may give any.

Main definitions:

* `PriorityElement`, `tops` — the queue, and what may be at its top;
* `PriorityState`, `PriorityThread`, `PriorityThreadPool.machine` — the pool, and all interleavings;
* `PriorityStep` — what a step can do;
* `QueueGuarded` — the mutex guards the queue, and its elements are attended to.

Main results:

* `PriorityThreadPool.drained_of_stuck` — **no lost wakeup, no deadlock**: when no thread can go on
  all workers sleep, and everything has been executed;
* `PriorityThreadPool.by_priority` — **the most urgent first**: an operation is taken only while
  none with a smaller number is in the queue, and none is taken twice.
-/

import ExActor.Interleaving
import ExActor.Monitor
import ExActor.WorkSharingWorkers

set_option relaxedAutoImplicit false
set_option autoImplicit false

namespace ExActor

/-! ### The queue -/

/-- `Element`. -/
structure PriorityElement where
  value : OperationId
  priority : BitVec 32
deriving DecidableEq

/-- `operator<`. -/
def PriorityElement.less (lhs rhs : PriorityElement) : Bool := decide (rhs.priority < lhs.priority)

/-- What may be at the top of the queue: the elements that are less than none. -/
def tops (queue : List PriorityElement) : List PriorityElement :=
  queue.filter fun e => queue.all fun e' => !e.less e'

theorem mem_tops {queue : List PriorityElement} {e : PriorityElement} :
    e ∈ tops queue ↔ e ∈ queue ∧ ∀ e' ∈ queue, e.priority ≤ e'.priority := by
  simp [tops, PriorityElement.less]

/-- A queue that is not empty has a top. -/
theorem tops_ne_nil {queue : List PriorityElement} (h : queue ≠ []) : tops queue ≠ [] := by
  suffices ∃ e ∈ queue, ∀ e' ∈ queue, e.priority ≤ e'.priority by
    obtain ⟨e, he, hle⟩ := this
    exact List.ne_nil_of_mem (mem_tops.2 ⟨he, hle⟩)
  induction queue with
  | nil => exact absurd rfl h
  | cons a queue ih =>
      rcases eq_or_ne queue [] with rfl | hne
      · exact ⟨a, by simp, by simp⟩
      · obtain ⟨e, he, hle⟩ := ih hne
        rcases BitVec.le_total a.priority e.priority with hae | hea
        · exact ⟨a, by simp, by
            simpa using fun e' he' => BitVec.le_trans hae (hle e' he')⟩
        · exact ⟨e, by simp [he], by simpa [hea] using hle⟩

/-! ### The pool -/

/-- What happens to elements: they are given to `EnqueueOperation`, pushed, and taken. -/
inductive PriorityEvent
  | enqueued (e : PriorityElement)
  | pushed (e : PriorityElement)
  | taken (e : PriorityElement)
deriving DecidableEq

/-- `queue_`, with its mutex and condition variable, and how many workers have been started. -/
structure PriorityState where
  queue : List PriorityElement
  monitor : Monitor
  started : ℕ
  log : List PriorityEvent
deriving DecidableEq

/-- Where a `Push` stands. -/
inductive PriorityPushPc
  | lock
  | push
  | notifyOne
  | unlock
deriving DecidableEq

/-- Where a `Pop` stands. -/
inductive PriorityPopPc
  | lock
  | test
  | block
  | asleep
  | relock (timedOut : Bool)
  | lastTest
  | take
  | unlock (taken : Option PriorityElement)
deriving DecidableEq

/-- Who calls `EnqueueOperation`: someone outside the pool, or an operation on a worker. -/
inductive PriorityCaller
  | outside
  | operation (running : PriorityElement)
deriving DecidableEq

/-- A call of `EnqueueOperation`, or a worker. -/
inductive PriorityThread
  | enqueue (caller : PriorityCaller) (e : PriorityElement) (pc : PriorityPushPc)
  | check
  | pop (pc : PriorityPopPc)
  | execute (e : PriorityElement)
deriving DecidableEq

/-- What the pool does not decide: whether a stop is requested, whether a sleeper wakes up by itself
and whether its time is over, which of the topmost elements is at the top, and what an operation
does next: enqueue another, or return. -/
structure PriorityEnv where
  stop : Bool
  byItself : Bool
  timedOut : Bool
  index : ℕ
  enqueues : Option PriorityElement
deriving DecidableEq

/-- What arrives: a worker of `StartWorkers`, a call of `EnqueueOperation`. -/
inductive PriorityArrival
  | startWorker
  | enqueueOperation (e : PriorityElement)
deriving DecidableEq

/-- `Config`. -/
structure PriorityThreadPool where
  threadCount : ℕ

/-! ### The steps -/

/-- Adds an event. -/
def PriorityState.emit (s : PriorityState) (e : PriorityEvent) : PriorityState :=
  { s with log := s.log ++ [e] }

/-- `queue_.push`. -/
def PriorityState.push (s : PriorityState) (e : PriorityElement) : PriorityState :=
  { s with queue := s.queue ++ [e] }.emit (.pushed e)

/-- `queue_.pop`, which takes what is at the top. -/
def PriorityState.pop (s : PriorityState) (e : PriorityElement) : PriorityState :=
  { s with queue := s.queue.erase e }.emit (.taken e)

/-- The mutex and the condition variable change. -/
def PriorityState.sync (s : PriorityState) (m : Monitor) : PriorityState := { s with monitor := m }

/-- The caller goes on. -/
def PriorityCaller.resume : PriorityCaller → List PriorityThread
  | .outside => []
  | .operation running => [.execute running]

/-- After `Pop`: an element is executed, if there was one. -/
def afterPriorityPop : Option PriorityElement → PriorityThread
  | some e => .execute e
  | none => .check

namespace PriorityThreadPool

/-- One step of a `Push`. -/
def pushStep (s : PriorityState) (caller : PriorityCaller) (e : PriorityElement) :
    PriorityPushPc → Option (PriorityState × List PriorityThread)
  | .lock => s.monitor.lock.map fun m => (s.sync m, [.enqueue caller e .push])
  | .push => some (s.push e, [.enqueue caller e .notifyOne])
  | .notifyOne => some (s.sync s.monitor.notifyOne, [.enqueue caller e .unlock])
  | .unlock => some (s.sync s.monitor.unlock, caller.resume)

/-- One step of a `Pop`. -/
def popStep (s : PriorityState) (env : PriorityEnv) :
    PriorityPopPc → Option (PriorityState × List PriorityThread)
  | .lock => s.monitor.lock.map fun m => (s.sync m, [.pop .test])
  | .test => if s.queue = [] then some (s, [.pop .block]) else some (s, [.pop .take])
  | .block => some (s.sync s.monitor.block, [.pop .asleep])
  | .asleep =>
      (s.monitor.wake env.byItself).map fun m => (s.sync m, [.pop (.relock env.timedOut)])
  | .relock timedOut =>
      s.monitor.lock.map fun m => (s.sync m, [.pop (if timedOut then .lastTest else .test)])
  | .lastTest => if s.queue = [] then some (s, [.pop (.unlock none)]) else some (s, [.pop .take])
  | .take => ((tops s.queue)[env.index]?).map fun e => (s.pop e, [.pop (.unlock (some e))])
  | .unlock taken => some (s.sync s.monitor.unlock, [afterPriorityPop taken])

/-- One step of a thread. -/
def run (s : PriorityState) :
    PriorityThread → PriorityEnv → Option (PriorityState × List PriorityThread)
  | .enqueue caller e pc, _ => pushStep s caller e pc
  | .check, env => if env.stop then some (s, []) else some (s, [.pop .lock])
  | .pop pc, env => popStep s env pc
  | .execute e, env =>
      match env.enqueues with
      | some next => some (s.emit (.enqueued next), [.enqueue (.operation e) next .lock])
      | none => some (s, [.check])

variable (pool : PriorityThreadPool)

/-- `StartWorkers` starts `thread_count` workers. -/
def arrive (p : Pool PriorityState PriorityThread) :
    PriorityArrival → Option (PriorityState × PriorityThread)
  | .startWorker =>
      if p.shared.started < pool.threadCount then
        some ({ p.shared with started := p.shared.started + 1 }, .check)
      else none
  | .enqueueOperation e => some (p.shared.emit (.enqueued e), .enqueue .outside e .lock)

/-- The thread program of the pool. -/
def program : ThreadProgram PriorityState PriorityThread PriorityEnv PriorityArrival where
  run := run
  arrive := pool.arrive

/-- A pool without workers and operations. -/
def initial : PriorityState := ⟨[], .free, 0, []⟩

/-- All interleavings of the workers and of those that enqueue. -/
def machine :
    Machine (Pool PriorityState PriorityThread) (PoolAction PriorityEnv PriorityArrival) :=
  pool.program.machine (· = initial)

end PriorityThreadPool

/-! ### What a step can do -/

/-- A `Push` locks the mutex, inserts its element, notifies, unlocks the mutex; a `Pop` locks the
mutex, finds an element or none, gives up, falls asleep, wakes up, takes an element, unlocks the
mutex; a worker stops or goes on; an operation enqueues another or returns. -/
inductive PriorityStep (env : PriorityEnv) (s : PriorityState) :
    PriorityThread → PriorityState → List PriorityThread → Prop
  | lock (caller : PriorityCaller) (e : PriorityElement) : s.monitor.locked = false →
      PriorityStep env s (.enqueue caller e .lock) (s.sync { s.monitor with locked := true })
        [.enqueue caller e .push]
  | push (caller : PriorityCaller) (e : PriorityElement) :
      PriorityStep env s (.enqueue caller e .push) (s.push e) [.enqueue caller e .notifyOne]
  | notifyOne (caller : PriorityCaller) (e : PriorityElement) :
      PriorityStep env s (.enqueue caller e .notifyOne) (s.sync s.monitor.notifyOne)
        [.enqueue caller e .unlock]
  | unlock (caller : PriorityCaller) (e : PriorityElement) :
      PriorityStep env s (.enqueue caller e .unlock) (s.sync s.monitor.unlock) caller.resume
  | popLock (pc next : PriorityPopPc) : s.monitor.locked = false →
      pc = .lock ∧ next = .test ∨ pc = .relock false ∧ next = .test ∨
        pc = .relock true ∧ next = .lastTest →
      PriorityStep env s (.pop pc) (s.sync { s.monitor with locked := true }) [.pop next]
  | found (pc : PriorityPopPc) : s.queue ≠ [] → pc = .test ∨ pc = .lastTest →
      PriorityStep env s (.pop pc) s [.pop .take]
  | foundNone : s.queue = [] → PriorityStep env s (.pop .test) s [.pop .block]
  | giveUp : s.queue = [] → PriorityStep env s (.pop .lastTest) s [.pop (.unlock none)]
  | block : PriorityStep env s (.pop .block) (s.sync s.monitor.block) [.pop .asleep]
  | wake (m : Monitor) : s.monitor.wake env.byItself = some m →
      PriorityStep env s (.pop .asleep) (s.sync m) [.pop (.relock env.timedOut)]
  | take (e : PriorityElement) : e ∈ tops s.queue →
      PriorityStep env s (.pop .take) (s.pop e) [.pop (.unlock (some e))]
  | popUnlock (taken : Option PriorityElement) :
      PriorityStep env s (.pop (.unlock taken)) (s.sync s.monitor.unlock) [afterPriorityPop taken]
  | stop : PriorityStep env s .check s []
  | again : PriorityStep env s .check s [.pop .lock]
  | enqueue (e next : PriorityElement) :
      PriorityStep env s (.execute e) (s.emit (.enqueued next))
        [.enqueue (.operation e) next .lock]
  | finish (e : PriorityElement) : PriorityStep env s (.execute e) s [.check]

namespace PriorityThreadPool

theorem step_of_pushStep {env : PriorityEnv} {s s' : PriorityState} {caller : PriorityCaller}
    {e : PriorityElement} {pc : PriorityPushPc} {new : List PriorityThread}
    (h : pushStep s caller e pc = some (s', new)) :
    PriorityStep env s (.enqueue caller e pc) s' new := by
  cases pc with
  | lock =>
      obtain ⟨m, hlock, hr⟩ := Option.map_eq_some_iff.1 h
      obtain ⟨rfl, rfl⟩ := Prod.mk.inj hr
      obtain ⟨hfree, rfl⟩ := Monitor.lock_eq_some hlock
      exact .lock caller e hfree
  | push =>
      obtain ⟨rfl, rfl⟩ := Prod.mk.inj (Option.some.inj h)
      exact .push caller e
  | notifyOne =>
      obtain ⟨rfl, rfl⟩ := Prod.mk.inj (Option.some.inj h)
      exact .notifyOne caller e
  | unlock =>
      obtain ⟨rfl, rfl⟩ := Prod.mk.inj (Option.some.inj h)
      exact .unlock caller e

theorem step_of_popStep {env : PriorityEnv} {s s' : PriorityState} {pc : PriorityPopPc}
    {new : List PriorityThread} (h : popStep s env pc = some (s', new)) :
    PriorityStep env s (.pop pc) s' new := by
  cases pc with
  | lock =>
      obtain ⟨m, hlock, hr⟩ := Option.map_eq_some_iff.1 h
      obtain ⟨rfl, rfl⟩ := Prod.mk.inj hr
      obtain ⟨hfree, rfl⟩ := Monitor.lock_eq_some hlock
      exact .popLock _ _ hfree (Or.inl ⟨rfl, rfl⟩)
  | relock timedOut =>
      obtain ⟨m, hlock, hr⟩ := Option.map_eq_some_iff.1 h
      obtain ⟨rfl, rfl⟩ := Prod.mk.inj hr
      obtain ⟨hfree, rfl⟩ := Monitor.lock_eq_some hlock
      cases timedOut with
      | false => exact .popLock _ _ hfree (Or.inr (Or.inl ⟨rfl, rfl⟩))
      | true => exact .popLock _ _ hfree (Or.inr (Or.inr ⟨rfl, rfl⟩))
  | test =>
      simp only [popStep] at h
      split at h <;> obtain ⟨rfl, rfl⟩ := Prod.mk.inj (Option.some.inj h)
      · next hnil => exact .foundNone hnil
      · next hne => exact .found _ hne (Or.inl rfl)
  | lastTest =>
      simp only [popStep] at h
      split at h <;> obtain ⟨rfl, rfl⟩ := Prod.mk.inj (Option.some.inj h)
      · next hnil => exact .giveUp hnil
      · next hne => exact .found _ hne (Or.inr rfl)
  | block =>
      obtain ⟨rfl, rfl⟩ := Prod.mk.inj (Option.some.inj h)
      exact .block
  | asleep =>
      obtain ⟨m, hwake, hr⟩ := Option.map_eq_some_iff.1 h
      obtain ⟨rfl, rfl⟩ := Prod.mk.inj hr
      exact .wake m hwake
  | take =>
      obtain ⟨e, he, hr⟩ := Option.map_eq_some_iff.1 h
      obtain ⟨rfl, rfl⟩ := Prod.mk.inj hr
      exact .take e (List.mem_of_getElem? he)
  | unlock taken =>
      obtain ⟨rfl, rfl⟩ := Prod.mk.inj (Option.some.inj h)
      exact .popUnlock taken

/-- **Every step is one of `PriorityStep`.** -/
theorem step_of_run {env : PriorityEnv} {s s' : PriorityState} {t : PriorityThread}
    {new : List PriorityThread} (h : run s t env = some (s', new)) :
    PriorityStep env s t s' new := by
  cases t with
  | enqueue caller e pc => exact step_of_pushStep h
  | check =>
      simp only [run] at h
      split at h <;> obtain ⟨rfl, rfl⟩ := Prod.mk.inj (Option.some.inj h)
      · exact .stop
      · exact .again
  | pop pc => exact step_of_popStep h
  | execute e =>
      simp only [run] at h
      split at h <;> obtain ⟨rfl, rfl⟩ := Prod.mk.inj (Option.some.inj h)
      · exact .enqueue e _
      · exact .finish e

end PriorityThreadPool

/-! ### The mutex and the queue -/

namespace PriorityThread

/-- The thread holds the mutex. -/
def holding : PriorityThread → ℕ
  | .enqueue _ _ .lock => 0
  | .enqueue _ _ _ => 1
  | .pop .lock | .pop .asleep | .pop (.relock _) => 0
  | .pop _ => 1
  | .check | .execute _ => 0

/-- The thread sleeps. -/
def sleeping : PriorityThread → ℕ
  | .pop .asleep => 1
  | _ => 0

/-- The thread will look for an element before it sleeps. -/
def looking : PriorityThread → ℕ
  | .pop .lock | .pop .test | .pop (.relock _) | .pop .lastTest | .pop .take => 1
  | _ => 0

/-- The thread has pushed an element and not notified. -/
def telling : PriorityThread → ℕ
  | .enqueue _ _ .notifyOne => 1
  | _ => 0

/-- The thread has found no element and is about to fall asleep. -/
def blocking : PriorityThread → ℕ
  | .pop .block => 1
  | _ => 0

/-- The thread has found an element and is about to take it. -/
def taking : PriorityThread → ℕ
  | .pop .take => 1
  | _ => 0

end PriorityThread

/-- **The mutex guards the queue**: it is held by one thread at a time, what a thread has found of
the queue is still so when it acts on it, and no thread sleeps through an element. -/
structure QueueGuarded (p : Pool PriorityState PriorityThread) : Prop where
  mutex : p.total PriorityThread.holding = p.shared.monitor.locked.toNat
  sleepers : p.total PriorityThread.sleeping
    = p.shared.monitor.asleep + p.shared.monitor.notified
  nothing : 0 < p.total PriorityThread.blocking → p.shared.queue = []
  something : 0 < p.total PriorityThread.taking → p.shared.queue ≠ []
  attended : p.shared.monitor.Attended p.shared.queue.length (p.total PriorityThread.looking)
    (p.total PriorityThread.telling)

theorem acting_le_holding (t : PriorityThread) : t.blocking + t.taking ≤ t.holding := by
  cases t with
  | enqueue caller e pc => exact Nat.zero_le _
  | pop pc => cases pc <;> simp [PriorityThread.blocking, PriorityThread.taking,
      PriorityThread.holding]
  | check | execute => exact Nat.le_refl _

namespace PriorityStep

variable {env : PriorityEnv} {s s' : PriorityState} {t : PriorityThread}
  {new : List PriorityThread}

/-- A step locks the mutex if it is free, or unlocks it. -/
theorem mutex (h : PriorityStep env s t s' new) {rest : ℕ}
    (hmutex : t.holding + rest = s.monitor.locked.toNat) :
    (new.map PriorityThread.holding).sum + rest = s'.monitor.locked.toNat := by
  have hle := Bool.toNat_le s.monitor.locked
  cases h with
  | lock caller e hfree =>
      rw [hfree] at hmutex
      simp [PriorityThread.holding, PriorityState.sync] at hmutex ⊢
      omega
  | popLock pc next hfree hpc =>
      rw [hfree] at hmutex
      rcases hpc with ⟨rfl, rfl⟩ | ⟨rfl, rfl⟩ | ⟨rfl, rfl⟩ <;>
        · simp [PriorityThread.holding, PriorityState.sync] at hmutex ⊢
          omega
  | unlock caller e =>
      cases caller <;>
        · simp [PriorityThread.holding, PriorityState.sync, PriorityCaller.resume,
            Monitor.unlock] at hmutex ⊢
          omega
  | popUnlock taken =>
      cases taken <;>
        · simp [PriorityThread.holding, PriorityState.sync, afterPriorityPop,
            Monitor.unlock] at hmutex ⊢
          omega
  | block =>
      simp [PriorityThread.holding, PriorityState.sync, Monitor.block] at hmutex ⊢
      omega
  | wake m hwake =>
      obtain ⟨hlocked, -⟩ := Monitor.wake_eq_some hwake
      simpa [PriorityThread.holding, PriorityState.sync, hlocked] using hmutex
  | found pc hne hpc =>
      rcases hpc with rfl | rfl <;> simpa [PriorityThread.holding] using hmutex
  | _ => simpa [PriorityThread.holding, PriorityState.sync, PriorityState.push, PriorityState.pop,
      PriorityState.emit] using hmutex

/-- A step changes the sleepers as it changes the monitor. -/
theorem sleepers (h : PriorityStep env s t s' new) {rest : ℕ}
    (hsleepers : t.sleeping + rest = s.monitor.asleep + s.monitor.notified) :
    (new.map PriorityThread.sleeping).sum + rest
      = s'.monitor.asleep + s'.monitor.notified := by
  cases h with
  | notifyOne caller e =>
      have := Monitor.notifyOne_sleepers s.monitor
      simp [PriorityThread.sleeping, PriorityState.sync] at hsleepers ⊢
      omega
  | wake m hwake =>
      obtain ⟨-, hcount, -⟩ := Monitor.wake_eq_some hwake
      simp [PriorityThread.sleeping, PriorityState.sync] at hsleepers ⊢
      omega
  | block =>
      simp [PriorityThread.sleeping, PriorityState.sync, Monitor.block] at hsleepers ⊢
      omega
  | unlock caller e =>
      cases caller <;> simpa [PriorityThread.sleeping, PriorityState.sync, PriorityCaller.resume,
        Monitor.unlock] using hsleepers
  | popUnlock taken =>
      cases taken <;> simpa [PriorityThread.sleeping, PriorityState.sync, afterPriorityPop,
        Monitor.unlock] using hsleepers
  | popLock pc next hfree hpc =>
      rcases hpc with ⟨rfl, rfl⟩ | ⟨rfl, rfl⟩ | ⟨rfl, rfl⟩ <;>
        simpa [PriorityThread.sleeping, PriorityState.sync] using hsleepers
  | found pc hne hpc =>
      rcases hpc with rfl | rfl <;> simpa [PriorityThread.sleeping] using hsleepers
  | _ => simpa [PriorityThread.sleeping, PriorityState.sync, PriorityState.push,
      PriorityState.pop, PriorityState.emit] using hsleepers

/-- Who changes the queue holds the mutex. -/
theorem queue_eq (h : PriorityStep env s t s' new) : s'.queue = s.queue ∨ t.holding = 1 := by
  cases h with
  | push caller e => exact Or.inr rfl
  | take e he => exact Or.inr rfl
  | _ => exact Or.inl rfl

/-- Who is about to fall asleep has found no element. -/
theorem nothing (h : PriorityStep env s t s' new) :
    (new.map PriorityThread.blocking).sum = 0 ∨ s'.queue = [] := by
  cases h with
  | foundNone hnil => exact Or.inr hnil
  | unlock caller e => cases caller <;> exact Or.inl rfl
  | popUnlock taken => cases taken <;> exact Or.inl rfl
  | popLock pc next hfree hpc =>
      rcases hpc with ⟨rfl, rfl⟩ | ⟨rfl, rfl⟩ | ⟨rfl, rfl⟩ <;> exact Or.inl rfl
  | _ => exact Or.inl rfl

/-- Who is about to take an element has found one. -/
theorem something (h : PriorityStep env s t s' new) :
    (new.map PriorityThread.taking).sum = 0 ∨ s'.queue ≠ [] := by
  cases h with
  | found pc hne hpc => exact Or.inr hne
  | unlock caller e => cases caller <;> exact Or.inl rfl
  | popUnlock taken => cases taken <;> exact Or.inl rfl
  | popLock pc next hfree hpc =>
      rcases hpc with ⟨rfl, rfl⟩ | ⟨rfl, rfl⟩ | ⟨rfl, rfl⟩ <;> exact Or.inl rfl
  | _ => exact Or.inl rfl

/-- No step lets a thread sleep through an element. -/
theorem attended (h : PriorityStep env s t s' new) {looking telling : ℕ}
    (hnothing : 0 < t.blocking → s.queue = [])
    (hatt : s.monitor.Attended s.queue.length (t.looking + looking) (t.telling + telling)) :
    s'.monitor.Attended s'.queue.length ((new.map PriorityThread.looking).sum + looking)
      ((new.map PriorityThread.telling).sum + telling) := by
  cases h with
  | notifyOne caller e =>
      have hnotified := Monitor.Attended.notifyOne hatt
      simpa [PriorityThread.looking, PriorityThread.telling, PriorityState.sync] using hnotified
  | wake m hwake =>
      have hawake := hatt.wake hwake
      simpa [PriorityThread.looking, PriorityThread.telling, PriorityState.sync] using hawake
  | block =>
      have hnil := hnothing Nat.zero_lt_one
      exact .of_none (by simpa [PriorityState.sync] using hnil)
  | foundNone hnil | giveUp hnil => exact .of_none (by simpa using hnil)
  | take e he =>
      have := List.length_erase_add_one (mem_tops.1 he).1
      refine hatt.mono rfl rfl ?_
      simp [PriorityThread.looking, PriorityThread.telling, PriorityState.pop, PriorityState.emit]
      omega
  | unlock caller e =>
      cases caller <;> refine hatt.mono rfl rfl ?_ <;>
        simp [PriorityThread.looking, PriorityThread.telling, PriorityState.sync,
          PriorityCaller.resume]
  | popUnlock taken =>
      cases taken <;> refine hatt.mono rfl rfl ?_ <;>
        simp [PriorityThread.looking, PriorityThread.telling, PriorityState.sync, afterPriorityPop]
  | popLock pc next hfree hpc =>
      rcases hpc with ⟨rfl, rfl⟩ | ⟨rfl, rfl⟩ | ⟨rfl, rfl⟩ <;> refine hatt.mono rfl rfl ?_ <;>
        simp [PriorityThread.looking, PriorityThread.telling, PriorityState.sync]
  | found pc hne hpc =>
      rcases hpc with rfl | rfl <;> refine hatt.mono rfl rfl ?_ <;>
        simp [PriorityThread.looking, PriorityThread.telling]
  | _ =>
      refine hatt.mono rfl rfl ?_
      simp [PriorityThread.looking, PriorityThread.telling, PriorityState.sync,
        PriorityState.push, PriorityState.emit]
      try omega

end PriorityStep

/-- What one step keeps. -/
theorem QueueGuarded.step {env : PriorityEnv} {s s' : PriorityState} {l r new : List PriorityThread}
    {t : PriorityThread} (hI : QueueGuarded ⟨s, l ++ t :: r⟩) (h : PriorityStep env s t s' new) :
    QueueGuarded ⟨s', l ++ new ++ r⟩ := by
  obtain ⟨hmutex, hsleepers, hnothing, hsomething, hattended⟩ := hI
  simp only [Pool.total_before] at hmutex hsleepers hnothing hsomething hattended
  -- while the thread holds the mutex nobody else acts on what it has found
  have hothers := Pool.others_le_others (l := l) (r := r) fun t _ => acting_le_holding t
  rw [Pool.others_add] at hothers
  have hle := Bool.toNat_le s.monitor.locked
  have hqueue := h.queue_eq
  refine ⟨?_, ?_, fun hblocking => ?_, fun htaking => ?_, ?_⟩
  · rw [Pool.total_after]
    exact h.mutex hmutex
  · rw [Pool.total_after]
    exact h.sleepers hsleepers
  · rw [Pool.total_after] at hblocking
    rcases h.nothing with hnew | hnil
    · rcases hqueue with hsame | hholds
      · exact hsame.trans (hnothing (by omega))
      · omega
    · exact hnil
  · rw [Pool.total_after] at htaking
    rcases h.something with hnew | hne
    · rcases hqueue with hsame | hholds
      · exact hsame ▸ hsomething (by omega)
      · omega
    · exact hne
  · rw [Pool.total_after, Pool.total_after]
    exact h.attended (fun ht => hnothing (by omega)) hattended

/-! ### Runs -/

theorem PriorityThreadPool.arrive_spec {pool : PriorityThreadPool}
    {p : Pool PriorityState PriorityThread} {i : PriorityArrival} {s : PriorityState}
    {t : PriorityThread} (h : pool.arrive p i = some (s, t)) :
    (p.shared.started < pool.threadCount ∧ t = .check ∧
      s = { p.shared with started := p.shared.started + 1 }) ∨
    ∃ e, t = .enqueue .outside e .lock ∧ s = p.shared.emit (.enqueued e) := by
  cases i with
  | startWorker =>
      simp only [arrive] at h
      split at h
      · next hlt =>
          obtain ⟨rfl, rfl⟩ := Prod.mk.inj (Option.some.inj h)
          exact Or.inl ⟨hlt, rfl, rfl⟩
      · exact absurd h (by simp)
  | enqueueOperation e =>
      obtain ⟨rfl, rfl⟩ := Prod.mk.inj (Option.some.inj h)
      exact Or.inr ⟨e, rfl, rfl⟩

/-- **The invariant rule of the pool.** -/
theorem PriorityThreadPool.invariant {pool : PriorityThreadPool}
    {I : Pool PriorityState PriorityThread → Prop} (hinit : I ⟨initial, []⟩)
    (hworker : ∀ p, I p → p.shared.started < pool.threadCount →
      I ⟨{ p.shared with started := p.shared.started + 1 }, p.threads ++ [.check]⟩)
    (henqueue : ∀ p e, I p →
      I ⟨p.shared.emit (.enqueued e), p.threads ++ [.enqueue .outside e .lock]⟩)
    (hstep : ∀ env s s' l t r new, pool.machine.Reachable ⟨s, l ++ t :: r⟩ →
      I ⟨s, l ++ t :: r⟩ → PriorityStep env s t s' new → I ⟨s', l ++ new ++ r⟩)
    {tr : List (Pool PriorityState PriorityThread × PoolAction PriorityEnv PriorityArrival)}
    {p : Pool PriorityState PriorityThread} (h : pool.machine.Exec tr p) : I p := by
  refine ThreadProgram.invariantWhere (C := fun _ _ => True) (I := I) ?_ ?_ ?_ h
    (Machine.meets_true tr)
  · rintro s rfl
    exact hinit
  · rintro _ p i s t _ _ hI - hat
    rcases arrive_spec hat with ⟨hlt, rfl, rfl⟩ | ⟨e, rfl, rfl⟩
    · exact hworker p hI hlt
    · exact henqueue p e hI
  · rintro tr s s' l t r new env hex _ hI - hrun
    exact hstep env s s' l t r new ⟨tr, hex⟩ hI (step_of_run hrun)

theorem queueGuarded_of_exec {pool : PriorityThreadPool}
    {tr : List (Pool PriorityState PriorityThread × PoolAction PriorityEnv PriorityArrival)}
    {p : Pool PriorityState PriorityThread} (h : pool.machine.Exec tr p) : QueueGuarded p := by
  have harrive : ∀ (p : Pool PriorityState PriorityThread) (s : PriorityState)
      (t : PriorityThread), QueueGuarded p → s.queue = p.shared.queue →
      s.monitor = p.shared.monitor → t.holding = 0 → t.sleeping = 0 → t.blocking = 0 →
      t.taking = 0 → t.looking = 0 → t.telling = 0 → QueueGuarded ⟨s, p.threads ++ [t]⟩ := by
    rintro p s t ⟨hmutex, hsleepers, hnothing, hsomething, hattended⟩ hqueue hmonitor h₁ h₂ h₃ h₄
      h₅ h₆
    constructor <;> simp only [Pool.total_arrive _ p, hqueue, hmonitor, h₁, h₂, h₃, h₄, h₅, h₆] <;>
      assumption
  refine PriorityThreadPool.invariant (I := QueueGuarded) ⟨rfl, rfl, ?_, ?_, Monitor.Attended.free⟩
    ?_ ?_ ?_ h
  · exact fun hpos => absurd hpos (Nat.lt_irrefl 0)
  · exact fun hpos => absurd hpos (Nat.lt_irrefl 0)
  · intro p hI _
    exact harrive p _ _ hI rfl rfl rfl rfl rfl rfl rfl rfl
  · intro p e hI
    exact harrive p _ _ hI rfl rfl rfl rfl rfl rfl rfl rfl
  · intro env s s' l t r new _ hI hstep
    exact hI.step hstep

/-! ### Where the elements are -/

/-- The thread has to push the element. -/
def PriorityThread.pushes (e : PriorityElement) : PriorityThread → ℕ
  | .enqueue _ e' .lock | .enqueue _ e' .push => if e' = e then 1 else 0
  | _ => 0

/-- **No element is lost or doubled**: what has been enqueued has been pushed or is about to be, and
what has been pushed has been taken or is in the queue. -/
structure Stored (p : Pool PriorityState PriorityThread) : Prop where
  enqueued : ∀ e, p.shared.log.count (.enqueued e)
    = p.shared.log.count (.pushed e) + p.total (PriorityThread.pushes e)
  pushed : ∀ e, p.shared.log.count (.pushed e)
    = p.shared.log.count (.taken e) + p.shared.queue.count e

namespace PriorityStep

variable {env : PriorityEnv} {s s' : PriorityState} {t : PriorityThread}
  {new : List PriorityThread}

/-- What a step does to an element that is enqueued. -/
theorem enqueued (h : PriorityStep env s t s' new) (e : PriorityElement) :
    s'.log.count (.enqueued e) + s.log.count (.pushed e) + t.pushes e
      = s.log.count (.enqueued e) + s'.log.count (.pushed e)
        + (new.map (PriorityThread.pushes e)).sum := by
  cases h with
  | push caller e' =>
      simp [PriorityState.push, PriorityState.emit, PriorityThread.pushes, List.count_singleton]
      omega
  | enqueue e' next =>
      simp [PriorityState.emit, PriorityThread.pushes, List.count_singleton]
      omega
  | unlock caller e' =>
      cases caller <;> simp [PriorityState.sync, PriorityThread.pushes, PriorityCaller.resume]
  | popUnlock taken =>
      cases taken <;> simp [PriorityState.sync, PriorityThread.pushes, afterPriorityPop]
  | _ =>
      simp [PriorityState.sync, PriorityState.pop, PriorityState.emit, PriorityThread.pushes]

/-- What a step does to an element that is pushed. -/
theorem pushed (h : PriorityStep env s t s' new) (e : PriorityElement) :
    s'.log.count (.pushed e) + (s.log.count (.taken e) + s.queue.count e)
      = s.log.count (.pushed e) + (s'.log.count (.taken e) + s'.queue.count e) := by
  cases h with
  | push caller e' =>
      simp [PriorityState.push, PriorityState.emit, List.count_singleton]
      omega
  | take e' he =>
      have hmem := (mem_tops.1 he).1
      have hcount := (List.perm_cons_erase hmem).count_eq e
      rw [List.count_cons] at hcount
      simp [PriorityState.pop, PriorityState.emit, List.count_singleton]
      simp only [beq_iff_eq] at hcount
      omega
  | _ => simp [PriorityState.sync, PriorityState.emit]

end PriorityStep

theorem stored_of_exec {pool : PriorityThreadPool}
    {tr : List (Pool PriorityState PriorityThread × PoolAction PriorityEnv PriorityArrival)}
    {p : Pool PriorityState PriorityThread} (h : pool.machine.Exec tr p) : Stored p := by
  refine PriorityThreadPool.invariant (I := Stored) ⟨fun e => rfl, fun e => rfl⟩ ?_ ?_ ?_ h
  · rintro p ⟨henqueued, hpushed⟩ -
    refine ⟨fun e => ?_, hpushed⟩
    simp only [Pool.total_arrive _ p]
    simpa [PriorityThread.pushes] using henqueued e
  · rintro p e' ⟨henqueued, hpushed⟩
    refine ⟨fun e => ?_, fun e => ?_⟩
    · have he := henqueued e
      simp only [Pool.total_arrive _ p]
      simp [PriorityState.emit, PriorityThread.pushes, List.count_singleton]
      omega
    · simpa [PriorityState.emit] using hpushed e
  · rintro env s s' l t r new - ⟨henqueued, hpushed⟩ hstep
    refine ⟨fun e => ?_, fun e => ?_⟩
    · have he := henqueued e
      have := hstep.enqueued e
      simp only [Pool.total_before] at he
      simp only [Pool.total_after]
      omega
    · have he := hpushed e
      have := hstep.pushed e
      simp only at he ⊢
      omega

/-! ### Nothing is left -/

/-- Nothing is asked of a worker, and nobody wakes up by itself. -/
def PriorityEnv.calm : PriorityEnv := ⟨false, false, false, 0, none⟩

theorem sleeping_add_holding_le (t : PriorityThread) : t.sleeping + t.holding ≤ 1 := by
  cases t with
  | enqueue caller e pc => cases pc <;> simp [PriorityThread.sleeping, PriorityThread.holding]
  | pop pc => cases pc <;> simp [PriorityThread.sleeping, PriorityThread.holding]
  | check | execute => exact Nat.zero_le _

/-- A thread can go on, unless it needs the mutex that another one holds or sleeps and no
notification is there. -/
theorem PriorityThreadPool.run_ne_none {s : PriorityState} {t : PriorityThread}
    (hlocked : s.monitor.locked = true → t.holding = 1)
    (hasleep : t.sleeping = 1 → s.monitor.notified ≠ 0)
    (htaking : 0 < t.taking → s.queue ≠ []) : run s t PriorityEnv.calm ≠ none := by
  have hlock : t.holding = 0 → s.monitor.lock ≠ none := by
    intro hzero
    have hfree : s.monitor.locked ≠ true := fun h => by simp [hlocked h] at hzero
    simp [Monitor.lock, hfree]
  rcases t with ⟨caller, e, pc⟩ | _ | pc | e
  · cases pc with
    | lock => simpa [run, pushStep] using hlock rfl
    | push | notifyOne | unlock => simp [run, pushStep]
  · simp [run, PriorityEnv.calm]
  · cases pc with
    | lock | relock => simpa [run, popStep] using hlock rfl
    | test | lastTest => by_cases hnil : s.queue = [] <;> simp [run, popStep, hnil]
    | asleep => simp [run, popStep, PriorityEnv.calm, Monitor.wake, hasleep rfl]
    | take =>
        have hne := tops_ne_nil (htaking Nat.zero_lt_one)
        simpa [run, popStep, PriorityEnv.calm] using hne
    | block | unlock => simp [run, popStep]
  · simp [run, PriorityEnv.calm]

/-- **No lost wakeup, no deadlock.**  When the pool has a thread and none can go on, but for
sleepers that wake up by themselves, all threads are workers that sleep, the queue is empty, and
each operation has been taken as often as it has been enqueued. -/
theorem PriorityThreadPool.drained_of_stuck {pool : PriorityThreadPool}
    {tr : List (Pool PriorityState PriorityThread × PoolAction PriorityEnv PriorityArrival)}
    {p : Pool PriorityState PriorityThread} (h : pool.machine.Exec tr p) (hne : p.threads ≠ [])
    (hstuck : ∀ n env, env.byItself = false → pool.machine.next p (.run n env) = none) :
    (∀ t ∈ p.threads, t = .pop .asleep) ∧ p.shared.queue = [] ∧
      ∀ e, p.shared.log.count (.taken e) = p.shared.log.count (.enqueued e) := by
  have hguarded := queueGuarded_of_exec h
  have hstored := stored_of_exec h
  have hnone : ∀ t ∈ p.threads, run p.shared t PriorityEnv.calm = none := by
    intro t ht
    obtain ⟨l, r, hthreads⟩ := List.append_of_mem ht
    refine Option.eq_none_iff_forall_ne_some.2 fun a hrun => ?_
    have hnext : pool.machine.next p (.run l.length PriorityEnv.calm) = some _ :=
      (ThreadProgram.next_run_iff (P := pool.program) (p := p)).2
        ⟨l, t, r, a.1, a.2, hthreads, rfl, hrun, rfl⟩
    rw [hstuck l.length PriorityEnv.calm rfl] at hnext
    exact absurd hnext (by simp)
  have htaking : ∀ t ∈ p.threads, 0 < t.taking → p.shared.queue ≠ [] := fun t ht hpos =>
    hguarded.something (Nat.lt_of_lt_of_le hpos (Pool.le_total_of_mem ht))
  -- whoever holds the mutex could go on
  have hfree : p.shared.monitor.locked = false := by
    by_contra hlocked
    have hmutex := hguarded.mutex
    rw [Bool.not_eq_false] at hlocked
    rw [hlocked] at hmutex
    have hholder : ∃ t ∈ p.threads, t.holding ≠ 0 := by
      by_contra hall
      push Not at hall
      rw [Pool.total_eq_zero_iff.2 hall] at hmutex
      exact absurd hmutex (by decide)
    obtain ⟨t, ht, hholding⟩ := hholder
    have hle := sleeping_add_holding_le t
    exact run_ne_none (s := p.shared) (t := t) (fun _ => by omega) (fun _ => by omega)
      (htaking t ht) (hnone t ht)
  have hasleep : ∀ t ∈ p.threads, t.sleeping = 1 ∧ p.shared.monitor.notified = 0 := by
    intro t ht
    by_contra hcan
    exact run_ne_none (s := p.shared) (t := t) (by simp [hfree])
      (fun hsleeping hzero => hcan ⟨hsleeping, hzero⟩) (htaking t ht) (hnone t ht)
  have hall : ∀ t ∈ p.threads, t = .pop .asleep := by
    intro t ht
    have hsleeping := (hasleep t ht).1
    unfold PriorityThread.sleeping at hsleeping
    split at hsleeping
    · rfl
    · exact absurd hsleeping (by decide)
  have hzero : ∀ w : PriorityThread → ℕ, w (.pop .asleep) = 0 → p.total w = 0 :=
    fun w hw => Pool.total_eq_zero_iff.2 fun t ht => by rw [hall t ht, hw]
  obtain ⟨t, ht⟩ := List.exists_mem_of_ne_nil _ hne
  have hnotified := (hasleep t ht).2
  have hsleepers := hguarded.sleepers
  have hpos := Pool.le_total_of_mem (w := PriorityThread.sleeping) ht
  rw [(hasleep t ht).1] at hpos
  have hlength := hguarded.attended (by omega)
  rw [hzero PriorityThread.looking rfl, hzero PriorityThread.telling rfl, hnotified] at hlength
  have hnil : p.shared.queue = [] := List.eq_nil_of_length_eq_zero (Nat.le_zero.1 hlength)
  refine ⟨hall, hnil, fun e => ?_⟩
  have henqueued := hstored.enqueued e
  have hpushed := hstored.pushed e
  rw [hzero (PriorityThread.pushes e) rfl] at henqueued
  rw [hnil, List.count_nil] at hpushed
  omega

/-- The actions of the pool. -/
abbrev PriorityAction := PoolAction PriorityEnv PriorityArrival

/-- The thread at a position takes several steps. -/
def prioritySteps (n count : ℕ) : List PriorityAction := List.replicate count (.run n .calm)

/-- A pool of one worker. -/
def PriorityThreadPool.one : PriorityThreadPool := ⟨1⟩

theorem PriorityThreadPool.machine_init (pool : PriorityThreadPool) :
    pool.machine.init ⟨initial, []⟩ := ⟨rfl, rfl⟩

/-- Sleepers that no notification is for cannot go on. -/
theorem PriorityThreadPool.stuck_of_asleep {pool : PriorityThreadPool}
    {p : Pool PriorityState PriorityThread} (hasleep : ∀ t ∈ p.threads, t = .pop .asleep)
    (hnotified : p.shared.monitor.notified = 0) (n : ℕ) (env : PriorityEnv)
    (henv : env.byItself = false) : pool.machine.next p (.run n env) = none := by
  refine Option.eq_none_iff_forall_ne_some.2 fun p' hnext => ?_
  obtain ⟨l, t, r, s, new, hthreads, -, hrun, -⟩ :=
    (ThreadProgram.next_run_iff (P := pool.program) (p := p)).1 hnext
  obtain rfl := hasleep t (by simp [hthreads])
  simp [program, run, popStep, Monitor.wake, henv, hnotified] at hrun

/-- The worker goes to sleep, is notified of an operation, executes it, and sleeps again. -/
theorem PriorityThreadPool.drained_of_stuck_one :
    ∃ tr p, PriorityThreadPool.one.machine.Exec tr p ∧
      p.shared.log = [.enqueued ⟨7, 3⟩, .pushed ⟨7, 3⟩, .taken ⟨7, 3⟩] ∧
      (∀ t ∈ p.threads, t = .pop .asleep) ∧ p.shared.queue = [] ∧
      ∀ e, p.shared.log.count (.taken e) = p.shared.log.count (.enqueued e) := by
  let L : List PriorityAction := .arrive .startWorker :: prioritySteps 0 4
    ++ .arrive (.enqueueOperation ⟨7, 3⟩) :: prioritySteps 1 4 ++ prioritySteps 0 10
  obtain ⟨p, hex, hp⟩ := Machine.exists_exec_of_replay one.machine_init L
    (fun p => (p.shared.log, p.threads, p.shared.monitor.notified))
    ([.enqueued ⟨7, 3⟩, .pushed ⟨7, 3⟩, .taken ⟨7, 3⟩], [.pop .asleep], 0) (by decide)
  simp only [Prod.mk.injEq] at hp
  obtain ⟨hlog, hthreads, hnotified⟩ := hp
  exact ⟨_, p, hex, hlog, drained_of_stuck hex (by simp [hthreads])
    (stuck_of_asleep (by simp [hthreads]) hnotified)⟩

/-! ### The most urgent first -/

/-- In the history every element is taken while it is in the queue, and while none there has a
smaller number. -/
def TakenByPriority (log : List PriorityEvent) : Prop :=
  ∀ before e after, log = before ++ .taken e :: after →
    before.count (.taken e) < before.count (.pushed e) ∧
      ∀ e', before.count (.taken e') < before.count (.pushed e') → e.priority ≤ e'.priority

theorem TakenByPriority.append {log : List PriorityEvent} {x : PriorityEvent}
    (h : TakenByPriority log) (hx : ∀ e, x = .taken e →
      log.count (.taken e) < log.count (.pushed e) ∧
        ∀ e', log.count (.taken e') < log.count (.pushed e') → e.priority ≤ e'.priority) :
    TakenByPriority (log ++ [x]) := by
  intro before e after heq
  rcases List.eq_nil_or_concat after with rfl | ⟨after, y, rfl⟩
  · obtain ⟨rfl, hlast⟩ := List.append_inj' heq rfl
    exact hx e (List.singleton_inj.1 hlast)
  · rw [List.concat_eq_append, ← List.cons_append, ← List.append_assoc] at heq
    exact h before e after (List.append_inj' heq rfl).1

/-- What one step keeps. -/
theorem TakenByPriority.step {env : PriorityEnv} {s s' : PriorityState} {t : PriorityThread}
    {new : List PriorityThread} (hI : TakenByPriority s.log)
    (hpushed : ∀ e, s.log.count (.pushed e) = s.log.count (.taken e) + s.queue.count e)
    (h : PriorityStep env s t s' new) : TakenByPriority s'.log := by
  cases h with
  | push caller e => exact hI.append fun e' he' => absurd he' (by simp)
  | enqueue e next => exact hI.append fun e' he' => absurd he' (by simp)
  | take e he =>
      obtain ⟨hmem, hleast⟩ := mem_tops.1 he
      refine hI.append fun e' he' => ?_
      obtain rfl : e = e' := by simpa using he'
      have hcount := List.count_pos_iff.2 hmem
      refine ⟨by have := hpushed e; omega, fun e' hlt => hleast e' ?_⟩
      have := hpushed e'
      exact List.count_pos_iff.1 (by omega)
  | _ => exact hI

/-- **The most urgent first.**  In every run each operation is taken only while it is in the queue,
and while none with a smaller number is; none is taken more often than it has been enqueued. -/
theorem PriorityThreadPool.by_priority {pool : PriorityThreadPool}
    {tr : List (Pool PriorityState PriorityThread × PoolAction PriorityEnv PriorityArrival)}
    {p : Pool PriorityState PriorityThread} (h : pool.machine.Exec tr p) :
    TakenByPriority p.shared.log ∧
      ∀ e, p.shared.log.count (.taken e) ≤ p.shared.log.count (.enqueued e) := by
  refine ⟨?_, fun e => ?_⟩
  · refine PriorityThreadPool.invariant (I := fun p => TakenByPriority p.shared.log) ?_ ?_ ?_ ?_ h
    · intro before e after heq
      exact absurd heq (by simp [PriorityThreadPool.initial])
    · exact fun p hI _ => hI
    · exact fun p e hI => hI.append fun e' he' => absurd he' (by simp)
    · rintro env s s' l t r new ⟨tr, hex⟩ hI hstep
      exact TakenByPriority.step hI (stored_of_exec hex).pushed hstep
  · have henqueued := (stored_of_exec h).enqueued e
    have hpushed := (stored_of_exec h).pushed e
    omega

/-- Of two operations that wait the worker takes the one with the smaller number. -/
theorem PriorityThreadPool.by_priority_two :
    ∃ tr p, PriorityThreadPool.one.machine.Exec tr p ∧
      p.shared.log = [.enqueued ⟨7, 3⟩, .pushed ⟨7, 3⟩, .enqueued ⟨8, 1⟩, .pushed ⟨8, 1⟩,
        .taken ⟨8, 1⟩] ∧
      TakenByPriority p.shared.log ∧
      ∀ e, p.shared.log.count (.taken e) ≤ p.shared.log.count (.enqueued e) := by
  let L : List PriorityAction := .arrive (.enqueueOperation ⟨7, 3⟩) :: prioritySteps 0 4
    ++ .arrive (.enqueueOperation ⟨8, 1⟩) :: prioritySteps 0 4
    ++ .arrive .startWorker :: prioritySteps 0 4
  obtain ⟨p, hex, hlog⟩ := Machine.exists_exec_of_replay one.machine_init L
    (fun p => p.shared.log)
    [.enqueued ⟨7, 3⟩, .pushed ⟨7, 3⟩, .enqueued ⟨8, 1⟩, .pushed ⟨8, 1⟩, .taken ⟨8, 1⟩]
    (by decide)
  exact ⟨_, p, hex, hlog, PriorityThreadPool.by_priority hex⟩

end ExActor
