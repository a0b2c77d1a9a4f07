/-
**The workers of the work-sharing thread pool.**

`ExActor/WorkSharingThreadPool.lean` follows the actors that one worker serves.  Here are all the
workers and the queue they share.  `UnboundedBlockingQueue` is a concurrent queue with a
`LightweightSemaphore` beside it: an operation is inserted and then signalled, and whoever has
acquired a unit takes an element out, trying again until it finds one.  A worker waits for ten
milliseconds at a time, or only tries when the pool spins, then executes what it has taken and
whatever its operations leave in its local slot; what they enqueue while the slot is full goes into
the queue.

The concurrent queue hands out any of its elements, and an attempt may find none for no reason.
`Enqueue` is taken not to run out of memory.  Whether a stop has been requested is asked by each
worker before it waits.

Main definitions:

* `WorkersState`, `WorkerThread`, `WorkersConfig.machine` — the pool, and all interleavings;
* `WorkersStep` — what a step can do;
* `Backed` — the elements are the units, and the waiters are owed the debt;
* `Unlost` — every operation is somewhere.

Main results:

* `WorkersConfig.no_lost_wakeup` — **no lost wakeup**: a worker sleeps without a permit only while
  no element is signalled and free, and who has acquired a unit finds an element;
* `WorkersConfig.executed_once` — **every operation is executed at most once**, and exactly once
  when all workers sleep.
-/

import ExActor.Interleaving
import ExActor.LightweightSemaphore
import Mathlib.Data.List.InsertIdx

set_option relaxedAutoImplicit false
set_option autoImplicit false

namespace ExActor

open LightweightSemaphore

/-! ### The pool -/

/-- An operation is known by a number. -/
abbrev OperationId := ℕ

/-- What happens to operations. -/
inductive WorkersEvent
  | enqueued (op : OperationId)
  | executed (op : OperationId)
deriving DecidableEq

/-- `queue_`, as its elements and its semaphore, and how many workers have been started. -/
structure WorkersState where
  inner : List OperationId
  semaphore : LightweightSemaphore
  started : ℕ
  log : List WorkersEvent
deriving DecidableEq

/-- `Config`, and the spins of the semaphore. -/
structure WorkersConfig where
  threadCount : ℕ
  spin : Bool
  maxSpins : ℕ

/-- Where a push to the queue stands. -/
inductive EnqueuePc
  | insert
  | signal (pc : SignalPc)
deriving DecidableEq

/-- Where a worker stands in `WorkerThreadLoop`.  The local slot is empty but in `Execute`, and full
when an operation pushes to the queue. -/
inductive WorkerPc
  | check
  | pop (pc : WaitPc)
  | take
  | execute (op : OperationId) (slot : Option OperationId)
  | push (op slot next : OperationId) (pc : EnqueuePc)
deriving DecidableEq

/-- A call of `EnqueueOperation` from outside the pool, or a worker. -/
inductive WorkerThread
  | external (op : OperationId) (pc : EnqueuePc)
  | worker (pc : WorkerPc)
deriving DecidableEq

/-- What the pool does not decide: the semaphore's answers, whether a stop is requested, which
element the concurrent queue gives, and what an operation does next: enqueue another, or return. -/
structure WorkerEnv where
  semaphore : SemaphoreEnv
  stop : Bool
  index : ℕ
  enqueues : Option OperationId
deriving DecidableEq

/-- What arrives: a worker of `StartWorkers`, a call of `EnqueueOperation`. -/
inductive WorkersArrival
  | startWorker
  | enqueueOperation (op : OperationId)
deriving DecidableEq

/-! ### The steps -/

/-- Adds an event. -/
def WorkersState.emit (s : WorkersState) (e : WorkersEvent) : WorkersState :=
  { s with log := s.log ++ [e] }

/-- `inner.enqueue`. -/
def WorkersState.insert (s : WorkersState) (op : OperationId) : WorkersState :=
  { s with inner := s.inner ++ [op] }

/-- A step of `sema->signal()`, which gives the thread back as `resume` says. -/
def WorkersState.signal (s : WorkersState) (pc : SignalPc)
    (resume : Option SignalPc → List WorkerThread) : WorkersState × List WorkerThread :=
  ({ s with semaphore := (signalStep 1 s.semaphore pc).1 },
    resume (signalStep 1 s.semaphore pc).2)

/-- After the wait: an element is to be taken, or there was none. -/
def afterPop : WaitOutcome → WorkerPc
  | .goOn pc => .pop pc
  | .returned true => .take
  | .returned false => .check

/-- An operation pushes to the queue until its signal has returned. -/
def resumePush (op slot next : OperationId) : Option SignalPc → List WorkerThread
  | some pc => [.worker (.push op slot next (.signal pc))]
  | none => [.worker (.execute op (some slot))]

namespace WorkersConfig

variable (config : WorkersConfig)

/-- `queue_.TryPop()` or `queue_.Pop(10)`. -/
def call : WaitCall := if config.spin then .tryWait else .wait 10000

/-- One step of a thread. -/
def run (s : WorkersState) :
    WorkerThread → WorkerEnv → Option (WorkersState × List WorkerThread)
  | .external op .insert, _ => some (s.insert op, [.external op (.signal .fetchAdd)])
  | .external op (.signal pc), _ =>
      some (s.signal pc fun r => (r.map fun pc => .external op (.signal pc)).toList)
  | .worker .check, env =>
      if env.stop then some (s, []) else some (s, [.worker (.pop .load)])
  | .worker (.pop pc), env =>
      (waitStep config.maxSpins config.call s.semaphore pc env.semaphore).map fun r =>
        ({ s with semaphore := r.1 }, [.worker (afterPop r.2)])
  | .worker .take, env =>
      match s.inner[env.index]? with
      | some op =>
          some ({ s with inner := s.inner.eraseIdx env.index }.emit (.executed op),
            [.worker (.execute op none)])
      | none => some (s, [.worker .take])
  | .worker (.execute op slot), env =>
      match env.enqueues, slot with
      | some next, none => some (s.emit (.enqueued next), [.worker (.execute op (some next))])
      | some next, some queued =>
          some (s.emit (.enqueued next), [.worker (.push op queued next .insert)])
      | none, some queued => some (s.emit (.executed queued), [.worker (.execute queued none)])
      | none, none => some (s, [.worker .check])
  | .worker (.push op slot next .insert), _ =>
      some (s.insert next, [.worker (.push op slot next (.signal .fetchAdd))])
  | .worker (.push op slot next (.signal pc)), _ => some (s.signal pc (resumePush op slot next))

/-- `StartWorkers` starts `thread_count` workers. -/
def arrive (p : Pool WorkersState WorkerThread) :
    WorkersArrival → Option (WorkersState × WorkerThread)
  | .startWorker =>
      if p.shared.started < config.threadCount then
        some ({ p.shared with started := p.shared.started + 1 }, .worker .check)
      else none
  | .enqueueOperation op => some (p.shared.emit (.enqueued op), .external op .insert)

/-- The thread program of the pool. -/
def program : ThreadProgram WorkersState WorkerThread WorkerEnv WorkersArrival where
  run := config.run
  arrive := config.arrive

/-- A pool without workers and operations. -/
def initial : WorkersState := ⟨[], ⟨0, 0⟩, 0, []⟩

/-- All interleavings of the workers and of those that enqueue. -/
def machine : Machine (Pool WorkersState WorkerThread) (PoolAction WorkerEnv WorkersArrival) :=
  config.program.machine (· = initial)

end WorkersConfig

/-! ### What a step can do -/

/-- A thread inserts an operation, takes a step of a signal or of a wait, takes an element, puts an
operation into the free slot, begins to push one, goes on with the slot, or neither touches the
queue nor an operation. -/
inductive WorkersStep (config : WorkersConfig) (env : WorkerEnv) (s : WorkersState) :
    WorkerThread → WorkersState → List WorkerThread → Prop
  | insert (op : OperationId) :
      WorkersStep config env s (.external op .insert) (s.insert op)
        [.external op (.signal .fetchAdd)]
  | insertOwn (op slot next : OperationId) :
      WorkersStep config env s (.worker (.push op slot next .insert)) (s.insert next)
        [.worker (.push op slot next (.signal .fetchAdd))]
  | signal (op : OperationId) (pc : SignalPc) :
      WorkersStep config env s (.external op (.signal pc))
        { s with semaphore := (signalStep 1 s.semaphore pc).1 }
        ((signalStep 1 s.semaphore pc).2.map fun pc => .external op (.signal pc)).toList
  | signalOwn (op slot next : OperationId) (pc : SignalPc) :
      WorkersStep config env s (.worker (.push op slot next (.signal pc)))
        { s with semaphore := (signalStep 1 s.semaphore pc).1 }
        (resumePush op slot next (signalStep 1 s.semaphore pc).2)
  | wait (pc : WaitPc) (sem : LightweightSemaphore) (out : WaitOutcome) :
      waitStep config.maxSpins config.call s.semaphore pc env.semaphore = some (sem, out) →
      WorkersStep config env s (.worker (.pop pc)) { s with semaphore := sem }
        [.worker (afterPop out)]
  | take (op : OperationId) : s.inner[env.index]? = some op →
      WorkersStep config env s (.worker .take)
        ({ s with inner := s.inner.eraseIdx env.index }.emit (.executed op))
        [.worker (.execute op none)]
  | fillSlot (op next : OperationId) :
      WorkersStep config env s (.worker (.execute op none)) (s.emit (.enqueued next))
        [.worker (.execute op (some next))]
  | beginPush (op slot next : OperationId) :
      WorkersStep config env s (.worker (.execute op (some slot))) (s.emit (.enqueued next))
        [.worker (.push op slot next .insert)]
  | drainSlot (op slot : OperationId) :
      WorkersStep config env s (.worker (.execute op (some slot))) (s.emit (.executed slot))
        [.worker (.execute slot none)]
  | stop : WorkersStep config env s (.worker .check) s []
  | again : WorkersStep config env s (.worker .check) s [.worker (.pop .load)]
  | missed : WorkersStep config env s (.worker .take) s [.worker .take]
  | finish (op : OperationId) :
      WorkersStep config env s (.worker (.execute op none)) s [.worker .check]

/-- **Every step is one of `WorkersStep`.** -/
theorem WorkersConfig.step_of_run {config : WorkersConfig} {s s' : WorkersState} {t : WorkerThread}
    {env : WorkerEnv} {new : List WorkerThread} (h : config.run s t env = some (s', new)) :
    WorkersStep config env s t s' new := by
  cases t with
  | external op pc =>
      cases pc with
      | insert =>
          obtain ⟨rfl, rfl⟩ := by simpa [run] using h
          exact .insert op
      | signal pc =>
          obtain ⟨rfl, rfl⟩ := by simpa [run, WorkersState.signal] using h
          exact .signal op pc
  | worker pc =>
      cases pc with
      | check =>
          simp only [run] at h
          split at h <;> obtain ⟨rfl, rfl⟩ := by simpa using h
          · exact .stop
          · exact .again
      | pop pc =>
          obtain ⟨⟨sem, out⟩, hwait, hr⟩ := Option.map_eq_some_iff.1 h
          obtain ⟨rfl, rfl⟩ := Prod.mk.inj hr
          exact .wait pc sem out hwait
      | take =>
          simp only [run] at h
          split at h
          · next op hop =>
              obtain ⟨rfl, rfl⟩ := by simpa using h
              exact .take op hop
          · obtain ⟨rfl, rfl⟩ := by simpa using h
            exact .missed
      | execute op slot =>
          simp only [run] at h
          split at h <;> obtain ⟨rfl, rfl⟩ := by simpa using h
          · exact .fillSlot op _
          · exact .beginPush op _ _
          · exact .drainSlot op _
          · exact .finish op
      | push op slot next pc =>
          cases pc with
          | insert =>
              obtain ⟨rfl, rfl⟩ := by simpa [run] using h
              exact .insertOwn op slot next
          | signal pc =>
              obtain ⟨rfl, rfl⟩ := by simpa [run, WorkersState.signal] using h
              exact .signalOwn op slot next pc

/-! ### Elements and units -/

/-- The permits that a push still has to release. -/
def EnqueuePc.releasing : EnqueuePc → ℕ
  | .insert => 0
  | .signal pc => pc.releasing

/-- The push has inserted an element and not counted it. -/
def EnqueuePc.unsignalled : EnqueuePc → ℕ
  | .insert => 0
  | .signal pc => pc.unsignalled 1

namespace WorkerThread

/-- The thread is a worker that is owed a unit. -/
def waiting : WorkerThread → ℕ
  | .worker (.pop pc) => pc.waiting
  | _ => 0

/-- The permits that the thread still has to release. -/
def releasing : WorkerThread → ℕ
  | .external _ pc => pc.releasing
  | .worker (.push _ _ _ pc) => pc.releasing
  | _ => 0

/-- The thread has inserted an element and not counted it. -/
def unsignalled : WorkerThread → ℕ
  | .external _ pc => pc.unsignalled
  | .worker (.push _ _ _ pc) => pc.unsignalled
  | _ => 0

/-- The thread has acquired a unit and not taken an element. -/
def takes : WorkerThread → ℕ
  | .worker .take => 1
  | _ => 0

/-- The thread has to insert the operation into the queue. -/
def inserts (op : OperationId) : WorkerThread → ℕ
  | .external op' .insert => if op' = op then 1 else 0
  | .worker (.push _ _ next .insert) => if next = op then 1 else 0
  | _ => 0

/-- The thread has the operation in its local slot. -/
def inSlot (op : OperationId) : WorkerThread → ℕ
  | .worker (.execute _ (some slot)) => if slot = op then 1 else 0
  | .worker (.push _ slot _ _) => if slot = op then 1 else 0
  | _ => 0

/-- The thread is a worker. -/
def isWorker : WorkerThread → ℕ
  | .worker _ => 1
  | .external _ _ => 0

/-- The thread executes an operation. -/
def executing : WorkerThread → ℕ
  | .worker (.execute _ _) | .worker (.push _ _ _ _) => 1
  | _ => 0

end WorkerThread

/-- **The elements are the units**: those of the count, the permits, those being released, those
acquired and those not signalled yet; and the waiters are owed the permits and the debt. -/
structure Backed (p : Pool WorkersState WorkerThread) : Prop where
  units : p.shared.inner.length = p.shared.semaphore.count.toNat + p.shared.semaphore.permits
    + p.total WorkerThread.releasing + p.total WorkerThread.takes
    + p.total WorkerThread.unsignalled
  debt : p.total WorkerThread.waiting = p.shared.semaphore.permits
    + p.total WorkerThread.releasing + (-p.shared.semaphore.count).toNat

theorem waiting_afterPop (out : WaitOutcome) :
    (WorkerThread.worker (afterPop out)).waiting = out.waiting := by
  cases out with
  | goOn pc => rfl
  | returned acquired => cases acquired <;> rfl

theorem takes_afterPop (out : WaitOutcome) :
    (WorkerThread.worker (afterPop out)).takes = out.acquired := by
  cases out with
  | goOn pc => rfl
  | returned acquired => cases acquired <;> rfl

theorem releasing_worker_afterPop (out : WaitOutcome) :
    (WorkerThread.worker (afterPop out)).releasing = 0 ∧
      (WorkerThread.worker (afterPop out)).unsignalled = 0 := by
  cases out with
  | goOn pc => exact ⟨rfl, rfl⟩
  | returned acquired => cases acquired <;> exact ⟨rfl, rfl⟩

/-- What a step does to the elements and the units. -/
theorem WorkersStep.units {config : WorkersConfig} {env : WorkerEnv} {s s' : WorkersState}
    {t : WorkerThread} {new : List WorkerThread} (h : WorkersStep config env s t s' new) :
    s'.inner.length + (s.semaphore.count.toNat + s.semaphore.permits + t.releasing + t.takes
        + t.unsignalled)
      = s.inner.length + (s'.semaphore.count.toNat + s'.semaphore.permits
        + (new.map WorkerThread.releasing).sum + (new.map WorkerThread.takes).sum
        + (new.map WorkerThread.unsignalled).sum) ∧
    (new.map WorkerThread.waiting).sum + (s.semaphore.permits + t.releasing
        + (-s.semaphore.count).toNat)
      = t.waiting + (s'.semaphore.permits + (new.map WorkerThread.releasing).sum
        + (-s'.semaphore.count).toNat) := by
  cases h with
  | insert | insertOwn =>
      simp [WorkersState.insert, WorkerThread.releasing, WorkerThread.takes,
        WorkerThread.unsignalled, WorkerThread.waiting, EnqueuePc.releasing,
        EnqueuePc.unsignalled, SignalPc.releasing, SignalPc.unsignalled]
      omega
  | signal op pc =>
      obtain ⟨hunits, hdebt⟩ := signalStep_spec 1 s.semaphore pc
      cases hr : (signalStep 1 s.semaphore pc).2 <;>
        simp [hr, WorkerThread.releasing, WorkerThread.takes, WorkerThread.unsignalled,
          WorkerThread.waiting, EnqueuePc.releasing, EnqueuePc.unsignalled] at hunits hdebt ⊢ <;>
        omega
  | signalOwn op slot next pc =>
      obtain ⟨hunits, hdebt⟩ := signalStep_spec 1 s.semaphore pc
      cases hr : (signalStep 1 s.semaphore pc).2 <;>
        simp [hr, resumePush, WorkerThread.releasing, WorkerThread.takes,
          WorkerThread.unsignalled, WorkerThread.waiting, EnqueuePc.releasing,
          EnqueuePc.unsignalled] at hunits hdebt ⊢ <;>
        omega
  | wait pc sem out hwait =>
      obtain ⟨hunits, hdebt⟩ := waitStep_spec hwait
      obtain ⟨hrel, huns⟩ := releasing_worker_afterPop out
      simp only [List.map_cons, List.map_nil, List.sum_cons, List.sum_nil, waiting_afterPop,
        takes_afterPop, hrel, huns]
      simp only [WorkerThread.releasing, WorkerThread.takes, WorkerThread.unsignalled,
        WorkerThread.waiting]
      omega
  | take op hop =>
      have hlt := (List.getElem?_eq_some_iff.1 hop).1
      have hlen := List.length_eraseIdx_of_lt hlt
      simp [WorkersState.emit, hlen, WorkerThread.releasing, WorkerThread.takes,
        WorkerThread.unsignalled, WorkerThread.waiting]
      omega
  | fillSlot | beginPush | drainSlot | stop | again | missed | finish =>
      simp [WorkersState.emit, WorkerThread.releasing, WorkerThread.takes,
        WorkerThread.unsignalled, WorkerThread.waiting, EnqueuePc.releasing,
        EnqueuePc.unsignalled, WaitPc.waiting]

/-- The thread arrives with nothing. -/
theorem WorkersConfig.arrive_spec {config : WorkersConfig} {p : Pool WorkersState WorkerThread}
    {i : WorkersArrival} {s : WorkersState} {t : WorkerThread}
    (h : config.arrive p i = some (s, t)) :
    (p.shared.started < config.threadCount ∧ t = .worker .check ∧
      s = { p.shared with started := p.shared.started + 1 }) ∨
    ∃ op, t = .external op .insert ∧ s = p.shared.emit (.enqueued op) := by
  cases i with
  | startWorker =>
      simp only [arrive] at h
      split at h
      · next hlt =>
          obtain ⟨rfl, rfl⟩ := by simpa using h
          exact Or.inl ⟨hlt, rfl, rfl⟩
      · exact absurd h (by simp)
  | enqueueOperation op =>
      obtain ⟨rfl, rfl⟩ := by simpa [arrive] using h
      exact Or.inr ⟨op, rfl, rfl⟩

/-- **The invariant rule of the pool.** -/
theorem WorkersConfig.invariant {config : WorkersConfig}
    {I : Pool WorkersState WorkerThread → Prop} (hinit : I ⟨initial, []⟩)
    (hworker : ∀ p, I p → p.shared.started < config.threadCount →
      I ⟨{ p.shared with started := p.shared.started + 1 }, p.threads ++ [.worker .check]⟩)
    (henqueue : ∀ p op, I p →
      I ⟨p.shared.emit (.enqueued op), p.threads ++ [.external op .insert]⟩)
    (hstep : ∀ env s s' l t r new, I ⟨s, l ++ t :: r⟩ → WorkersStep config env s t s' new →
      I ⟨s', l ++ new ++ r⟩)
    {tr : List (Pool WorkersState WorkerThread × PoolAction WorkerEnv WorkersArrival)}
    {p : Pool WorkersState WorkerThread} (h : config.machine.Exec tr p) : I p := by
  refine ThreadProgram.invariantWhere (C := fun _ _ => True) (I := I) ?_ ?_ ?_ h
    (Machine.meets_true tr)
  · rintro s rfl
    exact hinit
  · rintro _ p i s t _ _ hI - hat
    rcases WorkersConfig.arrive_spec hat with ⟨hlt, rfl, rfl⟩ | ⟨op, rfl, rfl⟩
    · exact hworker p hI hlt
    · exact henqueue p op hI
  · rintro _ s s' l t r new env _ _ hI - hrun
    exact hstep env s s' l t r new hI (WorkersConfig.step_of_run hrun)

theorem backed_of_exec {config : WorkersConfig}
    {tr : List (Pool WorkersState WorkerThread × PoolAction WorkerEnv WorkersArrival)}
    {p : Pool WorkersState WorkerThread} (h : config.machine.Exec tr p) : Backed p := by
  refine WorkersConfig.invariant (I := Backed) ⟨rfl, rfl⟩ ?_ ?_ ?_ h
  · intro p hI _
    constructor
    · simp only [Pool.total_arrive _ p]
      simpa [WorkerThread.releasing, WorkerThread.takes, WorkerThread.unsignalled] using hI.units
    · simp only [Pool.total_arrive _ p]
      simpa [WorkerThread.releasing, WorkerThread.waiting] using hI.debt
  · intro p op hI
    constructor
    · simp only [Pool.total_arrive _ p]
      simpa [WorkersState.emit, WorkerThread.releasing, WorkerThread.takes,
        WorkerThread.unsignalled, EnqueuePc.releasing, EnqueuePc.unsignalled] using hI.units
    · simp only [Pool.total_arrive _ p]
      simpa [WorkersState.emit, WorkerThread.releasing, WorkerThread.waiting,
        EnqueuePc.releasing] using hI.debt
  · intro env s s' l t r new hI hstep
    obtain ⟨hunits, hdebt⟩ := hstep.units
    have hu := hI.units
    have hd := hI.debt
    simp only [Pool.total_before] at hu hd
    constructor
    · simp only [Pool.total_after]
      omega
    · simp only [Pool.total_after]
      omega

/-- **No lost wakeup.**  Whoever has acquired a unit finds an element; a worker sleeps without a
permit only while every element is about to be taken or not signalled yet; and a wait that ends with
nothing leaves only elements that are about to be taken, not signalled yet, or promised to other
workers by a permit. -/
theorem WorkersConfig.no_lost_wakeup {config : WorkersConfig}
    {tr : List (Pool WorkersState WorkerThread × PoolAction WorkerEnv WorkersArrival)}
    {p : Pool WorkersState WorkerThread} (h : config.machine.Exec tr p) :
    p.total WorkerThread.takes ≤ p.shared.inner.length ∧
      (0 < p.total WorkerThread.waiting → p.shared.semaphore.permits = 0 →
        p.total WorkerThread.releasing = 0 →
        p.shared.inner.length = p.total WorkerThread.takes + p.total WorkerThread.unsignalled) ∧
      ∀ pc env s', config.run p.shared (.worker (.pop pc)) env = some (s', [.worker .check]) →
        p.shared.inner.length = p.total WorkerThread.takes + p.total WorkerThread.unsignalled
          + p.shared.semaphore.permits + p.total WorkerThread.releasing := by
  obtain ⟨hunits, hdebt⟩ := backed_of_exec h
  refine ⟨by omega, ?_, ?_⟩
  · intro hwaiting hpermits hreleasing
    omega
  · intro pc env s' hrun
    obtain ⟨⟨sem, out⟩, hwait, hr⟩ := Option.map_eq_some_iff.1 hrun
    have hcheck : afterPop out = .check := by simpa using (Prod.mk.inj hr).2
    have hfalse : out = .returned false := by
      cases out with
      | goOn pc => simp [afterPop] at hcheck
      | returned acquired => cases acquired <;> simp [afterPop] at hcheck ⊢
    subst hfalse
    have := waitStep_false hwait
    omega

/-- A pool of two workers, which spin once before they sleep. -/
def WorkersConfig.two : WorkersConfig := ⟨2, false, 1⟩

/-- Nothing fails, and an operation returns. -/
def WorkerEnv.calm : WorkerEnv := ⟨⟨false, false⟩, false, 0, none⟩

/-- The time of a wait is over. -/
def WorkerEnv.timeout : WorkerEnv := { WorkerEnv.calm with semaphore := ⟨false, true⟩ }

/-- An operation enqueues another one. -/
def WorkerEnv.enqueue (op : OperationId) : WorkerEnv := { WorkerEnv.calm with enqueues := some op }

/-- The actions of the pool. -/
abbrev WorkersAction := PoolAction WorkerEnv WorkersArrival

/-- The thread at a position takes several steps. -/
def workerSteps (n count : ℕ) : List WorkersAction := List.replicate count (.run n WorkerEnv.calm)

/-- A worker starts, finds nothing and goes to sleep. -/
def startAsleep (n : ℕ) : List WorkersAction := .arrive .startWorker :: workerSteps n 4

theorem WorkersConfig.machine_init (config : WorkersConfig) : config.machine.init ⟨initial, []⟩ :=
  ⟨rfl, rfl⟩

/-- A wait ends with nothing while an operation has been inserted and not signalled. -/
theorem WorkersConfig.no_lost_wakeup_unsignalled :
    ∃ tr p, WorkersConfig.two.machine.Exec tr p ∧ p.shared.inner = [7] ∧
      p.total WorkerThread.takes ≤ p.shared.inner.length ∧
      p.shared.inner.length = p.total WorkerThread.takes + p.total WorkerThread.unsignalled ∧
      ∃ pc env s', WorkersConfig.two.run p.shared (.worker (.pop pc)) env
          = some (s', [.worker .check]) ∧
        p.shared.inner.length = p.total WorkerThread.takes + p.total WorkerThread.unsignalled
          + p.shared.semaphore.permits + p.total WorkerThread.releasing := by
  let L : List WorkersAction := startAsleep 0 ++ [.arrive (.enqueueOperation 7),
    .run 1 WorkerEnv.calm, .run 0 WorkerEnv.timeout, .run 0 WorkerEnv.calm]
  let s : WorkersState := ⟨[7], ⟨-1, 0⟩, 1, [.enqueued 7]⟩
  let pc : WaitPc := .giveUp (-1) (by decide)
  obtain ⟨p, hex, rfl⟩ := Machine.exists_exec_of_replay two.machine_init L id
    ⟨s, [.worker (.pop pc), .external 7 (.signal .fetchAdd)]⟩ (by decide)
  have hrun : two.run s (.worker (.pop pc)) WorkerEnv.calm
      = some ({ s with semaphore := ⟨0, 0⟩ }, [.worker .check]) := by decide
  obtain ⟨htakes, hasleep, hgivesUp⟩ := WorkersConfig.no_lost_wakeup hex
  exact ⟨_, _, hex, rfl, htakes, hasleep (by decide) rfl (by decide), pc, _, _, hrun,
    hgivesUp pc _ _ hrun⟩

/-! ### Operations -/

/-- **No operation is lost or doubled**: what has been enqueued has been executed, is about to be
inserted, is in a slot, or is in the queue. -/
def Unlost (p : Pool WorkersState WorkerThread) : Prop :=
  ∀ op, p.shared.log.count (.enqueued op) = p.shared.log.count (.executed op)
    + p.total (WorkerThread.inserts op) + p.total (WorkerThread.inSlot op) + p.shared.inner.count op

/-- What a step does to an operation. -/
theorem WorkersStep.unlost {config : WorkersConfig} {env : WorkerEnv} {s s' : WorkersState}
    {t : WorkerThread} {new : List WorkerThread} (h : WorkersStep config env s t s' new)
    (op : OperationId) :
    s'.log.count (.enqueued op) + (s.log.count (.executed op) + t.inserts op + t.inSlot op
        + s.inner.count op)
      = s.log.count (.enqueued op) + (s'.log.count (.executed op)
        + (new.map (WorkerThread.inserts op)).sum + (new.map (WorkerThread.inSlot op)).sum
        + s'.inner.count op) := by
  cases h with
  | insert op' =>
      simp [WorkersState.insert, WorkerThread.inserts, WorkerThread.inSlot, List.count_singleton]
      omega
  | insertOwn op' slot next =>
      simp [WorkersState.insert, WorkerThread.inserts, WorkerThread.inSlot, List.count_singleton]
      omega
  | signal op' pc =>
      cases (signalStep 1 s.semaphore pc).2 <;>
        simp [WorkerThread.inserts, WorkerThread.inSlot]
  | signalOwn op' slot next pc =>
      cases (signalStep 1 s.semaphore pc).2 <;>
        simp [resumePush, WorkerThread.inserts, WorkerThread.inSlot]
  | wait pc sem out hwait =>
      rcases out with pc' | (_ | _) <;> simp [afterPop, WorkerThread.inserts, WorkerThread.inSlot]
  | take op' hop =>
      obtain ⟨hlt, rfl⟩ := List.getElem?_eq_some_iff.1 hop
      have hinner := (List.getElem_cons_eraseIdx_perm hlt).count_eq op
      rw [List.count_cons] at hinner
      simp [WorkersState.emit, WorkerThread.inserts, WorkerThread.inSlot, List.count_singleton]
        at hinner ⊢
      omega
  | fillSlot op' next =>
      simp [WorkersState.emit, WorkerThread.inserts, WorkerThread.inSlot, List.count_singleton]
      omega
  | beginPush op' slot next =>
      simp [WorkersState.emit, WorkerThread.inserts, WorkerThread.inSlot, List.count_singleton]
      omega
  | drainSlot op' slot =>
      simp [WorkersState.emit, WorkerThread.inserts, WorkerThread.inSlot, List.count_singleton]
  | stop | again | missed | finish => simp [WorkerThread.inserts, WorkerThread.inSlot]

theorem unlost_of_exec {config : WorkersConfig}
    {tr : List (Pool WorkersState WorkerThread × PoolAction WorkerEnv WorkersArrival)}
    {p : Pool WorkersState WorkerThread} (h : config.machine.Exec tr p) : Unlost p := by
  refine WorkersConfig.invariant (I := Unlost) (fun op => rfl) ?_ ?_ ?_ h
  · intro p hI _ op
    simp only [Pool.total_arrive _ p]
    simpa [WorkerThread.inserts, WorkerThread.inSlot] using hI op
  · intro p op' hI op
    have hop := hI op
    simp only [Pool.total_arrive _ p]
    simp [WorkersState.emit, WorkerThread.inserts, WorkerThread.inSlot, List.count_singleton]
    omega
  · intro env s s' l t r new hI hstep op
    have hop := hI op
    have := hstep.unlost op
    simp only [Pool.total_before] at hop
    simp only [Pool.total_after]
    omega

/-- A step starts no worker. -/
theorem WorkersStep.isWorker_le {config : WorkersConfig} {env : WorkerEnv} {s s' : WorkersState}
    {t : WorkerThread} {new : List WorkerThread} (h : WorkersStep config env s t s' new) :
    (new.map WorkerThread.isWorker).sum ≤ t.isWorker ∧ s'.started = s.started := by
  cases h with
  | signal op pc =>
      cases (signalStep 1 s.semaphore pc).2 <;> simp [WorkerThread.isWorker]
  | signalOwn op slot next pc =>
      cases (signalStep 1 s.semaphore pc).2 <;> simp [resumePush, WorkerThread.isWorker]
  | _ => simp [WorkerThread.isWorker, WorkersState.insert, WorkersState.emit]

theorem workers_le {config : WorkersConfig}
    {tr : List (Pool WorkersState WorkerThread × PoolAction WorkerEnv WorkersArrival)}
    {p : Pool WorkersState WorkerThread} (h : config.machine.Exec tr p) :
    p.total WorkerThread.isWorker ≤ p.shared.started ∧ p.shared.started ≤ config.threadCount := by
  refine WorkersConfig.invariant (I := fun p => p.total WorkerThread.isWorker ≤ p.shared.started ∧
    p.shared.started ≤ config.threadCount) ⟨Nat.le_refl _, Nat.zero_le _⟩ ?_ ?_ ?_ h
  · intro p hI hlt
    simp only [Pool.total_arrive _ p, WorkerThread.isWorker]
    omega
  · intro p op hI
    simp only [Pool.total_arrive _ p, WorkerThread.isWorker, WorkersState.emit]
    omega
  · intro env s s' l t r new hI hstep
    have := hstep.isWorker_le
    simp only [Pool.total_before] at hI
    simp only [Pool.total_after]
    omega

theorem executing_le_isWorker (t : WorkerThread) : t.executing ≤ t.isWorker := by
  cases t with
  | external op pc => exact Nat.le_refl _
  | worker pc => cases pc <;> simp [WorkerThread.executing, WorkerThread.isWorker]

/-- When all workers sleep, none with a permit, nothing is left of the pool's operations. -/
theorem executed_of_asleep {p : Pool WorkersState WorkerThread} (hbacked : Backed p)
    (hunlost : Unlost p) (hne : p.threads ≠ [])
    (hasleep : ∀ t ∈ p.threads, t = .worker (.pop .block))
    (hpermits : p.shared.semaphore.permits = 0) :
    p.shared.inner = [] ∧
      ∀ op, p.shared.log.count (.executed op) = p.shared.log.count (.enqueued op) := by
  have hzero : ∀ w : WorkerThread → ℕ, w (.worker (.pop .block)) = 0 → p.total w = 0 :=
    fun w hw => Pool.total_eq_zero_iff.2 fun t ht => by rw [hasleep t ht, hw]
  have hwaiting : 0 < p.total WorkerThread.waiting := by
    obtain ⟨t, ht⟩ := List.exists_mem_of_ne_nil _ hne
    have hle := Pool.le_total_of_mem (w := WorkerThread.waiting) ht
    rw [hasleep t ht] at hle
    exact hle
  obtain ⟨hunits, hdebt⟩ := hbacked
  rw [hzero WorkerThread.releasing rfl, hpermits] at hunits hdebt
  rw [hzero WorkerThread.takes rfl, hzero WorkerThread.unsignalled rfl] at hunits
  have hinner : p.shared.inner = [] := List.eq_nil_of_length_eq_zero (by omega)
  refine ⟨hinner, fun op => ?_⟩
  have hop := hunlost op
  rw [hzero (WorkerThread.inserts op) rfl, hzero (WorkerThread.inSlot op) rfl, hinner] at hop
  exact hop.symm

theorem executing_le_threadCount {config : WorkersConfig}
    {tr : List (Pool WorkersState WorkerThread × PoolAction WorkerEnv WorkersArrival)}
    {p : Pool WorkersState WorkerThread} (h : config.machine.Exec tr p) :
    p.total WorkerThread.executing ≤ config.threadCount := by
  have := Pool.total_le_total (p := p) fun t _ => executing_le_isWorker t
  have := workers_le h
  omega

/-- **Every operation is executed once.**  No more operations are executed at a time than the pool
has threads, an operation is never executed more often than it has been enqueued, and when there are
workers and no `EnqueueOperation` is in progress, and all workers sleep, none with a permit, the
queue is empty and every operation has been executed as often as it has been enqueued. -/
theorem WorkersConfig.executed_once {config : WorkersConfig}
    {tr : List (Pool WorkersState WorkerThread × PoolAction WorkerEnv WorkersArrival)}
    {p : Pool WorkersState WorkerThread} (h : config.machine.Exec tr p) :
    p.total WorkerThread.executing ≤ config.threadCount ∧
      (∀ op, p.shared.log.count (.executed op) ≤ p.shared.log.count (.enqueued op)) ∧
      (p.threads ≠ [] → (∀ t ∈ p.threads, t = .worker (.pop .block)) →
        p.shared.semaphore.permits = 0 → p.shared.inner = [] ∧
        ∀ op, p.shared.log.count (.executed op) = p.shared.log.count (.enqueued op)) := by
  have hunlost := unlost_of_exec h
  refine ⟨executing_le_threadCount h, fun op => ?_, executed_of_asleep (backed_of_exec h) hunlost⟩
  have := hunlost op
  omega

/-- One worker puts the first operation of the one it executes into its slot and pushes the second,
which the other worker takes; then both sleep. -/
theorem WorkersConfig.executed_once_two_workers :
    ∃ tr p, WorkersConfig.two.machine.Exec tr p ∧
      p.shared.log = [.enqueued 7, .executed 7, .enqueued 8, .enqueued 9, .executed 9,
        .executed 8] ∧
      p.total WorkerThread.executing ≤ 2 ∧ p.shared.inner = [] ∧
      ∀ op, p.shared.log.count (.executed op) = p.shared.log.count (.enqueued op) := by
  let L : List WorkersAction := startAsleep 0 ++ startAsleep 1
    ++ .arrive (.enqueueOperation 7) :: workerSteps 2 3 ++ workerSteps 0 2
    ++ .run 0 (WorkerEnv.enqueue 8) :: .run 0 (WorkerEnv.enqueue 9) :: workerSteps 0 3
    ++ workerSteps 1 2 ++ workerSteps 0 6 ++ workerSteps 1 5
  obtain ⟨p, hex, hp⟩ := Machine.exists_exec_of_replay two.machine_init L
    (fun p => (p.threads, p.shared.semaphore.permits, p.shared.log))
    ([.worker (.pop .block), .worker (.pop .block)], 0,
      [.enqueued 7, .executed 7, .enqueued 8, .enqueued 9, .executed 9, .executed 8]) (by decide)
  simp only [Prod.mk.injEq] at hp
  obtain ⟨hthreads, hpermits, hlog⟩ := hp
  obtain ⟨hexecuting, -, hidle⟩ := WorkersConfig.executed_once hex
  have hasleep : ∀ t ∈ p.threads, t = .worker (.pop .block) := by simp [hthreads]
  exact ⟨_, p, hex, hlog, hexecuting, hidle (by simp [hthreads]) hasleep hpermits⟩

end ExActor
