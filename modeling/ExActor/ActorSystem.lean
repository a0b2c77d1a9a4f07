/-
**Actors on a thread pool.**

Here the parts are put together: any actors, each over its queues, on a work-sharing thread pool
with all its workers.  `Schedule` of an actor starts an operation of the pool, which is
`EnqueueOperation`, by whatever thread the actor's code runs on: one outside the pool, or a worker
that executes an operation.  The operation is known by its actor; a worker that takes it begins the
activation, and ends the operation when the activation has returned.  No `Schedule` throws, and no
actor is destroyed meanwhile.

Every thread in `ExActor/ActorPublication.lean` that is an activation and has begun is the
operation that some worker executes, and every one that has not begun is an operation in the pool.
So when all workers sleep and no push is in progress nothing is left of any actor, and its messages
have all been executed.

Main definitions:

* `ActorSystem`, `ActorSystem.machine` — actors and pool, and all interleavings;
* `Hosted` — activations are operations.

Main results:

* `ActorSystem.hosted_of_exec` — the actors and the pool run as they do by themselves, and
  `Hosted` holds in every reachable state;
* `ActorSystem.runs_on_workers` — **an actor is run by one thread at a time**, and no more actors
  than there are workers are run at a time;
* `ActorSystem.all_executed` — **when all workers sleep every message has been executed**, exactly
  once and in its order.
-/

import ExActor.ActorPublication
import ExActor.WorkSharingThreadPool
import ExActor.WorkSharingWorkers
import Mathlib.Algebra.BigOperators.Group.Finset.Piecewise
import Mathlib.Algebra.Order.BigOperators.Group.Finset

set_option relaxedAutoImplicit false
set_option autoImplicit false

namespace ExActor

/-! ### The system -/

/-- The actors, and the pool that serves them. -/
structure ActorSystem where
  actors : OperationId → PublishingPool
  pool : Pool WorkersState WorkerThread

/-- What happens: a `PushMessage` arrives at an actor; a thread of an actor takes a step, one that
schedules from outside the pool or on a worker, or one that does not; a worker starts; a thread of
the pool takes a step that concerns the pool alone; a worker begins an operation, ends one, or ends
one and begins the one in its slot. -/
inductive SystemAction
  | pushMessage (x : OperationId) (mailboxIndex : ℕ)
  | run (x : OperationId) (n : ℕ) (env : Env)
  | schedule (x : OperationId) (n : ℕ) (env : Env) (worker : Option ℕ)
  | startWorker
  | pool (k : ℕ) (env : WorkerEnv)
  | begin (k index n : ℕ)
  | finish (k n : ℕ)
  | drain (k n n' : ℕ)

/-- The thread is at the `Schedule` of `TryActivate`. -/
def Thread.schedules : Thread → ℕ
  | .producer _ _ (.tryActivate .schedule) => 1
  | .destroyer _ (.tryActivate .schedule) => 1
  | .activation (.tryActivate .schedule) => 1
  | _ => 0

/-- The activation has begun. -/
def Thread.begun : Thread → ℕ
  | .activation .scheduled => 0
  | .activation _ => 1
  | _ => 0

/-- The activation is about to return. -/
def Thread.returns : Thread → ℕ
  | .activation .ret => 1
  | _ => 0

/-- The step of the thread concerns its actor alone. -/
def Thread.Alone (t : Thread) : Prop := t.waits = 0 ∧ t.schedules = 0 ∧ t.returns = 0

instance (t : Thread) : Decidable t.Alone := inferInstanceAs (Decidable (_ ∧ _))

/-- The step of the thread concerns the pool alone: it neither takes an element nor is in
`Execute`. -/
def WorkerThread.Alone (s : WorkersState) (index : ℕ) : WorkerThread → Prop
  | .worker .take => s.inner[index]? = none
  | .worker (.execute _ _) => False
  | _ => True

instance (s : WorkersState) (index : ℕ) (t : WorkerThread) : Decidable (t.Alone s index) :=
  match t with
  | .worker .take => inferInstanceAs (Decidable (_ = _))
  | .worker (.execute _ _) => isFalse id
  | .worker .check | .worker (.pop _) | .worker (.push _ _ _ _) | .external _ _ => isTrue trivial

/-- The thread is in `Execute`. -/
def WorkerThread.inExecute : WorkerThread → Bool
  | .worker (.execute _ _) => true
  | _ => false

/-- An element is taken out of the queue. -/
def WorkerEnv.take (index : ℕ) : WorkerEnv := { WorkerEnv.calm with index := index }

namespace ActorSystem

variable (A : OperationId → Actor) (config : WorkersConfig)

/-- A step of an actor. -/
def actorStep (s : ActorSystem) (x : OperationId) (a : ActorAction) : Option ActorSystem :=
  ((A x).publishing.next (s.actors x) a).map fun p =>
    { s with actors := Function.update s.actors x p }

/-- A step of the pool. -/
def poolStep (s : ActorSystem) (a : WorkersAction) : Option ActorSystem :=
  (config.machine.next s.pool a).map fun p => { s with pool := p }

/-- The thread of an actor at a position. -/
def threadAt (s : ActorSystem) (x : OperationId) (n : ℕ) : Option Thread :=
  ((s.actors x).threads[n]?).map PublishingThread.toThread

/-- `EnqueueOperation`, from outside the pool or on a worker. -/
def enqueueOperation (s : ActorSystem) (x : OperationId) : Option ℕ → Option ActorSystem
  | none => s.poolStep config (.arrive (.enqueueOperation x))
  | some k =>
      if (s.pool.threads[k]?).any WorkerThread.inExecute then
        s.poolStep config (.run k (WorkerEnv.enqueue x))
      else none

/-- One step. -/
def next (s : ActorSystem) : SystemAction → Option ActorSystem
  | .pushMessage x mailboxIndex => s.actorStep A x (.arrive (.pushMessage mailboxIndex))
  | .run x n env =>
      if env.connect = .ok () ∧ (s.threadAt x n).any (fun t => decide t.Alone) then
        s.actorStep A x (.run n env)
      else none
  | .schedule x n env worker =>
      if env.connect = .ok () ∧ (s.threadAt x n).any (fun t => decide (t.schedules = 1)) then
        (s.actorStep A x (.run n env)).bind fun s' => s'.enqueueOperation config x worker
      else none
  | .startWorker => s.poolStep config (.arrive .startWorker)
  | .pool k env =>
      if (s.pool.threads[k]?).any (fun t => decide (t.Alone s.pool.shared env.index)) then
        s.poolStep config (.run k env)
      else none
  | .begin k index n =>
      match s.pool.threads[k]?, s.pool.shared.inner[index]? with
      | some (.worker .take), some x =>
          if s.threadAt x n = some (.activation .scheduled) then
            (s.actorStep A x (.run n Env.calm)).bind fun s' =>
              s'.poolStep config (.run k (WorkerEnv.take index))
          else none
      | _, _ => none
  | .finish k n =>
      match s.pool.threads[k]? with
      | some (.worker (.execute x none)) =>
          if s.threadAt x n = some (.activation .ret) then
            (s.actorStep A x (.run n Env.calm)).bind fun s' =>
              s'.poolStep config (.run k WorkerEnv.calm)
          else none
      | _ => none
  | .drain k n n' =>
      match s.pool.threads[k]? with
      | some (.worker (.execute x (some y))) =>
          if s.threadAt x n = some (.activation .ret) then
            (s.actorStep A x (.run n Env.calm)).bind fun s' =>
              if s'.threadAt y n' = some (.activation .scheduled) then
                (s'.actorStep A y (.run n' Env.calm)).bind fun s'' =>
                  s''.poolStep config (.run k WorkerEnv.calm)
              else none
          else none
      | _ => none

/-- No messages, no workers. -/
def initial : ActorSystem := ⟨fun x => ⟨⟨(A x).initial, []⟩, []⟩, ⟨WorkersConfig.initial, []⟩⟩

/-- All interleavings of the actors and the pool. -/
def machine : Machine ActorSystem SystemAction where
  init s := s = initial A
  next := next A config

end ActorSystem

/-! ### Activations and operations -/

/-- What a step does to the activations that have not begun, and to those that have. -/
theorem Actor.LooseStep.activations {A : Actor} {env : Env} {s s' : ActorState} {t : Thread}
    {new : List Thread} (h : A.LooseStep env s t s' new) (hconnect : env.connect = .ok ())
    (hopen : s.asyncScope.state = .isOpen) :
    (new.map Thread.waits).sum = t.schedules ∧
      (new.map Thread.begun).sum + t.returns = t.begun + t.waits := by
  cases h with
  | publish => exact ⟨rfl, rfl⟩
  | passOver limit executed i pc hpc => rcases hpc with rfl | rfl <;> exact ⟨rfl, rfl⟩
  | step hstep =>
      cases hstep with
      | lose c | win c | schedule c => cases c <;> exact ⟨rfl, rfl⟩
      | dropped c hok hjoined => simp [hopen] at hjoined
      | pushThrew m i e he | destroyThrew k e he => simp [hconnect] at he
      | count m i pc hpc => rcases hpc with ⟨-, rfl⟩ | ⟨-, rfl⟩ <;> exact ⟨rfl, rfl⟩
      | popNone limit executed i pc hnone hpc => rcases hpc with rfl | rfl <;> exact ⟨rfl, rfl⟩
      | execute limit executed i m pc hpc =>
          rcases hpc with ⟨-, rfl⟩ | ⟨-, rfl⟩ <;> exact ⟨rfl, rfl⟩
      | _ => exact ⟨rfl, rfl⟩

/-- The state of an actor that nobody disturbs. -/
def Actor.Undisturbed (A : Actor) (p : PublishingPool) : Prop :=
  ∃ tr, A.publishing.Exec tr p ∧ Machine.Meets LeftAlone tr

theorem Actor.Undisturbed.step {A : Actor} {p p' : PublishingPool} {a : ActorAction}
    (h : A.Undisturbed p) (ha : LeftAlone p a) (hn : A.publishing.next p a = some p') :
    A.Undisturbed p' := by
  obtain ⟨tr, hex, hC⟩ := h
  exact ⟨_, hex.step hn, (Machine.meets_append ..).2 ⟨hC, (Machine.meets_singleton ..).2 ha⟩⟩

/-- A push brings no activation. -/
theorem Actor.Undisturbed.pushMessage {A : Actor} {p p' : PublishingPool} {i : ℕ}
    (h : A.Undisturbed p) (hn : A.publishing.next p (.arrive (.pushMessage i)) = some p') :
    A.Undisturbed p' ∧ (claimed p').total Thread.waits = (claimed p).total Thread.waits ∧
      (claimed p').total Thread.begun = (claimed p).total Thread.begun := by
  refine ⟨h.step (a := .arrive (.pushMessage i)) ⟨trivial, trivial⟩ hn, ?_⟩
  obtain ⟨s, t, hat, rfl⟩ := ThreadProgram.next_arrive_iff.1 hn
  obtain ⟨⟨s₁, t₁⟩, harr, hr⟩ := Option.map_eq_some_iff.1 hat
  obtain ⟨rfl, rfl⟩ := Prod.mk.inj hr
  cases arriveActor_spec harr with
  | pushMessage i hroom =>
      simp [claimed, Pool.total, PublishingThread.toThread, Thread.waits, Thread.begun]

/-- What a step of a thread does to the activations of its actor. -/
theorem Actor.Undisturbed.run {A : Actor} (hhook : A.hasShouldActivateHook = false)
    {p p' : PublishingPool} {n : ℕ} {env : Env} {t : Thread} (h : A.Undisturbed p)
    (hconnect : env.connect = .ok ())
    (ht : (p.threads[n]?).map PublishingThread.toThread = some t)
    (hn : A.publishing.next p (.run n env) = some p') :
    A.Undisturbed p' ∧
      (claimed p').total Thread.waits + t.waits
        = (claimed p).total Thread.waits + t.schedules ∧
      (claimed p').total Thread.begun + t.returns
        = (claimed p).total Thread.begun + t.waits := by
  refine ⟨h.step (a := .run n env) ⟨trivial, hconnect⟩ hn, ?_⟩
  obtain ⟨tr, hex, hC⟩ := h
  have hopen : p.shared.actor.asyncScope.state = .isOpen :=
    (sound_of_exec hhook hex hC).untouched.scope
  obtain ⟨l, u, r, s', new, hp, rfl, hrun, rfl⟩ := ThreadProgram.next_run_iff.1 hn
  obtain ⟨s, ts⟩ := p
  subst hp
  obtain rfl : u.toThread = t := by simpa using ht
  obtain ⟨hwaits, hbegun⟩ := (Actor.publishingRun_spec hrun).activations hconnect hopen
  simp only [claimed, List.map_append, List.map_cons]
  rw [Pool.total_after, Pool.total_before, Pool.total_after, Pool.total_before]
  omega

/-- The thread executes the operation. -/
def WorkerThread.executes (x : OperationId) : WorkerThread → ℕ
  | .worker (.execute op _) => if op = x then 1 else 0
  | .worker (.push op _ _ _) => if op = x then 1 else 0
  | _ => 0

/-- A step that concerns the pool alone. -/
theorem WorkersStep.alone {config : WorkersConfig} {env : WorkerEnv} {s s' : WorkersState}
    {t : WorkerThread} {new : List WorkerThread} (h : WorkersStep config env s t s' new)
    (ht : t.Alone s env.index) (x : OperationId) :
    s'.log = s.log ∧ (new.map (WorkerThread.executes x)).sum = t.executes x := by
  cases h with
  | insert | insertOwn | stop | again | missed => exact ⟨rfl, rfl⟩
  | signal op pc =>
      refine ⟨rfl, ?_⟩
      cases (LightweightSemaphore.signalStep 1 s.semaphore pc).2 <;> rfl
  | signalOwn op slot next pc =>
      refine ⟨rfl, ?_⟩
      cases (LightweightSemaphore.signalStep 1 s.semaphore pc).2 <;> rfl
  | wait pc sem out hwait =>
      refine ⟨rfl, ?_⟩
      rcases out with pc' | (_ | _) <;> rfl
  | take op hop => simp [WorkerThread.Alone, hop] at ht
  | fillSlot | beginPush | drainSlot | finish => exact absurd ht id

/-- What a step of the pool does to what it executes and to the history. -/
theorem WorkersConfig.next_run {config : WorkersConfig} {p p' : Pool WorkersState WorkerThread}
    {k : ℕ} {env : WorkerEnv} {t : WorkerThread} {s' : WorkersState} {new : List WorkerThread}
    (ht : p.threads[k]? = some t) (hrun : config.run p.shared t env = some (s', new))
    (hn : config.machine.next p (.run k env) = some p') (x : OperationId) :
    p'.shared.log = s'.log ∧
      p'.total (WorkerThread.executes x) + t.executes x
        = p.total (WorkerThread.executes x) + (new.map (WorkerThread.executes x)).sum := by
  obtain ⟨l, u, r, s₁, new₁, hp, rfl, hrun₁, rfl⟩ := ThreadProgram.next_run_iff.1 hn
  obtain ⟨s, ts⟩ := p
  subst hp
  obtain rfl : u = t := by simpa using ht
  obtain ⟨rfl, rfl⟩ := Prod.mk.inj (Option.some.inj (hrun₁.symm.trans hrun))
  refine ⟨rfl, ?_⟩
  rw [Pool.total_after, Pool.total_before]
  omega

theorem WorkersState.count_emit (s : WorkersState) (e e' : WorkersEvent) :
    (s.emit e).log.count e' = s.log.count e' + if e = e' then 1 else 0 := by
  simp [WorkersState.emit, List.count_singleton]

/-- What an arrival does to the history. -/
theorem WorkersConfig.arrive_counts {config : WorkersConfig} {p : Pool WorkersState WorkerThread}
    {a : WorkersArrival} {s : WorkersState} {t : WorkerThread}
    (h : config.program.arrive p a = some (s, t)) (x : OperationId) :
    s.log.count (.enqueued x)
        = p.shared.log.count (.enqueued x) + (if a = .enqueueOperation x then 1 else 0) ∧
      s.log.count (.executed x) = p.shared.log.count (.executed x) ∧ t.executes x = 0 := by
  cases a with
  | startWorker =>
      simp only [WorkersConfig.program, WorkersConfig.arrive] at h
      split at h
      · obtain ⟨rfl, rfl⟩ := Prod.mk.inj (Option.some.inj h)
        exact ⟨rfl, rfl, rfl⟩
      · exact absurd h (by simp)
  | enqueueOperation op =>
      obtain ⟨rfl, rfl⟩ := Prod.mk.inj (Option.some.inj h)
      simp [WorkersState.count_emit, WorkerThread.executes]

theorem WorkersConfig.run_of_next {config : WorkersConfig}
    {p p' : Pool WorkersState WorkerThread} {k : ℕ} {env : WorkerEnv} {t : WorkerThread}
    (ht : p.threads[k]? = some t) (h : config.machine.next p (.run k env) = some p') :
    ∃ s new, config.run p.shared t env = some (s, new) := by
  obtain ⟨l, u, r, s, new, hp, rfl, hrun, rfl⟩ :=
    (ThreadProgram.next_run_iff (P := config.program) (p := p)).1 h
  obtain rfl : u = t := by simpa [hp] using ht
  exact ⟨s, new, hrun⟩

/-- **Activations are operations**, but for `w x` of those that have not begun and `b x` of those
that have: the others are in the pool or being executed.  The actors and the pool run as they do by
themselves. -/
structure HostedBut (A : OperationId → Actor) (config : WorkersConfig) (w b : OperationId → ℤ)
    (s : ActorSystem) : Prop where
  actors : ∀ x, (A x).Undisturbed (s.actors x)
  pool : ∃ tr, config.machine.Exec tr s.pool
  waiting : ∀ x, (((claimed (s.actors x)).total Thread.waits : ℕ) : ℤ)
    + ((s.pool.shared.log.count (.executed x) : ℕ) : ℤ)
      = ((s.pool.shared.log.count (.enqueued x) : ℕ) : ℤ) + w x
  begun : ∀ x, (((claimed (s.actors x)).total Thread.begun : ℕ) : ℤ)
    = ((s.pool.total (WorkerThread.executes x) : ℕ) : ℤ) + b x

/-- Activations are operations. -/
abbrev Hosted (A : OperationId → Actor) (config : WorkersConfig) (s : ActorSystem) : Prop :=
  HostedBut A config 0 0 s

namespace HostedBut

variable {A : OperationId → Actor} {config : WorkersConfig} {s s' : ActorSystem}
  {w b w' b' : OperationId → ℤ}

/-- A step of a thread of an actor. -/
theorem actorStep (hhook : ∀ x, (A x).hasShouldActivateHook = false)
    (hI : HostedBut A config w b s) {x : OperationId} {n : ℕ} {env : Env} {t : Thread}
    (hconnect : env.connect = .ok ()) (ht : s.threadAt x n = some t)
    (h : s.actorStep A x (.run n env) = some s')
    (hw : ∀ y, w' y = w y + if y = x then (t.schedules : ℤ) - t.waits else 0)
    (hb : ∀ y, b' y = b y + if y = x then (t.waits : ℤ) - t.returns else 0) :
    HostedBut A config w' b' s' ∧ s'.pool = s.pool := by
  obtain ⟨p, hp, rfl⟩ := Option.map_eq_some_iff.1 h
  obtain ⟨hundisturbed, hwaits, hbegun⟩ := (hI.actors x).run (hhook x) hconnect ht hp
  refine ⟨⟨fun y => ?_, hI.pool, fun y => ?_, fun y => ?_⟩, rfl⟩
  · by_cases hy : y = x
    · subst hy
      simpa using hundisturbed
    · simpa [hy] using hI.actors y
  · have hy := hI.waiting y
    rw [hw]
    by_cases hyx : y = x
    · subst hyx
      simp only [Function.update_self, if_true]
      omega
    · simp only [Function.update_of_ne hyx, if_neg hyx]
      omega
  · have hy := hI.begun y
    rw [hb]
    by_cases hyx : y = x
    · subst hyx
      simp only [Function.update_self, if_true]
      omega
    · simp only [Function.update_of_ne hyx, if_neg hyx]
      omega

/-- A step of a thread of the pool. -/
theorem poolStep (hI : HostedBut A config w b s) {k : ℕ} {env : WorkerEnv} {t : WorkerThread}
    (r : WorkersState) (new : List WorkerThread) (ht : s.pool.threads[k]? = some t)
    (hrun : config.run s.pool.shared t env = some (r, new))
    (h : s.poolStep config (.run k env) = some s')
    (hw : ∀ x, ((r.log.count (.enqueued x) : ℕ) : ℤ)
        + ((s.pool.shared.log.count (.executed x) : ℕ) : ℤ) + w' x
      = ((s.pool.shared.log.count (.enqueued x) : ℕ) : ℤ)
        + ((r.log.count (.executed x) : ℕ) : ℤ) + w x)
    (hb : ∀ x, (((new.map (WorkerThread.executes x)).sum : ℕ) : ℤ) + b' x
      = ((t.executes x : ℕ) : ℤ) + b x) : HostedBut A config w' b' s' := by
  obtain ⟨p, hp, rfl⟩ := Option.map_eq_some_iff.1 h
  obtain ⟨tr, hex⟩ := hI.pool
  refine ⟨hI.actors, ⟨_, hex.step hp⟩, fun x => ?_, fun x => ?_⟩
  · obtain ⟨hlog, -⟩ := WorkersConfig.next_run ht hrun hp x
    have hx := hI.waiting x
    have := hw x
    simp only [hlog]
    omega
  · obtain ⟨-, hexec⟩ := WorkersConfig.next_run ht hrun hp x
    have hx := hI.begun x
    have := hb x
    simp only
    omega

/-- An activation begins. -/
theorem beginActivation (hhook : ∀ x, (A x).hasShouldActivateHook = false)
    (hI : HostedBut A config w b s) {x : OperationId} {n : ℕ}
    (ht : s.threadAt x n = some (.activation .scheduled))
    (h : s.actorStep A x (.run n Env.calm) = some s') :
    HostedBut A config (fun y => w y - if y = x then 1 else 0)
      (fun y => b y + if y = x then 1 else 0) s' ∧ s'.pool = s.pool := by
  refine hI.actorStep hhook rfl ht h (fun y => ?_) fun y => ?_ <;>
    split <;> simp [Thread.schedules, Thread.waits, Thread.returns]
  rfl

/-- An activation returns. -/
theorem endActivation (hhook : ∀ x, (A x).hasShouldActivateHook = false)
    (hI : HostedBut A config w b s) {x : OperationId} {n : ℕ}
    (ht : s.threadAt x n = some (.activation .ret))
    (h : s.actorStep A x (.run n Env.calm) = some s') :
    HostedBut A config w (fun y => b y - if y = x then 1 else 0) s' ∧ s'.pool = s.pool := by
  refine hI.actorStep hhook rfl ht h (fun y => ?_) fun y => ?_ <;>
    split <;> simp [Thread.schedules, Thread.waits, Thread.returns]
  rfl

/-- A worker is started, or `EnqueueOperation` is called from outside the pool. -/
theorem poolArrive (hI : HostedBut A config w b s) {a : WorkersArrival}
    (h : s.poolStep config (.arrive a) = some s')
    (hw : ∀ x, w' x = w x - if a = .enqueueOperation x then 1 else 0) :
    HostedBut A config w' b s' := by
  obtain ⟨p, hp, rfl⟩ := Option.map_eq_some_iff.1 h
  obtain ⟨tr, hex⟩ := hI.pool
  have hex' := hex.step hp
  obtain ⟨r, t, hat, rfl⟩ :=
    (ThreadProgram.next_arrive_iff (P := config.program) (p := s.pool)).1 hp
  refine ⟨hI.actors, ⟨_, hex'⟩, fun x => ?_, fun x => ?_⟩ <;>
    obtain ⟨henqueued, hexecuted, hexecutes⟩ := WorkersConfig.arrive_counts hat x
  · have hx := hI.waiting x
    simp only [hw, henqueued, hexecuted]
    split <;> omega
  · rw [Pool.total_arrive _ s.pool, hexecutes]
    exact hI.begun x

/-- A call of `EnqueueOperation`. -/
theorem enqueueOperation (hI : HostedBut A config w b s) {x : OperationId} {worker : Option ℕ}
    (h : s.enqueueOperation config x worker = some s')
    (hw : ∀ y, w' y = w y - if y = x then 1 else 0) : HostedBut A config w' b s' := by
  cases worker with
  | none =>
      simp only [ActorSystem.enqueueOperation] at h
      exact hI.poolArrive h fun y => by simp [hw, eq_comm (a := x)]
  | some k =>
      simp only [ActorSystem.enqueueOperation] at h
      split at h
      · next hin =>
          obtain ⟨t, ht, hexecute⟩ := (Option.any_eq_true ..).1 hin
          have hcount : ∀ y, (((s.pool.shared.emit (.enqueued x)).log.count (.enqueued y) : ℕ) : ℤ)
              + ((s.pool.shared.log.count (.executed y) : ℕ) : ℤ) + w' y
              = ((s.pool.shared.log.count (.enqueued y) : ℕ) : ℤ)
                + (((s.pool.shared.emit (.enqueued x)).log.count (.executed y) : ℕ) : ℤ) + w y := by
            intro y
            simp only [WorkersState.count_emit, hw, WorkersEvent.enqueued.injEq, eq_comm (a := x),
              reduceCtorEq, if_false]
            split <;> omega
          rcases t with _ | (_ | _ | _ | ⟨op, slot⟩ | _) <;>
            simp only [WorkerThread.inExecute, Bool.false_eq_true] at hexecute
          cases slot with
          | none =>
              exact hI.poolStep _ [.worker (.execute op (some x))] ht rfl h hcount
                fun y => by simp [WorkerThread.executes]
          | some queued =>
              exact hI.poolStep _ [.worker (.push op queued x .insert)] ht rfl h hcount
                fun y => by simp [WorkerThread.executes]
      · exact absurd h (by simp)

end HostedBut

theorem Thread.schedules_cases {t : Thread} (h : t.schedules = 1) :
    t.waits = 0 ∧ t.returns = 0 := by
  unfold schedules at h
  split at h <;> simp_all [waits, returns]

/-- **Every step keeps activations operations.** -/
theorem Hosted.step {A : OperationId → Actor} {config : WorkersConfig} {s s' : ActorSystem}
    {a : SystemAction} (hhook : ∀ x, (A x).hasShouldActivateHook = false)
    (hI : Hosted A config s) (h : ActorSystem.next A config s a = some s') :
    Hosted A config s' := by
  cases a with
  | pushMessage x mailboxIndex =>
      obtain ⟨p, hp, rfl⟩ := Option.map_eq_some_iff.1 h
      obtain ⟨hundisturbed, hwaits, hbegun⟩ := (hI.actors x).pushMessage hp
      refine ⟨fun y => ?_, hI.pool, fun y => ?_, fun y => ?_⟩ <;>
        rcases eq_or_ne y x with rfl | hy
      · simpa using hundisturbed
      · simpa [hy] using hI.actors y
      · simpa [hwaits] using hI.waiting y
      · simpa [hy] using hI.waiting y
      · simpa [hbegun] using hI.begun y
      · simpa [hy] using hI.begun y
  | run x n env =>
      simp only [ActorSystem.next] at h
      split at h
      · next hcond =>
          obtain ⟨t, ht, halone⟩ := (Option.any_eq_true ..).1 hcond.2
          obtain ⟨hwaits, hschedules, hreturns⟩ := of_decide_eq_true halone
          exact (hI.actorStep hhook hcond.1 ht h (fun y => by simp [hwaits, hschedules])
            fun y => by simp [hwaits, hreturns]).1
      · exact absurd h (by simp)
  | schedule x n env worker =>
      simp only [ActorSystem.next] at h
      split at h
      · next hcond =>
          obtain ⟨t, ht, hat⟩ := (Option.any_eq_true ..).1 hcond.2
          have hschedules := of_decide_eq_true hat
          obtain ⟨hwaits, hreturns⟩ := Thread.schedules_cases hschedules
          obtain ⟨s₁, hactor, hpool⟩ := Option.bind_eq_some_iff.1 h
          have hI₁ : HostedBut A config (fun y => if y = x then 1 else 0) 0 s₁ :=
            (hI.actorStep hhook hcond.1 ht hactor (fun y => by simp [hwaits, hschedules])
              fun y => by simp [hwaits, hreturns]).1
          exact hI₁.enqueueOperation hpool fun y => by simp
      · exact absurd h (by simp)
  | startWorker => exact hI.poolArrive h fun x => by simp
  | pool k env =>
      simp only [ActorSystem.next] at h
      split at h
      · next hcond =>
          obtain ⟨t, ht, halone⟩ := (Option.any_eq_true ..).1 hcond
          obtain ⟨p, hp, -⟩ := Option.map_eq_some_iff.1 h
          obtain ⟨r, new, hrun⟩ := WorkersConfig.run_of_next ht hp
          have hstep := fun x =>
            (WorkersConfig.step_of_run hrun).alone (of_decide_eq_true halone) x
          refine hI.poolStep r new ht hrun h (fun x => ?_) fun x => ?_
          · rw [(hstep x).1]
          · rw [(hstep x).2]
      · exact absurd h (by simp)
  | begin k index n =>
      simp only [ActorSystem.next] at h
      split at h
      · next x hk hx =>
          split at h
          · next ht =>
              obtain ⟨s₁, hactor, hpool⟩ := Option.bind_eq_some_iff.1 h
              obtain ⟨hI₁, hsame⟩ := hI.beginActivation hhook ht hactor
              rw [← hsame] at hk hx
              refine hI₁.poolStep
                ({ s₁.pool.shared with inner := s₁.pool.shared.inner.eraseIdx index }.emit
                  (.executed x)) [.worker (.execute x none)] hk ?_ hpool (fun y => ?_) fun y => ?_
              · simp [WorkersConfig.run, WorkerEnv.take, hx]
              · simp [WorkersState.count_emit, eq_comm (a := x)]
                split <;> omega
              · simp [WorkerThread.executes, eq_comm (a := x)]
          · exact absurd h (by simp)
      · exact absurd h (by simp)
  | finish k n =>
      simp only [ActorSystem.next] at h
      split at h
      · next x hk =>
          split at h
          · next ht =>
              obtain ⟨s₁, hactor, hpool⟩ := Option.bind_eq_some_iff.1 h
              obtain ⟨hI₁, hsame⟩ := hI.endActivation hhook ht hactor
              rw [← hsame] at hk
              refine hI₁.poolStep s₁.pool.shared [.worker .check] hk rfl hpool
                (fun y => by simp) fun y => ?_
              simp [WorkerThread.executes, eq_comm (a := x)]
          · exact absurd h (by simp)
      · exact absurd h (by simp)
  | drain k n n' =>
      simp only [ActorSystem.next] at h
      split at h
      · next x z hk =>
          split at h
          · next ht =>
              obtain ⟨s₁, hret, h⟩ := Option.bind_eq_some_iff.1 h
              obtain ⟨hI₁, hsame₁⟩ := hI.endActivation hhook ht hret
              split at h
              · next ht' =>
                  obtain ⟨s₂, hbegin, hpool⟩ := Option.bind_eq_some_iff.1 h
                  obtain ⟨hI₂, hsame₂⟩ := hI₁.beginActivation hhook ht' hbegin
                  rw [← hsame₁, ← hsame₂] at hk
                  refine hI₂.poolStep (s₂.pool.shared.emit (.executed z))
                    [.worker (.execute z none)] hk rfl hpool (fun y => ?_) fun y => ?_
                  · simp [WorkersState.count_emit, eq_comm (a := z)]
                    split <;> omega
                  · simp [WorkerThread.executes, eq_comm (a := z), eq_comm (a := x)]
              · exact absurd h (by simp)
          · exact absurd h (by simp)
      · exact absurd h (by simp)

theorem hosted_initial (A : OperationId → Actor) (config : WorkersConfig) :
    Hosted A config (ActorSystem.initial A) where
  actors x := ⟨[], .init (Actor.publishing_init (A x)), Machine.meets_nil _⟩
  pool := ⟨[], .init config.machine_init⟩
  waiting _ := rfl
  begun _ := rfl

/-- **Activations are operations**, in every reachable state. -/
theorem ActorSystem.hosted_of_exec {A : OperationId → Actor} {config : WorkersConfig}
    (hhook : ∀ x, (A x).hasShouldActivateHook = false) {tr : List (ActorSystem × SystemAction)}
    {s : ActorSystem} (h : (machine A config).Exec tr s) : Hosted A config s := by
  refine h.invariantWhere (C := fun _ _ => True) ?_ ?_ (Machine.meets_true tr)
  · rintro s rfl
    exact hosted_initial A config
  · intro tr s a s' _ _ hI _ hn
    exact hI.step hhook hn

/-! ### Actors run on the workers -/

theorem touches_le_begun (t : Thread) : t.touches ≤ t.begun := by
  rcases t with ⟨m, i, pc⟩ | ⟨k, pc⟩ | pc
  · exact Nat.le_refl _
  · exact Nat.le_refl _
  · cases pc <;> simp [Thread.touches, Thread.begun]

/-- A worker executes one operation at a time. -/
theorem sum_executes_le (S : Finset OperationId) (t : WorkerThread) :
    ∑ x ∈ S, t.executes x ≤ t.executing := by
  have hone : ∀ op : OperationId, ∑ x ∈ S, (if op = x then 1 else 0) ≤ 1 := by
    intro op
    rw [Finset.sum_ite_eq]
    split <;> omega
  rcases t with _ | (_ | _ | _ | ⟨op, slot⟩ | ⟨op, slot, next, pc⟩)
  · simp [WorkerThread.executes]
  · simp [WorkerThread.executes]
  · simp [WorkerThread.executes]
  · simp [WorkerThread.executes]
  · exact hone op
  · exact hone op

theorem sum_total_executes_le (S : Finset OperationId) (p : Pool WorkersState WorkerThread) :
    ∑ x ∈ S, p.total (WorkerThread.executes x) ≤ p.total WorkerThread.executing := by
  obtain ⟨s, ts⟩ := p
  induction ts with
  | nil => simp [Pool.total]
  | cons t ts ih =>
      have ht := sum_executes_le S t
      simp only [Pool.total, List.map_cons, List.sum_cons, Finset.sum_add_distrib] at ih ⊢
      omega

/-- **Actors run on the workers.**  In every reachable state an actor is run by one thread at most,
and no more actors are run at a time than the pool has threads. -/
theorem ActorSystem.runs_on_workers {A : OperationId → Actor} {config : WorkersConfig}
    (hhook : ∀ x, (A x).hasShouldActivateHook = false) {tr : List (ActorSystem × SystemAction)}
    {s : ActorSystem} (h : (machine A config).Exec tr s) :
    (∀ x, (claimed (s.actors x)).total Thread.touches ≤ 1) ∧
      ∀ S : Finset OperationId,
        ∑ x ∈ S, (claimed (s.actors x)).total Thread.touches ≤ config.threadCount := by
  have hI := hosted_of_exec hhook h
  refine ⟨fun x => ?_, fun S => ?_⟩
  · obtain ⟨tr', hex, -⟩ := hI.actors x
    exact (serial_of_exec hex).touches_le_one
  · obtain ⟨tr', hex⟩ := hI.pool
    calc ∑ x ∈ S, (claimed (s.actors x)).total Thread.touches
        ≤ ∑ x ∈ S, s.pool.total (WorkerThread.executes x) := by
          refine Finset.sum_le_sum fun x _ => ?_
          have hle := Pool.total_le_total (p := claimed (s.actors x)) fun t _ => touches_le_begun t
          have hx := hI.begun x
          simp only [Pi.zero_apply] at hx
          omega
      _ ≤ s.pool.total WorkerThread.executing := sum_total_executes_le S s.pool
      _ ≤ config.threadCount := executing_le_threadCount hex

namespace ActorSystem

/-- Actors with the default configuration. -/
def plainActors : OperationId → Actor := fun _ => Actor.plain

/-- A thread of an actor takes several steps. -/
def runSteps (x : OperationId) (count : ℕ) : List SystemAction :=
  List.replicate count (.run x 0 Env.calm)

/-- A thread of the pool takes several steps. -/
def poolSteps (k count : ℕ) : List SystemAction := List.replicate count (.pool k WorkerEnv.calm)

/-- A message is pushed into an actor, whose activation is scheduled. -/
def pushTo (x : OperationId) (worker : Option ℕ) : List SystemAction :=
  .pushMessage x 0 :: runSteps x 4 ++ [.schedule x 0 Env.calm worker]

/-- A worker goes to sleep, is woken by a message to the actor 7, and begins to execute it. -/
def wokenByMessage : List SystemAction :=
  .startWorker :: poolSteps 0 4 ++ pushTo 7 none ++ poolSteps 1 3 ++ poolSteps 0 1 ++ [.begin 0 0 0]

theorem machine_init (A : OperationId → Actor) (config : WorkersConfig) :
    (machine A config).init (initial A) := rfl

end ActorSystem

/-- A worker executes a message of the actor 7, which has pushed one into the actor 8. -/
theorem ActorSystem.runs_on_workers_executing :
    ∃ tr s, (machine plainActors WorkersConfig.two).Exec tr s ∧
      (claimed (s.actors 7)).total Thread.touches = 1 ∧
      (claimed (s.actors 8)).total Thread.waits = 1 ∧
      (∀ x, (claimed (s.actors x)).total Thread.touches ≤ 1) ∧
      ∀ S : Finset OperationId,
        ∑ x ∈ S, (claimed (s.actors x)).total Thread.touches ≤ 2 := by
  let L : List SystemAction := wokenByMessage ++ runSteps 7 4 ++ pushTo 8 (some 0)
  obtain ⟨s, hex, hs⟩ := Machine.exists_exec_of_replay
    (machine_init plainActors WorkersConfig.two) L
    (fun s => ((claimed (s.actors 7)).total Thread.touches,
      (claimed (s.actors 8)).total Thread.waits)) (1, 1) (by decide)
  simp only [Prod.mk.injEq] at hs
  exact ⟨_, s, hex, hs.1, hs.2, ActorSystem.runs_on_workers (fun _ => rfl) hex⟩

/-! ### Nothing is left -/

/-- **When all workers sleep every message has been executed.**  No actor has the hook, none is
destroyed, and `Schedule` does not throw.  When there are workers and no `EnqueueOperation` of any
actor is in progress, and all workers sleep, none with a permit, then of an actor into which no push
is in progress no thread is left, each mailbox has been executed in the order of the claims, and
each submitted message has been completed exactly once. -/
theorem ActorSystem.all_executed {A : OperationId → Actor} {config : WorkersConfig}
    (hhook : ∀ x, (A x).hasShouldActivateHook = false) {tr : List (ActorSystem × SystemAction)}
    {s : ActorSystem} (h : (machine A config).Exec tr s) (hworkers : s.pool.threads ≠ [])
    (hasleep : ∀ t ∈ s.pool.threads, t = .worker (.pop .block))
    (hpermits : s.pool.shared.semaphore.permits = 0) {x : OperationId}
    (hpushed : ∀ t ∈ (claimed (s.actors x)).threads, ∃ pc, t = .activation pc) :
    (s.actors x).threads = [] ∧
      (∀ i, executedFrom i (s.actors x).shared.actor.log
        = pushedInto i (s.actors x).shared.actor.log) ∧
      ∀ m < (s.actors x).shared.actor.submitted,
        completions m (s.actors x).shared.actor.log = 1 := by
  have hI := hosted_of_exec hhook h
  obtain ⟨tr', hex, hC⟩ := hI.actors x
  obtain ⟨tr'', hpool⟩ := hI.pool
  have hidle := (executed_of_asleep (backed_of_exec hpool) (unlost_of_exec hpool) hworkers hasleep
    hpermits).2 x
  have hexecutes : s.pool.total (WorkerThread.executes x) = 0 :=
    Pool.total_eq_zero_iff.2 fun t ht => by rw [hasleep t ht]; rfl
  have hwaiting := hI.waiting x
  have hbegun := hI.begun x
  simp only [Pi.zero_apply] at hwaiting hbegun
  -- every activation is in the pool or being executed, and nothing is
  have hnil : (claimed (s.actors x)).threads = [] := by
    refine List.eq_nil_iff_forall_not_mem.2 fun t ht => ?_
    have hwaits := Pool.total_eq_zero_iff.1 (show (claimed (s.actors x)).total Thread.waits = 0 by
      omega) t ht
    have hbegun := Pool.total_eq_zero_iff.1 (show (claimed (s.actors x)).total Thread.begun = 0 by
      omega) t ht
    obtain ⟨pc, rfl⟩ := hpushed t ht
    cases pc <;> simp [Thread.waits, Thread.begun] at hwaits hbegun
  have hsound := sound_of_exec (hhook x) hex hC
  have hempty := MailboxSet.queued_eq_zero_iff.1 (hsound.queued_eq_zero hnil).2
  exact ⟨by simpa [claimed] using hnil, (serial_of_exec hex).executed_eq_pushed hnil hempty,
    fun m hm => hsound.completed_once hnil hm⟩

/-- While a worker executes a message of the actor 7 one is pushed into the actor 8, whose operation
the worker takes from its slot; then it sleeps again. -/
theorem ActorSystem.all_executed_from_slot :
    ∃ tr s, (machine plainActors WorkersConfig.two).Exec tr s ∧
      executedFrom 0 (s.actors 8).shared.actor.log = [0] ∧ (s.actors 8).threads = [] ∧
      (∀ i, executedFrom i (s.actors 8).shared.actor.log
        = pushedInto i (s.actors 8).shared.actor.log) ∧
      ∀ m < (s.actors 8).shared.actor.submitted,
        completions m (s.actors 8).shared.actor.log = 1 := by
  let L : List SystemAction := wokenByMessage ++ pushTo 8 (some 0) ++ runSteps 7 8
    ++ .drain 0 0 0 :: runSteps 8 8 ++ .finish 0 0 :: poolSteps 0 4
  obtain ⟨s, hex, hs⟩ := Machine.exists_exec_of_replay
    (machine_init plainActors WorkersConfig.two) L
    (fun s => (executedFrom 0 (s.actors 8).shared.actor.log, s.pool.threads,
      s.pool.shared.semaphore.permits, (claimed (s.actors 8)).threads))
    ([0], [.worker (.pop .block)], 0, []) (by decide)
  simp only [Prod.mk.injEq] at hs
  obtain ⟨hexecuted, hthreads, hpermits, hnil⟩ := hs
  exact ⟨_, s, hex, hexecuted, ActorSystem.all_executed (fun _ => rfl) hex (by simp [hthreads])
    (by simp [hthreads]) hpermits (by simp [hnil])⟩

end ExActor
