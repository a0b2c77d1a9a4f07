/-
**The periodical task scheduler.**

A thread runs `Loop`; any number of threads call `Register` and `Stop`.  The tasks are in a priority
queue under a mutex, and the thread of `Loop` waits on a condition variable: without a deadline
while there is no task, and until the first task is due otherwise.

A wait tests its predicate under the mutex, then releases the mutex and blocks in one step.  A
notification reaches the thread only if it is blocked at that moment, and a blocked thread may also
wake up by itself or because its deadline has passed.  A thread that was woken takes the mutex again
and goes on as the wait does: `wait_until` tests its predicate once more, and returns if the
predicate is true or the deadline has passed.

`Register` reads the clock and pushes its task under the mutex, so this is one step; the
notification is another, after the mutex was released.  `Stop` takes no mutex.  The flag `stopped_`,
which only the destructor reads, is left out: a destructor that stops the scheduler is one more call
of `Stop`.

The priority queue is a list; which of several earliest tasks is at its top is left open.  A
deadline is kept in milliseconds; its conversion to the ticks of the clock is not modelled.

Main definitions:

* `Task`, `LoopAt`, `PeriodicalTaskScheduler` — the tasks, where the thread of `Loop` is, the state;
* `PeriodicalTaskScheduler.loopStep` — the steps of `Loop`;
* `PeriodicalTaskScheduler.machine` — all interleavings.

Main results:

* `PeriodicalTaskScheduler.step_of_next` — what each step does;
* `dispatch_finite_iff` — **when the inner loop ends**, having run what was due; and
  `zero_interval_spins`, a set of tasks for which it does not.
-/

import ExActor.Broker
import ExActor.Machine
import ExActor.Rearming

set_option relaxedAutoImplicit false
set_option autoImplicit false

namespace ExActor

/-! ### Tasks -/

/-- `PeriodicalTaskScheduler::Task`.  A function is known by its number. -/
structure Task where
  fn : ℕ
  intervalMs : TimeMs
  nextRunMs : TimeMs
deriving DecidableEq

/-- The task is put back by a dispatch at `now`. -/
def Task.rearm (now : TimeMs) (task : Task) : Task :=
  { task with nextRunMs := now + task.intervalMs }

/-- The task at the position may be at the top of the priority queue. -/
def topAt (tasks : List Task) (i : ℕ) : Option Task :=
  (tasks[i]?).bind fun task =>
    if ∀ other ∈ tasks, task.nextRunMs ≤ other.nextRunMs then some task else none

/-! ### The state -/

/-- Where the thread of `Loop` is. -/
inductive LoopAt
  /-- The condition of the outer loop. -/
  | head
  | lock
  /-- The predicate of `cv_.wait`. -/
  | waitTest
  /-- The predicate of `cv_.wait` was false. -/
  | waitBlock
  /-- Blocked in `cv_.wait`. -/
  | blocked
  | notified
  /-- The predicate of `cv_.wait_until`, after it has timed out or before. -/
  | untilTest (deadline : TimeMs) (timedOut : Bool)
  | untilBlock (deadline : TimeMs)
  /-- Blocked in `cv_.wait_until`. -/
  | sleeping (deadline : TimeMs)
  | woken (deadline : TimeMs)
  /-- The test after `cv_.wait_until`. -/
  | afterWait
  /-- The inner loop, with the tasks that it has run. -/
  | dispatching (now : TimeMs) (ran : List Task)
  | exited
deriving DecidableEq

/-- The thread of `Loop` holds `tasks_mutex_`. -/
def LoopAt.holdsMutex : LoopAt → Bool
  | .waitTest | .waitBlock | .untilTest .. | .untilBlock _ | .afterWait | .dispatching .. => true
  | _ => false

/-- `cv_.notify_one()`. -/
def LoopAt.notify : LoopAt → LoopAt
  | .blocked => .notified
  | .sleeping deadline => .woken deadline
  | loop => loop

/-- The scheduler: its tasks, the clock, the stop token, its thread, and how many calls are
where. -/
structure PeriodicalTaskScheduler where
  tasks : List Task
  clock : TimeMs
  stopRequested : Bool
  loop : LoopAt
  /-- Calls of `Register` that have pushed and have not notified. -/
  registering : ℕ
  /-- Calls of `Stop` that have requested the stop and have not notified. -/
  stopping : ℕ
  /-- Calls of `Stop` that are in `thread_.join()`. -/
  joining : ℕ
deriving DecidableEq

inductive SchedulerAction
  /-- The clock reads `now` from here on. -/
  | clock (now : TimeMs)
  /-- `Register`, up to the release of the mutex. -/
  | register (fn : ℕ) (intervalMs : TimeMs)
  | notifyRegister
  /-- `Stop`, up to `thread_.request_stop()`. -/
  | requestStop
  | notifyStop
  | join
  /-- The blocked thread wakes up without a notification. -/
  | wake
  /-- The next step of `Loop`, if need be with the task at a position as the top. -/
  | loop (i : ℕ)
deriving DecidableEq

namespace PeriodicalTaskScheduler

/-! ### The steps -/

/-- One round of the inner loop, with the task at the position as the top: the task is taken out of
the queue, run, and put back. -/
def dispatch (now : TimeMs) (d : Rearming.Loop Task) (i : ℕ) : Option (Rearming.Loop Task) :=
  (topAt d.bag i).bind fun task =>
    if task.nextRunMs ≤ now then
      some ⟨d.bag.eraseIdx i ++ [task.rearm now], d.taken ++ [task]⟩
    else none

/-- One step of `Loop`. -/
def loopStep (s : PeriodicalTaskScheduler) (i : ℕ) : Option PeriodicalTaskScheduler :=
  match s.loop with
  | .head => some { s with loop := if s.stopRequested then .exited else .lock }
  | .lock =>
      if s.tasks = [] then some { s with loop := .waitTest }
      else (topAt s.tasks i).map fun top => { s with loop := .untilTest top.nextRunMs false }
  | .waitTest =>
      some { s with loop := if s.tasks ≠ [] || s.stopRequested then .head else .waitBlock }
  | .waitBlock => some { s with loop := .blocked }
  | .notified => some { s with loop := .waitTest }
  | .untilTest deadline timedOut =>
      some { s with loop :=
        if s.stopRequested || timedOut then .afterWait else .untilBlock deadline }
  | .untilBlock deadline => some { s with loop := .sleeping deadline }
  | .woken deadline =>
      some { s with loop := .untilTest deadline (decide (deadline ≤ s.clock)) }
  | .afterWait =>
      some { s with loop := if s.stopRequested then .exited else .dispatching s.clock [] }
  | .dispatching now ran =>
      match dispatch now ⟨s.tasks, ran⟩ i with
      | some d => some { s with tasks := d.bag, loop := .dispatching now d.taken }
      | none =>
          -- the queue is empty, or its top is not due
          if s.tasks = [] || (topAt s.tasks i).isSome then some { s with loop := .head } else none
  | .blocked | .sleeping _ | .exited => none

/-- One step. -/
def next (s : PeriodicalTaskScheduler) : SchedulerAction → Option PeriodicalTaskScheduler
  | .clock now => some { s with clock := now }
  | .register fn intervalMs =>
      if s.loop.holdsMutex then none
      else some { s with
        tasks := s.tasks ++ [⟨fn, intervalMs, s.clock + intervalMs⟩]
        registering := s.registering + 1 }
  | .notifyRegister =>
      if s.registering = 0 then none
      else some { s with registering := s.registering - 1, loop := s.loop.notify }
  | .requestStop => some { s with stopRequested := true, stopping := s.stopping + 1 }
  | .notifyStop =>
      if s.stopping = 0 then none
      else some { s with
        stopping := s.stopping - 1
        joining := s.joining + 1
        loop := s.loop.notify }
  | .join =>
      if s.joining ≠ 0 ∧ s.loop = .exited then some { s with joining := s.joining - 1 } else none
  | .wake => if s.loop.notify = s.loop then none else some { s with loop := s.loop.notify }
  | .loop i => s.loopStep i

/-- The state after the constructor. -/
def construct (clock : TimeMs) : PeriodicalTaskScheduler where
  tasks := []
  clock := clock
  stopRequested := false
  loop := .head
  registering := 0
  stopping := 0
  joining := 0

/-- All interleavings. -/
def machine : Machine PeriodicalTaskScheduler SchedulerAction where
  init s := ∃ clock, s = construct clock
  next := next

/-! ### What the steps do -/

/-- **What a step of `Loop` does**, by where the thread is. -/
inductive LoopStep (s : PeriodicalTaskScheduler) : PeriodicalTaskScheduler → Prop
  | goesOn : s.loop = .head → s.stopRequested = false → LoopStep s { s with loop := .lock }
  | exits : s.loop = .head ∨ s.loop = .afterWait → s.stopRequested = true →
      LoopStep s { s with loop := .exited }
  | findsNoTask : s.loop = .lock → s.tasks = [] → LoopStep s { s with loop := .waitTest }
  | readsDeadline (i : ℕ) (top : Task) : s.loop = .lock → topAt s.tasks i = some top →
      LoopStep s { s with loop := .untilTest top.nextRunMs false }
  | waitReturns : s.loop = .waitTest → s.tasks ≠ [] ∨ s.stopRequested = true →
      LoopStep s { s with loop := .head }
  | waitGoesOn : s.loop = .waitTest → s.tasks = [] → s.stopRequested = false →
      LoopStep s { s with loop := .waitBlock }
  | blocks : s.loop = .waitBlock → LoopStep s { s with loop := .blocked }
  | wakesUp : s.loop = .notified → LoopStep s { s with loop := .waitTest }
  | untilReturns (deadline : TimeMs) (timedOut : Bool) : s.loop = .untilTest deadline timedOut →
      s.stopRequested = true ∨ timedOut = true → LoopStep s { s with loop := .afterWait }
  | untilGoesOn (deadline : TimeMs) : s.loop = .untilTest deadline false →
      s.stopRequested = false → LoopStep s { s with loop := .untilBlock deadline }
  | fallsAsleep (deadline : TimeMs) : s.loop = .untilBlock deadline →
      LoopStep s { s with loop := .sleeping deadline }
  | wakesUpUntil (deadline : TimeMs) : s.loop = .woken deadline →
      LoopStep s { s with loop := .untilTest deadline (decide (deadline ≤ s.clock)) }
  | startsDispatch : s.loop = .afterWait → s.stopRequested = false →
      LoopStep s { s with loop := .dispatching s.clock [] }
  | dispatches (now : TimeMs) (ran : List Task) (i : ℕ) (d : Rearming.Loop Task) :
      s.loop = .dispatching now ran → dispatch now ⟨s.tasks, ran⟩ i = some d →
      LoopStep s { s with tasks := d.bag, loop := .dispatching now d.taken }
  | endsDispatch (now : TimeMs) (ran : List Task) : s.loop = .dispatching now ran →
      LoopStep s { s with loop := .head }

theorem loopStep_spec {s s' : PeriodicalTaskScheduler} {i : ℕ} (h : s.loopStep i = some s') :
    LoopStep s s' := by
  cases hloop : s.loop with
  | head =>
      simp only [loopStep, hloop] at h
      obtain rfl := Option.some.inj h
      split
      · next hstop => exact .exits (Or.inl hloop) hstop
      · next hstop => exact .goesOn hloop (by simpa using hstop)
  | lock =>
      simp only [loopStep, hloop] at h
      split at h
      · next hnil =>
          obtain rfl := Option.some.inj h
          exact .findsNoTask hloop hnil
      · obtain ⟨top, htop, rfl⟩ := Option.map_eq_some_iff.1 h
        exact .readsDeadline i top hloop htop
  | waitTest =>
      simp only [loopStep, hloop] at h
      obtain rfl := Option.some.inj h
      split
      · next hpredicate =>
          exact .waitReturns hloop (by simpa using hpredicate)
      · next hpredicate =>
          obtain ⟨hnil, hstop⟩ := by simpa using hpredicate
          exact .waitGoesOn hloop hnil hstop
  | waitBlock =>
      simp only [loopStep, hloop] at h
      obtain rfl := Option.some.inj h
      exact .blocks hloop
  | notified =>
      simp only [loopStep, hloop] at h
      obtain rfl := Option.some.inj h
      exact .wakesUp hloop
  | untilTest deadline timedOut =>
      simp only [loopStep, hloop] at h
      obtain rfl := Option.some.inj h
      split
      · next hreturns => exact .untilReturns deadline timedOut hloop (by simpa using hreturns)
      · next hreturns =>
          obtain ⟨hstop, rfl⟩ := by simpa using hreturns
          exact .untilGoesOn deadline hloop hstop
  | untilBlock deadline =>
      simp only [loopStep, hloop] at h
      obtain rfl := Option.some.inj h
      exact .fallsAsleep deadline hloop
  | woken deadline =>
      simp only [loopStep, hloop] at h
      obtain rfl := Option.some.inj h
      exact .wakesUpUntil deadline hloop
  | afterWait =>
      simp only [loopStep, hloop] at h
      obtain rfl := Option.some.inj h
      split
      · next hstop => exact .exits (Or.inr hloop) hstop
      · next hstop => exact .startsDispatch hloop (by simpa using hstop)
  | dispatching now ran =>
      simp only [loopStep, hloop] at h
      split at h
      · next d hd =>
          obtain rfl := Option.some.inj h
          exact .dispatches now ran i d hloop hd
      · split at h
        · obtain rfl := Option.some.inj h
          exact .endsDispatch now ran hloop
        · simp at h
  | blocked | sleeping | exited => simp [loopStep, hloop] at h

/-- **What a step does.** -/
inductive Step (s : PeriodicalTaskScheduler) : SchedulerAction → PeriodicalTaskScheduler → Prop
  | clock (now : TimeMs) : Step s (.clock now) { s with clock := now }
  | registered (fn : ℕ) (intervalMs : TimeMs) : s.loop.holdsMutex = false →
      Step s (.register fn intervalMs) { s with
        tasks := s.tasks ++ [⟨fn, intervalMs, s.clock + intervalMs⟩]
        registering := s.registering + 1 }
  | registerNotified : s.registering ≠ 0 → Step s .notifyRegister { s with
      registering := s.registering - 1, loop := s.loop.notify }
  | stopRequested : Step s .requestStop { s with
      stopRequested := true, stopping := s.stopping + 1 }
  | stopNotified : s.stopping ≠ 0 → Step s .notifyStop { s with
      stopping := s.stopping - 1, joining := s.joining + 1, loop := s.loop.notify }
  | joined : s.joining ≠ 0 → s.loop = .exited →
      Step s .join { s with joining := s.joining - 1 }
  | woke : s.loop.notify ≠ s.loop → Step s .wake { s with loop := s.loop.notify }
  | looped (i : ℕ) (s' : PeriodicalTaskScheduler) : LoopStep s s' → Step s (.loop i) s'

theorem step_of_next {s s' : PeriodicalTaskScheduler} {a : SchedulerAction}
    (h : machine.next s a = some s') : Step s a s' := by
  cases a with
  | clock now =>
      obtain rfl := Option.some.inj h
      exact .clock now
  | register fn intervalMs =>
      simp only [machine, next] at h
      split at h
      · simp at h
      · next hmutex =>
          obtain rfl := Option.some.inj h
          exact .registered fn intervalMs (by simpa using hmutex)
  | notifyRegister =>
      simp only [machine, next] at h
      split at h
      · simp at h
      · next hzero =>
          obtain rfl := Option.some.inj h
          exact .registerNotified hzero
  | requestStop =>
      obtain rfl := Option.some.inj h
      exact .stopRequested
  | notifyStop =>
      simp only [machine, next] at h
      split at h
      · simp at h
      · next hzero =>
          obtain rfl := Option.some.inj h
          exact .stopNotified hzero
  | join =>
      simp only [machine, next] at h
      split at h
      · next hjoin =>
          obtain rfl := Option.some.inj h
          exact .joined hjoin.1 hjoin.2
      · simp at h
  | wake =>
      simp only [machine, next] at h
      split at h
      · simp at h
      · next hblocked =>
          obtain rfl := Option.some.inj h
          exact .woke hblocked
  | loop i => exact .looped i s' (loopStep_spec h)

/-! ### The inner loop -/

/-- A round of the inner loop. -/
def Dispatches (now : TimeMs) (d d' : Rearming.Loop Task) : Prop := ∃ i, dispatch now d i = some d'

/-- The inner loop ends, whichever tasks are taken from the top.  It has then run the tasks that
were due, each once, and put them back, and leaves none that is due. -/
def DispatchesFinitely (tasks : List Task) (now : TimeMs) : Prop :=
  Acc (fun d' d => Dispatches now d d') ⟨tasks, []⟩ ∧
    ∀ d, Relation.ReflTransGen (Dispatches now) ⟨tasks, []⟩ d → (∀ d', ¬ Dispatches now d d') →
      d.taken.Perm (tasks.filter fun task => decide (task.nextRunMs ≤ now)) ∧
        d.bag.Perm (tasks.map fun task => if task.nextRunMs ≤ now then task.rearm now else task) ∧
        ∀ task ∈ d.bag, now < task.nextRunMs

/-- The task is put back later than `now`: its interval is not zero, and the sum does not wrap
around. -/
def Rearms (now : TimeMs) (task : Task) : Prop :=
  task.intervalMs ≠ 0 ∧ now.toNat + task.intervalMs.toNat < 2 ^ 64

instance (now : TimeMs) (task : Task) : Decidable (Rearms now task) :=
  inferInstanceAs (Decidable (_ ∧ _))

theorem topAt_eq_some {tasks : List Task} {i : ℕ} {task : Task} :
    topAt tasks i = some task ↔
      Rearming.IsTop (fun t : Task => t.nextRunMs.toNat) tasks i task := by
  unfold topAt Rearming.IsTop
  constructor
  · intro h
    obtain ⟨top, htop, h⟩ := Option.bind_eq_some_iff.1 h
    split at h
    · next hmin =>
        obtain rfl := Option.some.inj h
        exact ⟨htop, fun y hy => BitVec.le_def.1 (hmin y hy)⟩
    · simp at h
  · rintro ⟨htop, hmin⟩
    rw [htop, Option.bind_some, if_pos fun y hy => BitVec.le_def.2 (hmin y hy)]

/-- **The inner loop is a loop that takes out what is due and puts it back.** -/
theorem dispatches_iff {now : TimeMs} {d d' : Rearming.Loop Task} :
    Dispatches now d d' ↔ Rearming.Round (fun t : Task => t.nextRunMs.toNat) now.toNat
      (Task.rearm now) d d' := by
  constructor
  · rintro ⟨i, h⟩
    obtain ⟨task, htop, h⟩ := Option.bind_eq_some_iff.1 h
    split at h
    · next hdue =>
        obtain rfl := Option.some.inj h
        exact .take (topAt_eq_some.1 htop) (BitVec.le_def.1 hdue)
    · simp at h
  · intro h
    cases h with
    | @take bag taken i task htop hdue =>
        refine ⟨i, ?_⟩
        rw [dispatch, topAt_eq_some.2 htop, Option.bind_some, if_pos (BitVec.le_def.2 hdue)]

/-- A task that is put back is later than `now` exactly if its sum does not wrap around and is not
`now` itself. -/
theorem rearms_iff {now : TimeMs} {task : Task} :
    now.toNat < (task.rearm now).nextRunMs.toNat ↔ Rearms now task := by
  have hnow := now.isLt
  have hinterval := task.intervalMs.isLt
  have hzero : task.intervalMs = 0 ↔ task.intervalMs.toNat = 0 := by
    rw [← BitVec.toNat_inj]
    rfl
  rw [Rearms, Task.rearm, BitVec.toNat_add, ne_eq, hzero]
  omega

theorem dispatches_eq (now : TimeMs) : Dispatches now
    = Rearming.Round (fun t : Task => t.nextRunMs.toNat) now.toNat (Task.rearm now) := by
  funext d d'
  exact propext dispatches_iff

theorem settles_iff {tasks : List Task} {now : TimeMs} :
    Rearming.Settles (fun t : Task => t.nextRunMs.toNat) now.toNat (Task.rearm now) ⟨tasks, []⟩ ↔
      ∀ task ∈ tasks, task.nextRunMs ≤ now → Rearms now task := by
  simp only [Rearming.Settles, rearms_iff, BitVec.le_def]

/-- **The inner loop ends exactly if every due task is put back later.**  A task that is put back a
second time keeps the time of its next run, since the clock is read once. -/
theorem ends_iff {tasks : List Task} {now : TimeMs} :
    Acc (fun d' d => Dispatches now d d') ⟨tasks, []⟩ ↔
      ∀ task ∈ tasks, task.nextRunMs ≤ now → Rearms now task := by
  rw [dispatches_eq, ← settles_iff]
  exact Rearming.ends_iff fun _ => rfl

end PeriodicalTaskScheduler

open PeriodicalTaskScheduler in
/-- **When a dispatch is finite.**  For all tasks in the queue and every reading of the clock, the
inner loop ends, having run exactly the tasks that were due and leaving every task later than `now`,
if and only if every task that is due has an interval that is not zero and does not wrap around. -/
theorem dispatch_finite_iff (tasks : List Task) (now : TimeMs) :
    DispatchesFinitely tasks now ↔ ∀ task ∈ tasks, task.nextRunMs ≤ now → Rearms now task := by
  constructor
  · rintro ⟨hends, -⟩
    exact ends_iff.1 hends
  · intro h
    refine ⟨ends_iff.2 h, fun d hrounds hdone => ?_⟩
    rw [dispatches_eq] at hrounds hdone
    obtain ⟨htaken, hbag, hlater⟩ := Rearming.Rounds.done (settles_iff.2 h) hrounds hdone
    simp only [BitVec.le_def, BitVec.lt_def]
    exact ⟨htaken, hbag, hlater⟩

open PeriodicalTaskScheduler in
/-- A task whose interval is zero is due as soon as it is registered; once the loop dispatches it,
it goes on for ever. -/
theorem zero_interval_spins : ∃ tr s, PeriodicalTaskScheduler.machine.Exec tr s ∧
    s.loop = .dispatching 5 [] ∧ ¬ PeriodicalTaskScheduler.DispatchesFinitely s.tasks 5 := by
  obtain ⟨s, hex, hs⟩ := Machine.exists_exec_of_replay
    (M := PeriodicalTaskScheduler.machine) ⟨5, rfl⟩
    [.register 0 0, .notifyRegister, .loop 0, .loop 0, .loop 0, .loop 0, .wake, .loop 0, .loop 0,
      .loop 0]
    (fun s => (s.loop, s.tasks)) (.dispatching 5 [], [⟨0, 0, 5⟩]) (by decide)
  obtain ⟨hloop, htasks⟩ := Prod.mk.inj hs
  refine ⟨_, s, hex, hloop, fun hfinite => ?_⟩
  rw [htasks] at hfinite
  have hrearms := ends_iff.1 hfinite.1 ⟨0, 0, 5⟩ (by simp) (by decide)
  exact absurd hrearms (by decide)

end ExActor
