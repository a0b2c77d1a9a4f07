/-
**The waits of the periodical task scheduler.**

Both waits of `Loop` can be slept through.

The deadline of `wait_until` is that of the first task at the time it is read, and the predicate of
this wait is only that a stop was requested.  A task that is registered while the thread sleeps and
is due earlier wakes the thread, which tests the predicate, finds it false, and sleeps on until the
old deadline.

`Stop` sets the stop token and notifies without the mutex.  If it does both between the test of the
predicate of `wait` and the blocking, the notification reaches nobody, and the thread blocks for
good.

Main definitions:

* `LoopAt.awaits` — the deadline the thread sleeps until;
* `SleepsUntilEarliest`, `RegistersNoEarlier` — what is claimed of the sleep, and when it is so;
* `MissesStop`, `NotifiesInTime` — the stop was missed, and when it is not.

Main results:

* `sleeps_until_earliest` — **when the thread sleeps only until its earliest task**, and
  `earlier_task_overslept`, a run in which it does not;
* `stop_not_missed` — **when a stop is not missed**, and `stop_missed`, a run in which it is.
-/

import ExActor.PeriodicalTaskScheduler

set_option relaxedAutoImplicit false
set_option autoImplicit false

namespace ExActor

/-! ### The deadline of the sleep, and notifications -/

/-- The deadline that the thread sleeps until, or is about to. -/
def LoopAt.awaits : LoopAt → Option TimeMs
  | .untilTest deadline false | .untilBlock deadline | .sleeping deadline | .woken deadline =>
      some deadline
  | _ => none

@[simp] theorem LoopAt.awaits_notify (loop : LoopAt) : loop.notify.awaits = loop.awaits := by
  cases loop <;> rfl

/-- A notification leaves nobody asleep. -/
theorem LoopAt.notify_ne_sleeping (loop : LoopAt) (deadline : TimeMs) :
    loop.notify ≠ .sleeping deadline := by
  cases loop <;> simp [notify]

theorem LoopAt.notify_ne_blocked (loop : LoopAt) : loop.notify ≠ .blocked := by
  cases loop <;> simp [notify]

theorem LoopAt.notify_eq_waitBlock {loop : LoopAt} :
    loop.notify = .waitBlock ↔ loop = .waitBlock := by
  cases loop <;> simp [notify]

theorem LoopAt.notify_eq_untilBlock {loop : LoopAt} {deadline : TimeMs} :
    loop.notify = .untilBlock deadline ↔ loop = .untilBlock deadline := by
  cases loop <;> simp [notify]

/-! ### The calls in progress -/

namespace PeriodicalTaskScheduler

variable {s s' : PeriodicalTaskScheduler} {a : SchedulerAction}
  {tr : List (PeriodicalTaskScheduler × SchedulerAction)}

/-- Calls of `Stop` that have notified, or are about to, have requested the stop; and a call of
`Register` that has not notified has left a task. -/
structure Calls (s : PeriodicalTaskScheduler) : Prop where
  requested : s.stopping ≠ 0 ∨ s.joining ≠ 0 → s.stopRequested = true
  registered : s.registering ≠ 0 → s.tasks ≠ []
  noTask : s.loop = .waitBlock → s.tasks = []

/-- A round of the inner loop leaves a task. -/
theorem bag_ne_nil {now : TimeMs} {d d' : Rearming.Loop Task} {i : ℕ}
    (h : dispatch now d i = some d') : d'.bag ≠ [] := by
  obtain ⟨task, -, h⟩ := Option.bind_eq_some_iff.1 h
  split at h
  · obtain rfl := Option.some.inj h
    simp
  · simp at h

/-- The step lemma. -/
theorem Calls.step (h : s.Calls) (hstep : Step s a s') : s'.Calls := by
  obtain ⟨hrequested, hregistered, hnoTask⟩ := h
  cases hstep with
  | clock now => exact ⟨hrequested, hregistered, hnoTask⟩
  | registered fn intervalMs hmutex =>
      refine ⟨hrequested, by simp, fun hloop => ?_⟩
      have hloop : s.loop = .waitBlock := hloop
      rw [hloop] at hmutex
      exact Bool.noConfusion hmutex
  | registerNotified hzero =>
      exact ⟨hrequested, fun _ => hregistered hzero,
        fun hloop => hnoTask (LoopAt.notify_eq_waitBlock.1 hloop)⟩
  | stopRequested => exact ⟨fun _ => rfl, hregistered, hnoTask⟩
  | stopNotified hzero =>
      exact ⟨fun _ => hrequested (Or.inl hzero), hregistered,
        fun hloop => hnoTask (LoopAt.notify_eq_waitBlock.1 hloop)⟩
  | joined hzero hexited => exact ⟨fun _ => hrequested (Or.inr hzero), hregistered, hnoTask⟩
  | woke hblocked =>
      exact ⟨hrequested, hregistered, fun hloop => hnoTask (LoopAt.notify_eq_waitBlock.1 hloop)⟩
  | looped i s' hloop =>
      cases hloop with
      | waitGoesOn hloop hnil hstop => exact ⟨hrequested, hregistered, fun _ => hnil⟩
      | dispatches now ran i d hloop hd => exact ⟨hrequested, fun _ => bag_ne_nil hd, by simp⟩
      | _ => exact ⟨hrequested, hregistered, by simp⟩

theorem calls_of_exec (h : machine.Exec tr s) : s.Calls := by
  refine h.invariantWhere (C := fun _ _ => True) (I := Calls) ?_ ?_ (Machine.meets_true tr)
  · rintro s ⟨clock, rfl⟩
    exact ⟨by simp [construct], by simp [construct], by simp [construct]⟩
  · intro _ s a s' _ _ hI _ hn
    exact hI.step (step_of_next hn)

end PeriodicalTaskScheduler

/-! ### Sleeping until the earliest task -/

/-- The thread is asleep with no notification on its way, and no task is due before its deadline. -/
def SleepsUntilEarliest (s : PeriodicalTaskScheduler) : Prop :=
  ∀ deadline, s.loop = .sleeping deadline → s.registering = 0 → s.stopping = 0 →
    ∀ task ∈ s.tasks, deadline ≤ task.nextRunMs

/-- The step does not register a task that is due before the deadline the thread sleeps until,
unless a stop was requested. -/
def RegistersNoEarlier (s : PeriodicalTaskScheduler) : SchedulerAction → Prop
  | .register _ intervalMs =>
      match s.loop.awaits with
      | some deadline => s.stopRequested = true ∨ deadline ≤ s.clock + intervalMs
      | none => True
  | _ => True

instance (s : PeriodicalTaskScheduler) (a : SchedulerAction) :
    Decidable (RegistersNoEarlier s a) := by
  unfold RegistersNoEarlier
  split
  · split <;> infer_instance
  · infer_instance

namespace PeriodicalTaskScheduler

variable {s s' : PeriodicalTaskScheduler} {a : SchedulerAction} {deadline : TimeMs}
  {tr : List (PeriodicalTaskScheduler × SchedulerAction)}

/-- No task is due before the deadline; or the thread will not sleep until it, since a stop was
requested and a notification is on its way. -/
def Earliest (s : PeriodicalTaskScheduler) : Prop :=
  ∀ deadline, s.loop.awaits = some deadline → (∀ task ∈ s.tasks, deadline ≤ task.nextRunMs) ∨
    (s.stopRequested = true ∧ s.loop ≠ .untilBlock deadline ∧
      (s.loop = .sleeping deadline → s.registering ≠ 0))

/-- A notification keeps it. -/
theorem Earliest.notify (h : s.Earliest) (htasks : s'.tasks = s.tasks)
    (hstop : s'.stopRequested = s.stopRequested) (hloop : s'.loop = s.loop.notify) :
    s'.Earliest := by
  intro deadline hdeadline
  rw [hloop, LoopAt.awaits_notify] at hdeadline
  rw [htasks, hstop, hloop, ne_eq, LoopAt.notify_eq_untilBlock]
  refine (h deadline hdeadline).imp_right fun hright => ⟨hright.1, hright.2.1, fun hasleep => ?_⟩
  exact absurd hasleep (s.loop.notify_ne_sleeping deadline)

/-- **A step of `Loop` keeps it**: the deadline that it reads is that of the top. -/
theorem Earliest.loopStep (h : s.Earliest) (hstep : LoopStep s s') : s'.Earliest := by
  intro deadline hdeadline
  cases hstep with
  | readsDeadline i top _ htop =>
      obtain rfl : top.nextRunMs = deadline := Option.some.inj hdeadline
      exact Or.inl fun task htask => BitVec.le_def.2 ((topAt_eq_some.1 htop).2 task htask)
  | untilGoesOn d hloop hstop =>
      refine (h deadline (by rw [hloop]; exact hdeadline)).imp_right fun hright => ?_
      rw [hstop] at hright
      simp at hright
  | fallsAsleep d hloop =>
      obtain rfl : d = deadline := Option.some.inj hdeadline
      refine (h d (by rw [hloop]; rfl)).imp_right fun hright => ?_
      exact absurd hloop hright.2.1
  | wakesUpUntil d hloop =>
      have hsame : d = deadline := by
        cases hpassed : decide (d ≤ s.clock) with
        | false => simpa [LoopAt.awaits, hpassed] using hdeadline
        | true => simp [LoopAt.awaits, hpassed] at hdeadline
      subst hsame
      refine (h d (by rw [hloop]; rfl)).imp_right fun hright => ⟨hright.1, by simp, by simp⟩
  | _ => simp [LoopAt.awaits] at hdeadline

/-- The step lemma. -/
theorem Earliest.step (h : s.Earliest) (hok : RegistersNoEarlier s a) (hstep : Step s a s') :
    s'.Earliest := by
  cases hstep with
  | registered fn intervalMs hmutex =>
      intro deadline hdeadline
      have hawaits : s.loop.awaits = some deadline := hdeadline
      have hblock : s.loop ≠ .untilBlock deadline := by
        intro hloop
        rw [hloop] at hmutex
        exact Bool.noConfusion hmutex
      have hright : s.stopRequested = true →
          s.stopRequested = true ∧ s.loop ≠ .untilBlock deadline ∧
            (s.loop = .sleeping deadline → s.registering + 1 ≠ 0) :=
        fun hstop => ⟨hstop, hblock, fun _ => Nat.succ_ne_zero _⟩
      rcases h deadline hawaits with hall | ⟨hstop, -⟩
      · simp only [RegistersNoEarlier, hawaits] at hok
        rcases hok with hstop | hlater
        · exact Or.inr (hright hstop)
        · refine Or.inl fun task htask => ?_
          rcases List.mem_append.1 htask with htask | htask
          · exact hall task htask
          · obtain rfl := List.mem_singleton.1 htask
            exact hlater
      · exact Or.inr (hright hstop)
  | registerNotified | stopNotified | woke => exact h.notify rfl rfl rfl
  | stopRequested =>
      exact fun deadline hdeadline => (h deadline hdeadline).imp_right fun hright =>
        ⟨rfl, hright.2⟩
  | clock | joined => exact h
  | looped i s' hloop => exact h.loopStep hloop

/-- The run lemma. -/
theorem earliest_of_exec (h : machine.Exec tr s) (hok : Machine.Meets RegistersNoEarlier tr) :
    s.Earliest := by
  refine h.invariantWhere (I := Earliest) ?_ ?_ hok
  · rintro s ⟨clock, rfl⟩ deadline hdeadline
    simp [construct, LoopAt.awaits] at hdeadline
  · intro _ s a s' _ _ hI hok hn
    exact hI.step hok (step_of_next hn)

theorem Earliest.sleepsUntilEarliest (h : s.Earliest) : SleepsUntilEarliest s := by
  intro deadline hloop hregistering _
  refine (h deadline (by rw [hloop]; rfl)).resolve_right fun hright => ?_
  exact hright.2.2 hloop hregistering

/-- The notifications that are on their way arrive, and the thread takes the mutex, tests its
predicate, and sleeps on until the old deadline. -/
theorem oversleeps (hex : machine.Exec tr s) (hloop : s.loop = .sleeping deadline ∨
      s.loop = .woken deadline) (hstop : s.stopRequested = false) (hclock : s.clock < deadline) :
    ∃ tr', machine.Exec (tr ++ tr') { s with loop := .sleeping deadline, registering := 0 } := by
  induction hcalls : s.registering generalizing s tr with
  | zero =>
      rcases hloop with hloop | hloop
      · refine ⟨[], ?_⟩
        rw [List.append_nil]
        convert hex
        exacts [hloop.symm, hcalls.symm]
      · -- the three steps of the wait
        have htest : machine.next s (.loop 0)
            = some { s with loop := .untilTest deadline false } := by
          simp [machine, next, PeriodicalTaskScheduler.loopStep, hloop, BitVec.not_le.2 hclock]
        have hblock : machine.next { s with loop := .untilTest deadline false } (.loop 0)
            = some { s with loop := .untilBlock deadline } := by
          simp [machine, next, PeriodicalTaskScheduler.loopStep, hstop]
        have hsleep : machine.next { s with loop := .untilBlock deadline } (.loop 0)
            = some { s with loop := .sleeping deadline, registering := 0 } := by
          simp [machine, next, PeriodicalTaskScheduler.loopStep, hcalls]
        have hrun : machine.replay s [.loop 0, .loop 0, .loop 0]
            = some { s with loop := .sleeping deadline, registering := 0 } :=
          Machine.replay_cons_some htest (Machine.replay_cons_some hblock
            (Machine.replay_cons_some hsleep rfl))
        exact ⟨_, hex.replay hrun⟩
  | succ n ih =>
      have hnotify : machine.next s .notifyRegister
          = some { s with registering := n, loop := s.loop.notify } := by
        simp [machine, next, hcalls]
      have hwoken : s.loop.notify = .woken deadline := by
        rcases hloop with hloop | hloop <;> simp [hloop, LoopAt.notify]
      obtain ⟨tr', hrest⟩ := ih (hex.step hnotify) (Or.inr hwoken) hstop hclock rfl
      rw [List.append_assoc] at hrest
      exact ⟨_, hrest⟩

end PeriodicalTaskScheduler

open PeriodicalTaskScheduler in
/-- **When the thread sleeps only until its earliest task.**  In every run in which no task is
registered that is due before the deadline the thread sleeps until, every sleep is at most until the
earliest task.  And each such registration, if no stop was requested and the deadline has not
passed, can be followed by a sleep that is longer. -/
theorem sleeps_until_earliest {tr : List (PeriodicalTaskScheduler × SchedulerAction)}
    {s : PeriodicalTaskScheduler} (h : machine.Exec tr s) :
    (Machine.Meets RegistersNoEarlier tr →
      ∀ q ∈ Machine.states tr s, SleepsUntilEarliest q) ∧
    (∀ fn intervalMs deadline s', machine.next s (.register fn intervalMs) = some s' →
      s.loop.awaits = some deadline → s.clock < deadline →
      ¬ RegistersNoEarlier s (.register fn intervalMs) →
        ∃ tr' q, machine.Exec (tr ++ (s, .register fn intervalMs) :: tr') q ∧
          ¬ SleepsUntilEarliest q) := by
  refine ⟨fun hok q hq => ?_, fun fn intervalMs deadline s' hn hawaits hclock hearlier => ?_⟩
  · obtain ⟨tr', tr'', rfl, hex⟩ := h.of_mem_states hq
    exact (earliest_of_exec hex ((Machine.meets_append ..).1 hok).1).sleepsUntilEarliest
  · simp only [RegistersNoEarlier, hawaits, not_or, Bool.not_eq_true] at hearlier
    obtain ⟨hstop, hearlier⟩ := hearlier
    have hex := h.step hn
    cases step_of_next hn with
    | registered fn intervalMs hmutex =>
        have hloop : s.loop = .sleeping deadline ∨ s.loop = .woken deadline := by
          cases hat : s.loop with
          | sleeping d => rw [hat] at hawaits; exact Or.inl (by rw [Option.some.inj hawaits])
          | woken d => rw [hat] at hawaits; exact Or.inr (by rw [Option.some.inj hawaits])
          | untilTest d timedOut => rw [hat] at hmutex; exact Bool.noConfusion hmutex
          | untilBlock d => rw [hat] at hmutex; exact Bool.noConfusion hmutex
          | _ => rw [hat] at hawaits; simp [LoopAt.awaits] at hawaits
        obtain ⟨tr', hrest⟩ := oversleeps hex hloop hstop hclock
        refine ⟨tr', _, by simpa using hrest, fun hsleeps => hearlier ?_⟩
        have hstopping : s.stopping = 0 := by
          by_contra hne
          have hrequested := (calls_of_exec h).requested (Or.inl hne)
          rw [hstop] at hrequested
          simp at hrequested
        exact hsleeps deadline rfl rfl hstopping ⟨fn, intervalMs, s.clock + intervalMs⟩ (by simp)

/-- A task with an interval of 1000 ms is registered at time 0, and the thread goes to sleep. -/
def registerAndSleep : List SchedulerAction :=
  [.register 0 1000, .notifyRegister, .loop 0, .loop 0, .loop 0, .loop 0]

open PeriodicalTaskScheduler in
/-- A second task, with an interval of 2000 ms, is registered in time. -/
theorem sleeps_until_earliest_later : ∃ tr s, machine.Exec tr s ∧
    s.tasks = [⟨0, 1000, 1000⟩, ⟨1, 2000, 2000⟩] ∧ SleepsUntilEarliest s := by
  obtain ⟨s, hex, hs⟩ := Machine.exists_exec_of_replay (M := machine) ⟨0, rfl⟩
    (registerAndSleep ++ [.register 1 2000]) (fun s => s.tasks)
    [⟨0, 1000, 1000⟩, ⟨1, 2000, 2000⟩] (by decide)
  exact ⟨_, s, hex, hs, (sleeps_until_earliest hex).1 (by decide) s
    (List.mem_append_right _ (List.mem_singleton_self s))⟩

open PeriodicalTaskScheduler in
/-- A second task, with an interval of 10 ms, is registered while the thread sleeps: the thread is
notified and sleeps on until time 1000. -/
theorem earlier_task_overslept : ∃ tr s, machine.Exec tr s ∧ s.loop = .sleeping 1000 ∧
    s.registering = 0 ∧ s.stopping = 0 ∧ ⟨1, 10, 10⟩ ∈ s.tasks ∧ ¬ SleepsUntilEarliest s := by
  obtain ⟨s, hex, hs⟩ := Machine.exists_exec_of_replay (M := machine) ⟨0, rfl⟩
    (registerAndSleep ++ [.register 1 10, .notifyRegister, .loop 0, .loop 0, .loop 0])
    (fun s => (s.loop, s.registering, s.stopping, decide (⟨1, 10, 10⟩ ∈ s.tasks)))
    (.sleeping 1000, 0, 0, true) (by decide)
  simp only [Prod.mk.injEq, decide_eq_true_eq] at hs
  obtain ⟨hloop, hregistering, hstopping, htask⟩ := hs
  refine ⟨_, s, hex, hloop, hregistering, hstopping, htask, fun hsleeps => ?_⟩
  have hlate := hsleeps 1000 hloop hregistering hstopping _ htask
  exact absurd hlate (by decide)

/-! ### Stops -/

/-- A stop was requested, and everyone who calls `Stop` has notified and waits for the thread; the
thread is blocked without a deadline, and no notification is on its way. -/
def MissesStop (s : PeriodicalTaskScheduler) : Prop :=
  s.stopRequested = true ∧ s.joining ≠ 0 ∧ s.stopping = 0 ∧ s.registering = 0 ∧ s.loop = .blocked

/-- The step is not a notification of `Stop` between the test of the predicate of `wait` and the
blocking. -/
def NotifiesInTime (s : PeriodicalTaskScheduler) (a : SchedulerAction) : Prop :=
  a = .notifyStop → s.loop ≠ .waitBlock

instance (s : PeriodicalTaskScheduler) (a : SchedulerAction) : Decidable (NotifiesInTime s a) :=
  inferInstanceAs (Decidable (_ → _))

namespace PeriodicalTaskScheduler

variable {s s' : PeriodicalTaskScheduler} {a : SchedulerAction}
  {tr : List (PeriodicalTaskScheduler × SchedulerAction)}

/-- Once a call of `Stop` has notified, the thread does not block. -/
def Awake (s : PeriodicalTaskScheduler) : Prop :=
  s.joining ≠ 0 → s.loop ≠ .waitBlock ∧ s.loop ≠ .blocked

/-- The step lemma: the thread tests a predicate that is true. -/
theorem Awake.step (h : s.Awake) (hcalls : s.Calls) (hok : NotifiesInTime s a)
    (hstep : Step s a s') : s'.Awake := by
  cases hstep with
  | clock | registered | stopRequested => exact h
  | registerNotified =>
      intro hjoining
      exact ⟨fun hloop => (h hjoining).1 (LoopAt.notify_eq_waitBlock.1 hloop),
        LoopAt.notify_ne_blocked _⟩
  | woke =>
      intro hjoining
      exact ⟨fun hloop => (h hjoining).1 (LoopAt.notify_eq_waitBlock.1 hloop),
        LoopAt.notify_ne_blocked _⟩
  | stopNotified =>
      intro _
      exact ⟨fun hloop => hok rfl (LoopAt.notify_eq_waitBlock.1 hloop),
        LoopAt.notify_ne_blocked _⟩
  | joined hzero => exact fun _ => h hzero
  | looped i s' hloop =>
      intro hjoining
      cases hloop with
      | waitGoesOn hloop hnil hstop =>
          have hrequested := hcalls.requested (Or.inr hjoining)
          rw [hstop] at hrequested
          simp at hrequested
      | blocks hloop => exact absurd hloop (h hjoining).1
      | _ => simp

theorem awake_of_exec (h : machine.Exec tr s) (hok : Machine.Meets NotifiesInTime tr) :
    s.Awake := by
  refine h.invariantWhere (I := Awake) ?_ ?_ hok
  · rintro s ⟨clock, rfl⟩ hjoining
    simp [construct] at hjoining
  · intro _ s a s' hex _ hI hok hn
    exact hI.step (calls_of_exec hex) hok (step_of_next hn)

/-- The other calls of `Stop` notify as well, and the thread blocks. -/
theorem blocks_for_good (hex : machine.Exec tr s) (hloop : s.loop = .waitBlock)
    (hjoining : s.joining ≠ 0) : ∃ tr' q, machine.Exec (tr ++ tr') q ∧ MissesStop q := by
  induction hcalls : s.stopping generalizing s tr with
  | zero =>
      have hblock : machine.next s (.loop 0) = some { s with loop := .blocked } := by
        simp [machine, next, PeriodicalTaskScheduler.loopStep, hloop]
      have hregistering : s.registering = 0 := by
        by_contra hne
        exact (calls_of_exec hex).registered hne ((calls_of_exec hex).noTask hloop)
      exact ⟨_, _, hex.step hblock, (calls_of_exec hex).requested (Or.inr hjoining), hjoining,
        hcalls, hregistering, rfl⟩
  | succ n ih =>
      have hnotify : machine.next s .notifyStop
          = some { s with stopping := n, joining := s.joining + 1 } := by
        simp [machine, next, hcalls, hloop, LoopAt.notify]
      obtain ⟨tr', q, hrest, hmissed⟩ := ih (hex.step hnotify) hloop (Nat.succ_ne_zero _) rfl
      rw [List.append_assoc] at hrest
      exact ⟨_, q, hrest, hmissed⟩

end PeriodicalTaskScheduler

open PeriodicalTaskScheduler in
/-- **When a stop is not missed.**  In every run in which `Stop` never notifies between the test of
the predicate of `wait` and the blocking, no state is reached in which the stop is missed.  And each
such notification can be followed by the thread's blocking for good. -/
theorem stop_not_missed {tr : List (PeriodicalTaskScheduler × SchedulerAction)}
    {s : PeriodicalTaskScheduler} (h : machine.Exec tr s) :
    (Machine.Meets NotifiesInTime tr → ∀ q ∈ Machine.states tr s, ¬ MissesStop q) ∧
    (∀ s', machine.next s .notifyStop = some s' → ¬ NotifiesInTime s .notifyStop →
      ∃ tr' q, machine.Exec (tr ++ (s, .notifyStop) :: tr') q ∧ MissesStop q) := by
  refine ⟨fun hok q hq hmissed => ?_, fun s' hn hlate => ?_⟩
  · obtain ⟨tr', tr'', rfl, hex⟩ := h.of_mem_states hq
    obtain ⟨-, hjoining, -, -, hloop⟩ := hmissed
    exact (awake_of_exec hex ((Machine.meets_append ..).1 hok).1 hjoining).2 hloop
  · have hloop : s.loop = .waitBlock := by
      by_contra hne
      exact hlate fun _ => hne
    have hex := h.step hn
    cases step_of_next hn with
    | stopNotified hzero =>
        obtain ⟨tr', q, hrest, hmissed⟩ :=
          blocks_for_good hex (LoopAt.notify_eq_waitBlock.2 hloop) (Nat.succ_ne_zero _)
        exact ⟨tr', q, by simpa using hrest, hmissed⟩

open PeriodicalTaskScheduler in
/-- The stop is requested while the thread is blocked, and wakes it. -/
theorem stop_not_missed_blocked : ∃ tr s, machine.Exec tr s ∧ s.joining = 1 ∧ ¬ MissesStop s := by
  obtain ⟨s, hex, hs⟩ := Machine.exists_exec_of_replay (M := machine) ⟨0, rfl⟩
    [.loop 0, .loop 0, .loop 0, .loop 0, .requestStop, .notifyStop] (fun s => s.joining) 1
    (by decide)
  exact ⟨_, s, hex, hs, (stop_not_missed hex).1 (by decide) s
    (List.mem_append_right _ (List.mem_singleton_self s))⟩

open PeriodicalTaskScheduler in
/-- The stop is requested and notified just before the thread blocks. -/
theorem stop_missed : ∃ tr s, machine.Exec tr s ∧ MissesStop s := by
  obtain ⟨s, hex, hs⟩ := Machine.exists_exec_of_replay (M := machine) ⟨0, rfl⟩
    [.loop 0, .loop 0, .loop 0, .requestStop, .notifyStop, .loop 0]
    (fun s => (s.stopRequested, s.joining, s.stopping, s.registering, s.loop))
    (true, 1, 0, 0, .blocked) (by decide)
  simp only [Prod.mk.injEq] at hs
  obtain ⟨hstop, hjoining, hstopping, hregistering, hloop⟩ := hs
  exact ⟨_, s, hex, hstop, by omega, hstopping, hregistering, hloop⟩

end ExActor
