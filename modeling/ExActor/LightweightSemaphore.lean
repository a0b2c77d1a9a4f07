/-
**The semaphore of the blocking queues.**

`LightweightSemaphore` is a count in user space in front of a semaphore of the kernel.  The count is
decremented by who waits, below zero when there is nothing to take; its negative part is the number
of those that wait and have been promised nothing.  `signal` adds to the count and releases as many
permits of the kernel as it has satisfied waiters, and a waiter sleeps until it gets a permit.

A waiter whose time is over takes its decrement back, unless a signal has been meant for it: then
the count is not negative any more, a permit is on its way, and it stays until it has it.

Every access to the count and to the kernel is one step here.  The count is an integer, as it is
bounded by the elements in memory and the threads that wait.

Main definitions:

* `LightweightSemaphore` — the members;
* `waitStep` — one step of `tryWait` and of `wait`, with its spinning and its timeout;
* `signalStep` — one step of `signal`.

Main results:

* `waitStep_spec`, `signalStep_spec` — a step moves units between the count, the permits, the
  signals and the waiters, and loses none;
* `waitStep_false` — who gives up has found nothing to take.
-/

import ExActor.Basic

set_option relaxedAutoImplicit false
set_option autoImplicit false

namespace ExActor

/-- `m_count`, and the permits of `m_sema`. -/
structure LightweightSemaphore where
  count : ℤ
  permits : ℕ
deriving DecidableEq

/-- The call: `tryWait()`, or `wait(timeout_usecs)`. -/
inductive WaitCall
  | tryWait
  | wait (timeoutUsecs : ℤ)
deriving DecidableEq

/-- Where a call stands.  What a compare-exchange expects has been checked before. -/
inductive WaitPc
  | load
  | cas (oldCount : ℤ) (pos : 0 < oldCount)
  | spinLoad (spin : ℕ)
  | spinCas (spin : ℕ) (oldCount : ℤ) (pos : 0 < oldCount)
  | fetchSub
  | block
  | readjust
  | tryWait
  | giveUp (oldCount : ℤ) (neg : oldCount < 0)
deriving DecidableEq

/-- A call goes on, or has returned. -/
inductive WaitOutcome
  | goOn (pc : WaitPc)
  | returned (acquired : Bool)
deriving DecidableEq

/-- What the semaphore does not decide: a weak compare-exchange fails for no reason, the wait in
the kernel ends without a permit. -/
structure SemaphoreEnv where
  spurious : Bool
  fails : Bool
deriving DecidableEq

namespace LightweightSemaphore

/-! ### The calls -/

section Wait

variable (maxSpins : ℕ) (call : WaitCall) (s : LightweightSemaphore)

/-- The spinning loop, with `n` rounds left. -/
def spinFrom : ℕ → WaitPc
  | 0 => .fetchSub
  | n + 1 => .spinLoad n

/-- The loop of `tryWait` with the count it has loaded.  When `tryWait` has failed, `wait` spins. -/
def tryFrom (oldCount : ℤ) : WaitOutcome :=
  if h : 0 < oldCount then .goOn (.cas oldCount h)
  else match call with
    | .tryWait => .returned false
    | .wait _ => .goOn (spinFrom maxSpins)

/-- Where `waitWithPartialSpinning` goes when it has to wait: with no time to wait it does not
enter the kernel. -/
def sleepPc : WaitPc :=
  if call = .wait 0 then .readjust else .block

/-- One step of `tryWait` and `wait`. -/
def waitStep : WaitPc → SemaphoreEnv → Option (LightweightSemaphore × WaitOutcome)
  | .load, _ => some (s, tryFrom maxSpins call s.count)
  | .cas oldCount _, env =>
      if s.count = oldCount ∧ env.spurious = false then
        some ({ s with count := s.count - 1 }, .returned true)
      else some (s, tryFrom maxSpins call s.count)
  | .spinLoad spin, _ =>
      if h : 0 < s.count then some (s, .goOn (.spinCas spin s.count h))
      else some (s, .goOn (spinFrom spin))
  | .spinCas spin oldCount _, _ =>
      if s.count = oldCount then some ({ s with count := s.count - 1 }, .returned true)
      else some (s, .goOn (spinFrom spin))
  | .fetchSub, _ =>
      some ({ s with count := s.count - 1 },
        if 0 < s.count then .returned true else .goOn (sleepPc call))
  | .block, env =>
      if env.fails then some (s, .goOn .readjust)
      else if 0 < s.permits then some ({ s with permits := s.permits - 1 }, .returned true)
      else none
  | .readjust, _ =>
      if h : s.count < 0 then some (s, .goOn (.giveUp s.count h)) else some (s, .goOn .tryWait)
  | .tryWait, _ =>
      if 0 < s.permits then some ({ s with permits := s.permits - 1 }, .returned true)
      else some (s, .goOn .readjust)
  | .giveUp oldCount _, _ =>
      if s.count = oldCount then some ({ s with count := s.count + 1 }, .returned false)
      else some (s, .goOn .readjust)

end Wait

/-! ### The signals -/

end LightweightSemaphore

/-- Where `signal` stands: at the count, or with permits left to release after this one. -/
inductive SignalPc
  | fetchAdd
  | post (left : ℕ)
deriving DecidableEq

namespace LightweightSemaphore

/-- How many waiters a signal satisfies. -/
def toRelease (oldCount count : ℤ) : ℤ := if -oldCount < count then -oldCount else count

/-- The loop that releases permits. -/
def posts : ℕ → Option SignalPc
  | 0 => none
  | n + 1 => some (.post n)

/-- One step of `signal(count)`; it has returned when nothing is left to do. -/
def signalStep (count : ℕ) (s : LightweightSemaphore) :
    SignalPc → LightweightSemaphore × Option SignalPc
  | .fetchAdd => ({ s with count := s.count + count }, posts (toRelease s.count count).toNat)
  | .post left => ({ s with permits := s.permits + 1 }, posts left)

end LightweightSemaphore

/-! ### Units -/

/-- The call has decremented a count that had nothing to give, and neither got a permit nor taken
the decrement back. -/
def WaitPc.waiting : WaitPc → ℕ
  | .block | .readjust | .tryWait | .giveUp _ _ => 1
  | _ => 0

/-- The call still waits. -/
def WaitOutcome.waiting : WaitOutcome → ℕ
  | .goOn pc => pc.waiting
  | .returned _ => 0

/-- The call has acquired. -/
def WaitOutcome.acquired : WaitOutcome → ℕ
  | .returned true => 1
  | _ => 0

/-- The permits that a signal still has to release. -/
def SignalPc.releasing : SignalPc → ℕ
  | .fetchAdd => 0
  | .post left => left + 1

/-- The units that a signal of `count` has not added yet. -/
def SignalPc.unsignalled (count : ℕ) : SignalPc → ℕ
  | .fetchAdd => count
  | .post _ => 0

namespace LightweightSemaphore

@[simp] theorem waiting_spinFrom (n : ℕ) : (spinFrom n).waiting = 0 := by cases n <;> rfl

@[simp] theorem waiting_sleepPc (call : WaitCall) : (sleepPc call).waiting = 1 := by
  unfold sleepPc
  split <;> rfl

@[simp] theorem waiting_tryFrom (maxSpins : ℕ) (call : WaitCall) (c : ℤ) :
    (tryFrom maxSpins call c).waiting = 0 := by
  unfold tryFrom
  split
  · rfl
  · cases call with
    | tryWait => rfl
    | wait timeoutUsecs => exact waiting_spinFrom maxSpins

@[simp] theorem acquired_tryFrom (maxSpins : ℕ) (call : WaitCall) (c : ℤ) :
    (tryFrom maxSpins call c).acquired = 0 := by
  unfold tryFrom
  split
  · rfl
  · cases call <;> rfl

@[simp] theorem releasing_posts (n : ℕ) : ((posts n).map SignalPc.releasing).getD 0 = n := by
  cases n <;> rfl

@[simp] theorem unsignalled_posts (count n : ℕ) :
    ((posts n).map (SignalPc.unsignalled count)).getD 0 = 0 := by cases n <;> rfl

/-- **A step of a wait** takes a unit from the count or from the permits exactly when it acquires
one, and changes the number of waiters with the debt of the count and the permits. -/
theorem waitStep_spec {maxSpins : ℕ} {call : WaitCall} {s s' : LightweightSemaphore} {pc : WaitPc}
    {env : SemaphoreEnv} {out : WaitOutcome}
    (h : waitStep maxSpins call s pc env = some (s', out)) :
    s'.count.toNat + s'.permits + out.acquired = s.count.toNat + s.permits ∧
      out.waiting + s.permits + (-s.count).toNat
        = pc.waiting + s'.permits + (-s'.count).toNat := by
  cases pc with
  | load =>
      obtain ⟨rfl, rfl⟩ := by simpa [waitStep] using h
      simp [WaitPc.waiting]
  | cas oldCount pos =>
      simp only [waitStep] at h
      split at h
      · next hcas =>
          obtain ⟨rfl, rfl⟩ := by simpa using h
          simp only [WaitOutcome.acquired, WaitOutcome.waiting, WaitPc.waiting]
          omega
      · obtain ⟨rfl, rfl⟩ := by simpa using h
        simp [WaitPc.waiting]
  | spinLoad spin =>
      simp only [waitStep] at h
      split at h <;> obtain ⟨rfl, rfl⟩ := by simpa using h
      · simp [WaitOutcome.acquired, WaitOutcome.waiting, WaitPc.waiting]
      · simp only [WaitOutcome.acquired, WaitOutcome.waiting, waiting_spinFrom]
        simp [WaitPc.waiting]
  | spinCas spin oldCount pos =>
      simp only [waitStep] at h
      split at h <;> obtain ⟨rfl, rfl⟩ := by simpa using h
      · simp only [WaitOutcome.acquired, WaitOutcome.waiting, WaitPc.waiting]
        omega
      · simp only [WaitOutcome.acquired, WaitOutcome.waiting, waiting_spinFrom]
        simp [WaitPc.waiting]
  | fetchSub =>
      obtain ⟨rfl, rfl⟩ := by simpa [waitStep] using h
      split
      · simp only [WaitOutcome.acquired, WaitOutcome.waiting, WaitPc.waiting]
        omega
      · simp only [WaitOutcome.acquired, WaitOutcome.waiting, waiting_sleepPc]
        simp only [WaitPc.waiting]
        omega
  | block =>
      simp only [waitStep] at h
      split at h
      · obtain ⟨rfl, rfl⟩ := by simpa using h
        simp [WaitOutcome.acquired, WaitOutcome.waiting, WaitPc.waiting]
      · split at h
        · obtain ⟨rfl, rfl⟩ := by simpa using h
          simp only [WaitOutcome.acquired, WaitOutcome.waiting, WaitPc.waiting]
          omega
        · exact absurd h (by simp)
  | readjust =>
      simp only [waitStep] at h
      split at h <;> obtain ⟨rfl, rfl⟩ := by simpa using h
      · simp [WaitOutcome.acquired, WaitOutcome.waiting, WaitPc.waiting]
      · simp [WaitOutcome.acquired, WaitOutcome.waiting, WaitPc.waiting]
  | tryWait =>
      simp only [waitStep] at h
      split at h <;> obtain ⟨rfl, rfl⟩ := by simpa using h
      · simp only [WaitOutcome.acquired, WaitOutcome.waiting, WaitPc.waiting]
        omega
      · simp [WaitOutcome.acquired, WaitOutcome.waiting, WaitPc.waiting]
  | giveUp oldCount neg =>
      simp only [waitStep] at h
      split at h <;> obtain ⟨rfl, rfl⟩ := by simpa using h
      · simp only [WaitOutcome.acquired, WaitOutcome.waiting, WaitPc.waiting]
        omega
      · simp [WaitOutcome.acquired, WaitOutcome.waiting, WaitPc.waiting]

/-- **A call gives up** only where the count has nothing to give. -/
theorem waitStep_false {maxSpins : ℕ} {call : WaitCall} {s s' : LightweightSemaphore} {pc : WaitPc}
    {env : SemaphoreEnv} (h : waitStep maxSpins call s pc env = some (s', .returned false)) :
    s.count ≤ 0 := by
  have htry : tryFrom maxSpins call s.count = .returned false → s.count ≤ 0 := by
    unfold tryFrom
    split
    · simp
    · omega
  cases pc with
  | load =>
      simp only [waitStep, Option.some.injEq, Prod.mk.injEq] at h
      exact htry h.2
  | cas oldCount pos =>
      simp only [waitStep] at h
      split at h
      · simp at h
      · simp only [Option.some.injEq, Prod.mk.injEq] at h
        exact htry h.2
  | giveUp oldCount neg =>
      simp only [waitStep] at h
      split at h
      · omega
      · simp at h
  | spinLoad spin | spinCas spin oldCount pos | readjust | tryWait =>
      simp only [waitStep] at h
      split at h <;> simp at h
  | fetchSub =>
      simp only [waitStep, Option.some.injEq, Prod.mk.injEq] at h
      split at h <;> simp at h
  | block =>
      simp only [waitStep] at h
      split at h
      · simp at h
      · split at h <;> simp at h

/-- **A step of a signal** adds its units to the count, and turns the debt they pay into permits. -/
theorem signalStep_spec (count : ℕ) (s : LightweightSemaphore) (pc : SignalPc) :
    let r := signalStep count s pc
    r.1.count.toNat + r.1.permits + (r.2.map SignalPc.releasing).getD 0
        + (r.2.map (SignalPc.unsignalled count)).getD 0
      = s.count.toNat + s.permits + pc.releasing + pc.unsignalled count ∧
    r.1.permits + (r.2.map SignalPc.releasing).getD 0 + (-r.1.count).toNat
      = s.permits + pc.releasing + (-s.count).toNat := by
  cases pc with
  | fetchAdd =>
      simp only [signalStep, releasing_posts, unsignalled_posts, SignalPc.releasing,
        SignalPc.unsignalled, toRelease]
      split <;> omega
  | post left =>
      simp only [signalStep, releasing_posts, unsignalled_posts, SignalPc.releasing,
        SignalPc.unsignalled]
      omega

end LightweightSemaphore

end ExActor
