/-
**A mutex with a condition variable.**

A thread that waits releases the mutex and falls asleep in one step.  A notification is for one of
the threads that sleep then, if there is one; which one shows when it wakes up.  A thread also wakes
up by itself, because its time is over or for no reason, but not one that a notification is for:
that it is awake is then what the notification did.  Whoever wakes up has to lock the mutex again.

Main definitions:

* `Monitor` — the mutex, and how many threads sleep, notified and not;
* `Monitor.lock`, `Monitor.unlock`, `Monitor.block`, `Monitor.notifyOne`, `Monitor.wake` — what can
  be done with it;
* `Monitor.Attended` — no thread sleeps through an item.

Main results:

* `Monitor.Attended.of_none`, `Monitor.Attended.notifyOne`, `Monitor.Attended.wake` — **no wakeup is
  lost** as long as threads fall asleep only where there is no item, each new item is told of, and
  whoever wakes up looks.
-/

import Mathlib.Data.Nat.Notation

set_option relaxedAutoImplicit false
set_option autoImplicit false

/-- A mutex with a condition variable: the threads that sleep and no notification is for, and those
that one is for. -/
structure Monitor where
  locked : Bool
  asleep : ℕ
  notified : ℕ
deriving DecidableEq

namespace Monitor

/-- Nobody is there. -/
def free : Monitor := ⟨false, 0, 0⟩

/-- Locks the mutex, which is free. -/
def lock (m : Monitor) : Option Monitor := if m.locked then none else some { m with locked := true }

/-- Unlocks the mutex. -/
def unlock (m : Monitor) : Monitor := { m with locked := false }

/-- Unlocks the mutex and falls asleep. -/
def block (m : Monitor) : Monitor := { m with locked := false, asleep := m.asleep + 1 }

/-- Notifies one thread that sleeps. -/
def notifyOne (m : Monitor) : Monitor :=
  if m.asleep = 0 then m else { m with asleep := m.asleep - 1, notified := m.notified + 1 }

/-- Wakes up, by itself or because of a notification. -/
def wake (m : Monitor) (byItself : Bool) : Option Monitor :=
  match byItself with
  | true => if m.asleep = 0 then none else some { m with asleep := m.asleep - 1 }
  | false => if m.notified = 0 then none else some { m with notified := m.notified - 1 }

@[simp] theorem notifyOne_locked (m : Monitor) : m.notifyOne.locked = m.locked := by
  unfold notifyOne
  split <;> rfl

theorem notifyOne_sleepers (m : Monitor) :
    m.notifyOne.asleep + m.notifyOne.notified = m.asleep + m.notified := by
  unfold notifyOne
  split
  · rfl
  · dsimp only
    omega

theorem lock_eq_some {m m' : Monitor} (h : m.lock = some m') :
    m.locked = false ∧ m' = { m with locked := true } := by
  unfold lock at h
  split at h
  · exact absurd h (by simp)
  · next hfree => exact ⟨by simpa using hfree, (Option.some.inj h).symm⟩

/-- Who wakes up is one of the sleepers. -/
theorem wake_eq_some {m m' : Monitor} {byItself : Bool} (h : m.wake byItself = some m') :
    m'.locked = m.locked ∧ m'.asleep + m'.notified + 1 = m.asleep + m.notified ∧
      m'.asleep ≤ m.asleep ∧ m.notified ≤ m'.notified + 1 := by
  unfold wake at h
  split at h <;> split at h
  · exact absurd h (by simp)
  · obtain rfl := Option.some.inj h
    refine ⟨rfl, ?_, ?_, ?_⟩ <;> dsimp only <;> omega
  · exact absurd h (by simp)
  · obtain rfl := Option.some.inj h
    refine ⟨rfl, ?_, ?_, ?_⟩ <;> dsimp only <;> omega

/-- **No thread sleeps through an item**: while one sleeps that no notification is for, the items
are no more than the notifications, the threads that will look for an item, and those that will tell
of one. -/
def Attended (m : Monitor) (items looking telling : ℕ) : Prop :=
  0 < m.asleep → items ≤ m.notified + looking + telling

namespace Attended

variable {m m' : Monitor} {items looking telling : ℕ}

theorem free : Attended Monitor.free items looking telling := fun h => absurd h (Nat.lt_irrefl 0)

/-- Fewer items, or more threads that look or tell. -/
theorem mono {items' looking' telling' : ℕ} (h : Attended m items looking telling)
    (hasleep : m'.asleep = m.asleep) (hnotified : m'.notified = m.notified)
    (hle : items' + looking + telling ≤ items + looking' + telling') :
    Attended m' items' looking' telling' := by
  intro hpos
  have := h (by omega)
  omega

/-- Where there is no item a thread may fall asleep. -/
theorem of_none (h : items = 0) : Attended m items looking telling :=
  fun _ => h ▸ Nat.zero_le _

/-- Telling of an item. -/
theorem notifyOne (h : Attended m items looking (1 + telling)) :
    Attended m.notifyOne items looking telling := by
  intro hpos
  unfold Monitor.notifyOne at hpos ⊢
  split at hpos
  · omega
  · next hne =>
      have := h (by omega)
      rw [if_neg hne]
      dsimp only
      omega

/-- Waking up, to look for an item. -/
theorem wake {byItself : Bool} (h : Attended m items looking telling)
    (hwake : m.wake byItself = some m') : Attended m' items (1 + looking) telling := by
  intro hpos
  obtain ⟨-, -, hasleep, hnotified⟩ := wake_eq_some hwake
  have := h (by omega)
  omega

end Attended

end Monitor
