/-
**The local slot of a worker keeps the most urgent successor.**

While a worker executes an operation, the first operation that it enqueues goes into its local slot.
A later one that is more urgent takes its place, and the evicted one goes into a sub-queue, with the
priority that the slot has kept beside it; any other later one goes into a sub-queue itself.  When
`Execute` returns, the worker executes what is in the slot before it waits again.

The slot's priority survives from earlier uses of the slot, but is only looked at while the slot is
filled.  An operation is known by the number of the call that accepted it, as everywhere in this
model of the pool.

Main definitions:

* `WeakPriorityThreadPool.enqueueOperation`, `WeakPriorityThreadPool.enqueueOperations` — the
  function of the source, uninterrupted, and several calls in a row;
* `MostUrgent` — the first of the smallest priority numbers of a list;
* `Placed` — where the operations of a sequence of calls are.

Main results:

* `enqueueOperations_uninterrupted` — the functions are what the steps of one worker do;
* `Placed.enqueueOperation` — what one call preserves;
* `slot_empty_of_holding` — in every run, `Execute` begins with an empty slot;
* `local_slot_keeps_most_urgent` — **the most urgent operation is executed next**.
-/

import ExActor.WeakPriorityAccounting
import ExActor.WeakPriorityDequeue

set_option relaxedAutoImplicit false
set_option autoImplicit false

namespace ExActor

/-! ### The most urgent one -/

/-- The `k`-th number is the first of the smallest ones. -/
structure MostUrgent (ps : List Priority) (k : ℕ) (p : Priority) : Prop where
  at_k : ps[k]? = some p
  least : ∀ q ∈ ps, p ≤ q
  first : ∀ j < k, ps[j]? ≠ some p

/-- What a list with one more element has at a place. -/
theorem getElem?_snoc {α : Type*} {l : List α} {a b : α} {j : ℕ} (h : (l ++ [a])[j]? = some b) :
    l[j]? = some b ∨ (j = l.length ∧ b = a) := by
  rcases Nat.lt_or_ge j l.length with hlt | hge
  · rw [List.getElem?_append_left hlt] at h
    exact Or.inl h
  · have hlen := (List.getElem?_eq_some_iff.1 h).1
    simp only [List.length_append, List.length_singleton] at hlen
    obtain rfl : j = l.length := by omega
    rw [List.getElem?_concat_length] at h
    exact Or.inr ⟨rfl, (Option.some.inj h).symm⟩

namespace MostUrgent

variable {ps : List Priority} {k : ℕ} {p : Priority}

theorem lt_length (h : MostUrgent ps k p) : k < ps.length :=
  (List.getElem?_eq_some_iff.1 h.at_k).1

theorem ne_nil (h : MostUrgent ps k p) : ps ≠ [] :=
  List.ne_nil_of_length_pos (Nat.zero_lt_of_lt h.lt_length)

/-- A single number. -/
theorem single (p : Priority) : MostUrgent [p] 0 p := ⟨rfl, by simp, by simp⟩

/-- A smaller number at the end is the new one. -/
theorem snoc_lt (h : MostUrgent ps k p) {q : Priority} (hq : q < p) :
    MostUrgent (ps ++ [q]) ps.length q where
  at_k := by simp
  least := by
    intro r hr
    rcases List.mem_append.1 hr with hr | hr
    · exact hq.le.trans (h.least r hr)
    · exact (List.mem_singleton.1 hr).ge
  first := by
    intro j hj heq
    rw [List.getElem?_append_left hj] at heq
    exact (hq.trans_le (h.least q (List.mem_of_getElem? heq))).ne rfl

/-- Any other number at the end changes nothing. -/
theorem snoc_le (h : MostUrgent ps k p) {q : Priority} (hq : p ≤ q) :
    MostUrgent (ps ++ [q]) k p where
  at_k := by
    rw [List.getElem?_append_left h.lt_length]
    exact h.at_k
  least := by
    intro r hr
    rcases List.mem_append.1 hr with hr | hr
    · exact h.least r hr
    · exact hq.trans (List.mem_singleton.1 hr).ge
  first := by
    intro j hj
    rw [List.getElem?_append_left (hj.trans h.lt_length)]
    exact h.first j hj

end MostUrgent

variable {n : ℕ} [NeZero n]

/-! ### The function of the source -/

namespace WeakPriorityThreadPool

/-- `EnqueueOperation`, on a thread with this local slot, for the number that is drawn if the
operation goes into a sub-queue; `owned` says that the thread is a worker of the pool. -/
def enqueueOperation (s : WeakPriorityThreadPool n) (owned : Bool) (slot : LocalSlot)
    (draw priority : ℕ) : Except String (WeakPriorityThreadPool n × LocalSlot) :=
  match checkPriority priority with
  | .error e => .error e
  | .ok priority =>
      match if owned then slot.offer s.fresh priority else (slot, some (s.fresh, priority)) with
      | (slot', none) => .ok (s.accept priority, slot')
      | (slot', some (operation, priority')) =>
          .ok (((s.accept priority).push draw operation priority').signal, slot')

/-- Calls of `EnqueueOperation` on a worker, one after the other, each with the number that is drawn
and a priority. -/
def enqueueOperations (s : WeakPriorityThreadPool n) (slot : LocalSlot) :
    List (ℕ × Priority) → Except String (WeakPriorityThreadPool n × LocalSlot)
  | [] => .ok (s, slot)
  | (draw, priority) :: calls =>
      match s.enqueueOperation true slot draw priority with
      | .error e => .error e
      | .ok (s', slot') => s'.enqueueOperations slot' calls

/-- A priority is below 64. -/
theorem checkPriority_val (priority : Priority) : checkPriority priority = .ok priority :=
  dif_pos priority.isLt

/-- What one call on a worker does. -/
theorem enqueueOperation_cases (s : WeakPriorityThreadPool n) (slot : LocalSlot) (draw : ℕ)
    (priority : Priority) :
    (slot.operation = none ∧ s.enqueueOperation true slot draw priority
      = .ok (s.accept priority, ⟨some s.fresh, priority⟩)) ∨
    (∃ evicted, slot.operation = some evicted ∧ priority < slot.priority ∧
      s.enqueueOperation true slot draw priority = .ok
        (((s.accept priority).push draw evicted slot.priority).signal,
          ⟨some s.fresh, priority⟩)) ∨
    (∃ kept, slot.operation = some kept ∧ slot.priority ≤ priority ∧
      s.enqueueOperation true slot draw priority
        = .ok (((s.accept priority).push draw s.fresh priority).signal, slot)) := by
  simp only [enqueueOperation, checkPriority_val, if_true, LocalSlot.offer]
  cases hslot : slot.operation with
  | none => exact Or.inl ⟨rfl, rfl⟩
  | some op =>
      by_cases hlt : priority < slot.priority
      · exact Or.inr (Or.inl ⟨op, rfl, hlt, by simp [hlt]⟩)
      · exact Or.inr (Or.inr ⟨op, rfl, not_lt.1 hlt, by simp [hlt]⟩)

end WeakPriorityThreadPool

/-- One call on a worker is what its steps do, inside the `Execute` of another operation. -/
theorem enqueueOperation_uninterrupted {s s' : WeakPriorityThreadPool n} {slot slot' : LocalSlot}
    {draw : ℕ} {priority : Priority}
    (h : s.enqueueOperation true slot draw priority = .ok (s', slot')) (op : Operation) :
    ∃ ks, (weakPriorityProgram n).Uninterrupted s (.worker (.executing op) slot) ks s'
      (.worker (.executing op) slot') [] := by
  have hcheck := WeakPriorityThreadPool.checkPriority_val priority
  rcases s.enqueueOperation_cases slot draw priority with
    ⟨hslot, heq⟩ | ⟨evicted, hslot, hlt, heq⟩ | ⟨kept, hslot, hle, heq⟩
  · obtain ⟨rfl, rfl⟩ := Prod.mk.inj (Except.ok.inj (heq.symm.trans h))
    have hkeeps : s.runWorker slot (.executing op) (.enqueues priority)
        = some (s.accept priority, .executing op, ⟨some s.fresh, priority⟩) := by
      simp [WeakPriorityThreadPool.runWorker, hcheck, LocalSlot.offer, hslot]
    exact ⟨_, .single (run_worker hkeeps)⟩
  · obtain ⟨rfl, rfl⟩ := Prod.mk.inj (Except.ok.inj (heq.symm.trans h))
    have hevicts : s.runWorker slot (.executing op) (.enqueues priority)
        = some (s.accept priority, .pushing op evicted slot.priority,
          ⟨some s.fresh, priority⟩) := by
      simp [WeakPriorityThreadPool.runWorker, hcheck, LocalSlot.offer, hslot, hlt]
    exact ⟨_, .head (run_worker hevicts) (.head (run_worker (k := .draws draw 0) rfl)
      (.single (run_worker (k := .go) rfl)))⟩
  · obtain ⟨rfl, rfl⟩ := Prod.mk.inj (Except.ok.inj (heq.symm.trans h))
    have hspills : s.runWorker slot (.executing op) (.enqueues priority)
        = some (s.accept priority, .pushing op s.fresh priority, slot) := by
      simp [WeakPriorityThreadPool.runWorker, hcheck, LocalSlot.offer, hslot, not_lt.2 hle]
    exact ⟨_, .head (run_worker hspills) (.head (run_worker (k := .draws draw 0) rfl)
      (.single (run_worker (k := .go) rfl)))⟩

/-- **The functions are what the steps of one worker do**, when no other thread comes between. -/
theorem enqueueOperations_uninterrupted {s s' : WeakPriorityThreadPool n} {slot slot' : LocalSlot}
    {calls : List (ℕ × Priority)} (h : s.enqueueOperations slot calls = .ok (s', slot'))
    (op : Operation) :
    ∃ ks, (weakPriorityProgram n).Uninterrupted s (.worker (.executing op) slot) ks s'
      (.worker (.executing op) slot') [] := by
  induction calls generalizing s slot with
  | nil =>
      obtain ⟨rfl, rfl⟩ := Prod.mk.inj (Except.ok.inj h)
      exact ⟨[], .nil s _⟩
  | cons call calls ih =>
      obtain ⟨draw, priority⟩ := call
      rw [WeakPriorityThreadPool.enqueueOperations] at h
      split at h
      · simp at h
      · next s₁ slot₁ hcall =>
          obtain ⟨ks, hks⟩ := enqueueOperation_uninterrupted hcall op
          obtain ⟨ks', hks'⟩ := ih h
          exact ⟨ks ++ ks', hks.trans hks'⟩

/-! ### Where the operations are -/

namespace WeakPriorityThreadPool

variable {s : WeakPriorityThreadPool n}

/-- A push takes nothing out of a sub-queue. -/
theorem slots_prefix_push (s : WeakPriorityThreadPool n) (draw : ℕ) (operation : Operation)
    (priority : Priority) (i : Fin n) (p : Priority) :
    (s.subQueues i).slots p <+: ((s.push draw operation priority).subQueues i).slots p := by
  simp only [push, setSubQueue]
  by_cases hi : i = Fin.ofNat n draw
  · subst hi
    rw [Function.update_self]
    exact SubQueue.slots_prefix_push ..
  · rw [Function.update_of_ne hi]

/-- A push puts the operation into the stack of its priority. -/
theorem mem_slots_push (s : WeakPriorityThreadPool n) (draw : ℕ) (operation : Operation)
    (priority : Priority) :
    operation ∈ ((s.push draw operation priority).subQueues (Fin.ofNat n draw)).slots priority := by
  simp [push, setSubQueue, SubQueue.push]

end WeakPriorityThreadPool

/-- Where the operations of a sequence of calls with the priorities `ps` are, which led from `s₀` to
`s`: the first of the most urgent ones in the local slot, every other one in a sub-queue, in the
stack of its own priority, and the semaphore has been signalled once for each of these. -/
structure Placed (s₀ s : WeakPriorityThreadPool n) (ps : List Priority) (slot : LocalSlot) :
    Prop where
  accepted : s.priorities = s₀.priorities ++ ps
  local_slot : (ps = [] ∧ slot.operation = none) ∨
    ∃ (k : ℕ) (p : Priority), slot = ⟨some (s₀.fresh + k), p⟩ ∧ MostUrgent ps k p
  others : ∀ (j : ℕ) (p : Priority), ps[j]? = some p → slot.operation ≠ some (s₀.fresh + j) →
    ∃ i, s₀.fresh + j ∈ (s.subQueues i).slots p
  kept : ∀ i p, (s₀.subQueues i).slots p <+: (s.subQueues i).slots p
  size : s.size = s₀.size + (ps.length - 1)
  sema : s.sema = s₀.sema + (ps.length - 1)
  executed : s.executed = s₀.executed

namespace Placed

variable {s₀ s s' : WeakPriorityThreadPool n} {ps : List Priority} {slot slot' : LocalSlot}

omit [NeZero n] in
/-- Before the first call, with an empty slot. -/
theorem start (s : WeakPriorityThreadPool n) (hslot : slot.operation = none) :
    Placed s s [] slot where
  accepted := by simp
  local_slot := Or.inl ⟨rfl, hslot⟩
  others := by simp
  kept := fun _ _ => List.prefix_rfl
  size := rfl
  sema := rfl
  executed := rfl

omit [NeZero n] in
theorem fresh_eq (h : Placed s₀ s ps slot) : s.fresh = s₀.fresh + ps.length := by
  rw [WeakPriorityThreadPool.fresh, h.accepted, List.length_append]
  rfl

omit [NeZero n] in
/-- The first call fills the slot. -/
theorem fill (h : Placed s₀ s ps slot) (hslot : slot.operation = none) (priority : Priority) :
    Placed s₀ (s.accept priority) (ps ++ [priority]) ⟨some s.fresh, priority⟩ := by
  have hfresh := h.fresh_eq
  rcases h.local_slot with ⟨rfl, -⟩ | ⟨k, p, rfl, -⟩
  · refine ⟨?_, Or.inr ⟨0, priority, by simp [hfresh], .single priority⟩, ?_, h.kept, h.size,
      h.sema, h.executed⟩
    · simp [WeakPriorityThreadPool.accept, h.accepted]
    · -- the only call is the one whose operation is in the slot
      intro j p hj hne
      obtain ⟨hlt, -⟩ := List.getElem?_eq_some_iff.1 hj
      obtain rfl : j = 0 := by simpa using hlt
      simp [hfresh] at hne
  · simp at hslot

/-- Any other call puts one operation into a sub-queue: the new one, or the one that it evicts. -/
theorem push (h : Placed s₀ s ps slot) (hps : ps ≠ []) {priority q : Priority} {pushed : Operation}
    (hlocal : ∃ (k : ℕ) (p : Priority), slot' = ⟨some (s₀.fresh + k), p⟩ ∧
      MostUrgent (ps ++ [priority]) k p)
    (hothers : ∀ (j : ℕ) (p : Priority), (ps ++ [priority])[j]? = some p →
      slot'.operation ≠ some (s₀.fresh + j) → (s₀.fresh + j = pushed ∧ p = q) ∨
        (ps[j]? = some p ∧ slot.operation ≠ some (s₀.fresh + j))) (draw : ℕ) :
    Placed s₀ ((s.accept priority).push draw pushed q).signal (ps ++ [priority]) slot' where
  accepted := by
    change s.priorities ++ [priority] = _
    rw [h.accepted, List.append_assoc]
  local_slot := Or.inr hlocal
  others := by
    intro j p hj hne
    rcases hothers j p hj hne with ⟨rfl, rfl⟩ | ⟨hold, hslot⟩
    · exact ⟨_, (s.accept priority).mem_slots_push draw _ _⟩
    · obtain ⟨i, hi⟩ := h.others j p hold hslot
      exact ⟨i, ((s.accept priority).slots_prefix_push draw pushed q i p).subset hi⟩
  kept := fun i p => (h.kept i p).trans ((s.accept priority).slots_prefix_push draw pushed q i p)
  size := by
    have hpos := List.length_pos_iff.2 hps
    have hsize : ((s.accept priority).push draw pushed q).size = s.size + 1 :=
      WeakPriorityThreadPool.size_push draw pushed q
    change ((s.accept priority).push draw pushed q).size = _
    rw [hsize, h.size, List.length_append, List.length_singleton]
    omega
  sema := by
    have hpos := List.length_pos_iff.2 hps
    change s.sema + 1 = _
    rw [h.sema, List.length_append, List.length_singleton]
    omega
  executed := h.executed

/-- **What one call preserves.** -/
theorem enqueueOperation (h : Placed s₀ s ps slot) {draw : ℕ} {priority : Priority}
    (hcall : s.enqueueOperation true slot draw priority = .ok (s', slot')) :
    Placed s₀ s' (ps ++ [priority]) slot' := by
  have hfresh := h.fresh_eq
  rcases s.enqueueOperation_cases slot draw priority with
    ⟨hslot, heq⟩ | ⟨evicted, hslot, hlt, heq⟩ | ⟨kept, hslot, hle, heq⟩
  · obtain ⟨rfl, rfl⟩ := Prod.mk.inj (Except.ok.inj (heq.symm.trans hcall))
    exact h.fill hslot priority
  · obtain ⟨rfl, rfl⟩ := Prod.mk.inj (Except.ok.inj (heq.symm.trans hcall))
    rcases h.local_slot with ⟨-, hnone⟩ | ⟨k, p, rfl, hurgent⟩
    · simp [hnone] at hslot
    · -- the new operation is the most urgent one, and the `k`-th leaves the slot
      obtain rfl := Option.some.inj hslot
      refine h.push ?_ ⟨ps.length, priority, by rw [hfresh], hurgent.snoc_lt hlt⟩ ?_ draw
      · exact hurgent.ne_nil
      · intro j q hj hne
        rcases getElem?_snoc hj with hj | ⟨rfl, rfl⟩
        · by_cases hjk : j = k
          · subst hjk
            exact Or.inl ⟨rfl, Option.some.inj (hj.symm.trans hurgent.at_k)⟩
          · refine Or.inr ⟨hj, fun heq => hjk ?_⟩
            exact (Nat.add_left_cancel (Option.some.inj heq)).symm
        · exact absurd (by rw [hfresh]) hne
  · obtain ⟨rfl, rfl⟩ := Prod.mk.inj (Except.ok.inj (heq.symm.trans hcall))
    rcases h.local_slot with ⟨-, hnone⟩ | ⟨k, p, rfl, hurgent⟩
    · simp [hnone] at hslot
    · -- the slot stays as it is, also when the new operation is as urgent as the one in it
      refine h.push ?_ ⟨k, p, rfl, hurgent.snoc_le hle⟩ ?_ draw
      · exact hurgent.ne_nil
      · intro j q hj hne
        rcases getElem?_snoc hj with hj | ⟨rfl, rfl⟩
        · exact Or.inr ⟨hj, hne⟩
        · exact Or.inl ⟨hfresh.symm, rfl⟩

/-- What a sequence of calls preserves. -/
theorem enqueueOperations (h : Placed s₀ s ps slot) (calls : List (ℕ × Priority)) :
    ∃ s' slot', s.enqueueOperations slot calls = .ok (s', slot') ∧
      Placed s₀ s' (ps ++ calls.map Prod.snd) slot' := by
  induction calls generalizing s slot ps with
  | nil => exact ⟨s, slot, rfl, by simpa using h⟩
  | cons call calls ih =>
      obtain ⟨draw, priority⟩ := call
      obtain ⟨s₁, slot₁, hcall⟩ :
          ∃ s₁ slot₁, s.enqueueOperation true slot draw priority = .ok (s₁, slot₁) := by
        rcases s.enqueueOperation_cases slot draw priority with
          ⟨-, heq⟩ | ⟨_, -, -, heq⟩ | ⟨_, -, -, heq⟩
        · exact ⟨_, _, heq⟩
        · exact ⟨_, _, heq⟩
        · exact ⟨_, _, heq⟩
      obtain ⟨s', slot', hcalls, hplaced⟩ := ih (h.enqueueOperation hcall)
      refine ⟨s', slot', ?_, by simpa using hplaced⟩
      rw [WeakPriorityThreadPool.enqueueOperations, hcall]
      exact hcalls

end Placed

/-! ### The next operation -/

/-- `Execute` begins with an empty slot, in every run of the pool. -/
theorem slot_empty_of_holding {c : WeakPriorityConfig}
    {tr : List (WeakPriorityPool c.subQueueCount × WeakPriorityAction)}
    {p : WeakPriorityPool c.subQueueCount} (h : (weakPriorityMachine c).Exec tr p) {op : Operation}
    {slot : LocalSlot} (hmem : .worker (.holding op) slot ∈ p.threads) : slot.operation = none :=
  ((weakPriorityInvariant_of_exec h).threads _ hmem).2.2 rfl

/-- When `Execute` returns, the worker takes what is in its slot. -/
theorem takes_local_slot (s : WeakPriorityThreadPool n) (op next : Operation) (p : Priority) :
    (weakPriorityProgram n).Uninterrupted s (.worker (.executing op) ⟨some next, p⟩) [.go, .go]
      { s with executed := s.executed ++ [op] } (.worker (.holding next) ⟨none, p⟩) [] :=
  .head (run_worker (k := .go) rfl) (.single (run_worker (k := .go) rfl))

/-- **The local slot keeps the most urgent successor.**  After any sequence of calls on a worker
inside the `Execute` of `op`, which begins with an empty slot, the slot holds the first of the most
urgent operations of the sequence; every other one is in a sub-queue, in the stack of its own
priority, together with all that was there before; the semaphore has been signalled once for each
operation that has come into the sub-queues; and the one in the slot is what the worker executes
next. -/
theorem local_slot_keeps_most_urgent (s : WeakPriorityThreadPool n) {slot : LocalSlot}
    (hslot : slot.operation = none) (calls : List (ℕ × Priority)) (op : Operation) :
    ∃ s' slot', s.enqueueOperations slot calls = .ok (s', slot') ∧
      s'.priorities = s.priorities ++ calls.map Prod.snd ∧
      (calls = [] → s' = s ∧ slot' = slot) ∧
      (calls ≠ [] → ∃ (k : ℕ) (p : Priority), MostUrgent (calls.map Prod.snd) k p ∧
        slot' = ⟨some (s.fresh + k), p⟩ ∧
        (∀ (j : ℕ) (q : Priority), j ≠ k → (calls.map Prod.snd)[j]? = some q →
          ∃ i, s.fresh + j ∈ (s'.subQueues i).slots q) ∧
        (weakPriorityProgram n).Uninterrupted s' (.worker (.executing op) slot') [.go, .go]
          { s' with executed := s'.executed ++ [op] } (.worker (.holding (s.fresh + k)) ⟨none, p⟩)
          []) ∧
      (∀ i p, (s.subQueues i).slots p <+: (s'.subQueues i).slots p) ∧
      s'.size = s.size + (calls.length - 1) ∧ s'.sema = s.sema + (calls.length - 1) := by
  obtain ⟨s', slot', hcalls, hplaced⟩ := (Placed.start s hslot).enqueueOperations calls
  rw [List.nil_append] at hplaced
  refine ⟨s', slot', hcalls, hplaced.accepted, ?_, ?_, hplaced.kept,
    by simpa using hplaced.size, by simpa using hplaced.sema⟩
  · rintro rfl
    obtain ⟨rfl, rfl⟩ := Prod.mk.inj (Except.ok.inj hcalls)
    exact ⟨rfl, rfl⟩
  · intro hne
    rcases hplaced.local_slot with ⟨hnil, -⟩ | ⟨k, p, rfl, hurgent⟩
    · exact absurd (List.map_eq_nil_iff.1 hnil) hne
    · refine ⟨k, p, hurgent, rfl, ?_, takes_local_slot s' op _ p⟩
      intro j q hjk hj
      refine hplaced.others j q hj fun heq => hjk ?_
      exact (Nat.add_left_cancel (Option.some.inj heq)).symm

/-- The second of four calls evicts the first one and stays before the last one, which is as urgent.
The slot was last used for priority zero. -/
theorem local_slot_keeps_most_urgent_tie :
    ∃ (s' : WeakPriorityThreadPool 2) (slot' : LocalSlot),
      (WeakPriorityThreadPool.initial 2).enqueueOperations ⟨none, 0⟩
        [(0, 2), (1, 1), (0, 3), (1, 1)] = .ok (s', slot') ∧
      slot'.operation = some 1 ∧ (∃ i, 0 ∈ (s'.subQueues i).slots 2) ∧
      (∃ i, 3 ∈ (s'.subQueues i).slots 1) ∧ s'.sema = 3 := by
  obtain ⟨s', slot', hcalls, -, -, hslot, -, -, hsema⟩ :=
    @local_slot_keeps_most_urgent 2 _ (WeakPriorityThreadPool.initial 2) ⟨none, 0⟩ rfl
      [(0, 2), (1, 1), (0, 3), (1, 1)] 0
  obtain ⟨k, p, hurgent, rfl, hothers, -⟩ := hslot (by simp)
  have hcompute : ((WeakPriorityThreadPool.initial 2).enqueueOperations ⟨none, 0⟩
      [(0, 2), (1, 1), (0, 3), (1, 1)]).toOption.map (fun x => x.2.operation)
        = some (some 1) := by decide
  rw [hcalls] at hcompute
  have hk : (WeakPriorityThreadPool.initial 2).fresh + k = 1 :=
    Option.some.inj (Option.some.inj hcompute)
  obtain rfl : k = 1 := by
    simpa [WeakPriorityThreadPool.fresh, WeakPriorityThreadPool.initial] using hk
  exact ⟨s', _, hcalls, rfl, hothers 0 2 (by decide) rfl, hothers 3 1 (by decide) rfl, hsema⟩

end ExActor
