/-
**A sub-queue of the weak-priority thread pool.**

A sub-queue has a stack of operations for each of 64 priorities, and a bitmap that says which stacks
are not empty.  The bitmap is read without the lock by threads that look for a sub-queue to pop
from; both are changed together under the lock.

`tryPop` takes the top of the stack of the lowest bit that is set.  If that stack were empty,
`back()` would be undefined, which is `none` here.

Main definitions:

* `SubQueue`, `SubQueue.push`, `SubQueue.tryPop` — a sub-queue, its two critical sections;
* `SubQueue.WellFormed` — the bitmap says which stacks are not empty;
* `otherIndex`, `order` — which two sub-queues are tried, and in which order.

Main results:

* `SubQueue.WellFormed.push`, `SubQueue.WellFormed.popBack` — the bitmap stays right;
* `SubQueue.WellFormed.tryPop` — **what `tryPop` does**: it is defined, and takes an operation of
  the smallest priority number.
-/

import Mathlib.Algebra.BigOperators.Fin
import Mathlib.Data.Fintype.BigOperators

set_option relaxedAutoImplicit false
set_option autoImplicit false

namespace ExActor

/-! ### Sums over an updated function -/

/-- A sum changes by what one summand changes. -/
theorem sum_update_add {ι β : Type*} [Fintype ι] [DecidableEq ι] (w : β → ℕ) (f : ι → β) (i : ι)
    (b : β) : ∑ j, w (Function.update f i b j) + w (f i) = ∑ j, w (f j) + w b := by
  have hafter := Finset.add_sum_erase Finset.univ (fun j => w (Function.update f i b j))
    (Finset.mem_univ i)
  have hbefore := Finset.add_sum_erase Finset.univ (fun j => w (f j)) (Finset.mem_univ i)
  have hothers : ∑ j ∈ Finset.univ.erase i, w (Function.update f i b j)
      = ∑ j ∈ Finset.univ.erase i, w (f j) :=
    Finset.sum_congr rfl fun j hj => by rw [Function.update_of_ne (Finset.ne_of_mem_erase hj)]
  rw [Function.update_self] at hafter
  omega

/-! ### Sub-queues -/

/-- `kMaxPriorityLevels`. -/
def maxPriorityLevels : ℕ := 64

instance : NeZero maxPriorityLevels := ⟨by decide⟩

/-- A priority that `EnqueueOperation` accepts; a smaller number is more urgent. -/
abbrev Priority := Fin maxPriorityLevels

/-- An operation of the pool, known by its number. -/
abbrev Operation := ℕ

/-- `SubQueue`: the stack of each priority, its top last. -/
structure SubQueue where
  bitmap : BitVec 64
  slots : Priority → List Operation

namespace SubQueue

/-- A sub-queue with nothing in it. -/
def empty : SubQueue := ⟨0, fun _ => []⟩

/-- The critical section of `EnqueueOperation`. -/
def push (sq : SubQueue) (operation : Operation) (priority : Priority) : SubQueue where
  bitmap := sq.bitmap ||| 1#64 <<< priority.val
  slots := Function.update sq.slots priority (sq.slots priority ++ [operation])

/-- `std::countr_zero` of a bitmap that is not zero. -/
def countrZero (bm : BitVec 64) (h : bm ≠ 0) : Priority :=
  ⟨bm.ctz.toNat, BitVec.lt_def.1 (BitVec.ctz_lt_iff_ne_zero.2 h)⟩

/-- `pop_back` from the stack of a priority, whose bit is cleared if nothing is left. -/
def popBack (sq : SubQueue) (pri : Priority) : SubQueue :=
  let slot := (sq.slots pri).dropLast
  { bitmap := if slot = [] then sq.bitmap &&& ~~~(1#64 <<< pri.val) else sq.bitmap
    slots := Function.update sq.slots pri slot }

/-- The critical section `try_pop` of `TryDequeueOperation`: the operation or `nullptr`.  It is
undefined if `back()` is taken from an empty vector. -/
def tryPop (sq : SubQueue) : Option (Option Operation × SubQueue) :=
  if h : sq.bitmap = 0 then some (none, sq)
  else
    let pri := countrZero sq.bitmap h
    (sq.slots pri).getLast?.map fun op => (some op, sq.popBack pri)

/-- How often the operation is in the sub-queue. -/
def count (sq : SubQueue) (op : Operation) : ℕ := ∑ p, (sq.slots p).count op

/-- The number of operations in the sub-queue. -/
def size (sq : SubQueue) : ℕ := ∑ p, (sq.slots p).length

/-- The bitmap says which stacks are not empty. -/
def WellFormed (sq : SubQueue) : Prop :=
  ∀ p : Priority, sq.bitmap.getLsbD p.val = true ↔ sq.slots p ≠ []

variable {sq : SubQueue}

@[simp] theorem count_empty (op : Operation) : empty.count op = 0 := by simp [count, empty]

@[simp] theorem size_empty : empty.size = 0 := by simp [size, empty]

theorem wellFormed_empty : empty.WellFormed := fun p => by simp [empty]

/-- The bit of a priority. -/
theorem getLsbD_one_shiftLeft (p q : Priority) :
    (1#64 <<< p.val).getLsbD q.val = decide (q = p) := by
  have hp : p.val < 64 := p.isLt
  have hq : q.val < 64 := q.isLt
  simp only [BitVec.getLsbD_shiftLeft, BitVec.getLsbD_one, Fin.ext_iff]
  by_cases h : q.val = p.val
  · simp [h, hp]
  · have hne : ¬ (q.val - p.val = 0 ∧ p.val ≤ q.val) := by omega
    by_cases hle : q.val < p.val
    · simp [h, hle]
    · have : q.val - p.val ≠ 0 := by omega
      simp [h, this]

/-! ### Pushing -/

@[simp] theorem count_push (sq : SubQueue) (operation : Operation) (priority : Priority)
    (op : Operation) :
    (sq.push operation priority).count op = sq.count op + [operation].count op := by
  have hsum := sum_update_add (fun slot : List Operation => slot.count op) sq.slots priority
    (sq.slots priority ++ [operation])
  rw [List.count_append] at hsum
  simp only [count, push]
  omega

@[simp] theorem size_push (sq : SubQueue) (operation : Operation) (priority : Priority) :
    (sq.push operation priority).size = sq.size + 1 := by
  have hsum := sum_update_add (fun slot : List Operation => slot.length) sq.slots priority
    (sq.slots priority ++ [operation])
  rw [List.length_append, List.length_singleton] at hsum
  simp only [size, push]
  omega

/-- What is in the sub-queue after a push. -/
theorem mem_push {operation op : Operation} {priority p : Priority}
    (h : op ∈ (sq.push operation priority).slots p) :
    op ∈ sq.slots p ∨ (op = operation ∧ p = priority) := by
  by_cases hp : p = priority
  · subst hp
    simpa [push] using h
  · simp only [push, Function.update_of_ne hp] at h
    exact Or.inl h

/-- A push takes nothing out of a stack. -/
theorem slots_prefix_push (sq : SubQueue) (operation : Operation) (priority p : Priority) :
    sq.slots p <+: (sq.push operation priority).slots p := by
  by_cases hp : p = priority
  · subst hp
    simp [push]
  · simp [push, Function.update_of_ne hp]

/-- A push keeps the bitmap right. -/
theorem WellFormed.push (h : sq.WellFormed) (operation : Operation) (priority : Priority) :
    (sq.push operation priority).WellFormed := by
  intro p
  rw [SubQueue.push, BitVec.getLsbD_or, getLsbD_one_shiftLeft]
  by_cases hp : p = priority
  · subst hp
    simp
  · simpa [hp, Function.update_of_ne hp] using h p

/-! ### Popping -/

section popBack

variable {pri : Priority} {rest : List Operation} {op : Operation}

theorem count_popBack (h : sq.slots pri = rest ++ [op]) (op' : Operation) :
    (sq.popBack pri).count op' + [op].count op' = sq.count op' := by
  have hsum := sum_update_add (fun slot : List Operation => slot.count op') sq.slots pri
    (sq.slots pri).dropLast
  rw [h, List.count_append, List.dropLast_concat] at hsum
  simp only [count, popBack, h, List.dropLast_concat]
  omega

theorem size_popBack (h : sq.slots pri = rest ++ [op]) : (sq.popBack pri).size + 1 = sq.size := by
  have hsum := sum_update_add (fun slot : List Operation => slot.length) sq.slots pri
    (sq.slots pri).dropLast
  rw [h, List.length_append, List.length_singleton, List.dropLast_concat] at hsum
  simp only [size, popBack, h, List.dropLast_concat]
  omega

/-- What is left in the sub-queue was in it. -/
theorem mem_of_mem_popBack {p : Priority} (h : op ∈ (sq.popBack pri).slots p) :
    op ∈ sq.slots p := by
  by_cases hp : p = pri
  · subst hp
    simp only [popBack, Function.update_self] at h
    exact List.mem_of_mem_dropLast h
  · simpa [popBack, Function.update_of_ne hp] using h

/-- Popping keeps the bitmap right. -/
theorem WellFormed.popBack (h : sq.WellFormed) (hslot : sq.slots pri = rest ++ [op]) :
    (sq.popBack pri).WellFormed := by
  intro p
  simp only [SubQueue.popBack, hslot, List.dropLast_concat]
  by_cases hp : p = pri
  · subst hp
    rw [Function.update_self]
    split
    · next hrest =>
        rw [BitVec.getLsbD_and, BitVec.getLsbD_not, getLsbD_one_shiftLeft]
        simp [hrest]
    · next hrest =>
        have hbit := (h p).2 (by simp [hslot])
        simp [hbit, hrest]
  · rw [Function.update_of_ne hp, ← h p]
    have hlt : p.val < 64 := p.isLt
    split
    · rw [BitVec.getLsbD_and, BitVec.getLsbD_not, getLsbD_one_shiftLeft]
      simp [hp, hlt]
    · rfl

end popBack

/-- An operation that `tryPop` returns was the top of a stack. -/
theorem tryPop_eq_some {op : Operation} {sq' : SubQueue} (h : sq.tryPop = some (some op, sq')) :
    ∃ pri rest, sq.slots pri = rest ++ [op] ∧ sq' = sq.popBack pri := by
  unfold tryPop at h
  split at h
  · simp at h
  · next hne =>
      obtain ⟨op', hlast, heq⟩ := Option.map_eq_some_iff.1 h
      obtain ⟨hop, rfl⟩ := Prod.mk.inj heq
      obtain rfl := Option.some.inj hop
      exact ⟨_, _, (List.dropLast_append_getLast? op' hlast).symm, rfl⟩

/-- Below the lowest bit that is set all stacks are empty. -/
theorem WellFormed.slots_eq_nil (h : sq.WellFormed) {p : Priority}
    (hp : p.val < sq.bitmap.ctz.toNat) : sq.slots p = [] := by
  by_contra hne
  have hlow := BitVec.getLsbD_false_of_lt_ctz (x := sq.bitmap) hp
  rw [(h p).2 hne] at hlow
  simp at hlow

/-- A bitmap without a bit says that all stacks are empty. -/
theorem WellFormed.bitmap_eq_zero_iff (h : sq.WellFormed) :
    sq.bitmap = 0 ↔ ∀ p, sq.slots p = [] := by
  constructor
  · intro hzero p
    by_contra hne
    have hbit := (h p).2 hne
    simp [hzero] at hbit
  · intro hempty
    by_contra hne
    have hbit : sq.bitmap.getLsbD (countrZero sq.bitmap hne).val = true :=
      BitVec.getLsbD_true_ctz_of_ne_zero hne
    exact (h _).1 hbit (hempty _)

/-- From a sub-queue that is not empty `tryPop` takes the top of the stack of the lowest bit. -/
theorem WellFormed.tryPop_countrZero (h : sq.WellFormed) (hne : sq.bitmap ≠ 0) :
    ∃ rest op, sq.slots (countrZero sq.bitmap hne) = rest ++ [op] ∧
      sq.tryPop = some (some op, sq.popBack (countrZero sq.bitmap hne)) := by
  have hbit : sq.bitmap.getLsbD (countrZero sq.bitmap hne).val = true :=
    BitVec.getLsbD_true_ctz_of_ne_zero hne
  obtain ⟨rest, op, hslot⟩ := (List.eq_nil_or_concat _).resolve_left ((h _).1 hbit)
  rw [List.concat_eq_append] at hslot
  refine ⟨rest, op, hslot, ?_⟩
  simp only [SubQueue.tryPop, hne, dite_false, hslot, List.getLast?_concat, Option.map_some]

/-- **What `tryPop` does** to a sub-queue whose bitmap is right: nothing if it is empty, and else it
takes the top of the stack of the smallest priority number. -/
theorem WellFormed.tryPop (h : sq.WellFormed) :
    (sq.tryPop = some (none, sq) ∧ ∀ p, sq.slots p = []) ∨
    ∃ pri rest op, sq.tryPop = some (some op, sq.popBack pri) ∧ sq.slots pri = rest ++ [op] ∧
      ∀ p < pri, sq.slots p = [] := by
  by_cases hzero : sq.bitmap = 0
  · exact Or.inl ⟨by simp [SubQueue.tryPop, hzero], h.bitmap_eq_zero_iff.1 hzero⟩
  · obtain ⟨rest, op, hslot, hpop⟩ := h.tryPop_countrZero hzero
    exact Or.inr ⟨_, rest, op, hpop, hslot, fun p hp => h.slots_eq_nil (Fin.lt_def.1 hp)⟩

end SubQueue

/-! ### Two sub-queues -/

/-- The second index: the one that was drawn, or the next one if the two are the same. -/
def otherIndex {n : ℕ} [NeZero n] (a b : Fin n) : Fin n := if b = a then b + 1 else b

/-- Which sub-queue is tried first and which second, by the bitmaps that were read; none if both
were empty. -/
def order {n : ℕ} (a b : Fin n) (bmA bmB : BitVec 64) : Option (Fin n × Fin n) :=
  if bmA = 0 ∧ bmB = 0 then none
  else if bmA = 0 ∨ (bmB ≠ 0 ∧ bmB.ctz < bmA.ctz) then some (b, a)
  else some (a, b)

end ExActor
