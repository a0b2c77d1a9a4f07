/-
**The size of the bounded queue of an actor, and the check in its `Pop`.**

`Size` subtracts `dequeue_pos_` from `enqueue_pos_` without a test, and `Pop` throws when it finds a
sequence number that is ahead of its own position.  Both rest on where the positions can be: never
more than a capacity is claimed and not released, and the cell at the head is one that its producer
has published, or has not yet.

Inside a `Pop`, after its cell has been freed and before `dequeue_pos_` has been incremented, a
producer may claim that cell for the next lap, and then the two positions are a capacity and one
apart; so the consumer may ask for the size between its calls of `Pop`, and not during one.

Main results:

* `Matches.enqueuePos_toNat`, `Matches.dequeuePos_toNat` — the positions, as numbers;
* `Matches.sequence_head` — the sequence number that a `Pop` finds;
* `ring_sequence_invariant` — **the size is right and the check never fires**.
-/

import ExActor.BoundedMpscQueueFifo

set_option relaxedAutoImplicit false
set_option autoImplicit false

namespace ExActor

open BoundedFifo (History WellFormed claims)

section Positions

variable {α : Type} {C : Capacity} {f : BoundedFifo (Option α)} {p : QueuePool α C}

/-! ### The positions -/

/-- `enqueue_pos_` counts the claims. -/
theorem Matches.enqueuePos_toNat (h : Matches f p) (hbound : f.claimed.length < 2 ^ 63) :
    p.shared.queue.enqueuePos.toNat = f.claimed.length := by
  rw [h.enqueuePos, BitVec.toNat_ofNat]
  exact Nat.mod_eq_of_lt (by omega)

/-- `dequeue_pos_` counts the elements that were released, unless it is about to be incremented. -/
theorem Matches.dequeuePos_toNat (h : Matches f p) (hf : WellFormed C.val f)
    (hbound : f.claimed.length < 2 ^ 63) (hzero : p.total QueueThread.increments = 0) :
    p.shared.queue.dequeuePos.toNat = f.released := by
  have hle := hf.released_le
  rw [h.position hzero, BitVec.toNat_ofNat]
  exact Nat.mod_eq_of_lt (by omega)

/-- Outside `Pop` nothing is about to be incremented. -/
theorem increments_of_idle (hidle : p.total QueueThread.isConsumer = 0) :
    p.total QueueThread.increments = 0 := by
  rw [Pool.total_eq_zero_iff] at hidle ⊢
  intro t ht
  exact increments_eq_zero (hidle t ht)

/-- A `Pop` that begins has not incremented anything, and the consumer is alone. -/
theorem Matches.increments_of_pop (h : Matches f p)
    (hpop : QueueThread.tryPop .loadSequence ∈ p.threads) :
    p.total QueueThread.increments = 0 := by
  rcases p with ⟨s, ts⟩
  obtain ⟨l, r, rfl⟩ := List.append_of_mem hpop
  exact h.total_increments rfl rfl

/-- **The sequence number that a `Pop` finds** is its position, or one more. -/
theorem Matches.sequence_head (h : Matches f p) (hf : WellFormed C.val f)
    (hbound : f.claimed.length < 2 ^ 63) (hzero : p.total QueueThread.increments = 0) :
    let pos := p.shared.queue.dequeuePos
    (p.shared.queue.cell pos).sequence = pos ∨ (p.shared.queue.cell pos).sequence = pos + 1 := by
  intro pos
  have hcap := C.pos
  have hpos : pos = BitVec.ofNat 64 f.released := h.position hzero
  have hnat : pos.toNat = f.released := h.dequeuePos_toNat hf hbound hzero
  have hseq := h.sequence f.released (Nat.le_refl _) (by omega)
  rw [BoundedMpscQueue.cell_eq, hnat, hseq, hpos, ofNat_succ]
  split
  · exact Or.inr rfl
  · exact Or.inl rfl

/-! ### Every run -/

/-- **The ring sequence invariant.**  As long as fewer than `2 ^ 63` pushes have claimed a position:
while the consumer is not inside `Pop`, `enqueue_pos_` is between `dequeue_pos_` and a capacity
more, so that `Size` is their difference and at most `Capacity`; a `Pop` that loads its sequence
number finds `dequeue_pos_` or one more; and the check in `Pop` has not thrown. -/
theorem ring_sequence_invariant {tr : List (QueuePool α C × QueueAction α)} {p : QueuePool α C}
    (h : (BoundedMpscQueue.machine α C).Exec tr p) (hfew : (claims p.shared.log).length < 2 ^ 63) :
    let q := p.shared.queue
    (p.total QueueThread.isConsumer = 0 →
      q.dequeuePos.toNat ≤ q.enqueuePos.toNat ∧
      q.enqueuePos.toNat ≤ q.dequeuePos.toNat + C.val ∧
      q.size.toNat = q.enqueuePos.toNat - q.dequeuePos.toNat ∧
      q.size.toNat ≤ q.capacity.toNat) ∧
    (QueueThread.tryPop .loadSequence ∈ p.threads →
      (q.cell q.dequeuePos).sequence = q.dequeuePos ∨
      (q.cell q.dequeuePos).sequence = q.dequeuePos + 1) ∧
    ∀ what, .fault what ∉ p.shared.log := by
  intro q
  obtain ⟨f, hlog, hmatches⟩ := matches_of_exec h hfew
  rw [← hlog.claimed_eq] at hfew
  have hf := hlog.wellFormed
  refine ⟨?_, ?_, hlog.fault_notMem⟩
  · intro hidle
    have henq : q.enqueuePos.toNat = _ := hmatches.enqueuePos_toNat hfew
    have hdeq : q.dequeuePos.toNat = _ :=
      hmatches.dequeuePos_toNat hf hfew (increments_of_idle hidle)
    have hle := hf.released_le
    have hcap := hf.claimed_le
    have hcapacity : q.capacity.toNat = C.val := by
      have := C.le
      rw [BoundedMpscQueue.capacity, BitVec.toNat_ofNat]
      exact Nat.mod_eq_of_lt (by omega)
    have hsize : q.size.toNat = q.enqueuePos.toNat - q.dequeuePos.toNat :=
      BitVec.toNat_sub_of_le (BitVec.le_def.2 (by omega))
    exact ⟨by omega, by omega, hsize, by omega⟩
  · intro hpop
    exact hmatches.sequence_head hf hfew (hmatches.increments_of_pop hpop)

end Positions

/-- Two pushes fill a queue of capacity two, whose size is then two; a pop that begins finds that
the element at the head is published. -/
theorem ring_sequence_invariant_two :
    ∃ (tr tr' : List (QueuePool ℕ Capacity.two × QueueAction ℕ))
      (p p' : QueuePool ℕ Capacity.two),
      (BoundedMpscQueue.machine ℕ Capacity.two).Exec tr p ∧
      (BoundedMpscQueue.machine ℕ Capacity.two).Exec tr' p' ∧
      p.total QueueThread.isConsumer = 0 ∧ QueueThread.tryPop .loadSequence ∈ p'.threads ∧
      p.shared.queue.size = 2 ∧ p.shared.queue.size.toNat ≤ p.shared.queue.capacity.toNat ∧
      (p'.shared.queue.cell p'.shared.queue.dequeuePos).sequence = 1 ∧
      ∀ what, .fault what ∉ p'.shared.log := by
  let L : List (QueueAction ℕ) :=
    [.arrive (.push 10)] ++ queueSteps 0 5 ++ [.arrive (.push 20)] ++ queueSteps 0 5
  have h0 : (BoundedMpscQueue.machine ℕ Capacity.two).init
      ⟨BoundedMpscQueue.start ℕ Capacity.two, []⟩ := ⟨rfl, rfl⟩
  obtain ⟨p, hex, hp⟩ := Machine.exists_exec_of_replay h0 L
    (fun p => ((claims p.shared.log).length, p.total QueueThread.isConsumer, p.shared.queue.size))
    (2, 0, 2) (by decide)
  obtain ⟨p', hex', hp'⟩ := Machine.exists_exec_of_replay h0 (L ++ [.arrive .tryPop])
    (fun p => ((claims p.shared.log).length, p.threads,
      (p.shared.queue.cell p.shared.queue.dequeuePos).sequence))
    (2, [.tryPop .loadSequence], 1) (by decide)
  simp only [Prod.mk.injEq] at hp hp'
  obtain ⟨hclaims, hidle, hsize⟩ := hp
  obtain ⟨hclaims', hthreads, hseq⟩ := hp'
  have hpop : QueueThread.tryPop .loadSequence ∈ p'.threads := by simp [hthreads]
  have hinv := ring_sequence_invariant hex (by omega)
  have hinv' := ring_sequence_invariant hex' (by omega)
  exact ⟨_, _, p, p', hex, hex', hidle, hpop, hsize, (hinv.1 hidle).2.2.2, hseq, hinv'.2.2⟩

-- between the two last steps of a pop, a third push claims the cell that has just been freed
example :
    ((BoundedMpscQueue.machine ℕ Capacity.two).replay ⟨BoundedMpscQueue.start ℕ Capacity.two, []⟩
      ([.arrive (.push 10)] ++ queueSteps 0 5 ++ [.arrive (.push 20)] ++ queueSteps 0 5
        ++ [.arrive .tryPop] ++ queueSteps 0 3 ++ [.arrive (.push 30)] ++ queueSteps 1 3)).map
      (fun p => p.shared.queue.size) = some 3 := by decide

end ExActor
