/-
**The bounded queue of an actor: many producers, one consumer.**

`BoundedMpscQueue` of `container.h` is a ring of cells.  A cell carries a sequence number that says
for which position of the endless line of elements it is ready: `pos` while the producer of that
position may write it, `pos + 1` once its element is there, and `pos + capacity_` after the
consumer has freed it for the next lap.  A producer claims a position by a compare-exchange on
`enqueue_pos_`; the single consumer owns `dequeue_pos_`.

This module is the model: one indivisible step for every load, store and compare-exchange on a
sequence number or on `enqueue_pos_` and for every access to the data of a cell.  The weak
compare-exchange may fail spuriously, which each step is told.  The increment of `dequeue_pos_` is a
step as well: producers may claim the cell that a `Pop` has just freed before it counts the element
as gone.

The data of a cell is `none` as long as it is the default value of `T`, and again after it has been
moved from.  Positions and sequence numbers are 64-bit words, and the two are compared by the sign
of their difference, on a two's complement machine.

Main definitions:

* `Capacity`, `allocate` — the capacities the constructor can end up with;
* `BoundedMpscQueue` — the members;
* `pushStep`, `tryPopStep` — the steps of `Push` and of `TryPop`;
* `BoundedMpscQueue.machine` — the interleavings of any number of producers and one consumer.
-/

import ExActor.Basic
import ExActor.BoundedFifo
import ExActor.Interleaving
import ExActor.Mailbox

set_option relaxedAutoImplicit false
set_option autoImplicit false

namespace ExActor

/-! ### The members -/

/-- The size and the alignment of a cell, in bytes. -/
def kCacheLineSize : ℕ := 64

/-- A capacity: a power of two, of which there are two cells at least, and no more than the address
space holds. -/
structure Capacity where
  val : ℕ
  pow : ∃ k, 1 ≤ k ∧ k ≤ 58 ∧ val = 2 ^ k
deriving DecidableEq

/-- The capacity the constructor allocates its cells for; the allocation fails when they do not fit
in the address space. -/
def allocate (capacity : ℕ) : Option Capacity :=
  if h : bitCeil (max capacity 2) * kCacheLineSize ≤ 2 ^ 64 then
    some
      { val := bitCeil (max capacity 2)
        pow := by
          refine ⟨Nat.clog 2 (max capacity 2), Nat.clog_pos (by omega) (by omega), ?_, rfl⟩
          have hle : 2 ^ Nat.clog 2 (max capacity 2) * 2 ^ 6 ≤ 2 ^ 64 := h
          rw [← Nat.pow_add] at hle
          have := (Nat.pow_le_pow_iff_right (by omega)).1 hle
          omega }
  else none

/-- `cell_t`. -/
structure Cell (α : Type) where
  sequence : SizeT
  data : Option α

/-- `BoundedMpscQueue<T>`, with `capacity_` as a parameter: it never changes. -/
structure BoundedMpscQueue (α : Type) (C : Capacity) where
  buffer : Fin C.val → Cell α
  enqueuePos : SizeT
  dequeuePos : SizeT

namespace Capacity

variable (C : Capacity)

/-- `mask_`. -/
def mask : SizeT := BitVec.ofNat 64 (C.val - 1)

theorem pos : 0 < C.val := by
  obtain ⟨k, -, -, hk⟩ := C.pow
  rw [hk]
  exact Nat.two_pow_pos k

theorem even : C.val % 2 = 0 := by
  obtain ⟨k, hk1, -, hk⟩ := C.pow
  rw [hk]
  obtain ⟨k, rfl⟩ := Nat.exists_eq_add_of_le hk1
  simp [Nat.pow_add]

theorem le : C.val ≤ 2 ^ 58 := by
  obtain ⟨k, -, hk, hpow⟩ := C.pow
  rw [hpow]
  exact Nat.pow_le_pow_right (by omega) hk

/-- Masking a position is taking it modulo the capacity. -/
theorem and_mask (pos : SizeT) : (pos &&& C.mask).toNat = pos.toNat % C.val := by
  obtain ⟨k, -, hk, hpow⟩ := C.pow
  have hlt : C.val - 1 < 2 ^ 64 := by
    have := C.le
    omega
  rw [BitVec.toNat_and, mask, BitVec.toNat_ofNat, Nat.mod_eq_of_lt hlt, hpow,
    Nat.and_two_pow_sub_one_eq_mod]

/-- The cell of the `n`-th position. -/
def slot (n : ℕ) : Fin C.val := ⟨n % C.val, Nat.mod_lt n C.pos⟩

/-- `pos & mask_`. -/
def index (pos : SizeT) : Fin C.val :=
  ⟨(pos &&& C.mask).toNat, by rw [C.and_mask]; exact Nat.mod_lt _ C.pos⟩

theorem index_eq (pos : SizeT) : C.index pos = C.slot pos.toNat :=
  Fin.ext (C.and_mask pos)

end Capacity

namespace BoundedMpscQueue

variable {α : Type} {C : Capacity}

/-- The constructor. -/
def initial (α : Type) (C : Capacity) : BoundedMpscQueue α C where
  buffer i := ⟨BitVec.ofNat 64 i, none⟩
  enqueuePos := 0
  dequeuePos := 0

/-- `Capacity`. -/
def capacity (_ : BoundedMpscQueue α C) : SizeT := BitVec.ofNat 64 C.val

/-- `Size`, which the consumer calls. -/
def size (q : BoundedMpscQueue α C) : SizeT := q.enqueuePos - q.dequeuePos

/-- `buffer_[pos & mask_]`. -/
def cell (q : BoundedMpscQueue α C) (pos : SizeT) : Cell α := q.buffer (C.index pos)

/-- `buffer_[pos & mask_]` is assigned to. -/
def setCell (q : BoundedMpscQueue α C) (pos : SizeT) (c : Cell α) : BoundedMpscQueue α C :=
  { q with buffer := Function.update q.buffer (C.index pos) c }

end BoundedMpscQueue

/-- The difference of two words as `std::ptrdiff_t`. -/
def ptrdiff (a b : SizeT) : ℤ := (a - b).toInt

/-! ### The threads -/

/-- Where a `Push` stands. -/
inductive ProducerPc
  | loadEnqueuePos
  | loadSequence (pos : SizeT)
  | compareExchange (pos : SizeT)
  | writeData (pos : SizeT)
  | storeSequence (pos : SizeT)
deriving DecidableEq

/-- Where a `TryPop` stands. -/
inductive ConsumerPc (α : Type)
  | loadSequence
  | readData
  | storeSequence (data : Option α)
  | increment
deriving DecidableEq

/-- A thread that runs code of the queue. -/
inductive QueueThread (α : Type)
  | push (v : α) (pc : ProducerPc)
  | tryPop (pc : ConsumerPc α)
deriving DecidableEq

/-- The queue, and what has happened to it. -/
structure QueueState (α : Type) (C : Capacity) where
  queue : BoundedMpscQueue α C
  log : List (BoundedFifo.Event (Option α))

/-- The state with an event recorded. -/
def QueueState.emit {α : Type} {C : Capacity} (s : QueueState α C)
    (e : BoundedFifo.Event (Option α)) : QueueState α C := { s with log := s.log ++ [e] }

/-- The exception of the check in `Pop`, without the file and line that the macro puts first. -/
def unexpectedSequence (diff : ℤ) : String :=
  "Check failed, expected `diff == 0` is true, got false. "
    ++ "BoundedMpscQueue: unexpected sequence state in Pop, diff=" ++ toString diff

/-! ### The steps -/

section Steps

variable {α : Type} {C : Capacity}

/-- One step of `Push`.  Where it ends, the event says whether it returns true or false. -/
def pushStep (s : QueueState α C) (v : α) (spurious : Bool) :
    ProducerPc → QueueState α C × List (QueueThread α)
  | .loadEnqueuePos => (s, [.push v (.loadSequence s.queue.enqueuePos)])
  | .loadSequence pos =>
      let diff := ptrdiff (s.queue.cell pos).sequence pos
      if diff = 0 then (s, [.push v (.compareExchange pos)])
      else if diff < 0 then (s.emit .refuse, [])
      else (s, [.push v .loadEnqueuePos])
  | .compareExchange pos =>
      if s.queue.enqueuePos = pos ∧ spurious = false then
        ({ s with queue := { s.queue with enqueuePos := pos + 1 } }.emit (.claim (some v)),
          [.push v (.writeData pos)])
      -- a failed compare-exchange loads the position it found
      else (s, [.push v (.loadSequence s.queue.enqueuePos)])
  | .writeData pos =>
      ({ s with queue := s.queue.setCell pos { s.queue.cell pos with data := some v } },
        [.push v (.storeSequence pos)])
  | .storeSequence pos =>
      ({ s with queue :=
          s.queue.setCell pos { s.queue.cell pos with sequence := pos + 1 } }.emit
            (.publish pos.toNat), [])

/-- One step of `TryPop`, which runs `Pop`.  The event says what it returns: nothing, an exception,
or the element whose cell it frees. -/
def tryPopStep (s : QueueState α C) : ConsumerPc α → QueueState α C × List (QueueThread α)
  | .loadSequence =>
      let diff := ptrdiff (s.queue.cell s.queue.dequeuePos).sequence (s.queue.dequeuePos + 1)
      if diff < 0 then (s.emit .miss, [])
      else if diff = 0 then (s, [.tryPop .readData])
      else (s.emit (.fault (unexpectedSequence diff)), [])
  | .readData =>
      let c := s.queue.cell s.queue.dequeuePos
      ({ s with queue := s.queue.setCell s.queue.dequeuePos { c with data := none } },
        [.tryPop (.storeSequence c.data)])
  | .storeSequence data =>
      let pos := s.queue.dequeuePos
      let freed := { s.queue.cell pos with sequence := pos + BitVec.ofNat 64 C.val }
      ({ s with queue := s.queue.setCell pos freed }.emit (.release data), [.tryPop .increment])
  | .increment =>
      ({ s with queue := { s.queue with dequeuePos := s.queue.dequeuePos + 1 } }, [])

/-- One step of a thread; `spurious` says that a weak compare-exchange fails for no reason. -/
def queueStep (s : QueueState α C) : QueueThread α → Bool → QueueState α C × List (QueueThread α)
  | .push v pc, spurious => pushStep s v spurious pc
  | .tryPop pc, _ => tryPopStep s pc

/-! ### The interleavings -/

/-- The thread is a `TryPop`. -/
def QueueThread.isConsumer : QueueThread α → ℕ
  | .tryPop _ => 1
  | _ => 0

/-- The calls that arrive from outside. -/
inductive QueueCall (α : Type)
  | push (v : α)
  | tryPop
deriving DecidableEq

/-- A queue with its threads. -/
abbrev QueuePool (α : Type) (C : Capacity) := Pool (QueueState α C) (QueueThread α)

/-- The actions of a queue with its threads. -/
abbrev QueueAction (α : Type) := PoolAction Bool (QueueCall α)

/-- A call begins.  There is exactly one consumer: it calls `TryPop` again only after the last call
has returned. -/
def arriveQueue (p : QueuePool α C) :
    QueueCall α → Option (QueueState α C × QueueThread α)
  | .push v => some (p.shared, .push v .loadEnqueuePos)
  | .tryPop =>
      if p.total QueueThread.isConsumer = 0 then some (p.shared, .tryPop .loadSequence) else none

end Steps

namespace BoundedMpscQueue

variable (α : Type) (C : Capacity)

/-- The thread program of a queue. -/
def program : ThreadProgram (QueueState α C) (QueueThread α) Bool (QueueCall α) where
  run s t spurious := some (queueStep s t spurious)
  arrive := arriveQueue

/-- A queue after its constructor. -/
def start : QueueState α C := ⟨initial α C, []⟩

/-- All interleavings of the producers and the consumer of a queue. -/
def machine : Machine (QueuePool α C) (QueueAction α) :=
  (program α C).machine (· = start α C)

end BoundedMpscQueue

end ExActor
