/-
**The preallocated slot of an actor's activations.**

`PreallocSlot` of `util.h` is storage for one object with a flag that says whether it is in use, and
`PreallocSlotAllocator` serves a request for a single object from it, when the object fits and the
slot is free, and any other request from the heap.  When an allocation is given back, the allocator
has only its address to tell where it came from.

The allocators that are rebound to one slot differ in their value types alone, so any number of them
is a choice of the value type for each request.  A thread of this model is the life of one
allocation: it is requested, it is live until somebody gives it back, on whatever thread, and it is
given back once.  The accesses to the flag are sequentially consistent, and what the heap does is
one step.  The heap returns storage that is outside the slot and apart from all that it has
returned and not yet got back, with an address of its own even for no bytes; or it throws.

Main definitions:

* `PreallocSlot`, `ValueType`, `PreallocSlotAllocator`, `Allocation` — the slot, `sizeof` and
  `alignof` of a type, the allocators, what they return;
* `PreallocSlotState.tryAllocate`, `PreallocSlotState.tryDeallocate` — the functions of the slot;
* `allocatorStep`, `preallocSlotMachine` — the steps of a request, and all interleavings;
* `Allocation.UsesSlot` — the allocation has a byte of the slot;
* `SlotInvariant` — who has the slot, and what the heap has lent.

Main results:

* `slotInvariant_of_exec` — the invariant holds in every reachable state;
* `slot_never_shared` — **the slot has at most one holder, and is given back by its holder only**.
-/

import ExActor.Interleaving

set_option relaxedAutoImplicit false
set_option autoImplicit false

namespace ExActor

/-! ### The slot and its allocators -/

/-- What does not change of a `PreallocSlot<kSlotSize>`: the address of `bytes_` and its size, and
`alignof(std::max_align_t)`, to which it is aligned. -/
structure PreallocSlot where
  bytes : ℕ
  kSlotSize : ℕ
  maxAlign : ℕ
  kSlotSize_pos : 0 < kSlotSize
  aligned : maxAlign ∣ bytes

/-- `sizeof(T)` and `alignof(T)`. -/
structure ValueType where
  size : ℕ
  alignment : ℕ
  size_pos : 0 < size
deriving DecidableEq

/-- `PreallocSlotAllocator<T, kSlotSize>` whose `storage_` is the slot. -/
structure PreallocSlotAllocator (S : PreallocSlot) where
  valueType : ValueType

/-- The conversion from an allocator for another type, which keeps `storage_`. -/
def PreallocSlotAllocator.rebind {S : PreallocSlot} (_ : PreallocSlotAllocator S) (U : ValueType) :
    PreallocSlotAllocator S := ⟨U⟩

/-- What `allocate(count)` has returned for objects of a type. -/
structure Allocation where
  ptr : ℕ
  valueType : ValueType
  count : ℕ
deriving DecidableEq

namespace Allocation

/-- The number of its bytes. -/
def size (a : Allocation) : ℕ := a.valueType.size * a.count

/-- The allocation has a byte of the slot. -/
def UsesSlot (S : PreallocSlot) (a : Allocation) : Prop :=
  ∃ x, (a.ptr ≤ x ∧ x < a.ptr + a.size) ∧ S.bytes ≤ x ∧ x < S.bytes + S.kSlotSize

/-- All of it, its address included, is outside the slot. -/
def Outside (S : PreallocSlot) (a : Allocation) : Prop :=
  a.ptr + max 1 a.size ≤ S.bytes ∨ S.bytes + S.kSlotSize ≤ a.ptr

/-- Two allocations have neither a byte nor the address in common. -/
def Apart (a b : Allocation) : Prop :=
  a.ptr + max 1 a.size ≤ b.ptr ∨ b.ptr + max 1 b.size ≤ a.ptr

instance (S : PreallocSlot) (a : Allocation) : Decidable (a.Outside S) :=
  inferInstanceAs (Decidable (_ ∨ _))

instance (a b : Allocation) : Decidable (a.Apart b) := inferInstanceAs (Decidable (_ ∨ _))

theorem Outside.not_usesSlot {S : PreallocSlot} {a : Allocation} (h : a.Outside S) :
    ¬ a.UsesSlot S := by
  rintro ⟨x, ⟨hlo, hhi⟩, hlo', hhi'⟩
  unfold Outside at h
  omega

theorem Outside.ptr_ne {S : PreallocSlot} {a : Allocation} (h : a.Outside S) :
    a.ptr ≠ S.bytes := by
  have hpos := S.kSlotSize_pos
  unfold Outside at h
  omega

end Allocation

/-- `in_use_`, and what `std::allocator` has returned and not yet got back. -/
structure PreallocSlotState where
  inUse : Bool
  heap : List Allocation
deriving DecidableEq

namespace PreallocSlotState

variable (S : PreallocSlot)

/-- `TryAllocate`: the address of the slot, or null. -/
def tryAllocate (s : PreallocSlotState) (size alignment : ℕ) : PreallocSlotState × Option ℕ :=
  if S.kSlotSize < size ∨ S.maxAlign < alignment then (s, none)
  else if s.inUse = false then ({ s with inUse := true }, some S.bytes)
  else (s, none)

/-- `TryDeallocate`: whether the address is that of the slot. -/
def tryDeallocate (s : PreallocSlotState) (ptr : ℕ) : PreallocSlotState × Bool :=
  if ptr = S.bytes then ({ s with inUse := false }, true) else (s, false)

/-- The heap may return this. -/
def Fresh (s : PreallocSlotState) (a : Allocation) : Prop :=
  a.Outside S ∧ ∀ b ∈ s.heap, a.Apart b

instance (s : PreallocSlotState) (a : Allocation) : Decidable (s.Fresh S a) :=
  inferInstanceAs (Decidable (_ ∧ _))

end PreallocSlotState

/-! ### The life of an allocation -/

/-- Where a request is, from `allocate` to the end of `deallocate`. -/
inductive AllocationThread
  | allocate (T : ValueType) (count : ℕ)
  /-- `TryAllocate` has just succeeded. -/
  | claimed (a : Allocation)
  /-- `allocate` goes to the heap. -/
  | fallback (T : ValueType) (count : ℕ)
  | live (a : Allocation)
  | deallocate (a : Allocation)
  /-- `deallocate` gives it back to the heap. -/
  | heapDeallocate (a : Allocation)
deriving DecidableEq

/-- What is not decided by the allocator. -/
inductive AllocatorChoice
  | go
  /-- The heap returns this address. -/
  | returns (ptr : ℕ)
  /-- The heap throws. -/
  | throws
deriving DecidableEq

/-- A call of `allocate(count)` of one of the allocators. -/
structure AllocateCall (S : PreallocSlot) where
  allocator : PreallocSlotAllocator S
  count : ℕ

/-- One step of a request.  Giving something to the heap that it has not lent is undefined. -/
def allocatorStep (S : PreallocSlot) (s : PreallocSlotState) :
    AllocationThread → AllocatorChoice → Option (PreallocSlotState × List AllocationThread)
  | .allocate T count, .go =>
      if count = 1 then
        match s.tryAllocate S T.size T.alignment with
        | (s', some ptr) => some (s', [.claimed ⟨ptr, T, count⟩])
        | (s', none) => some (s', [.fallback T count])
      else some (s, [.fallback T count])
  | .claimed a, .go => some (s, [.live a])
  | .fallback T count, .returns ptr =>
      let a : Allocation := ⟨ptr, T, count⟩
      if s.Fresh S a then some ({ s with heap := a :: s.heap }, [.live a]) else none
  | .fallback _ _, .throws => some (s, [])
  | .live a, .go => some (s, [.deallocate a])
  | .deallocate a, .go =>
      match s.tryDeallocate S a.ptr with
      | (s', true) => some (s', [])
      | (s', false) => some (s', [.heapDeallocate a])
  | .heapDeallocate a, .go =>
      if a ∈ s.heap then some ({ s with heap := s.heap.erase a }, []) else none
  | _, _ => none

/-- The requests to the allocators of a slot. -/
def preallocSlotProgram (S : PreallocSlot) :
    ThreadProgram PreallocSlotState AllocationThread AllocatorChoice (AllocateCall S) where
  run := allocatorStep S
  arrive p call := some (p.shared, .allocate call.allocator.valueType call.count)

/-- A slot and the requests to its allocators. -/
abbrev SlotPool := Pool PreallocSlotState AllocationThread

/-- All interleavings of requests to the allocators of a slot that is free at the beginning. -/
def preallocSlotMachine (S : PreallocSlot) :
    Machine SlotPool (PoolAction AllocatorChoice (AllocateCall S)) :=
  (preallocSlotProgram S).machine fun s => s = ⟨false, []⟩

/-! ### The steps -/

/-- **What a step of a request does.** -/
inductive AllocatorStep (S : PreallocSlot) (s : PreallocSlotState) :
    AllocationThread → PreallocSlotState → List AllocationThread → Prop
  | claims (T : ValueType) : s.inUse = false → T.size ≤ S.kSlotSize → T.alignment ≤ S.maxAlign →
      AllocatorStep S s (.allocate T 1) { s with inUse := true } [.claimed ⟨S.bytes, T, 1⟩]
  | fallsBack (T : ValueType) (count : ℕ) :
      AllocatorStep S s (.allocate T count) s [.fallback T count]
  | returns (a : Allocation) : AllocatorStep S s (.claimed a) s [.live a]
  | lends (a : Allocation) : s.Fresh S a →
      AllocatorStep S s (.fallback a.valueType a.count) { s with heap := a :: s.heap } [.live a]
  | throws (T : ValueType) (count : ℕ) : AllocatorStep S s (.fallback T count) s []
  | begins (a : Allocation) : AllocatorStep S s (.live a) s [.deallocate a]
  | frees (a : Allocation) : a.ptr = S.bytes →
      AllocatorStep S s (.deallocate a) { s with inUse := false } []
  | passes (a : Allocation) : a.ptr ≠ S.bytes →
      AllocatorStep S s (.deallocate a) s [.heapDeallocate a]
  | givesBack (a : Allocation) : a ∈ s.heap →
      AllocatorStep S s (.heapDeallocate a) { s with heap := s.heap.erase a } []

theorem allocatorStep_cases {S : PreallocSlot} {s s' : PreallocSlotState} {t : AllocationThread}
    {k : AllocatorChoice} {new : List AllocationThread}
    (h : allocatorStep S s t k = some (s', new)) : AllocatorStep S s t s' new := by
  unfold allocatorStep at h
  split at h
  · next T count =>
      split at h
      · next hone =>
          subst hone
          unfold PreallocSlotState.tryAllocate at h
          by_cases hfits : S.kSlotSize < T.size ∨ S.maxAlign < T.alignment
          · obtain ⟨rfl, rfl⟩ := by simpa [hfits] using h
            exact .fallsBack T 1
          · by_cases hfree : s.inUse = false
            · obtain ⟨rfl, rfl⟩ := by simpa [hfits, hfree] using h
              exact .claims T hfree (by omega) (by omega)
            · obtain ⟨rfl, rfl⟩ := by simpa [hfits, hfree] using h
              exact .fallsBack T 1
      · obtain ⟨rfl, rfl⟩ := by simpa using h
        exact .fallsBack T count
  · obtain ⟨rfl, rfl⟩ := by simpa using h
    exact .returns _
  · simp only at h
    split at h
    · next hfresh =>
        obtain ⟨rfl, rfl⟩ := by simpa using h
        exact .lends _ hfresh
    · simp at h
  · obtain ⟨rfl, rfl⟩ := by simpa using h
    exact .throws _ _
  · obtain ⟨rfl, rfl⟩ := by simpa using h
    exact .begins _
  · next a =>
      unfold PreallocSlotState.tryDeallocate at h
      by_cases hptr : a.ptr = S.bytes
      · obtain ⟨rfl, rfl⟩ := by simpa [hptr] using h
        exact .frees a hptr
      · obtain ⟨rfl, rfl⟩ := by simpa [hptr] using h
        exact .passes a hptr
  · split at h
    · next hmem =>
        obtain ⟨rfl, rfl⟩ := by simpa using h
        exact .givesBack _ hmem
    · simp at h
  · simp at h

/-! ### The invariant -/

namespace Allocation

/-- What a request that is served from the slot gets. -/
structure FromSlot (S : PreallocSlot) (a : Allocation) : Prop where
  ptr : a.ptr = S.bytes
  count : a.count = 1
  size : a.valueType.size ≤ S.kSlotSize
  alignment : a.valueType.alignment ≤ S.maxAlign

theorem FromSlot.usesSlot {S : PreallocSlot} {a : Allocation} (h : a.FromSlot S) :
    a.UsesSlot S := by
  have hpos := S.kSlotSize_pos
  have hsize : 0 < a.size := by
    rw [Allocation.size, h.count, Nat.mul_one]
    exact a.valueType.size_pos
  exact ⟨S.bytes, ⟨h.ptr.le, by rw [h.ptr]; omega⟩, le_refl _, by omega⟩

end Allocation

namespace AllocationThread

/-- The storage that a request has, from the moment it is found to the moment it is given back. -/
def allocation : AllocationThread → Option Allocation
  | .claimed a | .live a | .deallocate a | .heapDeallocate a => some a
  | .allocate _ _ | .fallback _ _ => none

/-- The allocation uses the slot and is live, or `TryAllocate` has just succeeded for it. -/
def HoldsSlot (S : PreallocSlot) (t : AllocationThread) : Prop :=
  ∃ a, t.allocation = some a ∧ a.UsesSlot S

variable (S : PreallocSlot)

/-- The requests that have the slot, by the address. -/
def atSlot : AllocationThread → ℕ
  | .claimed _ => 1
  | .live a | .deallocate a => if a.ptr = S.bytes then 1 else 0
  | .allocate _ _ | .fallback _ _ | .heapDeallocate _ => 0

/-- The requests that have this storage, which is not at the address of the slot. -/
def atHeap (b : Allocation) : AllocationThread → ℕ
  | .live a | .deallocate a => if a.ptr ≠ S.bytes ∧ a = b then 1 else 0
  | .heapDeallocate a => if a = b then 1 else 0
  | .allocate _ _ | .fallback _ _ | .claimed _ => 0

theorem allocation_of_atSlot {S : PreallocSlot} {t : AllocationThread} (h : 0 < t.atSlot S) :
    ∃ a, t.allocation = some a := by
  cases t with
  | allocate T count => simp [atSlot] at h
  | fallback T count => simp [atSlot] at h
  | claimed a => exact ⟨a, rfl⟩
  | live a => exact ⟨a, rfl⟩
  | deallocate a => exact ⟨a, rfl⟩
  | heapDeallocate a => exact ⟨a, rfl⟩

/-- The address of the slot is that of what has been served from it. -/
def ToldApart : AllocationThread → Prop
  | .claimed a => a.FromSlot S
  | .live a | .deallocate a => a.ptr = S.bytes → a.FromSlot S
  | .heapDeallocate a => a.ptr ≠ S.bytes
  | .allocate _ _ | .fallback _ _ => True

end AllocationThread

/-- Who has the slot, and what the heap has lent. -/
structure SlotInvariant (S : PreallocSlot) (p : SlotPool) : Prop where
  holders : p.total (AllocationThread.atSlot S) = if p.shared.inUse then 1 else 0
  toldApart : ∀ t ∈ p.threads, t.ToldApart S
  outside : ∀ a ∈ p.shared.heap, a.Outside S
  lent : ∀ a, p.total (AllocationThread.atHeap S a) = p.shared.heap.count a

namespace SlotInvariant

variable {S : PreallocSlot} {p : SlotPool}

/-- A request that is for the slot. -/
theorem inUse (hI : SlotInvariant S p) {t : AllocationThread} (ht : t ∈ p.threads)
    (hat : 0 < t.atSlot S) : p.shared.inUse = true := by
  have hle := Pool.le_total_of_mem (w := AllocationThread.atSlot S) ht
  have hholders := hI.holders
  by_contra hfree
  rw [if_neg hfree] at hholders
  omega

/-- A request that is for the heap. -/
theorem mem_heap (hI : SlotInvariant S p) {t : AllocationThread} (ht : t ∈ p.threads)
    {a : Allocation} (hat : 0 < t.atHeap S a) : a ∈ p.shared.heap := by
  have hle := Pool.le_total_of_mem (w := AllocationThread.atHeap S a) ht
  rw [hI.lent a] at hle
  exact List.count_pos_iff.1 (by omega)

/-- **Storage is from the slot, and then the request has the slot, or it is from the heap.** -/
theorem fromSlot_or_mem_heap (hI : SlotInvariant S p) {t : AllocationThread} (ht : t ∈ p.threads)
    {a : Allocation} (ha : t.allocation = some a) :
    a.FromSlot S ∧ 0 < t.atSlot S ∨ a ∈ p.shared.heap ∧ t.atSlot S = 0 := by
  have htold := hI.toldApart t ht
  have hheap := hI.mem_heap ht (a := a)
  cases t with
  | allocate T count => simp [AllocationThread.allocation] at ha
  | fallback T count => simp [AllocationThread.allocation] at ha
  | claimed b =>
      obtain rfl : b = a := by simpa [AllocationThread.allocation] using ha
      exact .inl ⟨htold, by simp [AllocationThread.atSlot]⟩
  | live b | deallocate b =>
      obtain rfl : b = a := by simpa [AllocationThread.allocation] using ha
      by_cases hptr : b.ptr = S.bytes
      · exact .inl ⟨htold hptr, by simp [AllocationThread.atSlot, hptr]⟩
      · exact .inr ⟨hheap (by simp [AllocationThread.atHeap, hptr]),
          by simp [AllocationThread.atSlot, hptr]⟩
  | heapDeallocate b =>
      obtain rfl : b = a := by simpa [AllocationThread.allocation] using ha
      exact .inr ⟨hheap (by simp [AllocationThread.atHeap]), rfl⟩

/-- The allocations that have a byte of the slot are those that have been served from it. -/
theorem usesSlot_iff (hI : SlotInvariant S p) {t : AllocationThread} (ht : t ∈ p.threads)
    {a : Allocation} (ha : t.allocation = some a) : a.UsesSlot S ↔ 0 < t.atSlot S := by
  rcases hI.fromSlot_or_mem_heap ht ha with ⟨hslot, hat⟩ | ⟨hheap, hat⟩
  · exact iff_of_true hslot.usesSlot hat
  · exact iff_of_false (hI.outside a hheap).not_usesSlot (by omega)

/-- How the invariant survives the step of a request: what the requests weigh changes as the flag
and the heap do. -/
theorem after {s s' : PreallocSlotState} {l r new : List AllocationThread} {t : AllocationThread}
    (hI : SlotInvariant S ⟨s, l ++ t :: r⟩)
    (hslot : (new.map (AllocationThread.atSlot S)).sum + (if s.inUse then 1 else 0)
      = t.atSlot S + (if s'.inUse then 1 else 0))
    (htold : ∀ u ∈ new, u.ToldApart S) (houtside : ∀ a ∈ s'.heap, a.Outside S)
    (hheap : ∀ a, (new.map (AllocationThread.atHeap S a)).sum + s.heap.count a
      = t.atHeap S a + s'.heap.count a) :
    SlotInvariant S ⟨s', l ++ new ++ r⟩ where
  holders := by
    have hholders := hI.holders
    rw [Pool.total_before] at hholders
    rw [Pool.total_after]
    simp only at hholders ⊢
    omega
  toldApart := Pool.forall_after hI.toldApart (fun _ hu => hu) htold
  outside := houtside
  lent a := by
    have hlent := hI.lent a
    have hheap := hheap a
    rw [Pool.total_before] at hlent
    rw [Pool.total_after]
    simp only at hlent ⊢
    omega

/-- **A step of a request preserves the invariant.** -/
theorem step {s s' : PreallocSlotState} {l r new : List AllocationThread} {t : AllocationThread}
    (hI : SlotInvariant S ⟨s, l ++ t :: r⟩) (h : AllocatorStep S s t s' new) :
    SlotInvariant S ⟨s', l ++ new ++ r⟩ := by
  have htold := hI.toldApart t (by simp)
  have hout := hI.outside
  cases h with
  | claims T hfree hsize halign =>
      refine hI.after ?_ ?_ hout ?_
      · simp [AllocationThread.atSlot, hfree]
      · intro u hu
        obtain rfl := List.mem_singleton.1 hu
        exact ⟨rfl, rfl, hsize, halign⟩
      · simp [AllocationThread.atHeap]
  | fallsBack T count =>
      refine hI.after ?_ ?_ hout ?_
      · simp [AllocationThread.atSlot]
      · simp [AllocationThread.ToldApart]
      · simp [AllocationThread.atHeap]
  | returns a =>
      -- the weight does not change, because what has been claimed is at the address of the slot
      have hptr : a.ptr = S.bytes := htold.ptr
      refine hI.after ?_ ?_ hout ?_
      · simp [AllocationThread.atSlot, hptr]
      · intro u hu
        obtain rfl := List.mem_singleton.1 hu
        exact fun _ => htold
      · simp [AllocationThread.atHeap, hptr]
  | lends a hfresh =>
      -- what the heap returns is outside the slot, so its address cannot be mistaken for the slot's
      have hptr : a.ptr ≠ S.bytes := hfresh.1.ptr_ne
      refine hI.after ?_ ?_ ?_ ?_
      · simp [AllocationThread.atSlot, hptr]
      · intro u hu
        obtain rfl := List.mem_singleton.1 hu
        exact fun h => absurd h hptr
      · intro b hb
        rcases List.mem_cons.1 hb with rfl | hb
        · exact hfresh.1
        · exact hout b hb
      · intro b
        simp [AllocationThread.atHeap, hptr, List.count_cons, Nat.add_comm]
  | throws T count =>
      refine hI.after ?_ (by simp) hout ?_
      · simp [AllocationThread.atSlot]
      · simp [AllocationThread.atHeap]
  | begins a =>
      refine hI.after ?_ ?_ hout ?_
      · simp [AllocationThread.atSlot]
      · intro u hu
        obtain rfl := List.mem_singleton.1 hu
        exact htold
      · simp [AllocationThread.atHeap]
  | frees a hptr =>
      -- the request that gives the slot back has it, so the flag was set and nobody else has it
      have huse : s.inUse = true := hI.inUse (t := .deallocate a) (by simp)
        (by simp [AllocationThread.atSlot, hptr])
      refine hI.after ?_ (by simp) hout ?_
      · simp [AllocationThread.atSlot, hptr, huse]
      · simp [AllocationThread.atHeap, hptr]
  | passes a hptr =>
      refine hI.after ?_ ?_ hout ?_
      · simp [AllocationThread.atSlot, hptr]
      · intro u hu
        obtain rfl := List.mem_singleton.1 hu
        exact hptr
      · simp [AllocationThread.atHeap, hptr]
  | givesBack a hmem =>
      refine hI.after ?_ (by simp) (fun b hb => hout b (List.mem_of_mem_erase hb)) ?_
      · simp [AllocationThread.atSlot]
      · intro b
        by_cases hab : a = b
        · subst hab
          have hpos := List.count_pos_iff.2 hmem
          simp only [List.map_nil, List.sum_nil, List.count_erase_self, AllocationThread.atHeap,
            if_pos]
          omega
        · simp [AllocationThread.atHeap, hab, List.count_erase_of_ne (Ne.symm hab)]

/-- A request that arrives has nothing yet. -/
theorem arrive (hI : SlotInvariant S p) (T : ValueType) (count : ℕ) :
    SlotInvariant S ⟨p.shared, p.threads ++ [.allocate T count]⟩ where
  holders := by rw [Pool.total_arrive]; exact hI.holders
  toldApart := Pool.forall_arrive hI.toldApart (fun _ hu => hu) trivial
  outside := hI.outside
  lent a := by rw [Pool.total_arrive]; exact hI.lent a

end SlotInvariant

/-- **The invariant holds in every reachable state.** -/
theorem slotInvariant_of_exec {S : PreallocSlot}
    {tr : List (SlotPool × PoolAction AllocatorChoice (AllocateCall S))} {p : SlotPool}
    (h : (preallocSlotMachine S).Exec tr p) : SlotInvariant S p := by
  refine ThreadProgram.invariantWhere (C := fun _ _ => True) ?_ ?_ ?_ h (fun _ _ => trivial)
  · rintro s rfl
    exact ⟨rfl, by simp, by simp, fun a => rfl⟩
  · intro tr p call s t _ _ hI _ harrive
    obtain ⟨rfl, rfl⟩ := by simpa [preallocSlotProgram] using harrive
    exact hI.arrive _ _
  · intro tr s s' l t r new k _ _ hI _ hrun
    exact hI.step (allocatorStep_cases hrun)

/-- **The slot is never shared.**  At most one request has storage with a byte of the slot, and
`in_use_` says whether one has.  What a request has is in the heap when it is not for one object
that fits, and then has no byte of the slot; a request that has something from the heap does not
touch the flag, and the heap gets back only what it has lent. -/
theorem slot_never_shared {S : PreallocSlot}
    {tr : List (SlotPool × PoolAction AllocatorChoice (AllocateCall S))} {p : SlotPool}
    (h : (preallocSlotMachine S).Exec tr p) :
    (∀ (i j : ℕ) (t u : AllocationThread), p.threads[i]? = some t → p.threads[j]? = some u →
      t.HoldsSlot S → u.HoldsSlot S → i = j) ∧
    (p.shared.inUse = true ↔ ∃ t ∈ p.threads, t.HoldsSlot S) ∧
    (∀ (n : ℕ) k p' t a, p.threads[n]? = some t → t.allocation = some a → a ∈ p.shared.heap →
      (preallocSlotMachine S).next p (.run n k) = some p' → p'.shared.inUse = p.shared.inUse) ∧
    (∀ t ∈ p.threads, ∀ a, t.allocation = some a →
      a.count ≠ 1 ∨ S.kSlotSize < a.valueType.size ∨ S.maxAlign < a.valueType.alignment →
        a ∈ p.shared.heap ∧ ¬ a.UsesSlot S) ∧
    (∀ a, .heapDeallocate a ∈ p.threads → a ∈ p.shared.heap) := by
  have hI := slotInvariant_of_exec h
  have hat : ∀ t ∈ p.threads, t.HoldsSlot S → 0 < t.atSlot S := by
    rintro t ht ⟨a, ha, huses⟩
    exact (hI.usesSlot_iff ht ha).1 huses
  refine ⟨?_, ?_, ?_, ?_, ?_⟩
  · intro i j t u hi hj ht hu
    have hle : p.total (AllocationThread.atSlot S) ≤ 1 := by
      rw [hI.holders]
      split <;> omega
    exact Pool.eq_of_total_le_one hle hi hj (hat t (List.mem_of_getElem? hi) ht)
      (hat u (List.mem_of_getElem? hj) hu)
  · constructor
    · intro huse
      have hholders := hI.holders
      rw [if_pos huse] at hholders
      by_contra hnone
      push Not at hnone
      have hzero : p.total (AllocationThread.atSlot S) = 0 := by
        refine Pool.total_eq_zero_iff.2 fun t ht => ?_
        by_contra hne
        obtain ⟨a, ha⟩ := AllocationThread.allocation_of_atSlot (Nat.pos_of_ne_zero hne)
        exact hnone t ht ⟨a, ha, (hI.usesSlot_iff ht ha).2 (Nat.pos_of_ne_zero hne)⟩
      omega
    · rintro ⟨t, ht, hholds⟩
      exact hI.inUse ht (hat t ht hholds)
  · intro n k p' t a ht ha hheap hnext
    obtain ⟨l, t', r, s', new, hp, rfl, hrun, rfl⟩ := ThreadProgram.next_run_iff.1 hnext
    obtain rfl : t' = t := by simpa [hp] using ht
    cases allocatorStep_cases hrun with
    | claims T => simp [AllocationThread.allocation] at ha
    | frees b hptr =>
        obtain rfl : b = a := by simpa [AllocationThread.allocation] using ha
        exact absurd hptr (hI.outside b hheap).ptr_ne
    | _ => rfl
  · intro t ht a ha hbig
    rcases hI.fromSlot_or_mem_heap ht ha with ⟨hslot, _⟩ | ⟨hheap, _⟩
    · obtain ⟨_, hcount, hsize, halign⟩ := hslot
      omega
    · exact ⟨hheap, (hI.outside a hheap).not_usesSlot⟩
  · intro a ha
    exact hI.mem_heap ha (by simp [AllocationThread.atHeap])

/-- A slot of sixty-four bytes. -/
def PreallocSlot.sixtyFour : PreallocSlot where
  bytes := 4096
  kSlotSize := 64
  maxAlign := 16
  kSlotSize_pos := by decide
  aligned := by decide

/-- Two objects that fit the slot are requested, and the second goes to the heap because the slot is
occupied; the second is given back, and the slot stays occupied. -/
theorem slot_never_shared_fallback :
    ∃ (tr : List (SlotPool × PoolAction AllocatorChoice (AllocateCall PreallocSlot.sixtyFour)))
      (p p' : SlotPool),
      (preallocSlotMachine PreallocSlot.sixtyFour).Exec tr p ∧
      p.threads = [.live ⟨4096, ⟨48, 8, by decide⟩, 1⟩,
        .heapDeallocate ⟨8192, ⟨64, 16, by decide⟩, 1⟩] ∧
      (preallocSlotMachine PreallocSlot.sixtyFour).next p (.run 1 .go) = some p' ∧
      p'.shared = ⟨true, []⟩ ∧
      ∀ (j : ℕ) (u : AllocationThread), p.threads[j]? = some u →
        u.HoldsSlot PreallocSlot.sixtyFour → 0 = j := by
  let A : PreallocSlotAllocator PreallocSlot.sixtyFour := ⟨⟨48, 8, by decide⟩⟩
  obtain ⟨p, hex, hp⟩ := Machine.exists_exec_of_replay
    (M := preallocSlotMachine PreallocSlot.sixtyFour) (s := ⟨⟨false, []⟩, []⟩) ⟨rfl, rfl⟩
    [.arrive ⟨A, 1⟩, .arrive ⟨A.rebind ⟨64, 16, by decide⟩, 1⟩, .run 0 .go, .run 1 .go,
      .run 1 (.returns 8192), .run 0 .go, .run 1 .go, .run 1 .go]
    id ⟨⟨true, [⟨8192, ⟨64, 16, by decide⟩, 1⟩]⟩, [.live ⟨4096, ⟨48, 8, by decide⟩, 1⟩,
      .heapDeallocate ⟨8192, ⟨64, 16, by decide⟩, 1⟩]⟩ (by decide)
  obtain rfl : p = _ := hp
  have hinv := slot_never_shared hex
  have hholds : (AllocationThread.live ⟨4096, ⟨48, 8, by decide⟩, 1⟩).HoldsSlot
      PreallocSlot.sixtyFour :=
    ⟨_, rfl, 4096, ⟨le_refl _, by decide⟩, le_refl _, by decide⟩
  exact ⟨_, _, _, hex, rfl, rfl, by decide, fun j u hu hu' => hinv.1 0 j _ u rfl hu hholds hu'⟩

end ExActor
