/-
**The node pool of the unbounded queues.**

All queues of one type share their nodes.  Each thread has a list of free nodes, linked by their
`next_`; when it is full it goes as one chunk to a global stack of chunks, and when it is empty the
thread takes a chunk from the stack.  Only when the stack is empty does a thread reserve new nodes,
under a mutex and at least as many as there are already.

The chunks are linked by `next_chunk_` of their first nodes, which shares its storage with the
object in `value_`.  The stack is changed by compare-exchange of its top.  A thread that is about
to take a chunk reads `next_chunk_` of the top it has loaded, and by then another thread may
have taken the chunk, put an object into the node, and given it back: the read value may be
anything.  That the compare-exchange fails in this case is due to the tag, which every change of the
top increments, as a 64-bit number.

This module is the model: one indivisible step for each access to the top and to `next_chunk_`, and
for the accesses to the free list of a thread, which no other thread uses, between two of them.
What holds a node that is lent may write anything into it.  The threads are those of the operating
system, each with its list; `unregister_for` and the release of all nodes with the last queue are
left out.

Main definitions:

* `ChunkCapacity`, `TaggedPtr`, `NodePool` — the parameters and the members;
* `PoolPc`, `PoolThread` — the threads;
* `poolStep` — one step of `_allocate`, `_deallocate`, `try_pop`, `push` and
  `_reserve_global_internal`;
* `NodePool.machine` — all interleavings;
* `PoolStep` — what a step can do.

Main results:

* `poolStep_cases` — every step is one of `PoolStep`.
-/

import ExActor.Basic
import ExActor.Interleaving
import ExActor.MpscQueue

set_option relaxedAutoImplicit false
set_option autoImplicit false

namespace ExActor

/-! ### The members -/

/-- `ThreadLocalCapacity`: how many nodes a chunk has, a power of two. -/
structure ChunkCapacity where
  val : ℕ
  pow : ∃ k, val = 2 ^ k

theorem ChunkCapacity.pos (cap : ChunkCapacity) : 0 < cap.val := by
  obtain ⟨k, hk⟩ := cap.pow
  rw [hk]
  exact Nat.two_pow_pos k

/-- `tagged_ptr`. -/
structure TaggedPtr where
  node : Option NodePtr
  tag : SizeT
deriving DecidableEq

/-- What the threads share: `next_` and `next_chunk_` of the nodes, the addresses of the nodes on
the pages, which are those below `pages`, `global_node_count_`, `global_mutex_`, the top of the
stack, and the nodes that are lent. -/
structure NodePool where
  next : NodePtr → Option NodePtr
  nextChunk : NodePtr → Option NodePtr
  pages : ℕ
  nodeCount : ℕ
  locked : Bool
  top : TaggedPtr
  lent : List NodePtr

/-- No node has been reserved. -/
def NodePool.empty (next nextChunk : NodePtr → Option NodePtr) : NodePool where
  next := next
  nextChunk := nextChunk
  pages := 0
  nodeCount := 0
  locked := false
  top := ⟨none, 0⟩
  lent := []

/-! ### The threads -/

/-- Who pushes a chunk: `_deallocate`, or `reserve` at the chunk after the first `done` of `count`
new nodes from `base` on. -/
inductive PushCaller
  | deallocate
  | reserve (base count done : ℕ)
deriving DecidableEq

/-- Where a thread stands in the code of the pool. -/
inductive PoolPc
  | idle
  | allocate
  | popLoad
  | popRead (node : NodePtr) (tag : SizeT)
  | popCas (node : NodePtr) (tag : SizeT) (next : Option NodePtr)
  | lock
  | checkTop
  | reserveChunk (base count done : ℕ)
  | storeCount (count : ℕ)
  | unlock
  | take
  | pushLoad (chunk : NodePtr) (caller : PushCaller)
  | pushWrite (chunk : NodePtr) (old : TaggedPtr) (caller : PushCaller)
  | pushCas (chunk : NodePtr) (old : TaggedPtr) (caller : PushCaller)
deriving DecidableEq

/-- A thread, with its list of free nodes and the size of that list. -/
structure PoolThread where
  id : ℕ
  list : Option NodePtr
  size : ℕ
  pc : PoolPc
deriving DecidableEq

/-- What is not decided by the pool. -/
inductive PoolChoice
  | go
  /-- A weak compare-exchange fails for no reason. -/
  | spurious
  /-- The thread calls `_allocate`. -/
  | allocate
  /-- The thread calls `_deallocate`. -/
  | deallocate (n : NodePtr)
  /-- The thread uses a node that is lent. -/
  | write (n : NodePtr) (next nextChunk : Option NodePtr)
deriving DecidableEq

/-! ### The steps -/

section Steps

variable (cap : ChunkCapacity)

/-- Where `try_pop` goes on with the top it has loaded: an empty stack makes `_allocate` call
`_reserve_global_internal`. -/
def afterTop (top : TaggedPtr) : PoolPc :=
  match top.node with
  | none => .lock
  | some n => .popRead n top.tag

/-- The loop of `reserve` links the nodes of one chunk, or what is left for no whole chunk. -/
def linkNodes (next : NodePtr → Option NodePtr) (base first last : ℕ) (closed : Bool) :
    NodePtr → Option NodePtr := fun n =>
  if base + first ≤ n ∧ n < base + last then
    if closed ∧ n + 1 = base + last then none else some (n + 1)
  else next n

/-- One step of a thread. -/
def poolStep (s : NodePool) (t : PoolThread) (k : PoolChoice) :
    Option (NodePool × List PoolThread) :=
  match t.pc, k with
  | .idle, .allocate => some (s, [{ t with pc := .allocate }])
  | .idle, .deallocate n =>
      if n ∈ s.lent then
        let s' := { s with next := Function.update s.next n t.list, lent := s.lent.erase n }
        let pc := if cap.val ≤ t.size + 1 then .pushLoad n .deallocate else .idle
        some (s', [{ t with list := some n, size := t.size + 1, pc := pc }])
      else none
  | .idle, .write n next nextChunk =>
      if n ∈ s.lent then
        some ({ s with next := Function.update s.next n next,
                       nextChunk := Function.update s.nextChunk n nextChunk }, [t])
      else none
  | .allocate, .go => some (s, [{ t with pc := if t.size = 0 then .popLoad else .take }])
  | .popLoad, .go => some (s, [{ t with pc := afterTop s.top }])
  | .popRead node tag, .go => some (s, [{ t with pc := .popCas node tag (s.nextChunk node) }])
  | .popCas node tag next, .go =>
      if s.top = ⟨some node, tag⟩ then
        some ({ s with top := ⟨next, tag + 1⟩ },
          [{ t with list := some node, size := cap.val, pc := .take }])
      else some (s, [{ t with pc := afterTop s.top }])
  | .popCas _ _ _, .spurious => some (s, [{ t with pc := afterTop s.top }])
  | .lock, .go =>
      if s.locked then none else some ({ s with locked := true }, [{ t with pc := .checkTop }])
  | .checkTop, .go =>
      if s.top.node.isSome then some (s, [{ t with pc := .unlock }])
      else
        let count := max cap.val s.nodeCount
        some ({ s with pages := s.pages + count }, [{ t with pc := .reserveChunk s.pages count 0 }])
  | .reserveChunk base count done, .go =>
      if done + cap.val ≤ count then
        some ({ s with next := linkNodes s.next base done (done + cap.val) true },
          [{ t with pc := .pushLoad (base + done) (.reserve base count done) }])
      else
        some ({ s with next := linkNodes s.next base done count false },
          [{ t with pc := .storeCount count }])
  | .storeCount count, .go =>
      some ({ s with nodeCount := s.nodeCount + count }, [{ t with pc := .unlock }])
  | .unlock, .go => some ({ s with locked := false }, [{ t with pc := .popLoad }])
  | .take, .go =>
      match t.list with
      -- the list is null: there is no behaviour
      | none => none
      | some n =>
          some ({ s with next := Function.update s.next n none, lent := n :: s.lent },
            [{ t with list := s.next n, size := t.size - 1, pc := .idle }])
  | .pushLoad chunk caller, .go => some (s, [{ t with pc := .pushWrite chunk s.top caller }])
  | .pushWrite chunk old caller, .go =>
      some ({ s with nextChunk := Function.update s.nextChunk chunk old.node },
        [{ t with pc := .pushCas chunk old caller }])
  | .pushCas chunk old caller, .go =>
      if s.top = old then
        let s' := { s with top := ⟨some chunk, old.tag + 1⟩ }
        match caller with
        | .deallocate => some (s', [{ t with list := none, size := 0, pc := .idle }])
        | .reserve base count done =>
            some (s', [{ t with pc := .reserveChunk base count (done + cap.val) }])
      else some (s, [{ t with pc := .pushWrite chunk s.top caller }])
  | .pushCas chunk _ caller, .spurious => some (s, [{ t with pc := .pushWrite chunk s.top caller }])
  | _, _ => none

/-- A pool with its threads. -/
abbrev PoolThreads := Pool NodePool PoolThread

/-- The actions of a pool: a thread begins, or takes a step. -/
abbrev NodePoolAction := PoolAction PoolChoice Unit

/-- The thread program of a pool.  A new thread is registered with an empty list. -/
def NodePool.program : ThreadProgram NodePool PoolThread PoolChoice Unit where
  run := poolStep cap
  arrive p _ := some (p.shared, ⟨p.threads.length, none, 0, .idle⟩)

/-- All interleavings of the threads that use a pool. -/
def NodePool.machine : Machine PoolThreads NodePoolAction :=
  (NodePool.program cap).machine fun s => ∃ next nextChunk, s = NodePool.empty next nextChunk

end Steps

/-! ### What a step can do -/

/-- **What a step of a thread does.** -/
inductive PoolStep (cap : ChunkCapacity) (s : NodePool) (t : PoolThread) :
    NodePool → PoolThread → Prop
  | callAllocate : t.pc = .idle → PoolStep cap s t s { t with pc := .allocate }
  | deallocate (n : NodePtr) (pc : PoolPc) : t.pc = .idle → n ∈ s.lent →
      (cap.val ≤ t.size + 1 ∧ pc = .pushLoad n .deallocate ∨ t.size + 1 < cap.val ∧ pc = .idle) →
      PoolStep cap s t
        { s with next := Function.update s.next n t.list, lent := s.lent.erase n }
        { t with list := some n, size := t.size + 1, pc := pc }
  | write (n : NodePtr) (next nextChunk : Option NodePtr) : t.pc = .idle → n ∈ s.lent →
      PoolStep cap s t
        { s with next := Function.update s.next n next,
                 nextChunk := Function.update s.nextChunk n nextChunk } t
  | goPop : t.pc = .allocate → t.size = 0 → PoolStep cap s t s { t with pc := .popLoad }
  | goTake : t.pc = .allocate → 0 < t.size → PoolStep cap s t s { t with pc := .take }
  | loadTop : (t.pc = .popLoad ∨ ∃ node tag next, t.pc = .popCas node tag next) →
      PoolStep cap s t s { t with pc := afterTop s.top }
  | readNext (node : NodePtr) (tag : SizeT) : t.pc = .popRead node tag →
      PoolStep cap s t s { t with pc := .popCas node tag (s.nextChunk node) }
  | pop (node : NodePtr) (tag : SizeT) (next : Option NodePtr) : t.pc = .popCas node tag next →
      s.top = ⟨some node, tag⟩ → PoolStep cap s t { s with top := ⟨next, tag + 1⟩ }
        { t with list := some node, size := cap.val, pc := .take }
  | lock : t.pc = .lock → s.locked = false →
      PoolStep cap s t { s with locked := true } { t with pc := .checkTop }
  | found : t.pc = .checkTop → PoolStep cap s t s { t with pc := .unlock }
  | reserve : t.pc = .checkTop → s.top.node = none →
      PoolStep cap s t { s with pages := s.pages + max cap.val s.nodeCount }
        { t with pc := .reserveChunk s.pages (max cap.val s.nodeCount) 0 }
  | linkChunk (base count done : ℕ) : t.pc = .reserveChunk base count done →
      done + cap.val ≤ count →
      PoolStep cap s t { s with next := linkNodes s.next base done (done + cap.val) true }
        { t with pc := .pushLoad (base + done) (.reserve base count done) }
  | linkRest (base count done : ℕ) : t.pc = .reserveChunk base count done →
      count < done + cap.val →
      PoolStep cap s t { s with next := linkNodes s.next base done count false }
        { t with pc := .storeCount count }
  | storeCount (count : ℕ) : t.pc = .storeCount count →
      PoolStep cap s t { s with nodeCount := s.nodeCount + count } { t with pc := .unlock }
  | unlock : t.pc = .unlock → PoolStep cap s t { s with locked := false } { t with pc := .popLoad }
  | take (n : NodePtr) : t.pc = .take → t.list = some n →
      PoolStep cap s t { s with next := Function.update s.next n none, lent := n :: s.lent }
        { t with list := s.next n, size := t.size - 1, pc := .idle }
  | loadOld (chunk : NodePtr) (caller : PushCaller) :
      (t.pc = .pushLoad chunk caller ∨ ∃ old, t.pc = .pushCas chunk old caller) →
      PoolStep cap s t s { t with pc := .pushWrite chunk s.top caller }
  | writeNext (chunk : NodePtr) (old : TaggedPtr) (caller : PushCaller) :
      t.pc = .pushWrite chunk old caller →
      PoolStep cap s t { s with nextChunk := Function.update s.nextChunk chunk old.node }
        { t with pc := .pushCas chunk old caller }
  | pushFreed (chunk : NodePtr) : t.pc = .pushCas chunk s.top .deallocate →
      PoolStep cap s t { s with top := ⟨some chunk, s.top.tag + 1⟩ }
        { t with list := none, size := 0, pc := .idle }
  | pushReserved (chunk : NodePtr) (base count done : ℕ) :
      t.pc = .pushCas chunk s.top (.reserve base count done) →
      PoolStep cap s t { s with top := ⟨some chunk, s.top.tag + 1⟩ }
        { t with pc := .reserveChunk base count (done + cap.val) }

/-- **Every step is one of `PoolStep`**, and leaves one thread behind. -/
theorem poolStep_cases {cap : ChunkCapacity} {s s' : NodePool} {t : PoolThread} {k : PoolChoice}
    {new : List PoolThread} (h : poolStep cap s t k = some (s', new)) :
    ∃ t', new = [t'] ∧ t'.id = t.id ∧ PoolStep cap s t s' t' := by
  unfold poolStep at h
  split at h
  · next hpc =>
      obtain ⟨rfl, rfl⟩ := by simpa using h
      exact ⟨_, rfl, rfl, .callAllocate hpc⟩
  · next n hpc =>
      split at h
      · next hn =>
          obtain ⟨rfl, rfl⟩ := by simpa using h
          refine ⟨_, rfl, rfl, .deallocate n _ hpc hn ?_⟩
          split <;> simp_all
      · simp at h
  · next n next nextChunk hpc =>
      split at h
      · next hn =>
          obtain ⟨rfl, rfl⟩ := by simpa using h
          exact ⟨_, rfl, rfl, .write n next nextChunk hpc hn⟩
      · simp at h
  · next hpc =>
      obtain ⟨rfl, rfl⟩ := by simpa using h
      refine ⟨_, rfl, rfl, ?_⟩
      split
      · next hzero => exact .goPop hpc hzero
      · next hpos => exact .goTake hpc (by omega)
  · next hpc =>
      obtain ⟨rfl, rfl⟩ := by simpa using h
      exact ⟨_, rfl, rfl, .loadTop (Or.inl hpc)⟩
  · next node tag hpc =>
      obtain ⟨rfl, rfl⟩ := by simpa using h
      exact ⟨_, rfl, rfl, .readNext node tag hpc⟩
  · next node tag next hpc =>
      split at h
      · next htop =>
          obtain ⟨rfl, rfl⟩ := by simpa using h
          exact ⟨_, rfl, rfl, .pop node tag next hpc htop⟩
      · obtain ⟨rfl, rfl⟩ := by simpa using h
        exact ⟨_, rfl, rfl, .loadTop (Or.inr ⟨node, tag, next, hpc⟩)⟩
  · next node tag next hpc =>
      obtain ⟨rfl, rfl⟩ := by simpa using h
      exact ⟨_, rfl, rfl, .loadTop (Or.inr ⟨node, tag, next, hpc⟩)⟩
  · next hpc =>
      split at h
      · simp at h
      · next hlocked =>
          obtain ⟨rfl, rfl⟩ := by simpa using h
          exact ⟨_, rfl, rfl, .lock hpc (by simpa using hlocked)⟩
  · next hpc =>
      split at h
      · obtain ⟨rfl, rfl⟩ := by simpa using h
        exact ⟨_, rfl, rfl, .found hpc⟩
      · next hnone =>
          obtain ⟨rfl, rfl⟩ := by simpa using h
          exact ⟨_, rfl, rfl, .reserve hpc (by simpa using hnone)⟩
  · next base count done hpc =>
      split at h
      · next hle =>
          obtain ⟨rfl, rfl⟩ := by simpa using h
          exact ⟨_, rfl, rfl, .linkChunk base count done hpc hle⟩
      · next hlt =>
          obtain ⟨rfl, rfl⟩ := by simpa using h
          exact ⟨_, rfl, rfl, .linkRest base count done hpc (by omega)⟩
  · next count hpc =>
      obtain ⟨rfl, rfl⟩ := by simpa using h
      exact ⟨_, rfl, rfl, .storeCount count hpc⟩
  · next hpc =>
      obtain ⟨rfl, rfl⟩ := by simpa using h
      exact ⟨_, rfl, rfl, .unlock hpc⟩
  · next hpc =>
      split at h
      · simp at h
      · next n hlist =>
          obtain ⟨rfl, rfl⟩ := by simpa using h
          exact ⟨_, rfl, rfl, .take n hpc hlist⟩
  · next chunk caller hpc =>
      obtain ⟨rfl, rfl⟩ := by simpa using h
      exact ⟨_, rfl, rfl, .loadOld chunk caller (Or.inl hpc)⟩
  · next chunk old caller hpc =>
      obtain ⟨rfl, rfl⟩ := by simpa using h
      exact ⟨_, rfl, rfl, .writeNext chunk old caller hpc⟩
  · next chunk old caller hpc =>
      split at h
      · next htop =>
          subst htop
          cases caller with
          | deallocate =>
              obtain ⟨rfl, rfl⟩ := by simpa using h
              exact ⟨_, rfl, rfl, .pushFreed chunk hpc⟩
          | reserve base count done =>
              obtain ⟨rfl, rfl⟩ := by simpa using h
              exact ⟨_, rfl, rfl, .pushReserved chunk base count done hpc⟩
      · obtain ⟨rfl, rfl⟩ := by simpa using h
        exact ⟨_, rfl, rfl, .loadOld chunk caller (Or.inr ⟨old, hpc⟩)⟩
  · next chunk old caller hpc =>
      obtain ⟨rfl, rfl⟩ := by simpa using h
      exact ⟨_, rfl, rfl, .loadOld chunk caller (Or.inr ⟨old, hpc⟩)⟩
  · simp at h

end ExActor
