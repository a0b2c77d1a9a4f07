/-
**The unbounded queue of an actor: many producers, one consumer.**

`LinearizableUnboundedMpscQueue` of `container.h` wraps `MPSC_queue` of `MPSC_queue.h`, a list of
nodes linked by their `next_` from `tail_` to `head_`.  The element of the node at `tail_` has been
taken already.  A producer takes a node from the node pool, constructs its element in it, exchanges
`head_` for the node and then links the node it found there to its own; between the last two steps
the list is broken at this place.  The consumer follows the link of `tail_`, takes the element
that it leads to, and gives the node it came from back to the pool.  After its link a producer
still notifies whoever waits on the `next_` it has written, and by then the node may be anywhere.

The nodes belong to a pool that all queues of one type share.  What the queue relies on is that the
pool lends it nodes it does not have yet; what happens to the nodes that are not lent to this queue,
in the pool and in other queues, is not known here and may be anything.  The pool itself is the
subject of `ExActor/MpscNodePool.lean`.

This module is the model: one indivisible step for the exchange, for every load and store of a
`next_` that two threads may use, and for every loan.  The element of a node is written and read by
one thread at a time, so writing it, and taking it together with `tail_`, is one step each.  To read
or write a node that is not lent, or to take an element that is not there, is undefined; here it is
a fault.  `notify_one` uses the address of a node and nothing in it, and `TryPop` does not wait.

Main definitions:

* `MpscNode`, `MpscQueue`, `MpscState` — the members, the nodes and the history;
* `emplaceStep`, `tryDequeueStep` — the steps of a push and of a pop;
* `MpscQueue.machine` — all interleavings of the producers and the consumer of a queue;
* `MpscStep` — what a step can do.

Main results:

* `mpscStep_cases` — every step is one of `MpscStep`.
-/

import ExActor.BoundedFifo
import ExActor.Interleaving

set_option relaxedAutoImplicit false
set_option autoImplicit false

namespace ExActor

/-! ### The members -/

/-- The address of a node. -/
abbrev NodePtr := ℕ

/-- `MPSC_node`: the object in `value_`, if there is one, and `next_`. -/
structure MpscNode (α : Type) where
  value : Option α
  next : Option NodePtr
deriving DecidableEq

/-- `MPSC_queue`. -/
structure MpscQueue where
  head : NodePtr
  tail : NodePtr
deriving DecidableEq

/-- The queue, the nodes, those that are lent to the queue, and what has happened to it. -/
structure MpscState (α : Type) where
  queue : MpscQueue
  node : NodePtr → MpscNode α
  lent : List NodePtr
  log : List (BoundedFifo.Event α)

namespace MpscState

variable {α : Type}

/-- The state with an event recorded. -/
def emit (s : MpscState α) (e : BoundedFifo.Event α) : MpscState α := { s with log := s.log ++ [e] }

/-- A node is assigned to. -/
def setNode (s : MpscState α) (n : NodePtr) (x : MpscNode α) : MpscState α :=
  { s with node := Function.update s.node n x }

/-- The constructor, `_initial`: the first node that the pool lends becomes the dummy. -/
def initial (memory : NodePtr → MpscNode α) (dummy : NodePtr) : MpscState α where
  queue := ⟨dummy, dummy⟩
  node := Function.update memory dummy ⟨none, none⟩
  lent := [dummy]
  log := []

end MpscState

/-! ### The threads -/

/-- Where an `emplace` stands. -/
inductive EmplacePc
  | allocate
  | construct (newNode : NodePtr)
  | exchange (newNode : NodePtr)
  /-- `old_head->next_.store(new_node)`; the position is known to the history only. -/
  | link (oldHead newNode : NodePtr) (position : ℕ)
  /-- `old_head->next_.notify_one()`. -/
  | notify (oldHead : NodePtr)
deriving DecidableEq

/-- Where a `try_dequeue` stands. -/
inductive TryDequeuePc
  | loadNext
  | take (next : NodePtr)
  | deallocate (node : NodePtr)
deriving DecidableEq

/-- A thread that runs code of the queue, or writes to a node that the queue does not have. -/
inductive MpscThread (α : Type)
  | emplace (v : α) (pc : EmplacePc)
  | tryDequeue (pc : TryDequeuePc)
  | elsewhere
deriving DecidableEq

/-- What is not decided by the queue. -/
inductive MpscChoice (α : Type)
  | go
  /-- The pool lends this node. -/
  | lend (n : NodePtr)
  /-- The pool or another queue writes this. -/
  | write (n : NodePtr) (x : MpscNode α)
deriving DecidableEq

/-- The node that the next step of the thread reads, writes or gives back. -/
def MpscThread.touches {α : Type} (q : MpscQueue) : MpscThread α → Option NodePtr
  | .emplace _ (.construct newNode) => some newNode
  | .emplace _ (.link oldHead _ _) => some oldHead
  | .tryDequeue .loadNext => some q.tail
  | .tryDequeue (.take next) => some next
  | .tryDequeue (.deallocate node) => some node
  | _ => none

/-- The node on whose `next_` the next step of the thread calls `notify_one`. -/
def MpscThread.notifies {α : Type} : MpscThread α → Option NodePtr
  | .emplace _ (.notify oldHead) => some oldHead
  | _ => none

/-! ### The steps -/

section Steps

variable {α : Type}

/-- One step of `emplace`.  `_allocate` clears the `next_` of the node it returns. -/
def emplaceStep (s : MpscState α) (v : α) :
    EmplacePc → MpscChoice α → Option (MpscState α × List (MpscThread α))
  | .allocate, .lend n =>
      if n ∈ s.lent then none
      else some ({ s with lent := n :: s.lent }.setNode n ⟨none, none⟩,
        [.emplace v (.construct n)])
  | .construct newNode, .go =>
      some (s.setNode newNode { s.node newNode with value := some v },
        [.emplace v (.exchange newNode)])
  | .exchange newNode, .go =>
      let position := (BoundedFifo.claims s.log).length
      some ({ s with queue := { s.queue with head := newNode } }.emit (.claim v),
        [.emplace v (.link s.queue.head newNode position)])
  | .link oldHead newNode position, .go =>
      some ((s.setNode oldHead { s.node oldHead with next := some newNode }).emit
        (.publish position), [.emplace v (.notify oldHead)])
  -- nobody waits on `next_`
  | .notify _, .go => some (s, [])
  | _, _ => none

/-- One step of `try_dequeue`. -/
def tryDequeueStep (s : MpscState α) :
    TryDequeuePc → MpscState α × List (MpscThread α)
  | .loadNext =>
      match (s.node s.queue.tail).next with
      | none => (s.emit .miss, [])
      | some next => (s, [.tryDequeue (.take next)])
  | .take next =>
      match (s.node next).value with
      | none => (s.emit (.fault "no object is alive in value_"), [])
      | some v =>
          ({ s with queue := { s.queue with tail := next } }.setNode next
              { s.node next with value := none } |>.emit (.release v),
            [.tryDequeue (.deallocate s.queue.tail)])
  | .deallocate node => ({ s with lent := s.lent.erase node }, [])

/-- One step of a thread. -/
def mpscStep (s : MpscState α) (t : MpscThread α) (k : MpscChoice α) :
    Option (MpscState α × List (MpscThread α)) :=
  if ∀ n ∈ t.touches s.queue, n ∈ s.lent then
    match t, k with
    | .emplace v pc, k => emplaceStep s v pc k
    | .tryDequeue pc, .go => some (tryDequeueStep s pc)
    | .elsewhere, .write n x => if n ∈ s.lent then none else some (s.setNode n x, [])
    | _, _ => none
  else some (s.emit (.fault "the node is not lent to the queue"), [])

/-! ### The interleavings -/

/-- The thread is a `try_dequeue`. -/
def MpscThread.isConsumer : MpscThread α → ℕ
  | .tryDequeue _ => 1
  | _ => 0

/-- The calls that arrive from outside. -/
inductive MpscCall (α : Type)
  | push (v : α)
  | tryPop
  | elsewhere
deriving DecidableEq

/-- A queue with its threads. -/
abbrev MpscPool (α : Type) := Pool (MpscState α) (MpscThread α)

/-- The actions of a queue with its threads. -/
abbrev MpscAction (α : Type) := PoolAction (MpscChoice α) (MpscCall α)

/-- A call begins.  There is one consumer: it calls `TryPop` again after the last call has
returned. -/
def arriveMpsc (p : MpscPool α) : MpscCall α → Option (MpscState α × MpscThread α)
  | .push v => some (p.shared, .emplace v .allocate)
  | .tryPop =>
      if p.total MpscThread.isConsumer = 0 then some (p.shared, .tryDequeue .loadNext) else none
  | .elsewhere => some (p.shared, .elsewhere)

end Steps

namespace MpscQueue

variable (α : Type)

/-- The thread program of a queue. -/
def program : ThreadProgram (MpscState α) (MpscThread α) (MpscChoice α) (MpscCall α) where
  run := mpscStep
  arrive := arriveMpsc

/-- All interleavings of the producers and the consumer of a queue, whatever is in the nodes that
have never been lent to it. -/
def machine : Machine (MpscPool α) (MpscAction α) :=
  (program α).machine fun s => ∃ memory dummy, s = MpscState.initial memory dummy

end MpscQueue

/-! ### What a step can do -/

section StepCases

variable {α : Type}

/-- **What a step of a thread does.** -/
inductive MpscStep (s : MpscState α) :
    MpscThread α → MpscState α → List (MpscThread α) → Prop
  | lend (v : α) (n : NodePtr) : n ∉ s.lent →
      MpscStep s (.emplace v .allocate)
        ({ s with lent := n :: s.lent }.setNode n ⟨none, none⟩) [.emplace v (.construct n)]
  | construct (v : α) (n : NodePtr) : n ∈ s.lent →
      MpscStep s (.emplace v (.construct n)) (s.setNode n { s.node n with value := some v })
        [.emplace v (.exchange n)]
  | exchange (v : α) (n : NodePtr) :
      MpscStep s (.emplace v (.exchange n))
        ({ s with queue := { s.queue with head := n } }.emit (.claim v))
        [.emplace v (.link s.queue.head n (BoundedFifo.claims s.log).length)]
  | link (v : α) (old n : NodePtr) (position : ℕ) : old ∈ s.lent →
      MpscStep s (.emplace v (.link old n position))
        ((s.setNode old { s.node old with next := some n }).emit (.publish position))
        [.emplace v (.notify old)]
  | notify (v : α) (old : NodePtr) : MpscStep s (.emplace v (.notify old)) s []
  | miss : (s.node s.queue.tail).next = none → MpscStep s (.tryDequeue .loadNext) (s.emit .miss) []
  | follow (next : NodePtr) : (s.node s.queue.tail).next = some next →
      MpscStep s (.tryDequeue .loadNext) s [.tryDequeue (.take next)]
  | take (next : NodePtr) (v : α) : next ∈ s.lent → (s.node next).value = some v →
      MpscStep s (.tryDequeue (.take next))
        (({ s with queue := { s.queue with tail := next } }.setNode next
          { s.node next with value := none }).emit (.release v))
        [.tryDequeue (.deallocate s.queue.tail)]
  | noObject (next : NodePtr) : (s.node next).value = none →
      MpscStep s (.tryDequeue (.take next)) (s.emit (.fault "no object is alive in value_")) []
  | deallocate (n : NodePtr) : n ∈ s.lent →
      MpscStep s (.tryDequeue (.deallocate n)) { s with lent := s.lent.erase n } []
  | elsewhere (n : NodePtr) (x : MpscNode α) : n ∉ s.lent →
      MpscStep s .elsewhere (s.setNode n x) []
  | notLent (t : MpscThread α) (n : NodePtr) : t.touches s.queue = some n → n ∉ s.lent →
      MpscStep s t (s.emit (.fault "the node is not lent to the queue")) []

theorem emplaceStep_spec {s s' : MpscState α} {v : α} {pc : EmplacePc} {k : MpscChoice α}
    {new : List (MpscThread α)}
    (htouch : ∀ n ∈ (MpscThread.emplace v pc).touches s.queue, n ∈ s.lent)
    (h : emplaceStep s v pc k = some (s', new)) : MpscStep s (.emplace v pc) s' new := by
  unfold emplaceStep at h
  split at h
  · next n =>
      split at h
      · simp at h
      · next hn =>
          obtain ⟨rfl, rfl⟩ := by simpa using h
          exact .lend v n hn
  · next n =>
      obtain ⟨rfl, rfl⟩ := by simpa using h
      exact .construct v n (htouch n rfl)
  · next n =>
      obtain ⟨rfl, rfl⟩ := by simpa using h
      exact .exchange v n
  · next old n position =>
      obtain ⟨rfl, rfl⟩ := by simpa using h
      exact .link v old n position (htouch old rfl)
  · next old =>
      obtain ⟨rfl, rfl⟩ := by simpa using h
      exact .notify v old
  · simp at h

theorem tryDequeueStep_spec {s s' : MpscState α} {pc : TryDequeuePc} {new : List (MpscThread α)}
    (htouch : ∀ n ∈ (MpscThread.tryDequeue pc : MpscThread α).touches s.queue, n ∈ s.lent)
    (h : tryDequeueStep s pc = (s', new)) : MpscStep s (.tryDequeue pc) s' new := by
  cases pc with
  | loadNext =>
      simp only [tryDequeueStep] at h
      split at h
      · next hnone =>
          obtain ⟨rfl, rfl⟩ := by simpa using h
          exact .miss hnone
      · next next hnext =>
          obtain ⟨rfl, rfl⟩ := by simpa using h
          exact .follow next hnext
  | take next =>
      simp only [tryDequeueStep] at h
      split at h
      · next hnone =>
          obtain ⟨rfl, rfl⟩ := by simpa using h
          exact .noObject next hnone
      · next v hv =>
          obtain ⟨rfl, rfl⟩ := by simpa using h
          exact .take next v (htouch next rfl) hv
  | deallocate n =>
      obtain ⟨rfl, rfl⟩ := by simpa [tryDequeueStep] using h
      exact .deallocate n (htouch n rfl)

/-- **Every step is one of `MpscStep`.** -/
theorem mpscStep_cases {s s' : MpscState α} {t : MpscThread α} {k : MpscChoice α}
    {new : List (MpscThread α)} (h : mpscStep s t k = some (s', new)) : MpscStep s t s' new := by
  unfold mpscStep at h
  split at h
  · next htouch =>
      split at h
      · exact emplaceStep_spec htouch h
      · exact tryDequeueStep_spec htouch (by simpa using h)
      · next n x =>
          split at h
          · simp at h
          · next hn =>
              obtain ⟨rfl, rfl⟩ := by simpa using h
              exact .elsewhere n x hn
      · simp at h
  · next htouch =>
      obtain ⟨rfl, rfl⟩ := by simpa using h
      push Not at htouch
      obtain ⟨n, hn, hlent⟩ := htouch
      exact .notLent t n hn hlent

end StepCases

end ExActor
