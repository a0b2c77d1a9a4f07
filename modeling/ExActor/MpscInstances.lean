/-
**The unbounded queues and their node pool together.**

`ExActor/MpscQueueFifo.lean` is about one queue, to which the pool lends nodes it does not have, and
`ExActor/MpscNodePoolOwners.lean` is about the pool, which nobody writes to but through the nodes
that are lent.  Here both run over one memory: any number of instances are constructed, each
taking its dummy from the pool; their threads allocate and give back nodes by running the code of
the pool; and every write goes into the memory that all of them share.

So what each part takes for granted is what the other one provides.  A node is lent to one instance
at a time, the pool writes into no node that is lent, and the instances write into nodes of their
own only; every instance therefore runs as it does by itself, with the others as its environment.
The one exception is the `notify_one` at the end of a push: its node may be lent to another instance
by then, and what makes it harmless is that the pool keeps its nodes until the last instance is
gone, so that there still is a `next_` at this address.

Which thread of the operating system runs which call is left open, and instances are not destroyed.

Main definitions:

* `MpscInstance`, `MpscInstances` — an instance without its nodes, and all of them with the memory;
* `MpscInstances.machine` — all interleavings of the instances and the pool;
* `MpscInstances.Apart` — every instance and the pool run by themselves, and share no node.

Main results:

* `reachable_elsewhere` — an instance does not notice what is written elsewhere;
* `MpscInstances.apart_of_exec` — `Apart` holds in every reachable state;
* `MpscInstances.refine_fifos` — **every instance is a FIFO**;
* `MpscInstances.lent_once` — **a node is lent to one instance**, only its threads read or write it,
  and whoever notifies on it later notifies on a node of the pool.
-/

import ExActor.MpscNodePoolOwners
import ExActor.MpscQueueFifo

set_option relaxedAutoImplicit false
set_option autoImplicit false

namespace ExActor

open BoundedFifo (History claims)

/-! ### The members -/

/-- An instance of `MPSC_queue`, without its nodes: the nodes that are lent to it are known by their
addresses. -/
structure MpscInstance (α : Type) where
  queue : MpscQueue
  lent : List NodePtr
  log : List (BoundedFifo.Event α)
  threads : List (MpscThread α)

/-- The instance over a memory. -/
def MpscInstance.over {α : Type} (x : MpscInstance α) (node : NodePtr → MpscNode α) : MpscPool α :=
  ⟨⟨x.queue, node, x.lent, x.log⟩, x.threads⟩

/-- The instance without its memory. -/
def MpscInstance.of {α : Type} (p : MpscPool α) : MpscInstance α :=
  ⟨p.shared.queue, p.shared.lent, p.shared.log, p.threads⟩

/-- The objects in the nodes, the pool with `next_` and `next_chunk_`, and the instances that have
been constructed. -/
structure MpscInstances (α : Type) where
  value : NodePtr → Option α
  pool : PoolThreads
  instances : ℕ → Option (MpscInstance α)

/-- What happens: a thread of the operating system starts, or takes a step in the code of the pool;
it constructs an instance; a call arrives at an instance; a thread of an instance is lent a node,
gives one back, or takes a step that does neither, and leaves `garbage` where `next_chunk_` was in
the node it has written to. -/
inductive InstancesAction (α : Type)
  | startThread
  | pool (k : ℕ) (choice : PoolChoice)
  | construct (q k : ℕ)
  | push (q : ℕ) (v : α)
  | tryPop (q : ℕ)
  | lend (q i k : ℕ)
  | run (q i k : ℕ) (garbage : Option NodePtr)
  | giveBack (q i k : ℕ)

/-- The node into which the thread of an instance writes. -/
def MpscThread.writes {α : Type} : MpscThread α → Option NodePtr
  | .emplace _ (.construct newNode) => some newNode
  | .emplace _ (.link oldHead _ _) => some oldHead
  | .tryDequeue (.take next) => some next
  | _ => none

/-- The thread of an instance is about to call `_deallocate`. -/
def MpscThread.givesBack {α : Type} : MpscThread α → Bool
  | .tryDequeue (.deallocate _) => true
  | _ => false

/-- The node whose `next_chunk_` a thread of the pool writes. -/
def PoolPc.chunk : PoolPc → Option NodePtr
  | .pushWrite chunk _ _ => some chunk
  | _ => none

/-- The choices of a thread in the code of the pool. -/
def PoolChoice.inPool : PoolChoice → Bool
  | .go | .spurious | .allocate => true
  | .deallocate _ | .write _ _ _ => false

namespace MpscInstances

variable {α : Type} (cap : ChunkCapacity)

/-- The nodes, as the instances see them. -/
def memory (s : MpscInstances α) (n : NodePtr) : MpscNode α := ⟨s.value n, s.pool.shared.next n⟩

/-- The nodes that are lent to an instance. -/
def lentTo (s : MpscInstances α) (q : ℕ) : List NodePtr :=
  match s.instances q with
  | none => []
  | some x => x.lent

/-- The thread of an instance at a position. -/
def threadAt (s : MpscInstances α) (q i : ℕ) : Option (MpscThread α) :=
  (s.instances q).bind fun x => x.threads[i]?

/-- The node that a thread of the pool is about to lend. -/
def takes (s : MpscInstances α) (k : ℕ) : Option NodePtr :=
  (s.pool.threads[k]?).bind fun t => if t.pc = .take then t.list else none

/-- A step of the pool. -/
def poolStep (s : MpscInstances α) (a : NodePoolAction) : Option (MpscInstances α) :=
  ((NodePool.machine cap).next s.pool a).map fun pool => { s with pool := pool }

/-- A step of an instance. -/
def queueStep (s : MpscInstances α) (q : ℕ) (a : MpscAction α) : Option (MpscPool α) :=
  (s.instances q).bind fun x => (MpscQueue.machine α).next (x.over s.memory) a

/-- What an instance has done, to itself and to the memory. -/
def setInstance (s : MpscInstances α) (q : ℕ) (p : MpscPool α) : MpscInstances α where
  value n := (p.shared.node n).value
  pool := ⟨{ s.pool.shared with next := fun n => (p.shared.node n).next }, s.pool.threads⟩
  instances := Function.update s.instances q (some (.of p))

/-- An object and `next_chunk_` share their storage. -/
def overwrite (s : MpscInstances α) (w garbage : Option NodePtr) : MpscInstances α :=
  { s with pool := ⟨{ s.pool.shared with
      nextChunk := fun n => if w = some n then garbage else s.pool.shared.nextChunk n },
      s.pool.threads⟩ }

/-- One step. -/
def next (s : MpscInstances α) : InstancesAction α → Option (MpscInstances α)
  | .startThread => s.poolStep cap (.arrive ())
  | .pool k choice =>
      match s.pool.threads[k]? with
      | none => none
      | some t =>
          if t.pc ≠ .take ∧ choice.inPool then
            (s.poolStep cap (.run k choice)).map fun s' =>
              { s' with value := fun n => if t.pc.chunk = some n then none else s.value n }
          else none
  | .construct q k =>
      match s.takes k, s.instances q with
      | some n, none =>
          (s.poolStep cap (.run k .go)).map fun s' =>
            s'.setInstance q ⟨.initial s.memory n, []⟩
      | _, _ => none
  | .push q v => (s.queueStep q (.arrive (.push v))).map (s.setInstance q)
  | .tryPop q => (s.queueStep q (.arrive .tryPop)).map (s.setInstance q)
  | .lend q i k =>
      match s.takes k, s.threadAt q i with
      | some n, some (.emplace _ .allocate) =>
          (s.queueStep q (.run i (.lend n))).bind fun p =>
            (s.poolStep cap (.run k .go)).map fun s' => s'.setInstance q p
      | _, _ => none
  | .run q i k garbage =>
      match s.threadAt q i, s.pool.threads[k]? with
      | some t, some u =>
          if u.pc = .idle ∧ t.givesBack = false then
            (s.queueStep q (.run i .go)).map fun p =>
              (s.setInstance q p).overwrite t.writes garbage
          else none
      | _, _ => none
  | .giveBack q i k =>
      match s.threadAt q i with
      | some (.tryDequeue (.deallocate n)) =>
          (s.queueStep q (.run i .go)).bind fun p =>
            (s.setInstance q p).poolStep cap (.run k (.deallocate n))
      | _ => none

/-- All interleavings of the instances and the pool, from a memory without nodes. -/
def machine : Machine (MpscInstances α) (InstancesAction α) where
  init s := ∃ value nextOf nextChunk,
    s = ⟨value, ⟨NodePool.empty nextOf nextChunk, []⟩, fun _ => none⟩
  next := next cap

/-- The nodes on which the threads notify are nodes that the pool has reserved. -/
def NotifiesOnPages (s : MpscInstances α) : Prop :=
  ∀ q x, s.instances q = some x → ∀ t ∈ x.threads, ∀ n, t.notifies = some n →
    n < s.pool.shared.pages

/-- The tag of the pool does not wrap around. -/
def TagBelow (s : MpscInstances α) (_ : InstancesAction α) : Prop :=
  s.pool.shared.top.tag.toNat + 1 < 2 ^ 64

instance (s : MpscInstances α) (a : InstancesAction α) : Decidable (s.TagBelow a) :=
  inferInstanceAs (Decidable (_ < _))

end MpscInstances

/-! ### An instance and its environment -/

section Instances

variable {α : Type} {cap : ChunkCapacity}

/-- **An instance does not notice what is written elsewhere.** -/
theorem reachable_elsewhere {x : MpscInstance α} {node node' : NodePtr → MpscNode α}
    (h : (MpscQueue.machine α).Reachable (x.over node)) (ns : List NodePtr)
    (hsame : ∀ n ∉ ns, node' n = node n) (hns : ∀ n ∈ ns, n ∉ x.lent) :
    (MpscQueue.machine α).Reachable (x.over node') := by
  induction ns generalizing node with
  | nil =>
      have heq : node' = node := funext fun n => hsame n List.not_mem_nil
      rwa [heq]
  | cons n ns ih =>
      have hn : n ∉ x.lent := hns n List.mem_cons_self
      -- a thread arrives that writes this node, and ends
      have harrive : (MpscQueue.machine α).next (x.over node) (.arrive .elsewhere)
          = some ⟨(x.over node).shared, x.threads ++ [.elsewhere]⟩ := rfl
      have hwrite : mpscStep (x.over node).shared .elsewhere (.write n (node' n))
          = some ((x.over node).shared.setNode n (node' n), []) := by
        have hn' : n ∉ (x.over node).shared.lent := hn
        simp [mpscStep, MpscThread.touches, hn']
      have hrun : (MpscQueue.machine α).next ⟨(x.over node).shared, x.threads ++ [.elsewhere]⟩
          (.run x.threads.length (.write n (node' n)))
          = some (x.over (Function.update node n (node' n))) := by
        refine ThreadProgram.next_run_iff.2
          ⟨x.threads, .elsewhere, [], _, [], rfl, rfl, hwrite, ?_⟩
        rw [List.append_nil, List.append_nil]
        rfl
      refine ih ((h.step harrive).step hrun) (fun m hm => ?_) fun m hm =>
        hns m (List.mem_cons_of_mem n hm)
      by_cases hmn : m = n
      · rw [hmn, Function.update_self]
      · rw [Function.update_of_ne hmn]
        exact hsame m (by simp [hmn, hm])

/-- What is true of the nodes of an instance, whatever its environment does. -/
theorem owns_of_reachable {p : MpscPool α} (h : (MpscQueue.machine α).Reachable p) :
    p.shared.lent.Nodup ∧ ∀ t ∈ p.threads, ∀ n ∈ t.touches p.shared.queue, n ∈ p.shared.lent := by
  obtain ⟨tr, hex⟩ := h
  obtain ⟨f, place, hstrung, hlog⟩ := strung_of_exec hex 0
  have hf := (hlog _ le_rfl).wellFormed
  exact ⟨hstrung.lent, fun t ht n hn => hstrung.touches_lent hf ht hn⟩

theorem MpscThread.touches_of_writes {t : MpscThread α} {n : NodePtr} (h : t.writes = some n)
    (q : MpscQueue) : t.touches q = some n := by
  unfold writes at h
  split at h <;> simp_all [touches]

/-- A step without the pool changes the node that the thread writes, and no other. -/
theorem mpscStep_go {s s' : MpscState α} {t : MpscThread α} {new : List (MpscThread α)}
    (h : mpscStep s t .go = some (s', new)) (hback : t.givesBack = false) :
    s'.lent = s.lent ∧ ∀ m, t.writes ≠ some m → s'.node m = s.node m := by
  have hother : ∀ {n m : NodePtr}, some n ≠ some m → m ≠ n := fun hne => by
    rintro rfl
    exact hne rfl
  cases mpscStep_cases h with
  | lend v n hn => simp [mpscStep, emplaceStep, MpscThread.touches] at h
  | elsewhere n x hn => simp [mpscStep, MpscThread.touches] at h
  | deallocate n hn => simp [MpscThread.givesBack] at hback
  | construct v n hn => exact ⟨rfl, fun m hm => Function.update_of_ne (hother hm) _ _⟩
  | link v old n position hn => exact ⟨rfl, fun m hm => Function.update_of_ne (hother hm) _ _⟩
  | take n v hn hv => exact ⟨rfl, fun m hm => Function.update_of_ne (hother hm) _ _⟩
  | exchange | notify | miss | follow | noObject | notLent => exact ⟨rfl, fun _ _ => rfl⟩

/-- A thread comes to notify on a node by its link to it, while the node is lent. -/
theorem notifies_of_next {p p' : MpscPool α} {a : MpscAction α}
    (h : (MpscQueue.machine α).next p a = some p') {t : MpscThread α} (ht : t ∈ p'.threads)
    {n : NodePtr} (hn : t.notifies = some n) :
    (∃ u ∈ p.threads, u.notifies = some n) ∨ n ∈ p.shared.lent := by
  cases a with
  | arrive c =>
      obtain ⟨s, u, hat, rfl⟩ := (ThreadProgram.next_arrive_iff (P := MpscQueue.program α)).1 h
      rcases List.mem_append.1 ht with ht | ht
      · exact Or.inl ⟨t, ht, hn⟩
      · obtain rfl := List.mem_singleton.1 ht
        have hfresh : t.notifies = none := by
          simp only [MpscQueue.program, arriveMpsc] at hat
          split at hat
          · obtain ⟨-, rfl⟩ := by simpa using hat
            rfl
          · split at hat
            · obtain ⟨-, rfl⟩ := by simpa using hat
              rfl
            · simp at hat
          · obtain ⟨-, rfl⟩ := by simpa using hat
            rfl
        simp [hfresh] at hn
  | run i k =>
      obtain ⟨l, u, r, s, new, hp, -, hrun, rfl⟩ :=
        (ThreadProgram.next_run_iff (P := MpscQueue.program α)).1 h
      rw [List.append_assoc, List.mem_append, List.mem_append] at ht
      rcases ht with ht | ht | ht
      · exact Or.inl ⟨t, by simp [hp, ht], hn⟩
      · right
        cases mpscStep_cases hrun with
        | link v old m position hlent =>
            obtain rfl := List.mem_singleton.1 ht
            obtain rfl := Option.some.inj hn
            exact hlent
        | lend | construct | exchange | follow | take =>
            rw [List.mem_singleton.1 ht] at hn
            simp [MpscThread.notifies] at hn
        | notify | miss | noObject | deallocate | elsewhere | notLent => simp at ht
      · exact Or.inl ⟨t, by simp [hp, ht], hn⟩

/-! ### The pool and its environment -/

theorem poolStep_of_next {p p' : PoolThreads} {k : ℕ} {choice : PoolChoice}
    (h : (NodePool.machine cap).next p (.run k choice) = some p') :
    ∃ t new, p.threads[k]? = some t ∧ poolStep cap p.shared t choice = some (p'.shared, new) := by
  obtain ⟨l, t, r, s, new, hp, rfl, hrun, rfl⟩ :=
    (ThreadProgram.next_run_iff (P := NodePool.program cap)).1 h
  exact ⟨t, new, by rw [hp, Pool.getElem?_middle], hrun⟩

/-- The pages stay. -/
theorem pages_le_of_next {p p' : PoolThreads} {a : NodePoolAction}
    (h : (NodePool.machine cap).next p a = some p') : p.shared.pages ≤ p'.shared.pages := by
  cases a with
  | arrive u =>
      obtain ⟨s, t, hat, rfl⟩ :=
        (ThreadProgram.next_arrive_iff (P := NodePool.program cap) (i := u)).1 h
      obtain rfl : p.shared = s := (Prod.mk.inj (Option.some.inj hat)).1
      exact le_rfl
  | run i k =>
      obtain ⟨t, new, -, hrun⟩ := poolStep_of_next h
      obtain ⟨t', -, -, hstep⟩ := poolStep_cases hrun
      generalize p'.shared = s' at hstep
      cases hstep with
      | reserve => exact Nat.le_add_right _ _
      | _ => exact le_rfl

/-- In the code of the pool a thread links new nodes, and lends and takes back none but at the end
of `_allocate`. -/
theorem poolStep_inPool {s s' : NodePool} {t : PoolThread} {k : PoolChoice} {new : List PoolThread}
    (h : poolStep cap s t k = some (s', new)) (hk : k.inPool = true) (htake : t.pc ≠ .take) :
    s'.lent = s.lent ∧ ∀ m ∉ t.pc.spare, s'.next m = s.next m := by
  by_cases hidle : t.pc = .idle
  · cases k with
    | allocate =>
        obtain ⟨rfl, -⟩ := by simpa [poolStep, hidle] using h
        exact ⟨rfl, fun _ _ => rfl⟩
    | go | spurious => simp [poolStep, hidle] at h
    | deallocate n | write n next nextChunk => simp [PoolChoice.inPool] at hk
  obtain ⟨t', -, -, hstep⟩ := poolStep_cases h
  cases hstep with
  | deallocate n pc hpc => exact absurd hpc hidle
  | write n next nextChunk hpc => exact absurd hpc hidle
  | take n hpc => exact absurd hpc htake
  | linkChunk base count done hpc hle =>
      refine ⟨rfl, fun (m : ℕ) hm => if_neg fun hin => hm ?_⟩
      have hhi : m < base + (done + cap.val) := hin.2
      rw [hpc]
      exact List.mem_range'_1.2 ⟨hin.1, by omega⟩
  | linkRest base count done hpc hlt =>
      refine ⟨rfl, fun (m : ℕ) hm => if_neg fun hin => hm ?_⟩
      have hlo : base + done ≤ m := hin.1
      have hhi : m < base + count := hin.2
      rw [hpc]
      exact List.mem_range'_1.2 ⟨hlo, by omega⟩
  | _ => exact ⟨rfl, fun _ _ => rfl⟩

theorem poolStep_take {s s' : NodePool} {t : PoolThread} {n : NodePtr} {new : List PoolThread}
    (h : poolStep cap s t .go = some (s', new)) (hpc : t.pc = .take) (hlist : t.list = some n) :
    s'.lent = n :: s.lent ∧ s'.next = Function.update s.next n none := by
  simp only [poolStep, hpc, hlist, Option.some.injEq, Prod.mk.injEq] at h
  rw [← h.1]
  exact ⟨rfl, rfl⟩

theorem poolStep_deallocate {s s' : NodePool} {t : PoolThread} {n : NodePtr}
    {new : List PoolThread} (h : poolStep cap s t (.deallocate n) = some (s', new)) :
    n ∈ s.lent ∧ s'.lent = s.lent.erase n ∧ ∀ m, m ≠ n → s'.next m = s.next m := by
  cases hpc : t.pc with
  | idle =>
      simp only [poolStep, hpc] at h
      split at h
      · next hn =>
          obtain ⟨rfl, -⟩ := by simpa using h
          exact ⟨hn, rfl, fun m hm => Function.update_of_ne hm _ _⟩
      · exact absurd h (by simp)
  | _ => simp [poolStep, hpc] at h

variable (cap) in
/-- An idle thread writes into a node that is lent. -/
theorem next_write {p : PoolThreads} {k : ℕ} {u : PoolThread} {n : NodePtr}
    (hu : p.threads[k]? = some u) (hidle : u.pc = .idle) (hn : n ∈ p.shared.lent)
    (next nextChunk : Option NodePtr) :
    (NodePool.machine cap).next p (.run k (.write n next nextChunk))
      = some ⟨{ p.shared with next := Function.update p.shared.next n next,
                              nextChunk := Function.update p.shared.nextChunk n nextChunk },
        p.threads⟩ := by
  obtain ⟨hk, rfl⟩ := List.getElem?_eq_some_iff.1 hu
  have hthreads : p.threads.take k ++ p.threads[k] :: p.threads.drop (k + 1) = p.threads := by
    rw [← List.drop_eq_getElem_cons hk, List.take_append_drop]
  have hrun : poolStep cap p.shared p.threads[k] (.write n next nextChunk)
      = some ({ p.shared with next := Function.update p.shared.next n next,
                              nextChunk := Function.update p.shared.nextChunk n nextChunk },
        [p.threads[k]]) := by
    simp only [poolStep, hidle, if_pos hn]
  refine (ThreadProgram.next_run_iff (P := NodePool.program cap)).2
    ⟨_, _, _, _, _, hthreads.symm, by simp [hk.le], hrun, ?_⟩
  rw [List.append_assoc, List.singleton_append, hthreads]

/-- The nodes that a thread of the pool links are not lent. -/
theorem Pooled.notMem_lent {L : PoolLayout} {p : PoolThreads} {t : PoolThread}
    (h : Pooled cap L p) (ht : t ∈ p.threads) {n : NodePtr}
    (hn : n ∈ t.pc.spare ∨ t.pc.chunk = some n) : n ∉ p.shared.lent := by
  rw [h.holds.lent]
  rcases hn with hn | hn
  · rw [((h.threads t ht).spare n).1 hn]
    simp
  · obtain ⟨l, r, hp⟩ := List.append_of_mem ht
    obtain ⟨s, ts⟩ := p
    obtain rfl : ts = l ++ t :: r := hp
    unfold PoolPc.chunk at hn
    split at hn
    · next chunk old caller hpc =>
        obtain rfl := Option.some.inj hn
        rcases h.owner_pushed hpc with howner | howner <;> simp [howner]
    · exact absurd hn (by simp)

/-! ### No node is shared -/

namespace MpscInstances

/-- **Every instance and the pool run as they do by themselves, and share no node.** -/
structure Apart (cap : ChunkCapacity) (s : MpscInstances α) : Prop where
  pool : ∃ tr, (NodePool.machine cap).Exec tr s.pool ∧ Machine.Meets ExActor.TagBelow tr
  instances : ∀ q x, s.instances q = some x → (MpscQueue.machine α).Reachable (x.over s.memory)
  lent : ∀ n, n ∈ s.pool.shared.lent ↔ ∃ q, n ∈ s.lentTo q
  apart : ∀ q q' n, n ∈ s.lentTo q → n ∈ s.lentTo q' → q = q'

theorem lentTo_eq {s : MpscInstances α} {q : ℕ} {x : MpscInstance α}
    (h : s.instances q = some x) : s.lentTo q = x.lent := by
  simp only [lentTo, h]

theorem mem_lentTo {s : MpscInstances α} {q : ℕ} {n : NodePtr} :
    n ∈ s.lentTo q ↔ ∃ x, s.instances q = some x ∧ n ∈ x.lent := by
  unfold lentTo
  split <;> simp_all

namespace Apart

variable {s s' : MpscInstances α} {q : ℕ} {x : MpscInstance α} {n : NodePtr}

theorem exists_pooled (h : Apart cap s) : ∃ L, Pooled cap L s.pool := by
  obtain ⟨tr, hex, hC⟩ := h.pool
  exact pooled_of_exec hex hC

/-- The pool goes on. -/
theorem poolNext (h : Apart cap s) (htag : s.pool.shared.top.tag.toNat + 1 < 2 ^ 64)
    {a : NodePoolAction} {p : PoolThreads} (hn : (NodePool.machine cap).next s.pool a = some p) :
    ∃ tr, (NodePool.machine cap).Exec tr p ∧ Machine.Meets ExActor.TagBelow tr := by
  obtain ⟨tr, hex, hC⟩ := h.pool
  exact ⟨_, hex.step hn, (Machine.meets_append ..).2 ⟨hC, (Machine.meets_singleton ..).2 htag⟩⟩

theorem lent_iff (h : Apart cap s) (q : ℕ) :
    n ∈ s.pool.shared.lent ↔ n ∈ s.lentTo q ∨ ∃ q', q' ≠ q ∧ n ∈ s.lentTo q' := by
  rw [h.lent]
  constructor
  · rintro ⟨q', hq'⟩
    by_cases hq : q' = q
    · exact Or.inl (hq ▸ hq')
    · exact Or.inr ⟨q', hq, hq'⟩
  · rintro (hq | ⟨q', -, hq'⟩)
    · exact ⟨q, hq⟩
    · exact ⟨q', hq'⟩

/-- Something is written that is in no instance. -/
theorem elsewhere (h : Apart cap s)
    (hpool : ∃ tr, (NodePool.machine cap).Exec tr s'.pool ∧ Machine.Meets ExActor.TagBelow tr)
    (hinstances : s'.instances = s.instances) (hlent : s'.pool.shared.lent = s.pool.shared.lent)
    (ns : List NodePtr) (hsame : ∀ n ∉ ns, s'.memory n = s.memory n)
    (hns : ∀ n ∈ ns, n ∉ s.pool.shared.lent) : Apart cap s' := by
  have hlentTo : ∀ q, s'.lentTo q = s.lentTo q := fun q => by simp only [lentTo, hinstances]
  refine ⟨hpool, fun q x hx => ?_, ?_, ?_⟩
  · rw [hinstances] at hx
    refine reachable_elsewhere (h.instances q x hx) ns hsame fun n hn hmem => hns n hn ?_
    exact (h.lent n).2 ⟨q, mem_lentTo.2 ⟨x, hx, hmem⟩⟩
  · simpa only [hlent, hlentTo] using h.lent
  · simpa only [hlentTo] using h.apart

/-- One instance takes a step, alone or with the pool. -/
theorem changed (h : Apart cap s)
    (hpool : ∃ tr, (NodePool.machine cap).Exec tr s'.pool ∧ Machine.Meets ExActor.TagBelow tr)
    (hinstances : s'.instances = Function.update s.instances q (some x))
    (hx : (MpscQueue.machine α).Reachable (x.over s'.memory)) (ns : List NodePtr)
    (hsame : ∀ n ∉ ns, s'.memory n = s.memory n)
    (hns : ∀ n ∈ ns, ∀ q', q' ≠ q → n ∉ s.lentTo q')
    (hlent : ∀ n, n ∈ s'.pool.shared.lent ↔ n ∈ x.lent ∨ ∃ q', q' ≠ q ∧ n ∈ s.lentTo q')
    (hapart : ∀ n ∈ x.lent, ∀ q', q' ≠ q → n ∉ s.lentTo q') : Apart cap s' := by
  have hself : s'.lentTo q = x.lent := lentTo_eq (by rw [hinstances, Function.update_self])
  have hother : ∀ q', q' ≠ q → s'.lentTo q' = s.lentTo q' := by
    intro q' hq
    simp only [lentTo, hinstances, Function.update_of_ne hq]
  refine ⟨hpool, fun q' y hy => ?_, fun n => ?_, fun q₁ q₂ n h₁ h₂ => ?_⟩
  · rw [hinstances] at hy
    by_cases hq : q' = q
    · subst hq
      rw [Function.update_self] at hy
      exact Option.some.inj hy ▸ hx
    · rw [Function.update_of_ne hq] at hy
      refine reachable_elsewhere (h.instances q' y hy) ns hsame fun n hn hmem => ?_
      exact hns n hn q' hq (mem_lentTo.2 ⟨y, hy, hmem⟩)
  · rw [hlent]
    constructor
    · rintro (hn | ⟨q', hq, hn⟩)
      · exact ⟨q, hself ▸ hn⟩
      · exact ⟨q', (hother q' hq).symm ▸ hn⟩
    · rintro ⟨q', hn⟩
      by_cases hq : q' = q
      · exact Or.inl (by rwa [hq, hself] at hn)
      · exact Or.inr ⟨q', hq, by rwa [hother q' hq] at hn⟩
  · by_cases hq₁ : q₁ = q <;> by_cases hq₂ : q₂ = q
    · rw [hq₁, hq₂]
    · rw [hq₁, hself] at h₁
      rw [hother q₂ hq₂] at h₂
      exact absurd h₂ (hapart n h₁ q₂ hq₂)
    · rw [hq₂, hself] at h₂
      rw [hother q₁ hq₁] at h₁
      exact absurd h₁ (hapart n h₂ q₁ hq₁)
    · rw [hother q₁ hq₁] at h₁
      rw [hother q₂ hq₂] at h₂
      exact h.apart q₁ q₂ n h₁ h₂

/-! ### One step -/

theorem queueStep_eq {a : MpscAction α} {p : MpscPool α} (h : s.queueStep q a = some p) :
    ∃ x, s.instances q = some x ∧ (MpscQueue.machine α).next (x.over s.memory) a = some p :=
  Option.bind_eq_some_iff.1 h

theorem queueStep_run {a : MpscChoice α} {i : ℕ} {t : MpscThread α} {p : MpscPool α}
    (ht : s.threadAt q i = some t) (h : s.queueStep q (.run i a) = some p) :
    ∃ x new, s.instances q = some x ∧ t ∈ x.threads ∧
      (MpscQueue.machine α).next (x.over s.memory) (.run i a) = some p ∧
      mpscStep (x.over s.memory).shared t a = some (p.shared, new) := by
  obtain ⟨x, hx, hn⟩ := queueStep_eq h
  obtain ⟨l, u, r, s₁, new, hp, rfl, hrun, rfl⟩ :=
    (ThreadProgram.next_run_iff (P := MpscQueue.program α)).1 hn
  have hthreads : x.threads = l ++ u :: r := hp
  obtain rfl : u = t := by simpa [threadAt, hx, hthreads] using ht
  exact ⟨x, new, hx, by simp [hthreads], hn, hrun⟩

theorem takes_eq {k : ℕ} (h : s.takes k = some n) :
    ∃ t, s.pool.threads[k]? = some t ∧ t.pc = .take ∧ t.list = some n := by
  obtain ⟨t, ht, hif⟩ := Option.bind_eq_some_iff.1 h
  split at hif
  · next hpc => exact ⟨t, ht, hpc, hif⟩
  · exact absurd hif (by simp)

/-- What is about to be lent is lent to no instance. -/
theorem notMem_of_takes (h : Apart cap s) {k : ℕ} (hk : s.takes k = some n) :
    n ∉ s.pool.shared.lent ∧ ∀ q, n ∉ s.lentTo q := by
  obtain ⟨L, hL⟩ := h.exists_pooled
  obtain ⟨t, ht, hpc, hlist⟩ := takes_eq hk
  obtain ⟨m, hm, howner⟩ := hL.exists_take (List.mem_of_getElem? ht) hpc
  obtain rfl : m = n := Option.some.inj (hm.symm.trans hlist)
  have hnot : m ∉ s.pool.shared.lent := by
    rw [hL.holds.lent, howner]
    simp
  exact ⟨hnot, fun q hq => hnot ((h.lent m).2 ⟨q, hq⟩)⟩

/-- A call arrives. -/
theorem called (h : Apart cap s) {c : MpscCall α} {p : MpscPool α}
    (hp : s.queueStep q (.arrive c) = some p) : Apart cap (s.setInstance q p) := by
  obtain ⟨x, hx, hn⟩ := queueStep_eq hp
  obtain ⟨sh, t, hat, rfl⟩ := (ThreadProgram.next_arrive_iff (P := MpscQueue.program α)).1 hn
  obtain rfl : (x.over s.memory).shared = sh := by
    cases c with
    | push v | elsewhere =>
        simp only [MpscQueue.program, arriveMpsc, Option.some.injEq, Prod.mk.injEq] at hat
        exact hat.1
    | tryPop =>
        simp only [MpscQueue.program, arriveMpsc] at hat
        split at hat
        · simp only [Option.some.injEq, Prod.mk.injEq] at hat
          exact hat.1
        · simp at hat
  refine h.changed h.pool rfl ((h.instances q x hx).step hn) [] (fun _ _ => rfl)
    (by simp) (fun n => ?_) ?_
  · exact lentTo_eq hx ▸ h.lent_iff q
  · intro n hn q' hq hmem
    exact hq (h.apart q' q n hmem (lentTo_eq hx ▸ hn))

/-- A thread of an instance takes a step without the pool, on an idle thread of the pool. -/
theorem run (h : Apart cap s) (htag : s.pool.shared.top.tag.toNat + 1 < 2 ^ 64) {i k : ℕ}
    {t : MpscThread α} {u : PoolThread} {p : MpscPool α} (garbage : Option NodePtr)
    (ht : s.threadAt q i = some t) (hu : s.pool.threads[k]? = some u) (hidle : u.pc = .idle)
    (hback : t.givesBack = false) (hp : s.queueStep q (.run i .go) = some p) :
    Apart cap ((s.setInstance q p).overwrite t.writes garbage) := by
  obtain ⟨x, new, hx, hmem, hn, hrun⟩ := queueStep_run ht hp
  have hreach := h.instances q x hx
  obtain ⟨hlent, hsame⟩ := mpscStep_go hrun hback
  have hlentTo : s.lentTo q = p.shared.lent := (lentTo_eq hx).trans hlent.symm
  have howns : ∀ n, t.writes = some n → n ∈ s.lentTo q := fun n hn => by
    rw [lentTo_eq hx]
    exact (owns_of_reachable hreach).2 t hmem n (MpscThread.touches_of_writes hn _)
  have hother : ∀ n ∈ s.lentTo q, ∀ q', q' ≠ q → n ∉ s.lentTo q' :=
    fun n hn q' hq hmem' => hq (h.apart q' q n hmem' hn)
  refine h.changed ?_ rfl (hreach.step hn) t.writes.toList ?_ ?_ ?_ ?_
  · cases hw : t.writes with
    | none =>
        have hnode : ∀ n, p.shared.node n = s.memory n := fun n => hsame n (by simp [hw])
        have heq : ((s.setInstance q p).overwrite none garbage).pool = s.pool := by
          simp [setInstance, overwrite, hnode, memory]
        rw [heq]
        exact h.pool
    | some n =>
        -- for the pool, a node that is lent is written to
        have hlentn : n ∈ s.pool.shared.lent := (h.lent n).2 ⟨q, howns n hw⟩
        have hnext : (fun m => (p.shared.node m).next)
            = Function.update s.pool.shared.next n (p.shared.node n).next := by
          funext m
          by_cases hm : m = n
          · rw [hm, Function.update_self]
          · rw [Function.update_of_ne hm, hsame m (by simp [hw, Ne.symm hm])]
            rfl
        have hchunk : (fun m => if some n = some m then garbage else s.pool.shared.nextChunk m)
            = Function.update s.pool.shared.nextChunk n garbage := by
          funext m
          simp [Function.update_apply, eq_comm]
        have hwrite := next_write cap hu hidle hlentn (p.shared.node n).next garbage
        rw [← hnext, ← hchunk] at hwrite
        exact h.poolNext htag hwrite
  · intro n hn
    exact hsame n (by simpa [eq_comm] using hn)
  · intro n hn
    exact hother n (howns n (by simpa using hn))
  · intro n
    have := h.lent_iff q (n := n)
    rw [hlentTo] at this
    exact this
  · rw [hlentTo] at hother
    exact hother

/-- The pool lends a node to an instance. -/
theorem lend (h : Apart cap s) (htag : s.pool.shared.top.tag.toNat + 1 < 2 ^ 64) {k : ℕ}
    (hk : s.takes k = some n) {s₁ : MpscInstances α}
    (hpool : s.poolStep cap (.run k .go) = some s₁) {p : MpscPool α}
    (hreach : (MpscQueue.machine α).Reachable p) (hlent : p.shared.lent = n :: s.lentTo q)
    (hnode : p.shared.node = Function.update s.memory n ⟨none, none⟩) :
    Apart cap (s₁.setInstance q p) := by
  obtain ⟨pool, hn, rfl⟩ := Option.map_eq_some_iff.1 hpool
  obtain ⟨t, ht, hpc, hlist⟩ := takes_eq hk
  obtain ⟨t', new, ht', hrun⟩ := poolStep_of_next hn
  obtain rfl : t = t' := Option.some.inj (ht.symm.trans ht')
  obtain ⟨hlent', hnext'⟩ := poolStep_take hrun hpc hlist
  obtain ⟨-, hfresh⟩ := h.notMem_of_takes hk
  have heq : (setInstance { s with pool := pool } q p).pool = pool := by
    have hnext : (fun m => (p.shared.node m).next) = pool.shared.next := by
      rw [hnext', hnode]
      funext m
      by_cases hm : m = n
      · rw [hm, Function.update_self, Function.update_self]
      · rw [Function.update_of_ne hm, Function.update_of_ne hm]
        rfl
    simp [setInstance, hnext]
  refine h.changed (by rw [heq]; exact h.poolNext htag hn) rfl hreach [n] ?_ ?_ ?_ ?_
  · intro m hm
    have hne : m ≠ n := by simpa using hm
    have hkept : p.shared.node m = s.memory m := by rw [hnode, Function.update_of_ne hne]
    exact hkept
  · intro m hm q' _
    rw [List.mem_singleton.1 hm]
    exact hfresh q'
  · intro m
    rw [heq, hlent', MpscInstance.of, hlent, List.mem_cons, List.mem_cons, h.lent_iff q, or_assoc]
  · intro m hm q' hq hmem
    rw [MpscInstance.of, hlent] at hm
    rcases List.mem_cons.1 hm with rfl | hm
    · exact hfresh q' hmem
    · exact hq (h.apart q' q m hmem hm)

/-- A consumer gives a node back. -/
theorem giveBack (h : Apart cap s) (htag : s.pool.shared.top.tag.toNat + 1 < 2 ^ 64) {i k : ℕ}
    {p : MpscPool α} (ht : s.threadAt q i = some (.tryDequeue (.deallocate n)))
    (hp : s.queueStep q (.run i .go) = some p)
    (hs : (s.setInstance q p).poolStep cap (.run k (.deallocate n)) = some s') : Apart cap s' := by
  obtain ⟨x, new, hx, hmem, hn, hrun⟩ := queueStep_run ht hp
  have hreach := h.instances q x hx
  have hlentTo := lentTo_eq hx
  obtain ⟨hnodup, htouches⟩ := owns_of_reachable hreach
  have hlentx : n ∈ x.lent := htouches _ hmem n rfl
  have hp' : { (x.over s.memory).shared with lent := x.lent.erase n } = p.shared := by
    have hlent : n ∈ (x.over s.memory).shared.lent := hlentx
    simp only [mpscStep, MpscThread.touches, Option.mem_some_iff, forall_eq', hlent, if_true,
      tryDequeueStep, Option.some.injEq, Prod.mk.injEq] at hrun
    exact hrun.1
  have hlent : p.shared.lent = x.lent.erase n := by rw [← hp']
  have hnode : p.shared.node = s.memory := by
    rw [← hp']
    rfl
  have hpool : (s.setInstance q p).pool = s.pool := by
    simp [setInstance, hnode, memory]
  obtain ⟨pool, hnpool, rfl⟩ := Option.map_eq_some_iff.1 hs
  rw [hpool] at hnpool
  obtain ⟨u, new', hu, hrun'⟩ := poolStep_of_next hnpool
  obtain ⟨-, hlent', hnext'⟩ := poolStep_deallocate hrun'
  obtain ⟨L, hL⟩ := h.exists_pooled
  have hsame : ∀ m ∉ [n], memory { s.setInstance q p with pool := pool } m = s.memory m := by
    intro m hm
    have hne : m ≠ n := by simpa using hm
    simp only [memory, setInstance, hnode, hnext' m hne]
  have herase : ∀ m, m ∈ x.lent.erase n ↔ m ≠ n ∧ m ∈ x.lent := fun m => hnodup.mem_erase_iff
  refine h.changed (h.poolNext htag hnpool) rfl ?_ [n] hsame ?_ ?_ ?_
  · have hreach' : (MpscQueue.machine α).Reachable ((MpscInstance.of p).over p.shared.node) :=
      hreach.step hn
    refine reachable_elsewhere hreach' [n] (fun m hm => by rw [hsame m hm, hnode])
      fun m hm hmem' => ?_
    rw [List.mem_singleton.1 hm, MpscInstance.of, hlent, herase] at hmem'
    exact hmem'.1 rfl
  · intro m hm q' hq hmem'
    rw [List.mem_singleton.1 hm] at hmem'
    exact hq (h.apart q' q n hmem' (hlentTo ▸ hlentx))
  · intro m
    rw [hlent', hL.holds.lent_nodup.mem_erase_iff, h.lent_iff q, hlentTo, MpscInstance.of, hlent,
      herase]
    constructor
    · rintro ⟨hne, hm | hm⟩
      · exact Or.inl ⟨hne, hm⟩
      · exact Or.inr hm
    · rintro (⟨hne, hm⟩ | ⟨q', hq, hm⟩)
      · exact ⟨hne, Or.inl hm⟩
      · refine ⟨?_, Or.inr ⟨q', hq, hm⟩⟩
        rintro rfl
        exact hq (h.apart q' q m hm (hlentTo ▸ hlentx))
  · intro m hm q' hq hmem'
    rw [MpscInstance.of, hlent, herase] at hm
    exact hq (h.apart q' q m hmem' (hlentTo ▸ hm.2))

/-- A thread takes a step in the code of the pool. -/
theorem pooled (h : Apart cap s) (htag : s.pool.shared.top.tag.toNat + 1 < 2 ^ 64) {k : ℕ}
    {choice : PoolChoice} {t : PoolThread} (ht : s.pool.threads[k]? = some t)
    (htake : t.pc ≠ .take) (hchoice : choice.inPool = true) {s₁ : MpscInstances α}
    (hpool : s.poolStep cap (.run k choice) = some s₁) :
    Apart cap { s₁ with value := fun n => if t.pc.chunk = some n then none else s.value n } := by
  obtain ⟨pool, hn, rfl⟩ := Option.map_eq_some_iff.1 hpool
  obtain ⟨t', new, ht', hrun⟩ := poolStep_of_next hn
  obtain rfl : t = t' := Option.some.inj (ht.symm.trans ht')
  obtain ⟨hlent, hnext⟩ := poolStep_inPool hrun hchoice htake
  obtain ⟨L, hL⟩ := h.exists_pooled
  refine h.elsewhere (h.poolNext htag hn) rfl hlent (t.pc.spare ++ t.pc.chunk.toList) ?_ ?_
  · intro n hn
    rw [List.mem_append, not_or, Option.mem_toList] at hn
    simp only [memory, hnext n hn.1, if_neg hn.2]
  · intro n hn
    refine hL.notMem_lent (List.mem_of_getElem? ht) ?_
    simpa using hn

/-- **What one step keeps**, as long as the tag does not wrap around. -/
theorem next (h : Apart cap s) {a : InstancesAction α} (htag : s.TagBelow a)
    (hn : s.next cap a = some s') : Apart cap s' := by
  cases a with
  | startThread =>
      simp only [MpscInstances.next, poolStep] at hn
      obtain ⟨pool, hpool, rfl⟩ := Option.map_eq_some_iff.1 hn
      obtain ⟨sh, t, hat, rfl⟩ :=
        (ThreadProgram.next_arrive_iff (P := NodePool.program cap) (i := ())).1 hpool
      obtain rfl : s.pool.shared = sh := (Prod.mk.inj (Option.some.inj hat)).1
      exact h.elsewhere (h.poolNext htag hpool) rfl rfl [] (fun _ _ => rfl) (by simp)
  | pool k choice =>
      simp only [MpscInstances.next] at hn
      split at hn
      · simp at hn
      · next t ht =>
          split at hn
          · next hif =>
              obtain ⟨s₁, hs₁, rfl⟩ := Option.map_eq_some_iff.1 hn
              exact h.pooled htag ht hif.1 hif.2 hs₁
          · simp at hn
  | construct q k =>
      simp only [MpscInstances.next] at hn
      split at hn
      · next n hk hnone =>
          obtain ⟨s₁, hs₁, rfl⟩ := Option.map_eq_some_iff.1 hn
          refine h.lend htag hk hs₁ ⟨[], .init ⟨⟨s.memory, n, rfl⟩, rfl⟩⟩ ?_ rfl
          simp [MpscState.initial, lentTo, hnone]
      · simp at hn
  | push q v =>
      obtain ⟨p, hp, rfl⟩ := Option.map_eq_some_iff.1 hn
      exact h.called hp
  | tryPop q =>
      obtain ⟨p, hp, rfl⟩ := Option.map_eq_some_iff.1 hn
      exact h.called hp
  | lend q i k =>
      simp only [MpscInstances.next] at hn
      split at hn
      · next n v hk ht =>
          obtain ⟨p, hp, hn⟩ := Option.bind_eq_some_iff.1 hn
          obtain ⟨s₁, hs₁, rfl⟩ := Option.map_eq_some_iff.1 hn
          obtain ⟨x, new, hx, hmem, hnext, hrun⟩ := queueStep_run ht hp
          have hfresh : n ∉ (x.over s.memory).shared.lent := by
            have := (h.notMem_of_takes hk).2 q
            rwa [lentTo_eq hx] at this
          simp only [mpscStep, MpscThread.touches, emplaceStep, if_neg hfresh] at hrun
          obtain ⟨hp', -⟩ := by simpa using hrun
          refine h.lend htag hk hs₁ ((h.instances q x hx).step hnext) ?_ ?_
          · rw [← hp', lentTo_eq hx]
            rfl
          · rw [← hp']
            rfl
      · simp at hn
  | run q i k garbage =>
      simp only [MpscInstances.next] at hn
      split at hn
      · next t u ht hu =>
          split at hn
          · next hif =>
              obtain ⟨p, hp, rfl⟩ := Option.map_eq_some_iff.1 hn
              exact h.run htag garbage ht hu hif.1 hif.2 hp
          · simp at hn
      · simp at hn
  | giveBack q i k =>
      simp only [MpscInstances.next] at hn
      split at hn
      · next n ht =>
          obtain ⟨p, hp, hs⟩ := Option.bind_eq_some_iff.1 hn
          exact h.giveBack htag ht hp hs
      · simp at hn

end Apart

/-! ### Runs -/

/-- **In every reachable state no node is shared**, as long as the tag does not wrap around. -/
theorem apart_of_exec {tr : List (MpscInstances α × InstancesAction α)} {s : MpscInstances α}
    (h : (machine cap).Exec tr s) (hC : Machine.Meets TagBelow tr) : Apart cap s := by
  refine h.invariantWhere ?_ (fun _ _ _ _ _ _ hI htag hn => hI.next htag hn) hC
  rintro s ⟨value, nextOf, nextChunk, rfl⟩
  refine ⟨⟨[], .init ⟨⟨nextOf, nextChunk, rfl⟩, rfl⟩, Machine.meets_nil _⟩, ?_, ?_, ?_⟩
  · simp
  · simp [lentTo, NodePool.empty]
  · simp [lentTo]

/-- What a step does to the pages, to the instances and to their threads. -/
theorem next_cases {s s' : MpscInstances α} {a : InstancesAction α} (h : s.next cap a = some s') :
    s.pool.shared.pages ≤ s'.pool.shared.pages ∧
      (s'.instances = s.instances ∨ ∃ q p,
        s'.instances = Function.update s.instances q (some (.of p)) ∧
          (p.threads = [] ∨ ∃ x b, s.instances q = some x ∧
            (MpscQueue.machine α).next (x.over s.memory) b = some p)) := by
  have hstep : ∀ {s₁ s₂ : MpscInstances α} {b : NodePoolAction}, s₁.poolStep cap b = some s₂ →
      s₁.pool.shared.pages ≤ s₂.pool.shared.pages ∧ s₂.instances = s₁.instances := by
    intro s₁ s₂ b hb
    obtain ⟨pool, hpool, rfl⟩ := Option.map_eq_some_iff.1 hb
    exact ⟨pages_le_of_next hpool, rfl⟩
  have hqueue : ∀ {q : ℕ} {b : MpscAction α} {p : MpscPool α}, s.queueStep q b = some p →
      ∃ x b, s.instances q = some x ∧
        (MpscQueue.machine α).next (x.over s.memory) b = some p := by
    intro q b p hb
    obtain ⟨x, hx, hn⟩ := Option.bind_eq_some_iff.1 hb
    exact ⟨x, b, hx, hn⟩
  cases a with
  | startThread => exact ⟨(hstep h).1, Or.inl (hstep h).2⟩
  | pool k choice =>
      simp only [MpscInstances.next] at h
      split at h
      · simp at h
      · split at h
        · obtain ⟨s₁, hs₁, rfl⟩ := Option.map_eq_some_iff.1 h
          exact ⟨(hstep hs₁).1, Or.inl (hstep hs₁).2⟩
        · simp at h
  | construct q k =>
      simp only [MpscInstances.next] at h
      split at h
      · obtain ⟨s₁, hs₁, rfl⟩ := Option.map_eq_some_iff.1 h
        obtain ⟨hpages, hinst⟩ := hstep hs₁
        exact ⟨hpages, Or.inr ⟨q, _, by rw [← hinst]; rfl, Or.inl rfl⟩⟩
      · simp at h
  | push q v =>
      obtain ⟨p, hp, rfl⟩ := Option.map_eq_some_iff.1 h
      exact ⟨le_rfl, Or.inr ⟨q, p, rfl, Or.inr (hqueue hp)⟩⟩
  | tryPop q =>
      obtain ⟨p, hp, rfl⟩ := Option.map_eq_some_iff.1 h
      exact ⟨le_rfl, Or.inr ⟨q, p, rfl, Or.inr (hqueue hp)⟩⟩
  | lend q i k =>
      simp only [MpscInstances.next] at h
      split at h
      · obtain ⟨p, hp, h⟩ := Option.bind_eq_some_iff.1 h
        obtain ⟨s₁, hs₁, rfl⟩ := Option.map_eq_some_iff.1 h
        obtain ⟨hpages, hinst⟩ := hstep hs₁
        exact ⟨hpages, Or.inr ⟨q, p, by rw [← hinst]; rfl, Or.inr (hqueue hp)⟩⟩
      · simp at h
  | run q i k garbage =>
      simp only [MpscInstances.next] at h
      split at h
      · split at h
        · obtain ⟨p, hp, rfl⟩ := Option.map_eq_some_iff.1 h
          exact ⟨le_rfl, Or.inr ⟨q, p, rfl, Or.inr (hqueue hp)⟩⟩
        · simp at h
      · simp at h
  | giveBack q i k =>
      simp only [MpscInstances.next] at h
      split at h
      · obtain ⟨p, hp, hs⟩ := Option.bind_eq_some_iff.1 h
        obtain ⟨hpages, hinst⟩ := hstep hs
        exact ⟨hpages, Or.inr ⟨q, p, hinst, Or.inr (hqueue hp)⟩⟩
      · simp at h

/-- What a thread notifies on is a node of the pool. -/
theorem onPages_of_exec {tr : List (MpscInstances α × InstancesAction α)} {s : MpscInstances α}
    (h : (machine cap).Exec tr s) (hC : Machine.Meets TagBelow tr) : s.NotifiesOnPages := by
  refine h.invariantWhere ?_ (fun tr s a s' hex hmeets hI _ hn => ?_) hC
  · rintro s ⟨value, nextOf, nextChunk, rfl⟩ q x hx
    cases hx
  intro q x hx t ht n hnotifies
  obtain ⟨hpages, hsame | ⟨q', p, hset, hp⟩⟩ := next_cases hn
  · exact (hI q x (hsame ▸ hx) t ht n hnotifies).trans_le hpages
  · rw [hset] at hx
    by_cases hq : q = q'
    · obtain rfl : MpscInstance.of p = x := by simpa [hq] using hx
      rcases hp with hnil | ⟨y, b, hy, hnext⟩
      · simp [MpscInstance.of, hnil] at ht
      · rcases notifies_of_next hnext ht hnotifies with ⟨u, hu, hun⟩ | hlent
        · exact (hI q' y hy u hu n hun).trans_le hpages
        · -- the node is lent to the instance, and therefore on the pages
          have hapart := apart_of_exec hex hmeets
          obtain ⟨L, hL⟩ := hapart.exists_pooled
          have hmem : n ∈ s.pool.shared.lent := (hapart.lent n).2 ⟨q', lentTo_eq hy ▸ hlent⟩
          exact (hL.lt_pages hmem).trans_le hpages
    · rw [Function.update_of_ne hq] at hx
      exact (hI q x hx t ht n hnotifies).trans_le hpages

/-- **Every instance is a FIFO that is never full**, over the pool that it shares with the others:
its pushes claim positions and publish them, its consumer takes the elements in the order of the
claims, and no thread of it meets a node that is not its own or has no object in it. -/
theorem refine_fifos {tr : List (MpscInstances α × InstancesAction α)} {s : MpscInstances α}
    (h : (machine cap).Exec tr s) (hC : Machine.Meets TagBelow tr) {q : ℕ} {x : MpscInstance α}
    (hx : s.instances q = some x) {C limit : ℕ} (hclaims : (claims x.log).length ≤ C) :
    ∃ f, History C limit x.log f := by
  obtain ⟨tr', hex⟩ := (apart_of_exec h hC).instances q x hx
  obtain ⟨f, place, -, hlog⟩ := strung_of_exec hex limit
  have hclaimed := (hlog _ le_rfl).claimed_eq
  exact ⟨f, hlog C (by rw [hclaimed]; exact hclaims)⟩

/-- **A node is lent to one instance.**  The nodes that the pool has lent are those of the
instances, each of one of them; the node that a thread of an instance reads, writes or gives back
next is lent to this instance and to no other; the node that the pool is about to lend is lent to
none; and the node that a thread notifies on, wherever it is by now, is one of the pool. -/
theorem lent_once {tr : List (MpscInstances α × InstancesAction α)} {s : MpscInstances α}
    (h : (machine cap).Exec tr s) (hC : Machine.Meets TagBelow tr) :
    (∀ n, n ∈ s.pool.shared.lent ↔ ∃! q, n ∈ s.lentTo q) ∧
      (∀ q x, s.instances q = some x → ∀ t ∈ x.threads, ∀ n ∈ t.touches x.queue,
        n ∈ s.lentTo q ∧ ∀ q', q' ≠ q → n ∉ s.lentTo q') ∧
      (∀ k n, s.takes k = some n → ∀ q, n ∉ s.lentTo q) ∧ s.NotifiesOnPages := by
  have hapart := apart_of_exec h hC
  refine ⟨fun n => ?_, fun q x hx t ht n hn => ?_,
    fun k n hk => (hapart.notMem_of_takes hk).2, onPages_of_exec h hC⟩
  · rw [hapart.lent]
    constructor
    · rintro ⟨q, hq⟩
      exact ⟨q, hq, fun q' hq' => hapart.apart q' q n hq' hq⟩
    · rintro ⟨q, hq, -⟩
      exact ⟨q, hq⟩
  · have hlent : n ∈ s.lentTo q := by
      rw [lentTo_eq hx]
      exact (owns_of_reachable (hapart.instances q x hx)).2 t ht n hn
    exact ⟨hlent, fun q' hq hmem => hq (hapart.apart q' q n hmem hlent)⟩

/-! ### Two instances -/

theorem machine_init : (machine (α := ℕ) .two).init
    ⟨fun _ => none, ⟨NodePool.empty (fun _ => none) (fun _ => none), []⟩, fun _ => none⟩ :=
  ⟨_, _, _, rfl⟩

/-- The thread of the pool calls `_allocate`, and takes some steps. -/
def allocating (count : ℕ) : List (InstancesAction ℕ) :=
  .pool 0 .allocate :: List.replicate count (.pool 0 .go)

/-- Two instances are constructed and share the first chunk.  An element goes through the first
one, whose dummy comes back to the pool with a chunk and is about to be lent again, while the push
of the element has still to notify on it. -/
def dummyReused : List (InstancesAction ℕ) :=
  .startThread :: allocating 14 ++ [.construct 0 0] ++ allocating 1 ++ [.construct 1 0, .push 0 10]
    ++ allocating 14 ++ [.lend 0 0 0] ++ List.replicate 3 (.run 0 0 0 (some 7)) ++ [.tryPop 0]
    ++ List.replicate 2 (.run 0 1 0 (some 9)) ++ [.giveBack 0 1 0]
    ++ List.replicate 3 (.pool 0 .go) ++ [.push 1 20] ++ allocating 4

/-- The dummy of the first instance goes to the second one, and the elements of both are right. -/
theorem refine_fifos_two_instances :
    ∃ tr s x y, (machine (α := ℕ) .two).Exec tr s ∧ s.instances 0 = some x ∧
      s.instances 1 = some y ∧ x.lent = [2] ∧ y.lent = [0, 1] ∧
      x.log = [.claim 10, .publish 0, .release 10] ∧ y.log = [.claim 20, .publish 0] ∧
      (∃ f, History 1 0 x.log f) ∧ ∃ f, History 1 0 y.log f := by
  obtain ⟨s, hex, hs⟩ := Machine.exists_exec_of_replay machine_init
    (dummyReused ++ [.lend 1 0 0] ++ List.replicate 3 (.run 1 0 0 none))
    (fun s => [s.instances 0, s.instances 1].map (Option.map fun x => (x.lent, x.log)))
    [some ([2], [.claim 10, .publish 0, .release 10]), some ([0, 1], [.claim 20, .publish 0])]
    (by decide)
  simp only [List.map_cons, List.map_nil, List.cons.injEq, and_true, Option.map_eq_some_iff,
    Prod.mk.injEq] at hs
  obtain ⟨⟨x, hx, hxlent, hxlog⟩, ⟨y, hy, hylent, hylog⟩⟩ := hs
  have hfifo := @refine_fifos ℕ .two _ s hex (by decide)
  exact ⟨_, s, x, y, hex, hx, hy, hxlent, hylent, hxlog, hylog, hfifo hx (by rw [hxlog]; decide),
    hfifo hy (by rw [hylog]; decide)⟩

/-- The dummy of the first instance, which has given it back, is lent to none; the push that has to
notify on it does so while the second instance has it. -/
theorem lent_once_two_instances :
    (∃ tr s, (machine (α := ℕ) .two).Exec tr s ∧ s.takes 0 = some 0 ∧ s.pool.shared.lent = [2, 1] ∧
      (∃! q, 2 ∈ s.lentTo q) ∧ ∀ q, 0 ∉ s.lentTo q) ∧
    ∃ tr s, (machine (α := ℕ) .two).Exec tr s ∧
      s.threadAt 0 0 = some (.emplace 10 (.notify 0)) ∧ 0 < s.pool.shared.pages ∧
      0 ∉ s.lentTo 0 ∧ 0 ∈ s.lentTo 1 := by
  constructor
  · obtain ⟨s, hex, hs⟩ := Machine.exists_exec_of_replay machine_init dummyReused
      (fun s => (s.takes 0, s.pool.shared.lent)) (some 0, [2, 1]) (by decide)
    obtain ⟨htakes, hlent⟩ := Prod.mk.inj hs
    obtain ⟨hone, -, hfresh, -⟩ := lent_once hex (by decide)
    exact ⟨_, s, hex, htakes, hlent, (hone 2).1 (by simp [hlent]), hfresh 0 0 htakes⟩
  · obtain ⟨s, hex, hs⟩ := Machine.exists_exec_of_replay machine_init
      (dummyReused ++ [.lend 1 0 0]) (fun s => (s.threadAt 0 0, s.lentTo 0, s.lentTo 1))
      (some (.emplace 10 (.notify 0)), [2], [0, 1]) (by decide)
    simp only [Prod.mk.injEq] at hs
    obtain ⟨hat, hfirst, hsecond⟩ := hs
    obtain ⟨x, hx, hthread⟩ := Option.bind_eq_some_iff.1 hat
    obtain ⟨-, -, -, hpages⟩ := lent_once hex (by decide)
    refine ⟨_, s, hex, hat, hpages 0 x hx _ (List.mem_of_getElem? hthread) 0 rfl, ?_, ?_⟩
    · rw [hfirst]
      decide
    · rw [hsecond]
      decide

end MpscInstances

end Instances

end ExActor
