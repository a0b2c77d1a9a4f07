/-
**The unbounded queue of an actor is a FIFO whose elements enter in two steps.**

The exchange of `head_` claims the next position for an element, and the link from the node of its
predecessor publishes it.  At every moment the nodes from `tail_` to `head_` are those of the
positions that are claimed and not released, in order; a node of a published position has its link,
a node of a claimed and unpublished one waits for exactly one producer, which alone will write it.
So the consumer finds the oldest element if it is published, and finds nothing otherwise, even when
later elements are there and the calls that pushed them have returned: in spite of the name
of its wrapper, the queue is not linearizable.

Between the exchange and the link the producer holds the address of a node of another producer.  It
is still in the queue when the link is written: the consumer cannot pass a node whose link is
missing, and it gives a node back to the pool only after it has passed it.  Once the link is
written the consumer may do so, and the `notify_one` that ends the push may name a node that is back
in the pool, or in the queue again at another place.

Main definitions:

* `chain` — the nodes of the queue, from `tail_` to `head_`;
* `MpscThread.holds`, `MpscThread.links` — the node a thread holds, the link it owes;
* `Strung` — what holds between the nodes, the threads and the FIFO.

Main results:

* `Strung.step` — what one step keeps, and which event of the FIFO it is;
* `MpscQueue.refines_fifo` — **every run is a history of a FIFO that is never full**;
* `MpscQueue.nodes_safe` — **no node is read or written that is not lent to the queue**;
* `MpscQueue.empty_iff` — when `TryPop` finds nothing.
-/

import ExActor.MpscQueue
import Mathlib.Data.List.Nodup

set_option relaxedAutoImplicit false
set_option autoImplicit false

namespace ExActor

open BoundedFifo (History WellFormed claims releases publications)

section MpscRefinement

variable {α : Type}

/-! ### The nodes of the queue -/

/-- The nodes from `tail_` to `head_`: `place i` is the node whose link publishes position `i`. -/
def chain (f : BoundedFifo α) (place : ℕ → NodePtr) : List NodePtr :=
  (List.range' f.released (f.claimed.length + 1 - f.released)).map place

theorem mem_chain {f : BoundedFifo α} {place : ℕ → NodePtr} {n : NodePtr} :
    n ∈ chain f place ↔ ∃ i, f.released ≤ i ∧ i ≤ f.claimed.length ∧ place i = n := by
  simp only [chain, List.mem_map, List.mem_range'_1]
  constructor
  · rintro ⟨i, ⟨hlo, hhi⟩, rfl⟩
    exact ⟨i, hlo, by omega, rfl⟩
  · rintro ⟨i, hlo, hhi, rfl⟩
    exact ⟨i, ⟨hlo, by omega⟩, rfl⟩

theorem place_mem_chain {f : BoundedFifo α} (place : ℕ → NodePtr) {i : ℕ} (hlo : f.released ≤ i)
    (hhi : i ≤ f.claimed.length) : place i ∈ chain f place := mem_chain.2 ⟨i, hlo, hhi, rfl⟩

/-- A claim puts a node at the end. -/
theorem chain_claim {f : BoundedFifo α} {place : ℕ → NodePtr} (hle : f.released ≤ f.claimed.length)
    (v : α) (n : NodePtr) :
    chain { f with claimed := f.claimed ++ [v] }
      (Function.update place (f.claimed.length + 1) n) = chain f place ++ [n] := by
  have hlen : f.claimed.length + 1 + 1 - f.released = (f.claimed.length + 1 - f.released) + 1 := by
    omega
  simp only [chain, List.length_append, List.length_singleton, hlen, List.range'_concat,
    List.map_append, List.map_cons, List.map_nil]
  congr 1
  · refine List.map_congr_left ?_
    intro i hi
    rw [List.mem_range'_1] at hi
    exact Function.update_of_ne (by omega) _ _
  · rw [show f.released + 1 * (f.claimed.length + 1 - f.released) = f.claimed.length + 1 by omega,
      Function.update_self]

/-- A release takes away the first node. -/
theorem chain_release {f : BoundedFifo α} {place : ℕ → NodePtr}
    (hlt : f.released < f.claimed.length) :
    chain f place = place f.released :: chain { f with released := f.released + 1 } place := by
  have hlen : f.claimed.length + 1 - f.released
      = (f.claimed.length + 1 - (f.released + 1)) + 1 := by omega
  simp only [chain]
  rw [hlen, List.range'_succ, List.map_cons]

/-! ### What holds between the queue and the FIFO -/

/-- The node is held by the thread, and not in the queue. -/
def MpscThread.holds (n : NodePtr) : MpscThread α → ℕ
  | .emplace _ (.construct m) => if m = n then 1 else 0
  | .emplace _ (.exchange m) => if m = n then 1 else 0
  | .tryDequeue (.deallocate m) => if m = n then 1 else 0
  | _ => 0

/-- The thread has claimed position `n` and not yet published it. -/
def MpscThread.links (n : ℕ) : MpscThread α → ℕ
  | .emplace _ (.link _ _ position) => if position = n then 1 else 0
  | _ => 0

/-- What a thread knows of the nodes. -/
def MpscThread.Agrees (f : BoundedFifo α) (place : ℕ → NodePtr) (node : NodePtr → MpscNode α) :
    MpscThread α → Prop
  | .emplace _ (.construct n) => (node n).next = none
  | .emplace v (.exchange n) => node n = ⟨some v, none⟩
  | .emplace _ (.link old n position) => old = place position ∧ n = place (position + 1)
  | .tryDequeue (.take next) => f.released ∈ f.published ∧ next = place (f.released + 1)
  | _ => True

/-- What holds between the nodes, the threads and the FIFO. -/
structure Strung (f : BoundedFifo α) (place : ℕ → NodePtr) (p : MpscPool α) : Prop where
  head : p.shared.queue.head = place f.claimed.length
  tail : p.shared.queue.tail = place f.released
  linked : ∀ i ∈ f.published, f.released ≤ i →
    (p.shared.node (place i)).next = some (place (i + 1))
  unlinked : ∀ i, f.released ≤ i → i ≤ f.claimed.length → i ∉ f.published →
    (p.shared.node (place i)).next = none
  value : ∀ i v, f.released ≤ i → f.claimed[i]? = some v →
    (p.shared.node (place (i + 1))).value = some v
  owners : ∀ n, p.total (MpscThread.holds n) + (chain f place).count n = p.shared.lent.count n
  lent : p.shared.lent.Nodup
  linkers : ∀ n, p.total (MpscThread.links n)
    = if n < f.claimed.length ∧ n ∉ f.published then 1 else 0
  consumers : p.total MpscThread.isConsumer ≤ 1
  threads : ∀ t ∈ p.threads, t.Agrees f place p.shared.node

/-- The queue after its constructor. -/
theorem strung_initial (memory : NodePtr → MpscNode α) (dummy : NodePtr) :
    Strung BoundedFifo.empty (fun _ => dummy) ⟨MpscState.initial memory dummy, []⟩ where
  head := rfl
  tail := rfl
  linked := by simp [BoundedFifo.empty]
  unlinked := by simp [MpscState.initial]
  value := by simp [BoundedFifo.empty]
  owners := by simp [chain, BoundedFifo.empty, MpscState.initial]
  lent := by simp [MpscState.initial]
  linkers := by simp [BoundedFifo.empty]
  consumers := by simp
  threads := by simp

namespace Strung

variable {f : BoundedFifo α} {place : ℕ → NodePtr} {p : MpscPool α} {s s' : MpscState α}
  {l r new : List (MpscThread α)} {t : MpscThread α}

/-! ### Who has which node -/

theorem count_lent_le (h : Strung f place p) (n : NodePtr) : p.shared.lent.count n ≤ 1 :=
  List.nodup_iff_count_le_one.1 h.lent n

theorem mem_lent_of_mem_chain (h : Strung f place p) {n : NodePtr} (hn : n ∈ chain f place) :
    n ∈ p.shared.lent := by
  have howners := h.owners n
  have hpos := List.count_pos_iff.2 hn
  exact List.count_pos_iff.1 (by omega)

theorem mem_lent_of_holds (h : Strung f place p) {n : NodePtr} (ht : t ∈ p.threads)
    (hn : t.holds n = 1) : n ∈ p.shared.lent := by
  have howners := h.owners n
  have hle := Pool.le_total_of_mem (w := MpscThread.holds n) ht
  exact List.count_pos_iff.1 (by omega)

/-- The nodes of the queue are different. -/
theorem chain_nodup (h : Strung f place p) : (chain f place).Nodup := by
  refine List.nodup_iff_count_le_one.2 fun n => ?_
  have howners := h.owners n
  have hle := h.count_lent_le n
  omega

theorem place_inj (h : Strung f place p) {i j : ℕ} (hi : f.released ≤ i)
    (hi' : i ≤ f.claimed.length) (hj : f.released ≤ j) (hj' : j ≤ f.claimed.length)
    (hij : place i = place j) : i = j :=
  List.inj_on_of_nodup_map h.chain_nodup (List.mem_range'_1.2 ⟨hi, by omega⟩)
    (List.mem_range'_1.2 ⟨hj, by omega⟩) hij

/-- A node that a thread holds is not in the queue. -/
theorem notMem_chain (h : Strung f place p) (ht : t ∈ p.threads) {n : NodePtr}
    (hn : t.holds n = 1) : n ∉ chain f place := by
  intro hmem
  have howners := h.owners n
  have hle := Pool.le_total_of_mem (w := MpscThread.holds n) ht
  have hpos := List.count_pos_iff.2 hmem
  have hlent := h.count_lent_le n
  omega

/-- A node that a thread holds is not held by another. -/
theorem others_hold (h : Strung f place ⟨s, l ++ t :: r⟩) {n : NodePtr} (hn : t.holds n = 1) :
    ∀ u ∈ l ++ r, u.holds n = 0 := by
  have howners := h.owners n
  have hlent := h.count_lent_le n
  rw [Pool.total_before, hn] at howners
  exact Pool.others_eq_zero_iff.1 (by omega)

/-- A node of the queue is not held by a thread. -/
theorem holds_of_mem_chain (h : Strung f place p) {n : NodePtr} (hn : n ∈ chain f place) :
    ∀ u ∈ p.threads, u.holds n = 0 := by
  have howners := h.owners n
  have hlent := h.count_lent_le n
  have hpos := List.count_pos_iff.2 hn
  exact Pool.total_eq_zero_iff.1 (by omega)

/-- A node that is not lent is neither in the queue nor held by a thread. -/
theorem of_notMem_lent (h : Strung f place p) {n : NodePtr} (hn : n ∉ p.shared.lent) :
    n ∉ chain f place ∧ ∀ u ∈ p.threads, u.holds n = 0 := by
  have howners := h.owners n
  rw [List.count_eq_zero.2 hn] at howners
  refine ⟨List.count_eq_zero.1 (by omega), Pool.total_eq_zero_iff.1 (by omega)⟩

/-- The position of a link that is owed has been claimed, and neither published nor released. -/
theorem owed_of_mem (h : Strung f place p) {C : ℕ} (hf : WellFormed C f) (ht : t ∈ p.threads)
    {n : ℕ} (hn : t.links n = 1) :
    n < f.claimed.length ∧ n ∉ f.published ∧ f.released ≤ n := by
  have hlinkers := h.linkers n
  have hle := Pool.le_total_of_mem (w := MpscThread.links n) ht
  split_ifs at hlinkers with hopen
  · refine ⟨hopen.1, hopen.2, ?_⟩
    by_contra hpast
    exact hopen.2 (hf.published_of_lt n (by omega))
  · omega

/-- The consumer is alone. -/
theorem alone (h : Strung f place ⟨s, l ++ t :: r⟩) (ht : t.isConsumer = 1) :
    ∀ u ∈ l ++ r, u.isConsumer = 0 := by
  have hle := h.consumers
  rw [Pool.total_before, ht] at hle
  exact Pool.others_eq_zero_iff.1 (by omega)

/-! ### The frame of a step -/

/-- What a thread knows depends on the node it holds only. -/
theorem agrees_of_node {node : NodePtr → MpscNode α} (node' : NodePtr → MpscNode α)
    (ht : t.Agrees f place node) (hnode : ∀ n, t.holds n = 1 → node' n = node n) :
    t.Agrees f place node' := by
  rcases t with ⟨v, pc⟩ | pc | _
  · cases pc with
    | allocate | link | notify => exact ht
    | construct n | exchange n =>
        simpa only [MpscThread.Agrees, hnode n (if_pos rfl)] using ht
  · cases pc <;> exact ht
  · trivial

/-- Writing a node that the threads of a list do not hold. -/
theorem agrees_setNode {ts : List (MpscThread α)} {n : NodePtr} {x : MpscNode α}
    (h : ∀ u ∈ ts, u.Agrees f place s.node) (hn : ∀ u ∈ ts, u.holds n = 0) :
    ∀ u ∈ ts, u.Agrees f place (s.setNode n x).node := by
  intro u hu
  refine agrees_of_node _ (h u hu) fun m hm => Function.update_of_ne ?_ _ _
  rintro rfl
  simp [hn u hu] at hm

/-- A step beside the queue: it may lend a node or take one back, and write nodes that are not in
the queue. -/
theorem aside (h : Strung f place ⟨s, l ++ t :: r⟩) (hqueue : s'.queue = s.queue)
    (hnode : ∀ n ∈ chain f place, s'.node n = s.node n)
    (howners : ∀ n, (new.map (MpscThread.holds n)).sum + s.lent.count n
      = t.holds n + s'.lent.count n)
    (hlent : s'.lent.Nodup) (hlinks : ∀ n, (new.map (MpscThread.links n)).sum = t.links n)
    (hconsumer : (new.map MpscThread.isConsumer).sum ≤ t.isConsumer)
    (hothers : ∀ u ∈ l ++ r, u.Agrees f place s'.node)
    (hnew : ∀ u ∈ new, u.Agrees f place s'.node)
    (hpub : ∀ n ∈ f.published, n < f.claimed.length) :
    Strung f place ⟨s', l ++ new ++ r⟩ where
  head := by simpa only [hqueue] using h.head
  tail := by simpa only [hqueue] using h.tail
  linked := by
    intro i hi hle
    have := hpub i hi
    rw [hnode _ (place_mem_chain place hle (by omega))]
    exact h.linked i hi hle
  unlinked := by
    intro i hle hi hnot
    rw [hnode _ (place_mem_chain place hle hi)]
    exact h.unlinked i hle hi hnot
  value := by
    intro i v hle hv
    obtain ⟨hlt, -⟩ := List.getElem?_eq_some_iff.1 hv
    rw [hnode _ (place_mem_chain place (by omega) hlt)]
    exact h.value i v hle hv
  owners := by
    intro n
    have hn := h.owners n
    have hnew := howners n
    rw [Pool.total_before] at hn
    rw [Pool.total_after]
    simp only at hn ⊢
    omega
  lent := hlent
  linkers := by
    intro n
    rw [Pool.total_replace _ s s' t (hlinks n)]
    exact h.linkers n
  consumers := by
    have hle := h.consumers
    rw [Pool.total_before] at hle
    rw [Pool.total_after]
    omega
  threads := Pool.forall_replace hothers hnew

/-! ### The steps of a push -/

/-- The pool lends a node. -/
theorem lend {v : α} {n : NodePtr} (h : Strung f place ⟨s, l ++ .emplace v .allocate :: r⟩)
    {C : ℕ} (hf : WellFormed C f) (hn : n ∉ s.lent) :
    Strung f place ⟨{ s with lent := n :: s.lent }.setNode n ⟨none, none⟩,
      l ++ [.emplace v (.construct n)] ++ r⟩ := by
  obtain ⟨hchain, hholds⟩ := h.of_notMem_lent hn
  refine h.aside rfl ?_ ?_ (List.nodup_cons.2 ⟨hn, h.lent⟩) (fun _ => rfl) le_rfl ?_ ?_
    hf.lt_of_published
  · intro m hm
    exact Function.update_of_ne (by rintro rfl; exact hchain hm) _ _
  · intro m
    by_cases hmn : n = m
    · simp [MpscThread.holds, MpscState.setNode, hmn, Nat.add_comm]
    · simp [MpscThread.holds, MpscState.setNode, hmn]
  · refine agrees_setNode (fun u hu => h.threads u (Pool.mem_of_mem_others hu)) ?_
    exact fun u hu => hholds u (Pool.mem_of_mem_others hu)
  · simp [MpscThread.Agrees, MpscState.setNode]

/-- A producer constructs its element. -/
theorem construct {v : α} {n : NodePtr}
    (h : Strung f place ⟨s, l ++ .emplace v (.construct n) :: r⟩) {C : ℕ} (hf : WellFormed C f) :
    Strung f place ⟨s.setNode n { s.node n with value := some v },
      l ++ [.emplace v (.exchange n)] ++ r⟩ := by
  have hmem : MpscThread.emplace v (.construct n) ∈ l ++ .emplace v (.construct n) :: r := by simp
  have hchain := h.notMem_chain hmem (if_pos rfl)
  refine h.aside rfl ?_ (fun _ => rfl) h.lent (fun _ => rfl) le_rfl ?_ ?_ hf.lt_of_published
  · intro m hm
    exact Function.update_of_ne (by rintro rfl; exact hchain hm) _ _
  · refine agrees_setNode (fun u hu => h.threads u (Pool.mem_of_mem_others hu)) ?_
    exact h.others_hold (if_pos rfl)
  · intro u hu
    obtain rfl := List.mem_singleton.1 hu
    have hnext : (s.node n).next = none := h.threads _ hmem
    simp [MpscThread.Agrees, MpscState.setNode, hnext]

/-- What a thread knows stays true while the line of nodes grows. -/
theorem agrees_claim (h : Strung f place p) {C : ℕ} (hf : WellFormed C f) {v : α} {n : NodePtr} :
    ∀ u ∈ p.threads, u.Agrees { f with claimed := f.claimed ++ [v] }
      (Function.update place (f.claimed.length + 1) n) p.shared.node := by
  intro u hu
  have hagrees := h.threads u hu
  rcases u with ⟨w, pc⟩ | pc | _
  · cases pc with
    | allocate | notify => trivial
    | construct m | exchange m => exact hagrees
    | link old m position =>
        obtain ⟨hlt, -, -⟩ := h.owed_of_mem hf hu (n := position) (if_pos rfl)
        simp only [MpscThread.Agrees]
        rw [Function.update_of_ne (by omega), Function.update_of_ne (by omega)]
        exact hagrees
  · cases pc with
    | loadNext | deallocate m => trivial
    | take next =>
        obtain ⟨hpub, hnext⟩ := hagrees
        have hlt := hf.lt_of_published _ hpub
        refine ⟨hpub, ?_⟩
        simp only
        rw [Function.update_of_ne (by omega)]
        exact hnext
  · trivial

/-- The exchange of `head_` claims the next position. -/
theorem exchange {v : α} {n : NodePtr}
    (h : Strung f place ⟨s, l ++ .emplace v (.exchange n) :: r⟩) {C : ℕ} (hf : WellFormed C f)
    (e : BoundedFifo.Event α) :
    Strung { f with claimed := f.claimed ++ [v] }
      (Function.update place (f.claimed.length + 1) n)
      ⟨{ s with queue := { s.queue with head := n } }.emit e,
        l ++ [.emplace v (.link s.queue.head n f.claimed.length)] ++ r⟩ := by
  have hmem : MpscThread.emplace v (.exchange n) ∈ l ++ .emplace v (.exchange n) :: r := by simp
  have hnode : s.node n = ⟨some v, none⟩ := h.threads _ hmem
  have hle := hf.released_le
  have hold : ∀ i ≤ f.claimed.length,
      Function.update place (f.claimed.length + 1) n i = place i :=
    fun i hi => Function.update_of_ne (by omega) _ _
  constructor
  · simp [MpscState.emit]
  · rw [hold _ hle]
    exact h.tail
  · intro i hi hlo
    have hlt := hf.lt_of_published i hi
    rw [hold i (by omega), hold (i + 1) (by omega)]
    exact h.linked i hi hlo
  · intro i hlo hi hnot
    simp only [List.length_append, List.length_singleton] at hi
    rcases Nat.lt_or_ge f.claimed.length i with hlast | hi'
    · obtain rfl : i = f.claimed.length + 1 := by omega
      simp [MpscState.emit, hnode]
    · rw [hold i hi']
      exact h.unlinked i hlo hi' hnot
  · intro i w hlo hw
    rcases Nat.lt_or_ge i f.claimed.length with hlt | hge
    · rw [hold (i + 1) (by omega)]
      simp only [List.getElem?_append_left hlt] at hw
      exact h.value i w hlo hw
    · have hi : i < (f.claimed ++ [v]).length := (List.getElem?_eq_some_iff.1 hw).1
      rw [List.length_append, List.length_singleton] at hi
      obtain rfl : i = f.claimed.length := by omega
      simp only [List.getElem?_concat_length, Option.some.injEq] at hw
      subst hw
      simp [MpscState.emit, hnode]
  · intro m
    have hm := h.owners m
    rw [Pool.total_before] at hm
    rw [Pool.total_after, chain_claim hle, List.count_append, List.count_singleton]
    simp only [MpscThread.holds, MpscState.emit, List.map_cons, List.map_nil, List.sum_cons,
      List.sum_nil, beq_iff_eq] at hm ⊢
    omega
  · exact h.lent
  · intro m
    have hm := h.linkers m
    have hfresh : f.claimed.length ∉ f.published :=
      fun hp => absurd (hf.lt_of_published _ hp) (by omega)
    rw [Pool.total_before] at hm
    rw [Pool.total_after]
    simp only [MpscThread.links, List.map_cons, List.map_nil, List.sum_cons, List.sum_nil,
      List.length_append, List.length_singleton] at hm ⊢
    by_cases hmn : f.claimed.length = m
    · subst hmn
      rw [if_neg (by omega)] at hm
      rw [if_pos rfl, if_pos ⟨by omega, hfresh⟩]
      omega
    · have hiff : (m < f.claimed.length + 1 ∧ m ∉ f.published)
          ↔ (m < f.claimed.length ∧ m ∉ f.published) := and_congr_left fun _ => by omega
      rw [if_neg hmn, if_congr hiff rfl rfl]
      omega
  · rw [Pool.total_replace MpscThread.isConsumer s _ (.emplace v (.exchange n)) rfl]
    exact h.consumers
  · refine Pool.forall_replace ?_ ?_
    · exact fun u hu => h.agrees_claim hf u (Pool.mem_of_mem_others hu)
    · intro u hu
      obtain rfl := List.mem_singleton.1 hu
      refine ⟨?_, ?_⟩
      · rw [hold _ le_rfl]
        exact h.head
      · simp

/-- The link publishes the position. -/
theorem link {v : α} {old n : NodePtr} {position : ℕ}
    (h : Strung f place ⟨s, l ++ .emplace v (.link old n position) :: r⟩) {C : ℕ}
    (hf : WellFormed C f) (e : BoundedFifo.Event α) :
    Strung { f with published := position :: f.published } place
      ⟨(s.setNode old { s.node old with next := some n }).emit e,
        l ++ [.emplace v (.notify old)] ++ r⟩ := by
  have hmem : MpscThread.emplace v (.link old n position) ∈
      l ++ .emplace v (.link old n position) :: r := by simp
  obtain ⟨hlt, hnew, hlo⟩ := h.owed_of_mem hf hmem (n := position) (if_pos rfl)
  obtain ⟨rfl, rfl⟩ := h.threads _ hmem
  have hchain := place_mem_chain place hlo hlt.le
  have hvalue : ∀ m, (Function.update s.node (place position)
      { s.node (place position) with next := some (place (position + 1)) } m).value
      = (s.node m).value := by
    intro m
    by_cases hm : m = place position
    · simp [hm]
    · rw [Function.update_of_ne hm]
  constructor
  · exact h.head
  · exact h.tail
  · intro i hi hle
    rcases List.mem_cons.1 hi with rfl | hi
    · simp [MpscState.emit, MpscState.setNode]
    · have hilt := hf.lt_of_published i hi
      have hne : place i ≠ place position := by
        intro heq
        exact hnew (h.place_inj hle hilt.le hlo hlt.le heq ▸ hi)
      simp only [MpscState.emit, MpscState.setNode, Function.update_of_ne hne]
      exact h.linked i hi hle
  · intro i hle hi hnot
    rw [List.mem_cons, not_or] at hnot
    have hne : place i ≠ place position :=
      fun heq => hnot.1 (h.place_inj hle hi hlo hlt.le heq)
    simp only [MpscState.emit, MpscState.setNode, Function.update_of_ne hne]
    exact h.unlinked i hle hi hnot.2
  · intro i w hle hw
    simp only [MpscState.emit, MpscState.setNode, hvalue]
    exact h.value i w hle hw
  · intro m
    rw [Pool.total_replace (MpscThread.holds m) s _
      (.emplace v (.link (place position) (place (position + 1)) position)) rfl]
    exact h.owners m
  · exact h.lent
  · intro m
    have hm := h.linkers m
    rw [Pool.total_before] at hm
    rw [Pool.total_after]
    simp only [MpscThread.links, List.map_cons, List.map_nil, List.sum_cons, List.sum_nil,
      List.mem_cons, not_or] at hm ⊢
    by_cases hpm : position = m
    · subst hpm
      rw [if_pos rfl, if_pos ⟨hlt, hnew⟩] at hm
      rw [if_neg (fun hopen => hopen.2.1 rfl)]
      omega
    · have hiff : (m < f.claimed.length ∧ m ≠ position ∧ m ∉ f.published)
          ↔ (m < f.claimed.length ∧ m ∉ f.published) := by
        constructor
        · exact fun hopen => ⟨hopen.1, hopen.2.2⟩
        · exact fun hopen => ⟨hopen.1, Ne.symm hpm, hopen.2⟩
      rw [if_neg hpm] at hm
      rw [if_congr hiff rfl rfl]
      omega
  · have hle := h.consumers
    rw [Pool.total_before] at hle
    rw [Pool.total_after]
    simp only [MpscThread.isConsumer, List.map_cons, List.map_nil, List.sum_cons,
      List.sum_nil] at hle ⊢
    omega
  · refine Pool.forall_replace ?_ (by simp [MpscThread.Agrees])
    intro u hu
    have hu' := Pool.mem_of_mem_others (t := MpscThread.emplace v
      (.link (place position) (place (position + 1)) position)) hu
    have hnode := agrees_of_node ((s.setNode (place position)
      { s.node (place position) with next := some (place (position + 1)) }).emit e).node
      (h.threads u hu') fun m hm => by
        have hne : m ≠ place position := by
          rintro rfl
          simp [h.holds_of_mem_chain hchain u hu'] at hm
        exact Function.update_of_ne hne _ _
    rcases u with ⟨w, pc⟩ | pc | _
    · cases pc <;> exact hnode
    · cases pc with
      | loadNext | deallocate m => trivial
      | take next => exact ⟨List.mem_cons_of_mem _ hnode.1, hnode.2⟩
    · trivial

/-- The push ends. -/
theorem notify {v : α} {old : NodePtr}
    (h : Strung f place ⟨s, l ++ .emplace v (.notify old) :: r⟩) {C : ℕ} (hf : WellFormed C f) :
    Strung f place ⟨s, l ++ [] ++ r⟩ := by
  refine h.aside rfl (fun _ _ => rfl) (fun _ => rfl) h.lent (fun _ => rfl) le_rfl ?_ (by simp)
    hf.lt_of_published
  exact fun u hu => h.threads u (Pool.mem_of_mem_others hu)

/-! ### The steps of a pop -/

/-- The consumer has seen the link of `tail_`. -/
theorem follow {next : NodePtr} (h : Strung f place ⟨s, l ++ .tryDequeue .loadNext :: r⟩) {C : ℕ}
    (hf : WellFormed C f) (hnext : (s.node s.queue.tail).next = some next) :
    Strung f place ⟨s, l ++ [.tryDequeue (.take next)] ++ r⟩ := by
  refine h.aside rfl (fun _ _ => rfl) (fun _ => rfl) h.lent (fun _ => rfl) le_rfl ?_ ?_
    hf.lt_of_published
  · exact fun u hu => h.threads u (Pool.mem_of_mem_others hu)
  · intro u hu
    obtain rfl := List.mem_singleton.1 hu
    rw [h.tail] at hnext
    by_cases hpub : f.released ∈ f.published
    · refine ⟨hpub, ?_⟩
      have hlink : (s.node (place f.released)).next = some (place (f.released + 1)) :=
        h.linked _ hpub le_rfl
      exact Option.some.inj (hnext.symm.trans hlink)
    · have hlink : (s.node (place f.released)).next = none :=
        h.unlinked _ le_rfl hf.released_le hpub
      simp [hlink] at hnext

/-- The element that the consumer is about to take. -/
theorem value_at {next : NodePtr}
    (h : Strung f place ⟨s, l ++ .tryDequeue (.take next) :: r⟩) {C : ℕ}
    (hf : WellFormed C f) :
    next = place (f.released + 1) ∧ f.released ∈ f.published ∧ f.released < f.claimed.length ∧
      f.claimed[f.released]? = (s.node next).value := by
  obtain ⟨hpub, rfl⟩ := h.threads (.tryDequeue (.take next)) (by simp)
  have hlt := hf.lt_of_published _ hpub
  refine ⟨rfl, hpub, hlt, ?_⟩
  have hvalue : (s.node (place (f.released + 1))).value = some f.claimed[f.released] :=
    h.value _ _ le_rfl (List.getElem?_eq_getElem hlt)
  rw [hvalue, List.getElem?_eq_getElem hlt]

/-- The consumer takes the oldest element and moves `tail_` to its node. -/
theorem take {next : NodePtr} (h : Strung f place ⟨s, l ++ .tryDequeue (.take next) :: r⟩) {C : ℕ}
    (hf : WellFormed C f) (e : BoundedFifo.Event α) :
    Strung { f with released := f.released + 1 } place
      ⟨({ s with queue := { s.queue with tail := next } }.setNode next
          { s.node next with value := none }).emit e,
        l ++ [.tryDequeue (.deallocate s.queue.tail)] ++ r⟩ := by
  obtain ⟨rfl, hpub, hlt, -⟩ := h.value_at hf
  have hchain := place_mem_chain place (Nat.le_succ f.released) hlt
  have htail : s.queue.tail = place f.released := h.tail
  have hnext : ∀ m, (Function.update s.node (place (f.released + 1))
      { s.node (place (f.released + 1)) with value := none } m).next = (s.node m).next := by
    intro m
    by_cases hm : m = place (f.released + 1)
    · simp [hm]
    · rw [Function.update_of_ne hm]
  constructor
  · exact h.head
  · rfl
  · intro i hi hle
    simp only [MpscState.emit, MpscState.setNode, hnext]
    exact h.linked i hi (Nat.le_of_succ_le hle)
  · intro i hle hi hnot
    simp only [MpscState.emit, MpscState.setNode, hnext]
    exact h.unlinked i (Nat.le_of_succ_le hle) hi hnot
  · intro i w hle hw
    have hle' : f.released + 1 ≤ i := hle
    obtain ⟨hi, -⟩ := List.getElem?_eq_some_iff.1 hw
    have hi' : i < f.claimed.length := hi
    have hne : place (i + 1) ≠ place (f.released + 1) := by
      intro heq
      have := h.place_inj (by omega) (by omega) (Nat.le_succ _) hlt heq
      omega
    simp only [MpscState.emit, MpscState.setNode, Function.update_of_ne hne]
    exact h.value i w (by omega) hw
  · intro m
    have hm := h.owners m
    rw [Pool.total_before, chain_release hlt, List.count_cons] at hm
    rw [Pool.total_after]
    simp only [MpscThread.holds, MpscState.emit, MpscState.setNode, List.map_cons, List.map_nil,
      List.sum_cons, List.sum_nil, htail, beq_iff_eq] at hm ⊢
    omega
  · exact h.lent
  · intro m
    rw [Pool.total_replace (MpscThread.links m) s _
      (.tryDequeue (.take (place (f.released + 1)))) rfl]
    exact h.linkers m
  · rw [Pool.total_replace MpscThread.isConsumer s _
      (.tryDequeue (.take (place (f.released + 1)))) rfl]
    exact h.consumers
  · refine Pool.forall_replace ?_ (by simp [MpscThread.Agrees])
    intro u hu
    have hu' := Pool.mem_of_mem_others (t := MpscThread.tryDequeue
      (.take (place (f.released + 1)))) hu
    have halone := h.alone rfl u hu
    have hnode := agrees_of_node (({ s with
        queue := { s.queue with tail := place (f.released + 1) } }.setNode
          (place (f.released + 1)) { s.node (place (f.released + 1)) with value := none }).emit
            e).node
      (h.threads u hu') fun m hm => by
        have hne : m ≠ place (f.released + 1) := by
          rintro rfl
          simp [h.holds_of_mem_chain hchain u hu'] at hm
        exact Function.update_of_ne hne _ _
    rcases u with ⟨w, pc⟩ | pc | _
    · cases pc <;> exact hnode
    · simp [MpscThread.isConsumer] at halone
    · trivial

/-- The consumer gives a node back. -/
theorem deallocate {n : NodePtr} (h : Strung f place ⟨s, l ++ .tryDequeue (.deallocate n) :: r⟩)
    {C : ℕ} (hf : WellFormed C f) :
    Strung f place ⟨{ s with lent := s.lent.erase n }, l ++ [] ++ r⟩ := by
  have hmem : MpscThread.tryDequeue (.deallocate n) ∈ l ++ .tryDequeue (.deallocate n) :: r := by
    simp
  have hlent : n ∈ s.lent := h.mem_lent_of_holds hmem (if_pos rfl)
  refine h.aside rfl (fun _ _ => rfl) ?_ (h.lent.erase n) (fun _ => rfl) (by simp) ?_ (by simp)
    hf.lt_of_published
  · intro m
    by_cases hmn : n = m
    · subst hmn
      have hpos := List.count_pos_iff.2 hlent
      simp only [MpscThread.holds, if_pos, List.map_nil, List.sum_nil, List.count_erase_self]
      omega
    · simp [MpscThread.holds, hmn, List.count_erase_of_ne (Ne.symm hmn)]
  · exact fun u hu => h.threads u (Pool.mem_of_mem_others hu)

/-- A write to a node that is not lent to the queue. -/
theorem elsewhere {n : NodePtr} {x : MpscNode α} (h : Strung f place ⟨s, l ++ .elsewhere :: r⟩)
    {C : ℕ} (hf : WellFormed C f) (hn : n ∉ s.lent) :
    Strung f place ⟨s.setNode n x, l ++ [] ++ r⟩ := by
  obtain ⟨hchain, hholds⟩ := h.of_notMem_lent hn
  refine h.aside rfl ?_ (fun _ => rfl) h.lent (fun _ => rfl) le_rfl ?_ (by simp)
    hf.lt_of_published
  · intro m hm
    exact Function.update_of_ne (by rintro rfl; exact hchain hm) _ _
  · refine agrees_setNode (fun u hu => h.threads u (Pool.mem_of_mem_others hu)) ?_
    exact fun u hu => hholds u (Pool.mem_of_mem_others hu)

/-- Whatever node a thread reads, writes or gives back next is lent to the queue. -/
theorem touches_lent (h : Strung f place p) {C : ℕ} (hf : WellFormed C f) (ht : t ∈ p.threads)
    {n : NodePtr} (hn : t.touches p.shared.queue = some n) : n ∈ p.shared.lent := by
  have hagrees := h.threads t ht
  have hle := hf.released_le
  rcases t with ⟨v, pc⟩ | pc | _
  · cases pc with
    | allocate | exchange m | notify m => simp [MpscThread.touches] at hn
    | construct m =>
        obtain rfl := Option.some.inj hn
        exact h.mem_lent_of_holds ht (if_pos rfl)
    | link old m position =>
        obtain rfl := Option.some.inj hn
        obtain ⟨rfl, -⟩ := hagrees
        obtain ⟨hlt, -, hlo⟩ := h.owed_of_mem hf ht (n := position) (if_pos rfl)
        exact h.mem_lent_of_mem_chain (place_mem_chain place hlo hlt.le)
  · cases pc with
    | loadNext =>
        obtain rfl := Option.some.inj hn
        rw [h.tail]
        exact h.mem_lent_of_mem_chain (place_mem_chain place le_rfl hle)
    | take next =>
        obtain rfl := Option.some.inj hn
        obtain ⟨hpub, rfl⟩ := hagrees
        have hlt := hf.lt_of_published _ hpub
        exact h.mem_lent_of_mem_chain (place_mem_chain place (Nat.le_succ _) hlt)
    | deallocate m =>
        obtain rfl := Option.some.inj hn
        exact h.mem_lent_of_holds ht (if_pos rfl)
  · simp [MpscThread.touches] at hn

/-- **What one step keeps, and which event of the FIFO it is.** -/
theorem step (h : Strung f place ⟨s, l ++ t :: r⟩) {C : ℕ} (limit : ℕ) (hf : WellFormed C f)
    (hclaims : (claims s.log).length = f.claimed.length) (hstep : MpscStep s t s' new) :
    ∃ f' place', Strung f' place' ⟨s', l ++ new ++ r⟩ ∧
      (s'.log = s.log ∧ f' = f ∨ ∃ e, s'.log = s.log ++ [e] ∧
        ∀ C', f'.claimed.length ≤ C' → BoundedFifo.Step C' limit f e f') := by
  cases hstep with
  | lend v n hn => exact ⟨f, place, h.lend hf hn, Or.inl ⟨rfl, rfl⟩⟩
  | construct v n _ => exact ⟨f, place, h.construct hf, Or.inl ⟨rfl, rfl⟩⟩
  | exchange v n =>
      rw [hclaims]
      refine ⟨_, _, h.exchange hf _, Or.inr ⟨_, rfl, ?_⟩⟩
      intro C' hC'
      simp only [List.length_append, List.length_singleton] at hC'
      exact .claim v (by omega)
  | link v old n position _ =>
      obtain ⟨hlt, hnew, -⟩ := h.owed_of_mem hf (List.mem_append_right l List.mem_cons_self)
        (n := position) (if_pos rfl)
      exact ⟨_, _, h.link hf _, Or.inr ⟨_, rfl, fun C' _ => .publish position hlt hnew⟩⟩
  | notify v old => exact ⟨f, place, h.notify hf, Or.inl ⟨rfl, rfl⟩⟩
  | miss hnone =>
      refine ⟨f, place, ?_, Or.inr ⟨_, rfl, fun C' _ => .miss ?_⟩⟩
      · refine h.aside rfl (fun _ _ => rfl) (fun _ => rfl) h.lent (fun _ => rfl) (by simp) ?_
          (by simp) hf.lt_of_published
        exact fun u hu => h.threads u (Pool.mem_of_mem_others hu)
      · intro hpub
        have hlink : (s.node (place f.released)).next = some (place (f.released + 1)) :=
          h.linked _ hpub le_rfl
        have htail : s.queue.tail = place f.released := h.tail
        simp [htail, hlink] at hnone
  | follow next hnext => exact ⟨f, place, h.follow hf hnext, Or.inl ⟨rfl, rfl⟩⟩
  | take next v _ hv =>
      obtain ⟨-, hpub, -, hvalue⟩ := h.value_at hf
      exact ⟨_, _, h.take hf _, Or.inr ⟨_, rfl, fun C' _ => .release v hpub (hvalue.trans hv)⟩⟩
  | noObject next hnone =>
      obtain ⟨-, -, hlt, hvalue⟩ := h.value_at hf
      rw [hnone, List.getElem?_eq_getElem hlt] at hvalue
      cases hvalue
  | deallocate n _ => exact ⟨f, place, h.deallocate hf, Or.inl ⟨rfl, rfl⟩⟩
  | elsewhere n x hn => exact ⟨f, place, h.elsewhere hf hn, Or.inl ⟨rfl, rfl⟩⟩
  | notLent _ n htouch hn => exact absurd (h.touches_lent hf (by simp) htouch) hn

/-- A call that begins. -/
theorem arrive (h : Strung f place p) {i : MpscCall α} (hat : arriveMpsc p i = some (s, t)) :
    s = p.shared ∧ Strung f place ⟨s, p.threads ++ [t]⟩ := by
  have hs : s = p.shared ∧ (∀ n, t.holds n = 0) ∧ (∀ n, t.links n = 0) ∧
      p.total MpscThread.isConsumer + t.isConsumer ≤ 1 ∧ t.Agrees f place s.node := by
    have hconsumers := h.consumers
    cases i with
    | push v =>
        obtain ⟨rfl, rfl⟩ := by simpa [arriveMpsc] using hat
        exact ⟨rfl, fun _ => rfl, fun _ => rfl, hconsumers, trivial⟩
    | tryPop =>
        simp only [arriveMpsc] at hat
        split at hat
        · next hnone =>
            obtain ⟨rfl, rfl⟩ := by simpa using hat
            exact ⟨rfl, fun _ => rfl, fun _ => rfl, by rw [hnone]; rfl, trivial⟩
        · simp at hat
    | elsewhere =>
        obtain ⟨rfl, rfl⟩ := by simpa [arriveMpsc] using hat
        exact ⟨rfl, fun _ => rfl, fun _ => rfl, hconsumers, trivial⟩
  obtain ⟨rfl, hholds, hlinks, hconsumers, hagrees⟩ := hs
  refine ⟨rfl, h.head, h.tail, h.linked, h.unlinked, h.value, ?_, h.lent, ?_, ?_, ?_⟩
  · intro n
    rw [Pool.total_arrive _ p, hholds]
    exact h.owners n
  · intro n
    rw [Pool.total_arrive _ p, hlinks]
    exact h.linkers n
  · rw [Pool.total_arrive _ p]
    exact hconsumers
  · exact Pool.forall_arrive h.threads (fun _ hu => hu) hagrees

end Strung

/-! ### Runs -/

/-- **In every reachable state the nodes, the threads and the history belong to a FIFO** that is
never full. -/
theorem strung_of_exec {tr : List (MpscPool α × MpscAction α)} {p : MpscPool α}
    (h : (MpscQueue.machine α).Exec tr p) (limit : ℕ) :
    ∃ f place, Strung f place p ∧
      ∀ C, f.claimed.length ≤ C → History C limit p.shared.log f := by
  refine ThreadProgram.invariantWhere (C := fun _ _ => True)
    (I := fun p => ∃ f place, Strung f place p ∧
      ∀ C, f.claimed.length ≤ C → History C limit p.shared.log f) ?_ ?_ ?_ h (Machine.meets_true tr)
  · rintro s ⟨memory, dummy, rfl⟩
    exact ⟨_, _, strung_initial memory dummy, fun C _ => .nil⟩
  · rintro _ p i s t _ _ ⟨f, place, hstrung, hlog⟩ _ hat
    obtain ⟨rfl, hstrung⟩ := hstrung.arrive hat
    exact ⟨f, place, hstrung, hlog⟩
  · rintro _ s s' l t r new k _ _ ⟨f, place, hstrung, hlog⟩ _ hrun
    have hhist := hlog _ le_rfl
    have hclaims : (claims s.log).length = f.claimed.length := by rw [← hhist.claimed_eq]
    obtain ⟨f', place', hstrung', hcase⟩ :=
      hstrung.step limit hhist.wellFormed hclaims (mpscStep_cases hrun)
    refine ⟨f', place', hstrung', fun C hC => ?_⟩
    rcases hcase with ⟨hlog', rfl⟩ | ⟨e, hlog', hstep⟩
    · simp only [hlog']
      exact hlog C hC
    · simp only [hlog']
      have hgrow : f.claimed.length ≤ f'.claimed.length := by
        have hone := hstep _ le_rfl
        cases hone <;> simp
      exact (hlog C (hgrow.trans hC)).snoc (hstep C hC)

/-- **Every run of the queue is a history of a FIFO that is never full**: the exchange of a push
claims a position for its element and its link publishes it, the elements are taken in the order of
the exchanges, and `TryPop` finds nothing only while the oldest element is not published.  A fault
is in no history, so no node is read, written or given back that is not lent to the queue, and no
element is taken that is not there. -/
theorem MpscQueue.refines_fifo {tr : List (MpscPool α × MpscAction α)} {p : MpscPool α}
    (h : (MpscQueue.machine α).Exec tr p) {C limit : ℕ} (hC : (claims p.shared.log).length ≤ C) :
    ∃ f, History C limit p.shared.log f := by
  obtain ⟨f, place, -, hlog⟩ := strung_of_exec h limit
  have hclaimed := (hlog _ le_rfl).claimed_eq
  exact ⟨f, hlog C (by rw [hclaimed]; exact hC)⟩

/-- **No node is read or written after it has been given back.**  In every reachable state the node
that a thread reads, writes or gives back next is lent to the queue, a node that one thread holds is
held by no other, and the link that a producer owes goes to a node whose `next_` is still null.  The
node that a thread notifies is not among these (`notifies_given_back`). -/
theorem MpscQueue.nodes_safe {tr : List (MpscPool α × MpscAction α)} {p : MpscPool α}
    (h : (MpscQueue.machine α).Exec tr p) :
    (∀ t ∈ p.threads, ∀ n ∈ t.touches p.shared.queue, n ∈ p.shared.lent) ∧
      (∀ n, p.total (MpscThread.holds n) ≤ 1) ∧
      ∀ v old n position, .emplace v (.link old n position) ∈ p.threads →
        (p.shared.node old).next = none := by
  obtain ⟨f, place, hstrung, hlog⟩ := strung_of_exec h 0
  have hf := (hlog _ le_rfl).wellFormed
  refine ⟨fun t ht n hn => hstrung.touches_lent hf ht hn, fun n => ?_, ?_⟩
  · have howners := hstrung.owners n
    have hle := hstrung.count_lent_le n
    omega
  · intro v old n position ht
    obtain ⟨hlt, hnew, hlo⟩ := hstrung.owed_of_mem hf ht (n := position) (if_pos rfl)
    obtain ⟨rfl, -⟩ := hstrung.threads _ ht
    exact hstrung.unlinked position hlo hlt.le hnew

/-- **When `TryPop` finds nothing**: all elements have been taken, or the push of the oldest one
that has not is between its exchange and its link, whatever the later pushes have done. -/
theorem MpscQueue.empty_iff {tr : List (MpscPool α × MpscAction α)} {p : MpscPool α}
    (h : (MpscQueue.machine α).Exec tr p) :
    (p.shared.node p.shared.queue.tail).next = none ↔
      (releases p.shared.log).length = (claims p.shared.log).length ∨
        ∃ v old n, .emplace v (.link old n (releases p.shared.log).length) ∈ p.threads := by
  obtain ⟨f, place, hstrung, hlog⟩ := strung_of_exec h 0
  have hhist := hlog _ le_rfl
  have hf := hhist.wellFormed
  rw [hhist.length_released, ← hhist.claimed_eq, hstrung.tail]
  have hunpublished : (p.shared.node (place f.released)).next = none ↔
      f.released ∉ f.published := by
    constructor
    · intro hnone hpub
      rw [hstrung.linked _ hpub le_rfl] at hnone
      cases hnone
    · exact hstrung.unlinked _ le_rfl hf.released_le
  have hlinkers := hstrung.linkers f.released
  rw [hunpublished]
  constructor
  · intro hnot
    rcases Nat.lt_or_ge f.released f.claimed.length with hlt | hge
    · right
      rw [if_pos ⟨hlt, hnot⟩] at hlinkers
      by_contra hnobody
      have hzero : p.total (MpscThread.links f.released) = 0 := by
        refine Pool.total_eq_zero_iff.2 fun t ht => ?_
        rcases t with ⟨v, pc⟩ | pc | _
        · cases pc with
          | link old n position =>
              have hne : position ≠ f.released := by
                rintro rfl
                exact hnobody ⟨v, old, n, ht⟩
              exact if_neg hne
          | _ => rfl
        · rfl
        · rfl
      omega
    · exact Or.inl (by have := hf.released_le; omega)
  · rintro (hall | ⟨v, old, n, ht⟩) hpub
    · have := hf.lt_of_published _ hpub
      omega
    · have hle := Pool.le_total_of_mem (w := MpscThread.links f.released) ht
      rw [if_neg fun hopen => hopen.2 hpub] at hlinkers
      simp only [MpscThread.links, if_pos] at hle
      omega

/-! ### Two pushes -/

/-- A queue of numbers whose nodes have never been used. -/
theorem MpscQueue.machine_init :
    (MpscQueue.machine ℕ).init ⟨MpscState.initial (fun _ => ⟨none, none⟩) 0, []⟩ :=
  ⟨⟨_, 0, rfl⟩, rfl⟩

/-- The first push stops after its exchange; the second one returns. -/
def twoPushes : List (MpscAction ℕ) :=
  [.arrive (.push 10), .arrive (.push 20), .run 0 (.lend 1), .run 0 .go, .run 0 .go,
    .run 1 (.lend 2), .run 1 .go, .run 1 .go, .run 1 .go, .run 1 .go]

/-- `TryPop` finds nothing while the first push waits, and then both elements in their order; the
node of the first element is lent again for a third one. -/
theorem MpscQueue.refines_fifo_two_pushes :
    ∃ tr p, (MpscQueue.machine ℕ).Exec tr p ∧
      p.shared.log = [.claim 10, .claim 20, .publish 1, .miss, .publish 0, .release 10,
        .release 20, .claim 30, .publish 2] ∧
      ∃ f, History 3 0 p.shared.log f := by
  let L : List (MpscAction ℕ) := twoPushes
    ++ [.arrive .tryPop, .run 1 .go, .run 0 .go, .run 0 .go]
    ++ [.arrive .tryPop, .run 0 .go, .run 0 .go, .run 0 .go]
    ++ [.arrive .tryPop, .run 0 .go, .run 0 .go, .run 0 .go]
    ++ [.arrive (.push 30), .run 0 (.lend 1), .run 0 .go, .run 0 .go, .run 0 .go, .run 0 .go]
  obtain ⟨p, hex, hp⟩ := Machine.exists_exec_of_replay MpscQueue.machine_init L
    (fun p => p.shared.log)
    [.claim 10, .claim 20, .publish 1, .miss, .publish 0, .release 10, .release 20, .claim 30,
      .publish 2] (by decide)
  exact ⟨_, p, hex, hp, MpscQueue.refines_fifo hex (by rw [hp]; decide)⟩

/-- The first push owes its link to the dummy, which is still lent. -/
theorem MpscQueue.nodes_safe_two_pushes :
    ∃ tr p, (MpscQueue.machine ℕ).Exec tr p ∧
      p.threads = [.emplace 10 (.link 0 1 0)] ∧ 0 ∈ p.shared.lent ∧
      (p.shared.node 0).next = none := by
  obtain ⟨p, hex, hp⟩ := Machine.exists_exec_of_replay MpscQueue.machine_init twoPushes
    (fun p => p.threads) [.emplace 10 (.link 0 1 0)] (by decide)
  have hmem : MpscThread.emplace 10 (.link 0 1 0) ∈ p.threads := by simp [hp]
  obtain ⟨htouch, -, hnext⟩ := MpscQueue.nodes_safe hex
  exact ⟨_, p, hex, hp, htouch _ hmem 0 rfl, hnext _ _ _ _ hmem⟩

/-- The push has written its link, the consumer has taken the element and given the dummy back, and
now the push notifies on the dummy. -/
theorem MpscQueue.notifies_given_back :
    ∃ tr p, (MpscQueue.machine ℕ).Exec tr p ∧ p.threads = [.emplace 10 (.notify 0)] ∧
      p.shared.lent = [1] ∧ p.shared.log = [.claim 10, .publish 0, .release 10] := by
  let L : List (MpscAction ℕ) :=
    [.arrive (.push 10), .run 0 (.lend 1), .run 0 .go, .run 0 .go, .run 0 .go, .arrive .tryPop,
      .run 1 .go, .run 1 .go, .run 1 .go]
  obtain ⟨p, hex, hp⟩ := Machine.exists_exec_of_replay MpscQueue.machine_init L
    (fun p => (p.threads, p.shared.lent, p.shared.log))
    ([.emplace 10 (.notify 0)], [1], [.claim 10, .publish 0, .release 10]) (by decide)
  simp only [Prod.mk.injEq] at hp
  exact ⟨_, p, hex, hp⟩

/-- The element of a push that has returned is hidden behind that of one that has not. -/
theorem MpscQueue.empty_iff_two_pushes :
    ∃ tr p, (MpscQueue.machine ℕ).Exec tr p ∧ p.shared.log = [.claim 10, .claim 20, .publish 1] ∧
      (p.shared.node p.shared.queue.tail).next = none := by
  obtain ⟨p, hex, hp⟩ := Machine.exists_exec_of_replay MpscQueue.machine_init twoPushes
    (fun p => (p.shared.log, p.threads))
    ([.claim 10, .claim 20, .publish 1], [.emplace 10 (.link 0 1 0)]) (by decide)
  obtain ⟨hlog, hthreads⟩ := Prod.mk.inj hp
  refine ⟨_, p, hex, hlog, (MpscQueue.empty_iff hex).2 (Or.inr ⟨10, 0, 1, ?_⟩)⟩
  rw [hlog, hthreads]
  simp [releases, BoundedFifo.Event.released]

end MpscRefinement

end ExActor
