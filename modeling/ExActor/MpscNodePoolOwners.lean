/-
**The node pool of the unbounded queues lends no node twice.**

At every moment a node has exactly one owner: it has not been reserved, or it is lent, or it is in
the list of one thread, or one thread has reserved it and not yet pushed it, or it is in a chunk on
the stack.  Only the owner writes to a node, and the stack is its own owner, so what `try_pop` reads
in `next_chunk_` is right as long as the top has not changed since it was loaded; and a top that has
changed has another tag.

The tag has 64 bits.  All this is about runs in which it does not wrap around.

Main definitions:

* `NodeOwner`, `PoolLayout` — who has which node, and in which order;
* `Pooled` — what holds between the layout, the memory and the threads;
* `TagBelow` — the tag does not wrap around.

Main results:

* `Pooled.step` — what one step keeps;
* `NodePool.lends_once` — **the pool lends no node that is lent**;
* `NodePool.loses_nothing` — **every reserved node is lent or can be found again**.
-/

import ExActor.LinkedChain
import ExActor.MpscNodePool
import Mathlib.Data.List.Nodup

set_option relaxedAutoImplicit false
set_option autoImplicit false

namespace ExActor

/-! ### Who has which node -/

/-- The owner of a node. -/
inductive NodeOwner
  | unreserved
  | lent
  /-- The node is in the list of a thread. -/
  | listed (id : ℕ)
  /-- A thread has reserved the node and not yet pushed it. -/
  | spare (id : ℕ)
  | stacked
deriving DecidableEq

/-- The owners, the lists of the threads and the chunks on the stack. -/
structure PoolLayout where
  owner : NodePtr → NodeOwner
  lists : ℕ → List NodePtr
  stack : List (List NodePtr)

/-- The owners after some nodes have been given to one of them. -/
def PoolLayout.give (L : PoolLayout) (ns : List NodePtr) (o : NodeOwner) : NodePtr → NodeOwner :=
  fun n => if n ∈ ns then o else L.owner n

/-- The new nodes that a thread still has to push. -/
def PoolPc.spare : PoolPc → List NodePtr
  | .reserveChunk base count done | .pushLoad _ (.reserve base count done)
  | .pushWrite _ _ (.reserve base count done) | .pushCas _ _ (.reserve base count done) =>
      List.range' (base + done) (count - done)
  | _ => []

/-- What a thread that pushes a chunk knows of it. -/
def PushCaller.Knows (cap : ChunkCapacity) (s : NodePool) (t : PoolThread) (chunk : NodePtr) :
    PushCaller → Prop
  | .deallocate => t.list = some chunk ∧ t.size = cap.val
  | .reserve base count done =>
      t.size = 0 ∧ chunk = base + done ∧ done + cap.val ≤ count ∧
        (cap.val ∣ done ∧ cap.val ∣ count) ∧ Linked s.next (some chunk) (List.range' chunk cap.val)

/-- The tag that a thread has loaded belongs to this top, or to an earlier one. -/
def TaggedPtr.LoadedAs (top : TaggedPtr) (node : NodePtr) (tag : SizeT) : Prop :=
  tag.toNat ≤ top.tag.toNat ∧ (tag = top.tag → top.node = some node)

/-- What a thread knows of the pool. -/
def PoolPc.Knows (cap : ChunkCapacity) (s : NodePool) (t : PoolThread) : PoolPc → Prop
  | .idle | .allocate => t.size < cap.val
  | .popLoad | .lock | .checkTop | .unlock => t.size = 0
  | .popRead node tag => t.size = 0 ∧ s.top.LoadedAs node tag
  | .popCas node tag next =>
      t.size = 0 ∧ s.top.LoadedAs node tag ∧ (tag = s.top.tag → next = s.nextChunk node)
  | .reserveChunk _ count done => t.size = 0 ∧ done ≤ count ∧ cap.val ∣ done ∧ cap.val ∣ count
  | .storeCount count => t.size = 0 ∧ cap.val ∣ count
  | .take => 0 < t.size ∧ t.size ≤ cap.val
  | .pushLoad chunk caller | .pushWrite chunk _ caller => caller.Knows cap s t chunk
  | .pushCas chunk old caller => caller.Knows cap s t chunk ∧ s.nextChunk chunk = old.node

/-- A thread has the list that the layout gives it, and the nodes it still has to push. -/
structure PoolThread.Agrees (cap : ChunkCapacity) (L : PoolLayout) (s : NodePool)
    (t : PoolThread) : Prop where
  chain : Linked s.next t.list (L.lists t.id)
  size : t.size = (L.lists t.id).length
  nodup : (L.lists t.id).Nodup
  listed : ∀ n, n ∈ L.lists t.id ↔ L.owner n = .listed t.id
  spare : ∀ n, n ∈ t.pc.spare ↔ L.owner n = .spare t.id
  knows : t.pc.Knows cap s t

/-- The shared part of the pool is as the layout says. -/
structure PoolLayout.Holds (cap : ChunkCapacity) (L : PoolLayout) (s : NodePool) : Prop where
  lent_nodup : s.lent.Nodup
  lent : ∀ n, n ∈ s.lent ↔ L.owner n = .lent
  unreserved : ∀ n, s.pages ≤ n ↔ L.owner n = .unreserved
  stack : Linked.Chunks s.next s.nextChunk cap.val s.top.node L.stack
  stack_nodup : L.stack.flatten.Nodup
  stacked : ∀ n, n ∈ L.stack.flatten ↔ L.owner n = .stacked
  nodeCount : cap.val ∣ s.nodeCount

/-- What holds between the layout, the memory and the threads. -/
structure Pooled (cap : ChunkCapacity) (L : PoolLayout) (p : PoolThreads) : Prop where
  holds : L.Holds cap p.shared
  registered : ∀ n i, L.owner n = .listed i ∨ L.owner n = .spare i → i < p.threads.length
  ids : ∀ (i : ℕ) t, p.threads[i]? = some t → t.id = i
  threads : ∀ t ∈ p.threads, t.Agrees cap L p.shared

/-- The tag does not wrap around. -/
def TagBelow (p : PoolThreads) (_ : NodePoolAction) : Prop :=
  p.shared.top.tag.toNat + 1 < 2 ^ 64

instance (p : PoolThreads) (a : NodePoolAction) : Decidable (TagBelow p a) :=
  inferInstanceAs (Decidable (_ < _))

theorem PoolLayout.give_of_notMem {L : PoolLayout} {ns : List NodePtr} {o : NodeOwner} {n : NodePtr}
    (hn : n ∉ ns) : L.give ns o n = L.owner n := if_neg hn

theorem PoolLayout.give_iff (L : PoolLayout) (ns : List NodePtr) (o : NodeOwner) (n : NodePtr) :
    L.give ns o n = o ↔ n ∈ ns ∨ L.owner n = o := by
  unfold give
  split <;> simp_all

/-- Who neither gives nor receives has the same nodes as before. -/
theorem PoolLayout.give_iff_of_ne {L : PoolLayout} {ns : List NodePtr} {o o' : NodeOwner}
    (hbefore : ∀ n ∈ ns, L.owner n ≠ o') (hne : o ≠ o') (n : NodePtr) :
    L.give ns o n = o' ↔ L.owner n = o' := by
  unfold give
  split
  · next hn => exact iff_of_false hne (hbefore n hn)
  · rfl

/-- Who gives has the others left. -/
theorem PoolLayout.give_iff_left {L : PoolLayout} {ns : List NodePtr} {o o' : NodeOwner}
    (hne : o ≠ o') (n : NodePtr) : L.give ns o n = o' ↔ n ∉ ns ∧ L.owner n = o' := by
  unfold give
  split <;> simp_all

theorem tag_succ {tag : SizeT} (h : tag.toNat + 1 < 2 ^ 64) : (tag + 1).toNat = tag.toNat + 1 := by
  rw [BitVec.toNat_add]
  exact Nat.mod_eq_of_lt h

section NodePoolSteps

variable {cap : ChunkCapacity} {L L' : PoolLayout} {s s' : NodePool} {t t' u : PoolThread}
  {l r : List PoolThread} {p : PoolThreads}

/-- A pool of which no node has been reserved. -/
theorem pooled_empty (next nextChunk : NodePtr → Option NodePtr) :
    Pooled cap ⟨fun _ => .unreserved, fun _ => [], []⟩ ⟨NodePool.empty next nextChunk, []⟩ where
  holds :=
    { lent_nodup := List.nodup_nil
      lent := by simp [NodePool.empty]
      unreserved := by simp [NodePool.empty]
      stack := rfl
      stack_nodup := List.nodup_nil
      stacked := by simp
      nodeCount := Nat.dvd_zero _ }
  registered := by simp
  ids := by simp
  threads := by simp

/-! ### The frame of a step -/

/-- What a thread pushes is in its list, or new. -/
theorem PoolThread.Agrees.owner_chunk (h : u.Agrees cap L s) {chunk : NodePtr} {caller : PushCaller}
    (hspare : u.pc.spare = (PoolPc.pushLoad chunk caller).spare)
    (hknows : caller.Knows cap s u chunk) :
    L.owner chunk = .listed u.id ∨ L.owner chunk = .spare u.id := by
  cases caller with
  | deallocate =>
      left
      obtain ⟨rest, hrest⟩ := (hknows.1 ▸ h.chain).exists_cons
      exact (h.listed chunk).1 (hrest ▸ List.mem_cons_self)
  | reserve base count done =>
      right
      obtain ⟨-, rfl, hle, -, -⟩ := hknows
      have hpos := cap.pos
      rw [← h.spare, hspare]
      exact List.mem_range'_1.2 ⟨le_rfl, by omega⟩

/-- A thread that is not concerned: its nodes keep their owner and their links, and the top it has
loaded is still there with its link, or has another tag. -/
theorem PoolThread.Agrees.frame (h : u.Agrees cap L s) (touched : NodePtr → Prop)
    (hlists : L'.lists u.id = L.lists u.id)
    (hkeep : ∀ n, ¬ touched n →
      L'.owner n = L.owner n ∧ s'.next n = s.next n ∧ s'.nextChunk n = s.nextChunk n)
    (hbefore : ∀ n, touched n → L.owner n ≠ .listed u.id ∧ L.owner n ≠ .spare u.id)
    (hafter : ∀ n, touched n → L'.owner n ≠ .listed u.id ∧ L'.owner n ≠ .spare u.id)
    (htop : s.top.tag.toNat < s'.top.tag.toNat ∨
      s'.top = s.top ∧ ∀ n ∈ s.top.node, s'.nextChunk n = s.nextChunk n) :
    u.Agrees cap L' s' := by
  have hlisted : ∀ n, L'.owner n = .listed u.id ↔ L.owner n = .listed u.id := by
    intro n
    by_cases hn : touched n
    · simp [hbefore n hn, hafter n hn]
    · rw [(hkeep n hn).1]
  have hspare : ∀ n, L'.owner n = .spare u.id ↔ L.owner n = .spare u.id := by
    intro n
    by_cases hn : touched n
    · simp [hbefore n hn, hafter n hn]
    · rw [(hkeep n hn).1]
  have hown : ∀ n, L.owner n = .listed u.id ∨ L.owner n = .spare u.id →
      s'.next n = s.next n ∧ s'.nextChunk n = s.nextChunk n := by
    intro n howner
    refine (hkeep n fun hn => ?_).2
    rcases howner with howner | howner
    · exact (hbefore n hn).1 howner
    · exact (hbefore n hn).2 howner
  have hloaded : ∀ node tag, s.top.LoadedAs node tag → s'.top.LoadedAs node tag ∧
      (tag = s'.top.tag → tag = s.top.tag ∧ s'.nextChunk node = s.nextChunk node) := by
    rintro node tag ⟨hle, hsame⟩
    rcases htop with hlt | ⟨heq, hchunk⟩
    · refine ⟨⟨by omega, ?_⟩, ?_⟩ <;> rintro rfl <;> omega
    · refine ⟨⟨by rw [heq]; exact hle, by rw [heq]; exact hsame⟩, ?_⟩
      rw [heq]
      exact fun htag => ⟨htag, hchunk node (hsame htag)⟩
  have hcaller : ∀ chunk caller, u.pc.spare = (PoolPc.pushLoad chunk caller).spare →
      caller.Knows cap s u chunk →
      caller.Knows cap s' u chunk ∧ s'.nextChunk chunk = s.nextChunk chunk := by
    intro chunk caller hpc hknows
    have hchunk := (hown chunk (h.owner_chunk hpc hknows)).2
    cases caller with
    | deallocate => exact ⟨hknows, hchunk⟩
    | reserve base count done =>
        obtain ⟨hsize, rfl, hle, hdvd, hchain⟩ := hknows
        have hmem : ∀ n ∈ List.range' (base + done) cap.val, L.owner n = .spare u.id := by
          intro n hn
          rw [List.mem_range'_1] at hn
          rw [← h.spare, hpc]
          exact List.mem_range'_1.2 ⟨hn.1, by omega⟩
        exact ⟨⟨hsize, rfl, hle, hdvd, hchain.congr fun n hn => (hown n (Or.inr (hmem n hn))).1⟩,
          hchunk⟩
  constructor
  · rw [hlists]
    exact h.chain.congr fun n hn => (hown n (Or.inl ((h.listed n).1 hn))).1
  · rw [hlists]
    exact h.size
  · rw [hlists]
    exact h.nodup
  · intro n
    rw [hlists, hlisted]
    exact h.listed n
  · intro n
    rw [hspare]
    exact h.spare n
  · have hknows := h.knows
    cases hpc : u.pc with
    | popRead node tag =>
        rw [hpc] at hknows
        exact ⟨hknows.1, (hloaded node tag hknows.2).1⟩
    | popCas node tag next =>
        rw [hpc] at hknows
        obtain ⟨hsize, hload, hnext⟩ := hknows
        obtain ⟨hload', hchunk⟩ := hloaded node tag hload
        refine ⟨hsize, hload', fun htag => ?_⟩
        obtain ⟨htag', hsame⟩ := hchunk htag
        rw [hnext htag', hsame]
    | pushLoad chunk caller | pushWrite chunk old caller =>
        rw [hpc] at hknows
        refine (hcaller chunk caller ?_ hknows).1
        cases caller <;> simp only [hpc, PoolPc.spare]
    | pushCas chunk old caller =>
        rw [hpc] at hknows
        obtain ⟨hk, hlink⟩ := hknows
        have hspare : u.pc.spare = (PoolPc.pushLoad chunk caller).spare := by
          cases caller <;> simp only [hpc, PoolPc.spare]
        obtain ⟨hk', hchunk⟩ := hcaller chunk caller hspare hk
        exact ⟨hk', hchunk.trans hlink⟩
    | _ =>
        rw [hpc] at hknows
        exact hknows

namespace Pooled

/-- The thread that takes a step has its own number. -/
theorem id_eq (h : Pooled cap L ⟨s, l ++ t :: r⟩) : t.id = l.length :=
  h.ids _ _ (Pool.getElem?_middle l r t)

theorem others_id (h : Pooled cap L ⟨s, l ++ t :: r⟩) : ∀ u ∈ l ++ r, u.id ≠ t.id := by
  intro u hu hid
  rw [h.id_eq] at hid
  rcases List.mem_append.1 hu with hu | hu
  · obtain ⟨i, hi, rfl⟩ := List.mem_iff_getElem.1 hu
    have hget : (l ++ t :: r)[i]? = some l[i] := by
      rw [List.getElem?_append_left hi, List.getElem?_eq_getElem hi]
    have := h.ids _ _ hget
    omega
  · obtain ⟨i, hi, rfl⟩ := List.mem_iff_getElem.1 hu
    have hget : (l ++ t :: r)[l.length + (i + 1)]? = some r[i] := by
      rw [List.getElem?_append_right (by omega), Nat.add_sub_cancel_left, List.getElem?_cons_succ,
        List.getElem?_eq_getElem hi]
    have := h.ids _ _ hget
    omega

/-- One thread takes a step. -/
theorem replace (h : Pooled cap L ⟨s, l ++ t :: r⟩) (hid : t'.id = t.id)
    (hholds : L'.Holds cap s')
    (hregistered : ∀ n i, L'.owner n = .listed i ∨ L'.owner n = .spare i →
      i = t.id ∨ L.owner n = .listed i ∨ L.owner n = .spare i)
    (hothers : ∀ u ∈ l ++ r, u.id ≠ t.id → u.Agrees cap L s → u.Agrees cap L' s')
    (ht : t'.Agrees cap L' s') : Pooled cap L' ⟨s', l ++ [t'] ++ r⟩ := by
  have hlength : (l ++ [t'] ++ r).length = (l ++ t :: r).length := by simp
  refine ⟨hholds, ?_, ?_, ?_⟩
  · intro n i howner
    simp only [hlength]
    rcases hregistered n i howner with rfl | howner
    · rw [h.id_eq]
      simp
    · exact h.registered n i howner
  · intro i v hv
    simp only [List.append_assoc, List.singleton_append] at hv
    rcases Nat.lt_trichotomy i l.length with hlt | rfl | hgt
    · refine h.ids i v ?_
      rw [List.getElem?_append_left hlt] at hv ⊢
      exact hv
    · rw [Pool.getElem?_middle] at hv
      obtain rfl := Option.some.inj hv
      rw [hid, h.id_eq]
    · refine h.ids i v ?_
      rw [List.getElem?_append_right hgt.le] at hv ⊢
      obtain ⟨k, hk⟩ := Nat.exists_eq_add_of_lt hgt
      rw [show i - l.length = k + 1 by omega, List.getElem?_cons_succ] at hv ⊢
      exact hv
  · refine Pool.forall_replace ?_ ?_
    · exact fun v hv => hothers v hv (h.others_id v hv) (h.threads v (Pool.mem_of_mem_others hv))
    · intro v hv
      rwa [List.mem_singleton.1 hv]

theorem agrees_self (h : Pooled cap L ⟨s, l ++ t :: r⟩) : t.Agrees cap L s :=
  h.threads t (by simp)

/-- A step that changes neither a node nor the top. -/
theorem same (h : Pooled cap L ⟨s, l ++ t :: r⟩) (hnext : s'.next = s.next)
    (hchunk : s'.nextChunk = s.nextChunk) (hpages : s'.pages = s.pages) (htop : s'.top = s.top)
    (hlent : s'.lent = s.lent) (hcount : cap.val ∣ s'.nodeCount) {pc : PoolPc}
    (hspare : pc.spare = t.pc.spare) (hknows : pc.Knows cap s' { t with pc := pc }) :
    Pooled cap L ⟨s', l ++ [{ t with pc := pc }] ++ r⟩ := by
  have hself := h.agrees_self
  refine h.replace rfl ?_ (fun n i howner => Or.inr howner) ?_ ?_
  · refine ⟨by rw [hlent]; exact h.holds.lent_nodup, ?_, ?_, ?_, h.holds.stack_nodup,
      h.holds.stacked, hcount⟩
    · rw [hlent]
      exact h.holds.lent
    · rw [hpages]
      exact h.holds.unreserved
    · rw [hnext, hchunk, htop]
      exact h.holds.stack
  · intro u _ _ hu
    exact hu.frame (fun _ => False) rfl
      (fun n _ => ⟨rfl, by rw [hnext], by rw [hchunk]⟩) (by simp) (by simp)
      (Or.inr ⟨htop, fun n _ => by rw [hchunk]⟩)
  · exact ⟨by rw [hnext]; exact hself.chain, hself.size, hself.nodup, hself.listed,
      by rw [hspare]; exact hself.spare, hknows⟩

/-- The node on top is on the stack. -/
theorem top_stacked (h : Pooled cap L p) : ∀ n ∈ p.shared.top.node, L.owner n = .stacked := by
  intro n hn
  have hstack := h.holds.stack
  rw [show p.shared.top.node = some n from hn] at hstack
  obtain ⟨c, rest, hcs, -, hmem, -, -⟩ := hstack.exists_cons
  rw [← h.holds.stacked, hcs, List.flatten_cons]
  exact List.mem_append_left _ hmem

/-! ### Loans -/

/-- A step that writes nodes of one owner, and leaves all nodes where they are. -/
theorem written (h : Pooled cap L ⟨s, l ++ t :: r⟩) (touched : NodePtr → Prop)
    (hkeep : ∀ n, ¬ touched n → s'.next n = s.next n ∧ s'.nextChunk n = s.nextChunk n)
    (hothers : ∀ n, touched n → ∀ i, i ≠ t.id →
      L.owner n ≠ .listed i ∧ L.owner n ≠ .spare i)
    (hstack : ∀ n, touched n → L.owner n ≠ .stacked) (hpages : s'.pages = s.pages)
    (htop : s'.top = s.top) (hlent : s'.lent = s.lent) (hcount : s'.nodeCount = s.nodeCount)
    (hid : t'.id = t.id) (ht : t'.Agrees cap L s') : Pooled cap L ⟨s', l ++ [t'] ++ r⟩ := by
  have hframe : ∀ n ∈ L.stack.flatten, s'.next n = s.next n ∧ s'.nextChunk n = s.nextChunk n :=
    fun n hn => hkeep n fun htouch => hstack n htouch ((h.holds.stacked n).1 hn)
  refine h.replace hid ?_ (fun n i howner => Or.inr howner) ?_ ht
  · refine ⟨by rw [hlent]; exact h.holds.lent_nodup, ?_, ?_, ?_, h.holds.stack_nodup,
      h.holds.stacked, by rw [hcount]; exact h.holds.nodeCount⟩
    · rw [hlent]
      exact h.holds.lent
    · rw [hpages]
      exact h.holds.unreserved
    · rw [htop]
      exact h.holds.stack.congr (fun n hn => (hframe n hn).1) fun n hn => (hframe n hn).2
  · intro u _ hne hu
    refine hu.frame touched rfl (fun n hn => ⟨rfl, hkeep n hn⟩)
      (fun n hn => hothers n hn u.id hne) (fun n hn => hothers n hn u.id hne) (Or.inr ⟨htop, ?_⟩)
    intro n hn
    exact (hkeep n fun htouch => hstack n htouch (h.top_stacked n hn)).2

/-- What holds a node that is lent writes into it. -/
theorem write {n : NodePtr} (h : Pooled cap L ⟨s, l ++ t :: r⟩) (hn : n ∈ s.lent)
    (next nextChunk : Option NodePtr) (hpc : t.pc = .idle) :
    Pooled cap L ⟨{ s with next := Function.update s.next n next,
                           nextChunk := Function.update s.nextChunk n nextChunk },
      l ++ [t] ++ r⟩ := by
  have hself := h.agrees_self
  have howner : L.owner n = .lent := (h.holds.lent n).1 hn
  have hknows := hself.knows
  rw [hpc] at hknows
  refine h.written (· = n) ?_ ?_ ?_ rfl rfl rfl rfl rfl ?_
  · exact fun m hm => ⟨Function.update_of_ne hm _ _, Function.update_of_ne hm _ _⟩
  · rintro m rfl i -
    simp [howner]
  · rintro m rfl
    simp [howner]
  · refine ⟨hself.chain.update ?_ _, hself.size, hself.nodup, hself.listed, hself.spare, ?_⟩
    · rw [hself.listed, howner]
      simp
    · rw [hpc]
      exact hknows

/-- Some nodes go from one owner to another; the others keep their owner and their links. -/
theorem moved {ns : List NodePtr} {o o' : NodeOwner} {list : List NodePtr}
    {stack : List (List NodePtr)} (h : Pooled cap L ⟨s, l ++ t :: r⟩)
    (hns : ∀ n ∈ ns, L.owner n = o) (ho : ∀ i, i ≠ t.id → o ≠ .listed i ∧ o ≠ .spare i)
    (ho' : ∀ i, i ≠ t.id → o' ≠ .listed i ∧ o' ≠ .spare i)
    (hkeep : ∀ n ∉ ns, s'.next n = s.next n ∧ s'.nextChunk n = s.nextChunk n)
    (htop : s.top.tag.toNat < s'.top.tag.toNat ∨
      s'.top = s.top ∧ ∀ n ∈ s.top.node, s'.nextChunk n = s.nextChunk n)
    (hid : t'.id = t.id)
    (hholds : PoolLayout.Holds cap ⟨L.give ns o', Function.update L.lists t.id list, stack⟩ s')
    (ht : t'.Agrees cap ⟨L.give ns o', Function.update L.lists t.id list, stack⟩ s') :
    Pooled cap ⟨L.give ns o', Function.update L.lists t.id list, stack⟩ ⟨s', l ++ [t'] ++ r⟩ := by
  refine h.replace hid hholds ?_ ?_ ht
  · intro n i howner
    by_cases hi : i = t.id
    · exact Or.inl hi
    · right
      by_cases hn : n ∈ ns
      · have hgive : L.give ns o' n = o' := if_pos hn
        simp only [hgive, ho' i hi, or_false] at howner
      · simpa only [PoolLayout.give_of_notMem hn] using howner
  · intro u _ hne hu
    refine hu.frame (· ∈ ns) (Function.update_of_ne hne _ _) ?_ ?_ ?_ htop
    · exact fun n hn => ⟨PoolLayout.give_of_notMem hn, hkeep n hn⟩
    · intro n hn
      rw [hns n hn]
      exact ho u.id hne
    · intro n hn
      have hgive : L.give ns o' n = o' := if_pos hn
      simp only [hgive]
      exact ho' u.id hne

/-- A node is given back to the list of a thread. -/
theorem deallocate {n : NodePtr} {pc : PoolPc} (h : Pooled cap L ⟨s, l ++ t :: r⟩)
    (hidle : t.pc = .idle) (hn : n ∈ s.lent)
    (hpc : cap.val ≤ t.size + 1 ∧ pc = .pushLoad n .deallocate ∨
      t.size + 1 < cap.val ∧ pc = .idle) :
    Pooled cap ⟨L.give [n] (.listed t.id), Function.update L.lists t.id (n :: L.lists t.id),
        L.stack⟩
      ⟨{ s with next := Function.update s.next n t.list, lent := s.lent.erase n },
        l ++ [{ t with list := some n, size := t.size + 1, pc := pc }] ++ r⟩ := by
  have hself := h.agrees_self
  have howner : ∀ m ∈ [n], L.owner m = .lent := by
    intro m hm
    rw [List.mem_singleton.1 hm]
    exact (h.holds.lent n).1 hn
  have howner' : L.owner n = .lent := howner n (by simp)
  have hlist : n ∉ L.lists t.id := by simp [hself.listed, howner']
  have hstack : n ∉ L.stack.flatten := by simp [h.holds.stacked, howner']
  have hknows := hself.knows
  rw [hidle] at hknows
  have hsize : t.size < cap.val := hknows
  refine h.moved howner (by simp) (by simp [eq_comm]) ?_ (Or.inr ⟨rfl, fun _ _ => rfl⟩) rfl ?_ ?_
  · exact fun m hm => ⟨Function.update_of_ne (by simpa using hm) _ _, rfl⟩
  · refine ⟨h.holds.lent_nodup.erase n, fun m => ?_, fun m => ?_, ?_, h.holds.stack_nodup,
      fun m => ?_, h.holds.nodeCount⟩
    · rw [h.holds.lent_nodup.mem_erase_iff, PoolLayout.give_iff_left (by simp), h.holds.lent m,
        List.mem_singleton]
    · rw [PoolLayout.give_iff_of_ne (by simp [howner']) (by simp)]
      exact h.holds.unreserved m
    · refine h.holds.stack.congr (fun m hm => ?_) fun _ _ => rfl
      exact Function.update_of_ne (by rintro rfl; exact hstack hm) _ _
    · rw [PoolLayout.give_iff_of_ne (by simp [howner']) (by simp)]
      exact h.holds.stacked m
  · refine ⟨?_, ?_, ?_, fun m => ?_, fun m => ?_, ?_⟩
    · simpa using hself.chain.push hlist
    · simpa using hself.size
    · simpa using ⟨hlist, hself.nodup⟩
    · rw [PoolLayout.give_iff, List.mem_singleton, ← hself.listed m]
      simp
    · rw [PoolLayout.give_iff_of_ne (by simp [howner']) (by simp), ← hself.spare m, hidle]
      rcases hpc with ⟨-, rfl⟩ | ⟨-, rfl⟩ <;> simp [PoolPc.spare]
    · rcases hpc with ⟨hfull, rfl⟩ | ⟨hroom, rfl⟩
      · exact ⟨rfl, by simp only; omega⟩
      · exact hroom

/-- A node is lent. -/
theorem take {n : NodePtr} (h : Pooled cap L ⟨s, l ++ t :: r⟩) (hpc : t.pc = .take)
    (hlist : t.list = some n) :
    Pooled cap ⟨L.give [n] .lent, Function.update L.lists t.id (L.lists t.id).tail, L.stack⟩
      ⟨{ s with next := Function.update s.next n none, lent := n :: s.lent },
        l ++ [{ t with list := s.next n, size := t.size - 1, pc := .idle }] ++ r⟩ := by
  have hself := h.agrees_self
  obtain ⟨rest, hrest⟩ := (hlist ▸ hself.chain).exists_cons
  have hchain := hself.chain
  have hsize := hself.size
  have hnodup := hself.nodup
  have hlisted := hself.listed
  have hspare := hself.spare
  have hknows := hself.knows
  rw [hrest] at hchain hsize hnodup hlisted
  rw [hpc] at hspare hknows
  have howner' : L.owner n = .listed t.id := (hlisted n).1 List.mem_cons_self
  have howner : ∀ m ∈ [n], L.owner m = .listed t.id := by simp [howner']
  have hfresh : n ∉ rest := (List.nodup_cons.1 hnodup).1
  have hlent : n ∉ s.lent := by
    rw [h.holds.lent n, howner']
    simp
  have hstack : n ∉ L.stack.flatten := by simp [h.holds.stacked, howner']
  refine h.moved howner (by simp [eq_comm]) (by simp) ?_ (Or.inr ⟨rfl, fun _ _ => rfl⟩) rfl ?_ ?_
  · exact fun m hm => ⟨Function.update_of_ne (by simpa using hm) _ _, rfl⟩
  · refine ⟨List.nodup_cons.2 ⟨hlent, h.holds.lent_nodup⟩, fun m => ?_, fun m => ?_, ?_,
      h.holds.stack_nodup, fun m => ?_, h.holds.nodeCount⟩
    · rw [PoolLayout.give_iff, List.mem_cons, List.mem_singleton]
      exact or_congr_right (h.holds.lent m)
    · rw [PoolLayout.give_iff_of_ne (by simp [howner']) (by simp)]
      exact h.holds.unreserved m
    · refine h.holds.stack.congr (fun m hm => ?_) fun _ _ => rfl
      exact Function.update_of_ne (by rintro rfl; exact hstack hm) _ _
    · rw [PoolLayout.give_iff_of_ne (by simp [howner']) (by simp)]
      exact h.holds.stacked m
  · simp only [List.length_cons] at hsize
    refine ⟨?_, ?_, ?_, fun m => ?_, fun m => ?_, ?_⟩
    · simpa [hrest] using hchain.2.update hfresh none
    · simp [hrest, hsize]
    · simpa [hrest] using (List.nodup_cons.1 hnodup).2
    · have hm := hlisted m
      rw [PoolLayout.give_iff_left (by simp), ← hm]
      by_cases hmn : m = n
      · simpa [hmn, hrest] using hfresh
      · simp [hmn, hrest]
    · rw [PoolLayout.give_iff_of_ne (by simp [howner']) (by simp), ← hspare m]
      simp [PoolPc.spare]
    · obtain ⟨hpos, hle⟩ := hknows
      change t.size - 1 < cap.val
      omega

/-! ### The stack of chunks -/

/-- A chunk is taken from the stack. -/
theorem pop {node : NodePtr} {tag : SizeT} {next : Option NodePtr}
    (h : Pooled cap L ⟨s, l ++ t :: r⟩) (hpc : t.pc = .popCas node tag next)
    (htop : s.top = ⟨some node, tag⟩) (htag : s.top.tag.toNat + 1 < 2 ^ 64) :
    ∃ L', Pooled cap L' ⟨{ s with top := ⟨next, tag + 1⟩ },
      l ++ [{ t with list := some node, size := cap.val, pc := .take }] ++ r⟩ := by
  have hself := h.agrees_self
  have hspare := hself.spare
  have hknows := hself.knows
  rw [hpc] at hspare hknows
  obtain ⟨hsize, -, hnext⟩ := hknows
  have hempty : L.lists t.id = [] := List.length_eq_zero_iff.1 (hself.size.symm.trans hsize)
  obtain rfl : next = s.nextChunk node := hnext (by rw [htop])
  have hstack := h.holds.stack
  rw [htop] at hstack
  obtain ⟨c, rest, hcs, hlen, hmem, hchain, hrest⟩ := hstack.exists_cons
  have hnodup := h.holds.stack_nodup
  rw [hcs, List.flatten_cons, List.nodup_append] at hnodup
  obtain ⟨hc, hrestnodup, hdisjoint⟩ := hnodup
  have howner : ∀ n ∈ c, L.owner n = .stacked := by
    intro n hn
    rw [← h.holds.stacked, hcs, List.flatten_cons]
    exact List.mem_append_left _ hn
  have hpos := cap.pos
  rw [htop] at htag
  refine ⟨⟨L.give c (.listed t.id), Function.update L.lists t.id c, rest⟩,
    h.moved howner (by simp) (by simp [eq_comm]) (fun n _ => ⟨rfl, rfl⟩) (Or.inl ?_) rfl ?_ ?_⟩
  · rw [htop, tag_succ htag]
    exact Nat.lt_succ_self _
  · refine ⟨h.holds.lent_nodup, fun m => ?_, fun m => ?_, hrest, hrestnodup, fun m => ?_,
      h.holds.nodeCount⟩
    · rw [PoolLayout.give_iff_of_ne (fun n hn => by simp [howner n hn]) (by simp)]
      exact h.holds.lent m
    · rw [PoolLayout.give_iff_of_ne (fun n hn => by simp [howner n hn]) (by simp)]
      exact h.holds.unreserved m
    · rw [PoolLayout.give_iff_left (by simp), ← h.holds.stacked, hcs, List.flatten_cons,
        List.mem_append]
      constructor
      · exact fun hm => ⟨fun hmc => hdisjoint m hmc m hm rfl, Or.inr hm⟩
      · rintro ⟨hmc, hm⟩
        exact hm.resolve_left hmc
  · refine ⟨by simpa using hchain, by simp [hlen], by simpa using hc, fun m => ?_, fun m => ?_,
      hpos, le_rfl⟩
    · rw [PoolLayout.give_iff, ← hself.listed m, hempty]
      simp
    · rw [PoolLayout.give_iff_of_ne (fun n hn => by simp [howner n hn]) (by simp), ← hspare m]
      simp [PoolPc.spare]

/-- A chunk that a thread owns is pushed to the stack. -/
theorem push {chunk : NodePtr} {o : NodeOwner} (c list : List NodePtr)
    (h : Pooled cap L ⟨s, l ++ t :: r⟩) (htag : s.top.tag.toNat + 1 < 2 ^ 64)
    (ho : o = .listed t.id ∨ o = .spare t.id) (howner : ∀ n ∈ c, L.owner n = o)
    (hchain : Linked s.next (some chunk) c) (hlen : c.length = cap.val) (hnodup : c.Nodup)
    (hlink : s.nextChunk chunk = s.top.node) (hid : t'.id = t.id)
    (ht : t'.Agrees cap ⟨L.give c .stacked, Function.update L.lists t.id list, c :: L.stack⟩
      { s with top := ⟨some chunk, s.top.tag + 1⟩ }) :
    Pooled cap ⟨L.give c .stacked, Function.update L.lists t.id list, c :: L.stack⟩
      ⟨{ s with top := ⟨some chunk, s.top.tag + 1⟩ }, l ++ [t'] ++ r⟩ := by
  have hne : o ≠ .lent ∧ o ≠ .unreserved ∧ o ≠ .stacked := by
    rcases ho with rfl | rfl <;> simp
  refine h.moved howner ?_ (by simp) (fun n _ => ⟨rfl, rfl⟩) (Or.inl ?_) hid ?_ ht
  · intro i hi
    rcases ho with rfl | rfl <;> simp [Ne.symm hi]
  · rw [tag_succ htag]
    exact Nat.lt_succ_self _
  · refine ⟨h.holds.lent_nodup, fun m => ?_, fun m => ?_, h.holds.stack.push hchain hlen hlink,
      ?_, fun m => ?_, h.holds.nodeCount⟩
    · rw [PoolLayout.give_iff_of_ne (fun n hn => by simp [howner n hn, hne.1]) (by simp)]
      exact h.holds.lent m
    · rw [PoolLayout.give_iff_of_ne (fun n hn => by simp [howner n hn, hne.2.1]) (by simp)]
      exact h.holds.unreserved m
    · refine List.nodup_append.2 ⟨hnodup, h.holds.stack_nodup, ?_⟩
      rintro n hn _ hn' rfl
      have := howner n hn
      rw [(h.holds.stacked n).1 hn'] at this
      exact hne.2.2 this.symm
    · rw [PoolLayout.give_iff, List.flatten_cons, List.mem_append]
      exact or_congr_right (h.holds.stacked m)

/-- A full list is pushed. -/
theorem pushFreed {chunk : NodePtr} (h : Pooled cap L ⟨s, l ++ t :: r⟩)
    (hpc : t.pc = .pushCas chunk s.top .deallocate) (htag : s.top.tag.toNat + 1 < 2 ^ 64) :
    ∃ L', Pooled cap L' ⟨{ s with top := ⟨some chunk, s.top.tag + 1⟩ },
      l ++ [{ t with list := none, size := 0, pc := .idle }] ++ r⟩ := by
  have hself := h.agrees_self
  have hspare := hself.spare
  have hknows := hself.knows
  rw [hpc] at hspare hknows
  obtain ⟨⟨hlist, hsize⟩, hlink⟩ := hknows
  have howner : ∀ n ∈ L.lists t.id, L.owner n = .listed t.id := fun n hn => (hself.listed n).1 hn
  have hpos := cap.pos
  refine ⟨_, push (L.lists t.id) [] h htag (Or.inl rfl) howner
    (hlist ▸ hself.chain) (hself.size.symm.trans hsize) hself.nodup hlink rfl ?_⟩
  refine ⟨by simp, by simp, by simp, fun m => ?_, fun m => ?_, hpos⟩
  · rw [PoolLayout.give_iff_left (by simp), ← hself.listed m]
    simp
  · rw [PoolLayout.give_iff_of_ne (fun n hn => by simp [howner n hn]) (by simp), ← hspare m]
    simp [PoolPc.spare]

/-- The next chunk of the new nodes is pushed. -/
theorem pushReserved {chunk : NodePtr} {base count done : ℕ} (h : Pooled cap L ⟨s, l ++ t :: r⟩)
    (hpc : t.pc = .pushCas chunk s.top (.reserve base count done))
    (htag : s.top.tag.toNat + 1 < 2 ^ 64) :
    ∃ L', Pooled cap L' ⟨{ s with top := ⟨some chunk, s.top.tag + 1⟩ },
      l ++ [{ t with pc := .reserveChunk base count (done + cap.val) }] ++ r⟩ := by
  have hself := h.agrees_self
  have hspare := hself.spare
  have hknows := hself.knows
  rw [hpc] at hspare hknows
  obtain ⟨⟨hsize, rfl, hle, hdvd, hchain⟩, hlink⟩ := hknows
  have howner : ∀ n ∈ List.range' (base + done) cap.val, L.owner n = .spare t.id := by
    intro n hn
    rw [List.mem_range'_1] at hn
    exact (hspare n).1 (List.mem_range'_1.2 ⟨hn.1, by omega⟩)
  refine ⟨_, push (List.range' (base + done) cap.val) (L.lists t.id) h htag
    (Or.inr rfl) howner hchain (by simp) List.nodup_range' hlink rfl ?_⟩
  refine ⟨by simpa using hself.chain, by simpa using hself.size, by simpa using hself.nodup,
    fun m => ?_, fun m => ?_, hsize, hle, Nat.dvd_add hdvd.1 (Nat.dvd_refl _), hdvd.2⟩
  · rw [PoolLayout.give_iff_of_ne (fun n hn => by simp [howner n hn]) (by simp), ← hself.listed m]
    simp
  · rw [PoolLayout.give_iff_left (by simp), ← hspare m]
    simp only [PoolPc.spare, List.mem_range'_1]
    omega

/-- The chunk that a thread links is its own. -/
theorem owner_pushed {chunk : NodePtr} {old : TaggedPtr} {caller : PushCaller}
    (h : Pooled cap L ⟨s, l ++ t :: r⟩) (hpc : t.pc = .pushWrite chunk old caller) :
    L.owner chunk = .listed t.id ∨ L.owner chunk = .spare t.id := by
  have hknows := h.agrees_self.knows
  rw [hpc] at hknows
  refine h.agrees_self.owner_chunk ?_ hknows
  cases caller <;> simp only [hpc, PoolPc.spare]

/-- A thread links the chunk it is about to push to the top it has loaded. -/
theorem writeNext {chunk : NodePtr} {old : TaggedPtr} {caller : PushCaller}
    (h : Pooled cap L ⟨s, l ++ t :: r⟩) (hpc : t.pc = .pushWrite chunk old caller) :
    Pooled cap L ⟨{ s with nextChunk := Function.update s.nextChunk chunk old.node },
      l ++ [{ t with pc := .pushCas chunk old caller }] ++ r⟩ := by
  have hself := h.agrees_self
  have hspare := hself.spare
  have hknows := hself.knows
  have howner := h.owner_pushed hpc
  rw [hpc] at hspare hknows
  refine h.written (· = chunk) ?_ ?_ ?_ rfl rfl rfl rfl rfl ?_
  · exact fun m hm => ⟨rfl, Function.update_of_ne hm _ _⟩
  · rintro m rfl i hi
    rcases howner with howner | howner <;> simp [howner, Ne.symm hi]
  · rintro m rfl
    rcases howner with howner | howner <;> simp [howner]
  · refine ⟨hself.chain, hself.size, hself.nodup, hself.listed, fun m => ?_, ?_, by simp⟩
    · rw [← hspare m]
      cases caller <;> rfl
    · cases caller <;> exact hknows

/-! ### New nodes -/

/-- A page of new nodes. -/
theorem reserve (h : Pooled cap L ⟨s, l ++ t :: r⟩) (hpc : t.pc = .checkTop) :
    ∃ L', Pooled cap L' ⟨{ s with pages := s.pages + max cap.val s.nodeCount },
      l ++ [{ t with pc := .reserveChunk s.pages (max cap.val s.nodeCount) 0 }] ++ r⟩ := by
  have hself := h.agrees_self
  have hspare := hself.spare
  have hknows := hself.knows
  rw [hpc] at hspare hknows
  let ns := List.range' s.pages (max cap.val s.nodeCount)
  have howner : ∀ n ∈ ns, L.owner n = .unreserved := by
    intro n hn
    exact (h.holds.unreserved n).1 (List.mem_range'_1.1 hn).1
  refine ⟨⟨L.give ns (.spare t.id), Function.update L.lists t.id (L.lists t.id), L.stack⟩,
    h.moved howner (by simp) (by simp [eq_comm]) (fun n _ => ⟨rfl, rfl⟩)
      (Or.inr ⟨rfl, fun _ _ => rfl⟩) rfl ?_ ?_⟩
  · refine ⟨h.holds.lent_nodup, fun m => ?_, fun m => ?_, h.holds.stack, h.holds.stack_nodup,
      fun m => ?_, h.holds.nodeCount⟩
    · rw [PoolLayout.give_iff_of_ne (fun n hn => by simp [howner n hn]) (by simp)]
      exact h.holds.lent m
    · rw [PoolLayout.give_iff_left (by simp), ← h.holds.unreserved m, List.mem_range'_1]
      simp only
      omega
    · rw [PoolLayout.give_iff_of_ne (fun n hn => by simp [howner n hn]) (by simp)]
      exact h.holds.stacked m
  · refine ⟨by simpa using hself.chain, by simpa using hself.size, by simpa using hself.nodup,
      fun m => ?_, fun m => ?_, hknows, Nat.zero_le _, Nat.dvd_zero _, ?_⟩
    · rw [PoolLayout.give_iff_of_ne (fun n hn => by simp [howner n hn]) (by simp),
        ← hself.listed m]
      simp
    · rw [PoolLayout.give_iff, ← hspare m]
      simp [PoolPc.spare, ns]
    · rcases Nat.le_total cap.val s.nodeCount with hle | hle
      · rw [Nat.max_eq_right hle]
        exact h.holds.nodeCount
      · rw [Nat.max_eq_left hle]

theorem linkNodes_closed (next : NodePtr → Option NodePtr) (base k : ℕ) :
    Linked (linkNodes next base 0 (k + 1) true) (some base) (List.range' base (k + 1)) := by
  refine Linked.range ?_ ?_
  · intro n hn hn'
    have hin : base + 0 ≤ n ∧ n < base + (k + 1) := ⟨hn, by omega⟩
    have hinner : n + 1 ≠ base + (k + 1) := by omega
    unfold linkNodes
    rw [if_pos hin]
    simp [hinner]
  · have hin : base + 0 ≤ base + k ∧ base + k < base + (k + 1) := ⟨by omega, by omega⟩
    simp [linkNodes, hin, Nat.add_assoc]

/-- The nodes of a chunk are linked. -/
theorem linkChunk {base count done : ℕ} (h : Pooled cap L ⟨s, l ++ t :: r⟩)
    (hpc : t.pc = .reserveChunk base count done) (hle : done + cap.val ≤ count) :
    Pooled cap L ⟨{ s with next := linkNodes s.next base done (done + cap.val) true },
      l ++ [{ t with pc := .pushLoad (base + done) (.reserve base count done) }] ++ r⟩ := by
  have hself := h.agrees_self
  have hspare := hself.spare
  have hknows := hself.knows
  rw [hpc] at hspare hknows
  obtain ⟨hsize, -, hdvd⟩ := hknows
  have hempty : L.lists t.id = [] := List.length_eq_zero_iff.1 (hself.size.symm.trans hsize)
  have howner : ∀ n, base + done ≤ n ∧ n < base + (done + cap.val) → L.owner n = .spare t.id := by
    intro n hn
    exact (hspare n).1 (List.mem_range'_1.2 ⟨hn.1, by omega⟩)
  refine h.written (fun n => base + done ≤ n ∧ n < base + (done + cap.val))
    ?_ ?_ ?_ rfl rfl rfl rfl rfl ?_
  · exact fun m hm => ⟨if_neg hm, rfl⟩
  · intro m hm i hi
    simp [howner m hm, Ne.symm hi]
  · intro m hm
    simp [howner m hm]
  · refine ⟨?_, hself.size, hself.nodup, hself.listed, fun m => hspare m, hsize, rfl, hle, hdvd,
      ?_⟩
    · have hchain := hself.chain
      rw [hempty] at hchain
      simpa [hempty] using hchain
    · obtain ⟨k, hk⟩ := Nat.exists_eq_add_of_lt cap.pos
      rw [Nat.zero_add] at hk
      have hlinked := linkNodes_closed s.next (base + done) k
      rw [← hk] at hlinked
      refine hlinked.congr fun n _ => ?_
      unfold linkNodes
      simp only [Nat.add_zero, Nat.add_assoc]

/-- A whole number of chunks has been reserved, so nothing is left to be linked. -/
theorem linkRest {base count done : ℕ} (h : Pooled cap L ⟨s, l ++ t :: r⟩)
    (hpc : t.pc = .reserveChunk base count done) (hlt : count < done + cap.val) :
    Pooled cap L ⟨{ s with next := linkNodes s.next base done count false },
      l ++ [{ t with pc := .storeCount count }] ++ r⟩ := by
  have hknows := h.agrees_self.knows
  rw [hpc] at hknows
  obtain ⟨hsize, hle, hdone, hcount⟩ := hknows
  obtain rfl : count = done := by
    by_contra hne
    have := Nat.le_of_dvd (by omega) (Nat.dvd_sub hcount hdone)
    omega
  have hnext : linkNodes s.next base count count false = s.next := by
    funext n
    exact if_neg fun hin => absurd hin.1 (Nat.not_le.2 hin.2)
  rw [hnext]
  exact h.same rfl rfl rfl rfl rfl h.holds.nodeCount (by simp [hpc, PoolPc.spare])
    ⟨hsize, hcount⟩

/-! ### One step -/

/-- **What one step keeps**, as long as the tag does not wrap around. -/
theorem step (h : Pooled cap L ⟨s, l ++ t :: r⟩) (htag : s.top.tag.toNat + 1 < 2 ^ 64)
    (hstep : PoolStep cap s t s' t') : ∃ L', Pooled cap L' ⟨s', l ++ [t'] ++ r⟩ := by
  have hknows := h.agrees_self.knows
  have hcount := h.holds.nodeCount
  have hafter : ∀ t : PoolThread, t.size = 0 → (afterTop s.top).Knows cap s t := by
    intro t hsize
    unfold afterTop
    split
    · exact hsize
    · next n hn => exact ⟨hsize, le_rfl, fun _ => hn⟩
  have hafterSpare : (afterTop s.top).spare = [] := by
    unfold afterTop
    split <;> rfl
  cases hstep with
  | callAllocate hpc =>
      rw [hpc] at hknows
      exact ⟨L, h.same rfl rfl rfl rfl rfl hcount (by simp [hpc, PoolPc.spare]) hknows⟩
  | deallocate n pc hpc hn hcase => exact ⟨_, h.deallocate hpc hn hcase⟩
  | write n next nextChunk hpc hn => exact ⟨L, h.write hn next nextChunk hpc⟩
  | goPop hpc hzero =>
      exact ⟨L, h.same rfl rfl rfl rfl rfl hcount (by simp [hpc, PoolPc.spare]) hzero⟩
  | goTake hpc hpos =>
      rw [hpc] at hknows
      have hlt : t.size < cap.val := hknows
      exact ⟨L, h.same rfl rfl rfl rfl rfl hcount (by simp [hpc, PoolPc.spare]) ⟨hpos, hlt.le⟩⟩
  | loadTop hpc =>
      rcases hpc with hpc | ⟨node, tag, next, hpc⟩
      · rw [hpc] at hknows
        exact ⟨L, h.same rfl rfl rfl rfl rfl hcount (by rw [hafterSpare, hpc]; rfl)
          (hafter _ hknows)⟩
      · rw [hpc] at hknows
        exact ⟨L, h.same rfl rfl rfl rfl rfl hcount (by rw [hafterSpare, hpc]; rfl)
          (hafter _ hknows.1)⟩
  | readNext node tag hpc =>
      rw [hpc] at hknows
      exact ⟨L, h.same rfl rfl rfl rfl rfl hcount (by simp [hpc, PoolPc.spare])
        ⟨hknows.1, hknows.2, fun _ => rfl⟩⟩
  | pop node tag next hpc htop => exact h.pop hpc htop htag
  | lock hpc _ =>
      rw [hpc] at hknows
      refine ⟨L, h.same (by rfl) (by rfl) (by rfl) (by rfl) (by rfl) ?_ ?_ ?_⟩
      · exact hcount
      · simp [hpc, PoolPc.spare]
      · exact hknows
  | found hpc =>
      rw [hpc] at hknows
      exact ⟨L, h.same rfl rfl rfl rfl rfl hcount (by simp [hpc, PoolPc.spare]) hknows⟩
  | reserve hpc _ => exact h.reserve hpc
  | linkChunk base count done hpc hle => exact ⟨L, h.linkChunk hpc hle⟩
  | linkRest base count done hpc hlt => exact ⟨L, h.linkRest hpc hlt⟩
  | storeCount count hpc =>
      rw [hpc] at hknows
      refine ⟨L, h.same (by rfl) (by rfl) (by rfl) (by rfl) (by rfl) ?_ ?_ ?_⟩
      · exact Nat.dvd_add hcount hknows.2
      · simp [hpc, PoolPc.spare]
      · exact hknows.1
  | unlock hpc =>
      rw [hpc] at hknows
      refine ⟨L, h.same (by rfl) (by rfl) (by rfl) (by rfl) (by rfl) ?_ ?_ ?_⟩
      · exact hcount
      · simp [hpc, PoolPc.spare]
      · exact hknows
  | take n hpc hlist => exact ⟨_, h.take hpc hlist⟩
  | loadOld chunk caller hpc =>
      rcases hpc with hpc | ⟨old, hpc⟩
      · rw [hpc] at hknows
        refine ⟨L, h.same rfl rfl rfl rfl rfl hcount ?_ (by cases caller <;> exact hknows)⟩
        cases caller <;> simp [hpc, PoolPc.spare]
      · rw [hpc] at hknows
        refine ⟨L, h.same rfl rfl rfl rfl rfl hcount ?_ (by cases caller <;> exact hknows.1)⟩
        cases caller <;> simp [hpc, PoolPc.spare]
  | writeNext chunk old caller hpc => exact ⟨L, h.writeNext hpc⟩
  | pushFreed chunk hpc => exact h.pushFreed hpc htag
  | pushReserved chunk base count done hpc => exact h.pushReserved hpc htag

/-- A new thread has an empty list. -/
theorem arrive (h : Pooled cap L p) :
    ∃ L', Pooled cap L' ⟨p.shared, p.threads ++ [⟨p.threads.length, none, 0, .idle⟩]⟩ := by
  have hfresh : ∀ n,
      L.owner n ≠ .listed p.threads.length ∧ L.owner n ≠ .spare p.threads.length := by
    intro n
    constructor
    · intro howner
      have := h.registered n _ (Or.inl howner)
      omega
    · intro howner
      have := h.registered n _ (Or.inr howner)
      omega
  refine ⟨{ L with lists := Function.update L.lists p.threads.length [] }, ?_, ?_, ?_, ?_⟩
  · exact ⟨h.holds.lent_nodup, h.holds.lent, h.holds.unreserved, h.holds.stack,
      h.holds.stack_nodup, h.holds.stacked, h.holds.nodeCount⟩
  · intro n i howner
    have := h.registered n i howner
    simp only [List.length_append, List.length_singleton]
    omega
  · intro i t ht
    rcases Nat.lt_or_ge i p.threads.length with hlt | hge
    · rw [List.getElem?_append_left hlt] at ht
      exact h.ids i t ht
    · have hi := (List.getElem?_eq_some_iff.1 ht).1
      simp only [List.length_append, List.length_singleton] at hi
      obtain rfl : i = p.threads.length := by omega
      simp only [List.getElem?_concat_length, Option.some.injEq] at ht
      rw [← ht]
  · intro u hu
    rcases List.mem_append.1 hu with hu | hu
    · have hne : u.id ≠ p.threads.length := by
        obtain ⟨i, hi, rfl⟩ := List.mem_iff_getElem.1 hu
        have := h.ids i _ (List.getElem?_eq_getElem hi)
        omega
      exact (h.threads u hu).frame (fun _ => False) (Function.update_of_ne hne _ _)
        (fun n _ => ⟨rfl, rfl, rfl⟩) (by simp) (by simp) (Or.inr ⟨rfl, fun _ _ => rfl⟩)
    · obtain rfl := List.mem_singleton.1 hu
      exact ⟨by simp, by simp, by simp, fun n => by simp [hfresh n],
        fun n => by simp [PoolPc.spare, hfresh n], cap.pos⟩

end Pooled

/-! ### Runs -/

/-- **In every reachable state every node has one owner**, as long as the tag does not wrap
around. -/
theorem pooled_of_exec {tr : List (PoolThreads × NodePoolAction)} {p : PoolThreads}
    (h : (NodePool.machine cap).Exec tr p) (hC : Machine.Meets TagBelow tr) :
    ∃ L, Pooled cap L p := by
  refine ThreadProgram.invariantWhere (C := TagBelow) (I := fun p => ∃ L, Pooled cap L p)
    ?_ ?_ ?_ h hC
  · rintro s ⟨next, nextChunk, rfl⟩
    exact ⟨_, pooled_empty next nextChunk⟩
  · rintro _ p i s t _ _ ⟨L, hL⟩ _ hat
    obtain ⟨rfl, rfl⟩ : p.shared = s ∧ (⟨p.threads.length, none, 0, .idle⟩ : PoolThread) = t := by
      simpa [NodePool.program] using hat
    exact hL.arrive
  · rintro _ s s' l t r new k _ _ ⟨L, hL⟩ htag hrun
    obtain ⟨t', rfl, -, hstep⟩ := poolStep_cases hrun
    exact hL.step htag hstep

/-- A node that is lent is on the pages. -/
theorem Pooled.lt_pages {L : PoolLayout} (h : Pooled cap L p) {n : NodePtr}
    (hn : n ∈ p.shared.lent) : n < p.shared.pages := by
  by_contra hge
  have hnone := (h.holds.unreserved n).1 (Nat.le_of_not_lt hge)
  rw [(h.holds.lent n).1 hn] at hnone
  cases hnone

/-- What a thread is about to lend is in its list. -/
theorem Pooled.exists_take {L : PoolLayout} (h : Pooled cap L p) (ht : t ∈ p.threads)
    (hpc : t.pc = .take) : ∃ n, t.list = some n ∧ L.owner n = .listed t.id := by
  have hagrees := h.threads t ht
  have hknows := hagrees.knows
  rw [hpc] at hknows
  have hchain := hagrees.chain
  obtain ⟨n, rest, hlist⟩ : ∃ n rest, L.lists t.id = n :: rest := by
    refine List.exists_cons_of_ne_nil fun hnil => ?_
    have hsize := hagrees.size
    rw [hnil] at hsize
    have hpos : 0 < t.size := hknows.1
    simp only [List.length_nil] at hsize
    omega
  rw [hlist] at hchain
  exact ⟨n, hchain.1, (hagrees.listed n).1 (by simp [hlist])⟩

/-- **The pool lends no node that is lent.**  The nodes that are lent are different and on the
pages, and what a thread is about to lend is there and is none of them. -/
theorem NodePool.lends_once {tr : List (PoolThreads × NodePoolAction)} {p : PoolThreads}
    (h : (NodePool.machine cap).Exec tr p) (hC : Machine.Meets TagBelow tr) :
    p.shared.lent.Nodup ∧ (∀ n ∈ p.shared.lent, n < p.shared.pages) ∧
      ∀ t ∈ p.threads, t.pc = .take → ∃ n, t.list = some n ∧ n < p.shared.pages ∧
        n ∉ p.shared.lent := by
  obtain ⟨L, hL⟩ := pooled_of_exec h hC
  refine ⟨hL.holds.lent_nodup, fun n hn => hL.lt_pages hn, fun t ht hpc => ?_⟩
  obtain ⟨n, hlist, howner⟩ := hL.exists_take ht hpc
  refine ⟨n, hlist, ?_, ?_⟩
  · by_contra hge
    have hnone := (hL.holds.unreserved n).1 (Nat.le_of_not_lt hge)
    rw [howner] at hnone
    cases hnone
  · rw [hL.holds.lent, howner]
    simp

/-- **Every reserved node is lent or can be found again**: following the links leads to it from the
list of a thread or from the top of the stack, or a thread is about to push it. -/
theorem NodePool.loses_nothing {tr : List (PoolThreads × NodePoolAction)} {p : PoolThreads}
    (h : (NodePool.machine cap).Exec tr p) (hC : Machine.Meets TagBelow tr) :
    ∃ stack, Linked.Chunks p.shared.next p.shared.nextChunk cap.val p.shared.top.node stack ∧
      ∀ n < p.shared.pages, n ∈ p.shared.lent ∨ n ∈ stack.flatten ∨
        ∃ t ∈ p.threads, n ∈ t.pc.spare ∨
          ∃ list, Linked p.shared.next t.list list ∧ list.length = t.size ∧ n ∈ list := by
  obtain ⟨L, hL⟩ := pooled_of_exec h hC
  have hthread : ∀ n i, L.owner n = .listed i ∨ L.owner n = .spare i →
      ∃ t ∈ p.threads, t.id = i := by
    intro n i howner
    have hi := hL.registered n i howner
    exact ⟨_, List.getElem_mem hi, hL.ids i _ (List.getElem?_eq_getElem hi)⟩
  refine ⟨L.stack, hL.holds.stack, fun n hn => ?_⟩
  cases howner : L.owner n with
  | unreserved => exact absurd ((hL.holds.unreserved n).2 howner) (Nat.not_le.2 hn)
  | lent => exact Or.inl ((hL.holds.lent n).2 howner)
  | stacked => exact Or.inr (Or.inl ((hL.holds.stacked n).2 howner))
  | listed i =>
      obtain ⟨t, ht, rfl⟩ := hthread n i (Or.inl howner)
      have hagrees := hL.threads t ht
      exact Or.inr (Or.inr ⟨t, ht, Or.inr ⟨_, hagrees.chain, hagrees.size.symm,
        (hagrees.listed n).2 howner⟩⟩)
  | spare i =>
      obtain ⟨t, ht, rfl⟩ := hthread n i (Or.inr howner)
      exact Or.inr (Or.inr ⟨t, ht, Or.inl (((hL.threads t ht).spare n).2 howner)⟩)

/-! ### Two threads -/

/-- Chunks of two nodes. -/
def ChunkCapacity.two : ChunkCapacity := ⟨2, 1, rfl⟩

theorem NodePool.machine_init : (NodePool.machine .two).init
    ⟨NodePool.empty (fun _ => none) (fun _ => none), []⟩ := ⟨⟨_, _, rfl⟩, rfl⟩

/-- A thread takes some steps without interruption. -/
def poolSteps (id count : ℕ) : List NodePoolAction := List.replicate count (.run id .go)

/-- A thread reserves a chunk.  A second one loads the top and its `next_chunk_`, and then the first
one takes the chunk and lends a node of it. -/
def lentOnce : List NodePoolAction :=
  [.arrive (), .run 0 .allocate] ++ poolSteps 0 11 ++ [.arrive (), .run 1 .allocate]
    ++ poolSteps 1 3 ++ poolSteps 0 4

/-- The first thread uses its node and gives it back; when its list is full the chunk is on the
stack again, at the same address.  The compare-exchange of the second thread fails. -/
def pushedAgain : List NodePoolAction :=
  lentOnce ++ [.run 0 (.write 0 (some 7) (some 9)), .run 0 (.deallocate 0)] ++ poolSteps 0 3
    ++ poolSteps 1 1

/-- The first thread is about to lend the other node. -/
theorem NodePool.lends_once_two_threads :
    ∃ tr p, (NodePool.machine .two).Exec tr p ∧ p.shared.lent = [0] ∧
      p.threads = [⟨0, some 1, 1, .take⟩, ⟨1, none, 0, .popCas 0 1 none⟩] ∧
      (1 : NodePtr) ∉ p.shared.lent := by
  obtain ⟨p, hex, hp⟩ := Machine.exists_exec_of_replay NodePool.machine_init
    (lentOnce ++ [.run 0 .allocate, .run 0 .go]) (fun p => (p.shared.lent, p.threads))
    ([0], [⟨0, some 1, 1, .take⟩, ⟨1, none, 0, .popCas 0 1 none⟩]) (by decide)
  obtain ⟨hlent, hthreads⟩ := Prod.mk.inj hp
  obtain ⟨-, -, htake⟩ := NodePool.lends_once hex (by decide)
  obtain ⟨n, hn, -, hfresh⟩ := htake ⟨0, some 1, 1, .take⟩ (by simp [hthreads]) rfl
  obtain rfl := Option.some.inj hn
  exact ⟨_, p, hex, hlent, hthreads, hfresh⟩

/-- The chunk is back on the stack, and the second thread has to begin again. -/
theorem NodePool.loses_nothing_two_threads :
    ∃ tr p, (NodePool.machine .two).Exec tr p ∧ p.shared.top = ⟨some 0, 3⟩ ∧
      p.threads = [⟨0, none, 0, .idle⟩, ⟨1, none, 0, .popRead 0 3⟩] ∧
      ∃ stack, Linked.Chunks p.shared.next p.shared.nextChunk 2 p.shared.top.node stack ∧
        (0 : NodePtr) ∈ stack.flatten := by
  obtain ⟨p, hex, hp⟩ := Machine.exists_exec_of_replay NodePool.machine_init pushedAgain
    (fun p => (p.shared.top, p.threads, p.shared.lent, p.shared.pages))
    (⟨some 0, 3⟩, [⟨0, none, 0, .idle⟩, ⟨1, none, 0, .popRead 0 3⟩], [], 2) (by decide)
  simp only [Prod.mk.injEq] at hp
  obtain ⟨htop, hthreads, hlent, hpages⟩ := hp
  obtain ⟨stack, hstack, hfound⟩ := NodePool.loses_nothing hex (by decide)
  refine ⟨_, p, hex, htop, hthreads, stack, hstack, ?_⟩
  rcases hfound 0 (by rw [hpages]; decide) with hin | hin | ⟨t, ht, hin⟩
  · simp [hlent] at hin
  · exact hin
  · rw [hthreads] at ht
    rcases hin with hin | ⟨list, hlist, hlen, hin⟩
    · rcases List.mem_cons.1 ht with rfl | ht
      · simp [PoolPc.spare] at hin
      · obtain rfl := List.mem_singleton.1 ht
        simp [PoolPc.spare] at hin
    · have hsize : t.size = 0 := by
        rcases List.mem_cons.1 ht with rfl | ht
        · rfl
        · rw [List.mem_singleton.1 ht]
      rw [List.length_eq_zero_iff.1 (hlen.trans hsize)] at hin
      simp at hin

end NodePoolSteps

end ExActor
