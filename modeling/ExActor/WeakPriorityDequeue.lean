/-
**Dequeueing from the better of two sub-queues.**

`TryDequeueOperation` draws two sub-queues, another one for the second when both are the same, and
tries first the one whose bitmap has the lower lowest bit; an empty one comes second.  When nothing
changes in between, the first attempt succeeds, and what it takes is at least as urgent as anything
in the two; with two sub-queues that is everything there is.

Main definitions:

* `WeakPriorityThreadPool.tryDequeueOperation` — the function of the source, uninterrupted;
* `WeakPriorityThreadPool.Dequeues` — one operation is gone, and nothing else has changed.

Main results:

* `tryDequeueOperation_uninterrupted` — the function is what the steps of one worker do;
* `order_eq_some` — which sub-queue is tried first;
* `two_choice_dequeue` — **the better of the two samples is taken**.
-/

import ExActor.WeakPriorityThreadPool

set_option relaxedAutoImplicit false
set_option autoImplicit false

namespace ExActor

variable {n : ℕ} [NeZero n]

/-! ### The function of the source -/

namespace WeakPriorityThreadPool

/-- `try_pop` of `TryDequeueOperation`: the operation or `nullptr`. -/
def tryPop (s : WeakPriorityThreadPool n) (i : Fin n) :
    Option (Option Operation × WeakPriorityThreadPool n) :=
  (s.subQueues i).tryPop.map fun
    | (none, _) => (none, s)
    | (some op, sq) => (some op, s.setSubQueue i sq)

/-- `TryDequeueOperation`, for the two numbers that are drawn. -/
def tryDequeueOperation (s : WeakPriorityThreadPool n) (a b : ℕ) :
    Option (Option Operation × WeakPriorityThreadPool n) :=
  let idxA := Fin.ofNat n a
  let idxB := otherIndex idxA (Fin.ofNat n b)
  match order idxA idxB (s.subQueues idxA).bitmap (s.subQueues idxB).bitmap with
  | none => some (none, s)
  | some (first, second) =>
      match s.tryPop first with
      | none => none
      | some (some op, s') => some (some op, s')
      | some (none, s') => s'.tryPop second

/-- `s'` is `s` without the operation at the top of one stack. -/
structure Dequeues (s : WeakPriorityThreadPool n) (k : Fin n) (pri : Priority) (op : Operation)
    (s' : WeakPriorityThreadPool n) : Prop where
  taken : (s.subQueues k).slots pri = (s'.subQueues k).slots pri ++ [op]
  kept : ∀ i p, (i ≠ k ∨ p ≠ pri) → (s'.subQueues i).slots p = (s.subQueues i).slots p
  sema : s'.sema = s.sema
  priorities : s'.priorities = s.priorities
  executed : s'.executed = s.executed

omit [NeZero n] in
/-- Popping from one stack takes its top. -/
theorem dequeues_popBack {s : WeakPriorityThreadPool n} {k : Fin n} {pri : Priority}
    {rest : List Operation} {op : Operation} (h : (s.subQueues k).slots pri = rest ++ [op]) :
    s.Dequeues k pri op (s.setSubQueue k ((s.subQueues k).popBack pri)) where
  taken := by simp [setSubQueue, SubQueue.popBack, h]
  kept := by
    intro i p hne
    by_cases hi : i = k
    · subst hi
      have hp : p ≠ pri := hne.resolve_left (fun h => h rfl)
      simp [setSubQueue, SubQueue.popBack, Function.update_of_ne hp]
    · simp [setSubQueue, Function.update_of_ne hi]
  sema := rfl
  priorities := rfl
  executed := rfl

end WeakPriorityThreadPool

/-- Where a worker goes on after an attempt to pop: `next` if it has found nothing. -/
def WorkerAt.popped (next : WorkerAt n) : Option Operation → WorkerAt n
  | none => next
  | some op => .holding op

section Steps

variable {s s' : WeakPriorityThreadPool n} {place place' : WorkerAt n} {slot slot' : LocalSlot}
  {result : Option Operation}

/-- A step of a worker, as a step of a thread of the pool. -/
theorem run_worker {k : WeakPriorityChoice}
    (h : s.runWorker slot place k = some (s', place', slot')) :
    (weakPriorityProgram n).run s (.worker place slot) k = some (s', [.worker place' slot']) := by
  simp only [weakPriorityProgram, WeakPriorityThreadPool.run, h, Option.map_some]

omit [NeZero n] in
/-- An attempt to pop, as both attempts of a worker make it. -/
theorem map_tryPop {i : Fin n} {next : WorkerAt n} (h : s.tryPop i = some (result, s')) :
    ((s.subQueues i).tryPop.map fun
      | (none, _) => (s, next, slot)
      | (some op, sq) => (s.setSubQueue i sq, .holding op, slot))
        = some (s', next.popped result, slot) := by
  obtain ⟨⟨op, sq⟩, hpop, heq⟩ := Option.map_eq_some_iff.1 h
  rw [hpop]
  cases op with
  | none =>
      obtain ⟨rfl, rfl⟩ := by simpa using heq
      rfl
  | some op =>
      obtain ⟨rfl, rfl⟩ := by simpa using heq
      rfl

theorem runWorker_loadB (s : WeakPriorityThreadPool n) (slot : LocalSlot) (a b : Fin n)
    (bmA : BitVec 64) :
    s.runWorker slot (.loadB a b bmA) .go =
      match order a b bmA (s.subQueues b).bitmap with
      | none => some (s, .drawing, slot)
      | some (first, second) => some (s, .popFirst first second, slot) := rfl

/-- **The function is what the steps of one worker do**, when no other thread comes between. -/
theorem tryDequeueOperation_uninterrupted {a b : ℕ}
    (h : s.tryDequeueOperation a b = some (result, s')) (slot : LocalSlot) :
    ∃ ks, (weakPriorityProgram n).Uninterrupted s (.worker .drawing slot) ks s'
      (.worker (WorkerAt.popped .drawing result) slot) [] := by
  simp only [WeakPriorityThreadPool.tryDequeueOperation] at h
  have hdraws : s.runWorker slot .drawing (.draws a b) = some (s, .loadA (Fin.ofNat n a)
      (otherIndex (Fin.ofNat n a) (Fin.ofNat n b)), slot) := rfl
  generalize Fin.ofNat n a = i at h hdraws
  generalize otherIndex i (Fin.ofNat n b) = j at h hdraws
  have hloadA : s.runWorker slot (.loadA i j) .go
      = some (s, .loadB i j (s.subQueues i).bitmap, slot) := rfl
  replace hdraws := run_worker hdraws
  replace hloadA := run_worker hloadA
  have hloadB := runWorker_loadB s slot i j (s.subQueues i).bitmap
  split at h
  · next hnone =>
      obtain ⟨rfl, rfl⟩ := Prod.mk.inj (Option.some.inj h)
      rw [hnone] at hloadB
      exact ⟨_, .head hdraws (.head hloadA (.single (run_worker hloadB)))⟩
  · next first second horder =>
      rw [horder] at hloadB
      split at h
      · simp at h
      · next op s₁ hpop =>
          obtain ⟨rfl, rfl⟩ := Prod.mk.inj (Option.some.inj h)
          have hfirst : s.runWorker slot (.popFirst first second) .go = _ := map_tryPop hpop
          exact ⟨_, .head hdraws (.head hloadA (.head (run_worker hloadB)
            (.single (run_worker hfirst))))⟩
      · next s₁ hpop =>
          have hfirst : s.runWorker slot (.popFirst first second) .go = _ := map_tryPop hpop
          have hsecond : s₁.runWorker slot (.popSecond second) .go = _ := map_tryPop h
          exact ⟨_, .head hdraws (.head hloadA (.head (run_worker hloadB)
            (.head (run_worker hfirst) (.single (run_worker hsecond)))))⟩

end Steps

/-! ### The two samples -/

/-- The second sub-queue is another one. -/
theorem otherIndex_ne (hn : 2 ≤ n) (a b : Fin n) : a ≠ otherIndex a b := by
  unfold otherIndex
  split
  · next hab =>
      subst hab
      intro heq
      have hval := congrArg Fin.val heq
      rw [Fin.val_add, Fin.val_one', Nat.mod_eq_of_lt (by omega : 1 < n)] at hval
      by_cases hlast : b.val + 1 < n
      · rw [Nat.mod_eq_of_lt hlast] at hval
        omega
      · rw [show b.val + 1 = n by omega, Nat.mod_self] at hval
        omega
  · next hab => exact Ne.symm hab

omit [NeZero n] in
/-- No sub-queue is tried exactly if both bitmaps are zero. -/
theorem order_eq_none_iff {a b : Fin n} {bmA bmB : BitVec 64} :
    order a b bmA bmB = none ↔ bmA = 0 ∧ bmB = 0 := by
  unfold order
  split
  · next h => simp only [h, and_self]
  · next h => split <;> simp only [reduceCtorEq, h]

/-- `std::countr_zero` of zero is 64. -/
theorem ctz_le_ctz_zero {x : BitVec 64} (hx : x ≠ 0) :
    x.ctz.toNat ≤ (0 : BitVec 64).ctz.toNat := by
  have hlt : x.ctz.toNat < 64 := BitVec.lt_def.1 (BitVec.ctz_lt_iff_ne_zero.2 hx)
  have hzero : ¬ (0 : BitVec 64).ctz < 64 := fun h => BitVec.ctz_lt_iff_ne_zero.1 h rfl
  rw [BitVec.lt_def, not_lt] at hzero
  exact hlt.le.trans hzero

omit [NeZero n] in
/-- The bitmap of the sub-queue that is tried first is not zero, and its lowest bit is not above
that of the other one. -/
theorem order_eq_some {a b first second : Fin n} (bm : Fin n → BitVec 64)
    (h : order a b (bm a) (bm b) = some (first, second)) :
    ((first = a ∧ second = b) ∨ (first = b ∧ second = a)) ∧ bm first ≠ 0 ∧
      (bm first).ctz.toNat ≤ (bm second).ctz.toNat := by
  unfold order at h
  split at h
  · simp at h
  · next hboth =>
      split at h
      · next hb =>
          obtain ⟨rfl, rfl⟩ := Prod.mk.inj (Option.some.inj h)
          refine ⟨Or.inr ⟨rfl, rfl⟩, ?_⟩
          -- an empty sub-queue comes second, since its bitmap has no lowest bit
          rcases hb with hzero | ⟨hne, hlt⟩
          · have hne : bm b ≠ 0 := fun hb => hboth ⟨hzero, hb⟩
            rw [hzero]
            exact ⟨hne, ctz_le_ctz_zero hne⟩
          · exact ⟨hne, (BitVec.lt_def.1 hlt).le⟩
      · next ha =>
          obtain ⟨rfl, rfl⟩ := Prod.mk.inj (Option.some.inj h)
          rw [not_or, not_and] at ha
          obtain ⟨hne, hle⟩ := ha
          refine ⟨Or.inl ⟨rfl, rfl⟩, hne, ?_⟩
          by_cases hzero : bm b = 0
          · rw [hzero]
            exact ctz_le_ctz_zero hne
          · exact Nat.not_lt.1 fun hlt => hle hzero (BitVec.lt_def.2 hlt)

/-! ### The better of the two -/

variable {s : WeakPriorityThreadPool n}

omit [NeZero n] in
/-- Nothing in a sub-queue is more urgent than the lowest bit of one whose lowest bit is not above
its own. -/
theorem countrZero_le (hs : ∀ i, (s.subQueues i).WellFormed) {k i : Fin n}
    (hne : (s.subQueues k).bitmap ≠ 0)
    (hle : (s.subQueues k).bitmap.ctz.toNat ≤ (s.subQueues i).bitmap.ctz.toNat) {p : Priority}
    (hp : (s.subQueues i).slots p ≠ []) : SubQueue.countrZero (s.subQueues k).bitmap hne ≤ p := by
  by_contra hlt
  rw [not_le, Fin.lt_def] at hlt
  exact hp ((hs i).slots_eq_nil (hlt.trans_le hle))

/-- When both samples are empty, nothing is tried. -/
theorem tryDequeueOperation_empty {a b : ℕ} {i j : Fin n} (hi : i = Fin.ofNat n a)
    (hj : j = otherIndex i (Fin.ofNat n b))
    (hboth : (s.subQueues i).bitmap = 0 ∧ (s.subQueues j).bitmap = 0) :
    s.tryDequeueOperation a b = some (none, s) := by
  have horder := (order_eq_none_iff (a := i) (b := j)).2 hboth
  subst hj hi
  simp only [WeakPriorityThreadPool.tryDequeueOperation, horder]

/-- When not both samples are empty, the one whose lowest bit is lower is popped from. -/
theorem tryDequeueOperation_pops (hs : ∀ i, (s.subQueues i).WellFormed) {a b : ℕ} {i j : Fin n}
    (hi : i = Fin.ofNat n a) (hj : j = otherIndex i (Fin.ofNat n b))
    (hboth : ¬ ((s.subQueues i).bitmap = 0 ∧ (s.subQueues j).bitmap = 0)) :
    ∃ (k : Fin n) (hne : (s.subQueues k).bitmap ≠ 0) (rest : List Operation) (op : Operation),
      (k = i ∨ k = j) ∧
      (∀ m, m = i ∨ m = j →
        (s.subQueues k).bitmap.ctz.toNat ≤ (s.subQueues m).bitmap.ctz.toNat) ∧
      (s.subQueues k).slots (SubQueue.countrZero (s.subQueues k).bitmap hne) = rest ++ [op] ∧
      s.tryDequeueOperation a b = some (some op, s.setSubQueue k
        ((s.subQueues k).popBack (SubQueue.countrZero (s.subQueues k).bitmap hne))) := by
  obtain ⟨⟨first, second⟩, horder⟩ :=
    Option.ne_none_iff_exists'.1 (fun h => hboth (order_eq_none_iff.1 h))
  obtain ⟨hsamples, hne, hle⟩ := order_eq_some (fun k => (s.subQueues k).bitmap) horder
  obtain ⟨rest, op, hslot, hpop⟩ := (hs first).tryPop_countrZero hne
  have htry : s.tryPop first = some (some op, s.setSubQueue first
      ((s.subQueues first).popBack (SubQueue.countrZero (s.subQueues first).bitmap hne))) := by
    rw [WeakPriorityThreadPool.tryPop, hpop]
    rfl
  refine ⟨first, hne, rest, op, ?_, ?_, hslot, ?_⟩
  · rcases hsamples with ⟨rfl, -⟩ | ⟨rfl, -⟩
    · exact Or.inl rfl
    · exact Or.inr rfl
  · rintro m hm
    have hm : m = first ∨ m = second := by
      rcases hsamples with ⟨rfl, rfl⟩ | ⟨rfl, rfl⟩
      · exact hm
      · exact hm.symm
    rcases hm with rfl | rfl
    · exact Nat.le_refl _
    · exact hle
  · subst hj hi
    simp only [WeakPriorityThreadPool.tryDequeueOperation, horder, htry]

/-- **The better of the two samples is taken.**  When every bitmap is right and nothing changes in
between, `TryDequeueOperation` samples two distinct sub-queues; it returns `nullptr` exactly if both
are empty, and then changes nothing; and else it removes and returns one operation, of the smallest
priority number in the two, and leaves all others where they are.  The bitmaps stay right.  With two
sub-queues the priority number is the smallest of all. -/
theorem two_choice_dequeue (hn : 2 ≤ n) (hs : ∀ i, (s.subQueues i).WellFormed) (a b : ℕ) :
    let i := Fin.ofNat n a
    let j := otherIndex i (Fin.ofNat n b)
    i ≠ j ∧ ∃ result s', s.tryDequeueOperation a b = some (result, s') ∧
      (∀ k, (s'.subQueues k).WellFormed) ∧
      (result = none ↔ ∀ p, (s.subQueues i).slots p = [] ∧ (s.subQueues j).slots p = []) ∧
      (result = none → s' = s) ∧
      ∀ op, result = some op → ∃ k pri, (k = i ∨ k = j) ∧ s.Dequeues k pri op s' ∧
        (∀ p, (s.subQueues i).slots p ≠ [] ∨ (s.subQueues j).slots p ≠ [] → pri ≤ p) ∧
        (n = 2 → ∀ m p, (s.subQueues m).slots p ≠ [] → pri ≤ p) := by
  intro i j
  have hij : i ≠ j := otherIndex_ne hn _ _
  refine ⟨hij, ?_⟩
  have hempty : ((s.subQueues i).bitmap = 0 ∧ (s.subQueues j).bitmap = 0) ↔
      ∀ p, (s.subQueues i).slots p = [] ∧ (s.subQueues j).slots p = [] := by
    rw [(hs i).bitmap_eq_zero_iff, (hs j).bitmap_eq_zero_iff, forall_and]
  by_cases hboth : (s.subQueues i).bitmap = 0 ∧ (s.subQueues j).bitmap = 0
  · exact ⟨none, s, tryDequeueOperation_empty rfl rfl hboth, hs,
      iff_of_true rfl (hempty.1 hboth), fun _ => rfl, by simp⟩
  · obtain ⟨k, hne, rest, op, hk, hle, hslot, hpop⟩ :=
      tryDequeueOperation_pops hs (i := i) (j := j) rfl rfl hboth
    have hmin : ∀ m, m = i ∨ m = j → ∀ p, (s.subQueues m).slots p ≠ [] →
        SubQueue.countrZero (s.subQueues k).bitmap hne ≤ p :=
      fun m hm p hp => countrZero_le hs hne (hle m hm) hp
    refine ⟨some op, _, hpop, ?_, iff_of_false (by simp) (hempty.not.1 hboth), by simp, ?_⟩
    · intro m
      by_cases hm : m = k
      · subst hm
        simpa [WeakPriorityThreadPool.setSubQueue] using (hs m).popBack hslot
      · simpa [WeakPriorityThreadPool.setSubQueue, Function.update_of_ne hm] using hs m
    · rintro op' hop
      obtain rfl := Option.some.inj hop
      refine ⟨k, _, hk, WeakPriorityThreadPool.dequeues_popBack hslot, ?_, ?_⟩
      · rintro p (hp | hp)
        · exact hmin i (Or.inl rfl) p hp
        · exact hmin j (Or.inr rfl) p hp
      · -- two distinct sub-queues are all there are
        rintro htwo m
        refine hmin m ?_
        have hne := Fin.val_ne_of_ne hij
        rw [Fin.ext_iff, Fin.ext_iff]
        omega

/-- Both draws are the same, so the second sub-queue is tried as well, and has the better one. -/
theorem two_choice_dequeue_repaired :
    let s : WeakPriorityThreadPool 2 :=
      ⟨fun i => if i = 0 then SubQueue.empty.push 7 3 else SubQueue.empty.push 8 1, 2, [3, 1], []⟩
    ∃ s' k pri, s.tryDequeueOperation 0 0 = some (some 8, s') ∧ s.Dequeues k pri 8 s' ∧
      ∀ m p, (s.subQueues m).slots p ≠ [] → pri ≤ p := by
  intro s
  have hs : ∀ i, (s.subQueues i).WellFormed := by
    intro i
    simp only [s]
    split
    · exact SubQueue.wellFormed_empty.push 7 3
    · exact SubQueue.wellFormed_empty.push 8 1
  obtain ⟨-, result, s', hdequeue, -, -, -, htaken⟩ :=
    two_choice_dequeue (Nat.le_refl 2) hs 0 0
  have hresult : (s.tryDequeueOperation 0 0).map Prod.fst = some (some 8) := by decide +kernel
  rw [hdequeue] at hresult
  obtain rfl := Option.some.inj hresult
  obtain ⟨k, pri, -, hremoves, -, hmin⟩ := htaken 8 rfl
  exact ⟨s', k, pri, hdequeue, hremoves, hmin rfl⟩

end ExActor
