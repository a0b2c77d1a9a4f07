/-
**Interleaving threads over a shared state.**

A thread program says what one indivisible step of one thread does: from the shared state and the
local state of the thread it produces the new shared state and the list of threads that replace
the thread, which is empty when the thread ends and has more than one member when it starts
another.  New threads also arrive from outside.  The machine of a thread program lets any thread
take its next step at any time, so its executions are all the interleavings.

A thread is found by its position in the pool, and every step has the shape
`l ++ t :: r ↦ l ++ new ++ r`; the sums of a weight over the threads therefore change by the
weights of `t` and `new` alone, which is how invariants that count threads are proved.

Main definitions:

* `ThreadProgram`, `Pool`, `ThreadProgram.machine` — programs, their states, their interleavings;
* `ThreadProgram.Uninterrupted` — one thread takes several steps in a row;
* `Pool.total`, `Pool.others` — the sum of a weight over the threads, or over all but one.

Main results:

* `ThreadProgram.next_run_iff`, `ThreadProgram.next_arrive_iff` — what a step is;
* `Pool.total_before`, `Pool.total_after`, `Pool.total_arrive` — how a weight changes in a step;
* `Pool.forall_after`, `Pool.forall_arrive` — how a fact about every thread survives a step;
* `ThreadProgram.invariantWhere` — the invariant rule of a pool;
* `ThreadProgram.Uninterrupted.replay` — what a thread does in a row is a run of the pool.
-/

import ExActor.Machine
import Mathlib.Algebra.BigOperators.Group.List.Basic
import Mathlib.Tactic.Abel

set_option relaxedAutoImplicit false
set_option autoImplicit false

/-- A shared state and the threads that run over it. -/
structure Pool (σ τ : Type*) where
  shared : σ
  threads : List τ
deriving DecidableEq

/-- What one step of one thread does, and which threads arrive from outside. -/
structure ThreadProgram (σ τ κ ι : Type*) where
  /-- One step of a thread, with what its environment answers. -/
  run : σ → τ → κ → Option (σ × List τ)
  /-- A thread that arrives from outside. -/
  arrive : Pool σ τ → ι → Option (σ × τ)

/-- The actions of a pool: an arrival, or a step of the thread at a position. -/
inductive PoolAction (κ ι : Type*)
  | arrive (i : ι)
  | run (n : ℕ) (k : κ)

/-- The action of a thread. -/
def PoolAction.IsRun {κ ι : Type*} : PoolAction κ ι → Prop
  | .arrive _ => False
  | .run _ _ => True

namespace Pool

variable {σ τ M : Type*} [AddCommMonoid M]

/-- The sum of the weight `w` over the threads. -/
def total (w : τ → M) (p : Pool σ τ) : M := (p.threads.map w).sum

@[simp] theorem total_nil (w : τ → M) (s : σ) : total w ⟨s, []⟩ = 0 := rfl

/-- The sum of a weight over the threads beside the one that takes a step. -/
def others (w : τ → M) (l r : List τ) : M := (l.map w).sum + (r.map w).sum

/-- Before a step: the thread that takes it, and the others. -/
theorem total_before (w : τ → M) (s : σ) (l r : List τ) (t : τ) :
    total w ⟨s, l ++ t :: r⟩ = w t + others w l r := by
  simp only [total, others, List.map_append, List.map_cons, List.sum_append, List.sum_cons]
  abel

theorem total_of_threads {w : τ → M} {p : Pool σ τ} {l r : List τ} {t : τ}
    (h : p.threads = l ++ t :: r) : p.total w = w t + others w l r := by
  rw [← total_before w p.shared, ← h]

/-- After a step: the threads that replace it, and the others. -/
theorem total_after (w : τ → M) (s : σ) (l r new : List τ) :
    total w ⟨s, l ++ new ++ r⟩ = (new.map w).sum + others w l r := by
  simp only [total, others, List.map_append, List.sum_append]
  abel

/-- A step whose threads weigh as much as the one they replace. -/
theorem total_replace (w : τ → M) (s s' : σ) (t : τ) {l r new : List τ}
    (h : (new.map w).sum = w t) : total w ⟨s', l ++ new ++ r⟩ = total w ⟨s, l ++ t :: r⟩ := by
  rw [total_after, total_before, h]

/-- An arrival adds its weight. -/
theorem total_arrive (w : τ → M) (p : Pool σ τ) (s : σ) (t : τ) :
    total w ⟨s, p.threads ++ [t]⟩ = total w p + w t := by
  simp [total]

/-! ### Weights that count -/

theorem le_total_of_mem {w : τ → ℕ} {p : Pool σ τ} {t : τ} (h : t ∈ p.threads) :
    w t ≤ p.total w := by
  obtain ⟨l, r, hp⟩ := List.append_of_mem h
  simp only [total, hp, List.map_append, List.map_cons, List.sum_append, List.sum_cons]
  omega

/-- When the threads together weigh at most one, only one of them weighs anything. -/
theorem eq_of_total_le_one {w : τ → ℕ} {p : Pool σ τ} (h : p.total w ≤ 1) {i j : ℕ} {t u : τ}
    (hi : p.threads[i]? = some t) (hj : p.threads[j]? = some u) (ht : 0 < w t) (hu : 0 < w u) :
    i = j := by
  obtain ⟨s, ts⟩ := p
  simp only [total] at h hi hj
  induction ts generalizing i j with
  | nil => simp at hi
  | cons v ts ih =>
      have hle : ∀ u ∈ ts, w u ≤ (ts.map w).sum := fun u hu =>
        le_total_of_mem (p := ⟨s, ts⟩) hu
      rw [List.map_cons, List.sum_cons] at h
      cases i with
      | zero =>
          cases j with
          | zero => rfl
          | succ j =>
              obtain rfl : v = t := by simpa using hi
              have := hle u (List.mem_of_getElem? (by simpa using hj))
              omega
      | succ i =>
          cases j with
          | zero =>
              obtain rfl : v = u := by simpa using hj
              have := hle t (List.mem_of_getElem? (by simpa using hi))
              omega
          | succ j =>
              have hij : i = j := ih (by omega) (by simpa using hi) (by simpa using hj)
              rw [hij]

theorem total_eq_zero_iff {w : τ → ℕ} {p : Pool σ τ} :
    p.total w = 0 ↔ ∀ t ∈ p.threads, w t = 0 := by
  simp [total, List.sum_eq_zero_iff_forall_eq_nat]

theorem sum_map_le {w w' : τ → ℕ} {ts : List τ} (h : ∀ t ∈ ts, w t ≤ w' t) :
    (ts.map w).sum ≤ (ts.map w').sum := by
  induction ts with
  | nil => simp
  | cons t ts ih =>
      have ht := h t List.mem_cons_self
      have hts := ih fun u hu => h u (List.mem_cons_of_mem t hu)
      simp only [List.map_cons, List.sum_cons]
      omega

theorem total_le_total {w w' : τ → ℕ} {p : Pool σ τ} (h : ∀ t ∈ p.threads, w t ≤ w' t) :
    p.total w ≤ p.total w' := sum_map_le h

theorem others_le_others {w w' : τ → ℕ} {l r : List τ} (h : ∀ t ∈ l ++ r, w t ≤ w' t) :
    others w l r ≤ others w' l r :=
  Nat.add_le_add (sum_map_le fun t ht => h t (List.mem_append_left _ ht))
    (sum_map_le fun t ht => h t (List.mem_append_right _ ht))

theorem others_add (w w' : τ → M) (l r : List τ) :
    others (fun t => w t + w' t) l r = others w l r + others w' l r := by
  simp only [others, List.sum_map_add]
  abel

theorem others_eq_zero_iff {w : τ → ℕ} {l r : List τ} :
    others w l r = 0 ↔ ∀ t ∈ l ++ r, w t = 0 := by
  rw [others, ← List.sum_append, ← List.map_append]
  exact total_eq_zero_iff (p := ⟨(), l ++ r⟩)

theorem others_eq_zero {w w' : τ → ℕ} {l r : List τ} (hw : ∀ t, w t = 0 → w' t = 0)
    (h : others w l r = 0) : others w' l r = 0 :=
  others_eq_zero_iff.2 fun t ht => hw t (others_eq_zero_iff.1 h t ht)

/-! ### Facts about every thread -/

/-- The thread that takes a step, by its position. -/
theorem getElem?_middle (l r : List τ) (t : τ) : (l ++ t :: r)[l.length]? = some t := by
  rw [List.getElem?_append_right (le_refl _), Nat.sub_self, List.getElem?_cons_zero]

/-- A fact about the threads beside the one that takes a step, and about those it leaves behind. -/
theorem forall_replace {ψ : τ → Prop} {l r new : List τ} (h : ∀ u ∈ l ++ r, ψ u)
    (hnew : ∀ u ∈ new, ψ u) : ∀ u ∈ l ++ new ++ r, ψ u := by
  intro u hu
  rcases List.mem_append.1 hu with hu | hu
  · rcases List.mem_append.1 hu with hu | hu
    · exact h u (List.mem_append_left r hu)
    · exact hnew u hu
  · exact h u (List.mem_append_right l hu)

/-- The threads beside the one that takes a step. -/
theorem mem_of_mem_others {l r : List τ} {t u : τ} (h : u ∈ l ++ r) : u ∈ l ++ t :: r := by
  rcases List.mem_append.1 h with h | h
  · exact List.mem_append_left _ h
  · exact List.mem_append_right _ (List.mem_cons_of_mem t h)

/-- A fact about every thread survives a step that keeps it for the others and establishes it for
the threads it leaves behind. -/
theorem forall_after {φ ψ : τ → Prop} {l r new : List τ} {t : τ} (h : ∀ u ∈ l ++ t :: r, φ u)
    (hframe : ∀ u, φ u → ψ u) (hnew : ∀ u ∈ new, ψ u) : ∀ u ∈ l ++ new ++ r, ψ u :=
  forall_replace (fun u hu => hframe u (h u (mem_of_mem_others hu))) hnew

theorem forall_arrive {φ ψ : τ → Prop} {ts : List τ} {t : τ} (h : ∀ u ∈ ts, φ u)
    (hframe : ∀ u, φ u → ψ u) (ht : ψ t) : ∀ u ∈ ts ++ [t], ψ u := by
  intro u hu
  rcases List.mem_append.1 hu with hu | hu
  · exact hframe u (h u hu)
  · rwa [List.mem_singleton.1 hu]

end Pool

namespace ThreadProgram

variable {σ τ κ ι : Type*} (P : ThreadProgram σ τ κ ι)

/-- The step function of the interleavings. -/
def next (p : Pool σ τ) : PoolAction κ ι → Option (Pool σ τ)
  | .arrive i => (P.arrive p i).map fun st => ⟨st.1, p.threads ++ [st.2]⟩
  | .run n k =>
      match p.threads[n]? with
      | none => none
      | some t => (P.run p.shared t k).map fun sn =>
          ⟨sn.1, p.threads.take n ++ sn.2 ++ p.threads.drop (n + 1)⟩

/-- The machine of all interleavings, from a pool without threads. -/
def machine (init : σ → Prop) : Machine (Pool σ τ) (PoolAction κ ι) where
  init p := init p.shared ∧ p.threads = []
  next := P.next

variable {P}

theorem next_arrive_iff {p p' : Pool σ τ} {i : ι} :
    P.next p (.arrive i) = some p' ↔
      ∃ s t, P.arrive p i = some (s, t) ∧ p' = ⟨s, p.threads ++ [t]⟩ := by
  simp only [next, Option.map_eq_some_iff, Prod.exists]
  constructor
  · rintro ⟨s, t, h, rfl⟩
    exact ⟨s, t, h, rfl⟩
  · rintro ⟨s, t, h, rfl⟩
    exact ⟨s, t, h, rfl⟩

/-- **A step of a thread** splits the pool at the thread and replaces it. -/
theorem next_run_iff {p p' : Pool σ τ} {n : ℕ} {k : κ} :
    P.next p (.run n k) = some p' ↔
      ∃ l t r s new, p.threads = l ++ t :: r ∧ l.length = n ∧
        P.run p.shared t k = some (s, new) ∧ p' = ⟨s, l ++ new ++ r⟩ := by
  constructor
  · intro h
    simp only [next] at h
    cases ht : p.threads[n]? with
    | none => simp [ht] at h
    | some t =>
        simp only [ht, Option.map_eq_some_iff, Prod.exists] at h
        obtain ⟨s, new, hrun, rfl⟩ := h
        obtain ⟨hn, rfl⟩ := List.getElem?_eq_some_iff.1 ht
        refine ⟨p.threads.take n, p.threads[n], p.threads.drop (n + 1), s, new, ?_, ?_, hrun, rfl⟩
        · rw [← List.drop_eq_getElem_cons hn, List.take_append_drop]
        · simp [Nat.le_of_lt hn]
  · rintro ⟨l, t, r, s, new, hp, rfl, hrun, rfl⟩
    simp [next, hp, hrun]

/-- **The invariant rule of a pool**, for executions whose steps meet a condition: an arrival and a
step of a thread preserve the invariant. -/
theorem invariantWhere {init : σ → Prop} {C : Pool σ τ → PoolAction κ ι → Prop}
    {I : Pool σ τ → Prop} (hinit : ∀ s, init s → I ⟨s, []⟩)
    (harrive : ∀ tr p i s t, (P.machine init).Exec tr p → Machine.Meets C tr → I p →
      C p (.arrive i) → P.arrive p i = some (s, t) → I ⟨s, p.threads ++ [t]⟩)
    (hrun : ∀ tr s s' l t r new k, (P.machine init).Exec tr ⟨s, l ++ t :: r⟩ →
      Machine.Meets C tr → I ⟨s, l ++ t :: r⟩ → C ⟨s, l ++ t :: r⟩ (.run l.length k) →
      P.run s t k = some (s', new) → I ⟨s', l ++ new ++ r⟩)
    {tr : List (Pool σ τ × PoolAction κ ι)} {p : Pool σ τ} (h : (P.machine init).Exec tr p)
    (hok : Machine.Meets C tr) : I p := by
  refine h.invariantWhere ?_ ?_ hok
  · rintro ⟨s, ts⟩ ⟨hs, rfl⟩
    exact hinit s hs
  · rintro tr ⟨s, ts⟩ a p' hex hmeets hI hoka hn
    cases a with
    | arrive i =>
        obtain ⟨s', t, hat, rfl⟩ := next_arrive_iff.1 hn
        exact harrive tr _ i s' t hex hmeets hI hoka hat
    | run n k =>
        obtain ⟨l, t, r, s', new, rfl, rfl, hr, rfl⟩ := next_run_iff.1 hn
        exact hrun tr s s' l t r new k hex hmeets hI hoka hr

/-! ### One thread without interruption -/

/-- A thread takes a step for each of the answers, and no other thread comes between.  It goes on as
the first of the threads that replace it, and starts the threads `new`. -/
inductive Uninterrupted (P : ThreadProgram σ τ κ ι) : σ → τ → List κ → σ → τ → List τ → Prop
  | nil (s : σ) (t : τ) : Uninterrupted P s t [] s t []
  | cons {s s₁ s' : σ} {t t₁ t' : τ} {k : κ} {ks : List κ} {started new : List τ} :
      P.run s t k = some (s₁, t₁ :: started) → Uninterrupted P s₁ t₁ ks s' t' new →
        Uninterrupted P s t (k :: ks) s' t' (new ++ started)

namespace Uninterrupted

variable {s s₁ s' : σ} {t t₁ t' : τ} {k : κ} {ks ks' : List κ} {started new : List τ}

/-- A step that starts no thread. -/
theorem head (h : P.run s t k = some (s₁, [t₁])) (hrest : P.Uninterrupted s₁ t₁ ks s' t' new) :
    P.Uninterrupted s t (k :: ks) s' t' new := by
  simpa using cons h hrest

theorem single (h : P.run s t k = some (s₁, t₁ :: started)) :
    P.Uninterrupted s t [k] s₁ t₁ started := by
  simpa using cons h (nil s₁ t₁)

theorem trans (h : P.Uninterrupted s t ks s₁ t₁ started)
    (hrest : P.Uninterrupted s₁ t₁ ks' s' t' new) :
    P.Uninterrupted s t (ks ++ ks') s' t' (new ++ started) := by
  induction h with
  | nil s t => simpa using hrest
  | cons hrun _ ih =>
      rw [List.cons_append, ← List.append_assoc]
      exact cons hrun (ih hrest)

/-- **What a thread does in a row is a run of the pool**, wherever the thread is in it. -/
theorem replay (h : P.Uninterrupted s t ks s' t' new) (init : σ → Prop) (l r : List τ) :
    (P.machine init).replay ⟨s, l ++ t :: r⟩ (ks.map (.run l.length))
      = some ⟨s', l ++ t' :: (new ++ r)⟩ := by
  induction h generalizing r with
  | nil s t => rfl
  | @cons s s₁ s' t t₁ t' k ks started new hrun _ ih =>
      have hnext : (P.machine init).next ⟨s, l ++ t :: r⟩ (.run l.length k)
          = some ⟨s₁, l ++ (t₁ :: started) ++ r⟩ :=
        next_run_iff.2 ⟨l, t, r, s₁, _, rfl, rfl, hrun, rfl⟩
      rw [List.append_assoc, List.cons_append] at hnext
      rw [List.map_cons, List.append_assoc]
      exact Machine.replay_cons_some hnext (ih (started ++ r))

end Uninterrupted

end ThreadProgram
