/-
**Machines, executions and invariants.**

A machine has a predicate of initial states and a partial step function: `next s a` is the state
after the action `a`, and `none` when `a` is not enabled in `s`.  All nondeterminism sits in the
choice of the actions, so a machine can be run on a concrete list of actions.

An execution records every state it leaves together with the action taken there, so that a
condition on the *steps* of an execution is a condition on the members of its trace.

Main definitions:

* `Machine`, `Machine.Exec` — machines and their executions;
* `Machine.Meets` — every step of a trace meets a condition on (state, action);
* `Machine.replay`, `Machine.replayTrace` — running a list of actions;
* `Machine.Halts` — actions of a kind come to an end.

Main results:

* `Machine.Exec.invariantWhere` — the invariant rule;
* `Machine.Exec.split` — an execution can be cut at each of its steps;
* `Machine.exec_of_replay` — what `replay` computes is an execution;
* `Machine.replay_invariantWhere` — the invariant rule for a list of actions;
* `Machine.length_le_potential`, `Machine.halts_of_potential` — steps that lower a potential come to
  an end.
-/

import Mathlib.Data.List.Basic
import Mathlib.Data.Set.Basic

set_option relaxedAutoImplicit false
set_option autoImplicit false

/-- A machine with partial deterministic steps. -/
structure Machine (σ α : Type*) where
  init : σ → Prop
  next : σ → α → Option σ

namespace Machine

variable {σ α : Type*} {M : Machine σ α}

/-- `M.Exec tr s`: from an initial state, the steps of `tr` lead to `s`.  The trace lists the
states left and the actions taken there, oldest first. -/
inductive Exec (M : Machine σ α) : List (σ × α) → σ → Prop
  | init {s : σ} : M.init s → Exec M [] s
  | step {tr : List (σ × α)} {s s' : σ} {a : α} :
      Exec M tr s → M.next s a = some s' → Exec M (tr ++ [(s, a)]) s'

/-- Every step of the trace meets `C`. -/
def Meets (C : σ → α → Prop) (tr : List (σ × α)) : Prop := ∀ p ∈ tr, C p.1 p.2

/-- A state some execution reaches. -/
def Reachable (M : Machine σ α) (s : σ) : Prop := ∃ tr, M.Exec tr s

/-! ### Traces that meet a condition -/

@[simp] theorem meets_nil (C : σ → α → Prop) : Meets C [] := by simp [Meets]

@[simp] theorem meets_append (C : σ → α → Prop) (tr tr' : List (σ × α)) :
    Meets C (tr ++ tr') ↔ Meets C tr ∧ Meets C tr' := by
  simp only [Meets, List.mem_append]
  constructor
  · intro h
    exact ⟨fun p hp => h p (Or.inl hp), fun p hp => h p (Or.inr hp)⟩
  · rintro ⟨h₁, h₂⟩ p (hp | hp)
    · exact h₁ p hp
    · exact h₂ p hp

@[simp] theorem meets_singleton (C : σ → α → Prop) (s : σ) (a : α) :
    Meets C [(s, a)] ↔ C s a := by simp [Meets]

theorem meets_and (C C' : σ → α → Prop) (tr : List (σ × α)) :
    Meets (fun s a => C s a ∧ C' s a) tr ↔ Meets C tr ∧ Meets C' tr := by
  simp only [Meets, forall_and]

theorem Meets.mono {C C' : σ → α → Prop} {tr : List (σ × α)} (h : Meets C tr)
    (himp : ∀ s a, C s a → C' s a) : Meets C' tr :=
  fun p hp => himp p.1 p.2 (h p hp)

/-! ### Invariants -/

/-- **The invariant rule, for executions whose steps meet a condition.**  The step may use whatever
is already known of the executions that lead to the state it leaves. -/
theorem Exec.invariantWhere {C : σ → α → Prop} {I : σ → Prop} (hinit : ∀ s, M.init s → I s)
    (hstep : ∀ tr s a s', M.Exec tr s → Meets C tr → I s → C s a → M.next s a = some s' → I s')
    {tr : List (σ × α)} {s : σ} (h : M.Exec tr s) (hok : Meets C tr) : I s := by
  induction h with
  | init h0 => exact hinit _ h0
  | step hex hn ih =>
      rw [meets_append, meets_singleton] at hok
      exact hstep _ _ _ _ hex hok.1 (ih hok.1) hok.2 hn

theorem meets_true (tr : List (σ × α)) : Meets (fun _ _ => True) tr := fun _ _ => trivial

/-- An execution can be cut at each of its steps. -/
theorem Exec.split {tr tr' : List (σ × α)} {s t : σ} {a : α}
    (h : M.Exec (tr ++ (t, a) :: tr') s) : M.Exec tr t ∧ ∃ t', M.next t a = some t' ∧
      (tr' = [] → s = t') := by
  generalize hw : tr ++ (t, a) :: tr' = w at h
  induction h generalizing tr' with
  | init _ => simp at hw
  | @step tr₀ s₀ s₁ b hex hn ih =>
      rcases List.eq_nil_or_concat tr' with rfl | ⟨tr₁, p, rfl⟩
      · obtain ⟨rfl, hp⟩ := List.append_inj' hw rfl
        simp only [List.cons.injEq, Prod.mk.injEq, and_true] at hp
        obtain ⟨rfl, rfl⟩ := hp
        exact ⟨hex, s₁, hn, fun _ => rfl⟩
      · rw [List.concat_eq_append, ← List.cons_append, ← List.append_assoc] at hw
        obtain ⟨hw, -⟩ := List.append_inj' hw rfl
        obtain ⟨htr, t', ht', -⟩ := ih hw
        exact ⟨htr, t', ht', fun h => absurd h (by simp)⟩

/-- The states of an execution: those it leaves, and the last one. -/
def states (tr : List (σ × α)) (s : σ) : List σ := tr.map Prod.fst ++ [s]

/-- Every state of an execution is reached by a part of it. -/
theorem Exec.of_mem_states {tr : List (σ × α)} {s t : σ} (h : M.Exec tr s)
    (ht : t ∈ states tr s) : ∃ tr' tr'', tr = tr' ++ tr'' ∧ M.Exec tr' t := by
  rcases List.mem_append.1 ht with ht | ht
  · obtain ⟨⟨t, a⟩, hmem, rfl⟩ := List.mem_map.1 ht
    obtain ⟨tr₁, tr₂, rfl⟩ := List.append_of_mem hmem
    exact ⟨tr₁, _, rfl, h.split.1⟩
  · obtain rfl := List.mem_singleton.1 ht
    exact ⟨tr, [], (List.append_nil tr).symm, h⟩

/-- A step of an execution leads to one of its states. -/
theorem Exec.next_mem_states {tr : List (σ × α)} {s t : σ} {a : α} (h : M.Exec tr s)
    (hmem : (t, a) ∈ tr) : ∃ t', M.next t a = some t' ∧ t' ∈ states tr s := by
  induction h with
  | init _ => simp at hmem
  | @step tr s s' b _ hn ih =>
      rcases List.mem_append.1 hmem with hmem | hmem
      · obtain ⟨t', ht', hstates⟩ := ih hmem
        refine ⟨t', ht', List.mem_append_left _ ?_⟩
        simpa [states] using hstates
      · obtain ⟨rfl, rfl⟩ := Prod.mk.inj (List.mem_singleton.1 hmem)
        exact ⟨s', hn, List.mem_append_right _ (List.mem_singleton_self s')⟩

/-! ### Running a list of actions -/

/-- The state after a list of actions. -/
def replay (M : Machine σ α) : σ → List α → Option σ
  | s, [] => some s
  | s, a :: as => (M.next s a).bind fun s' => replay M s' as

/-- The steps taken by a list of actions. -/
def replayTrace (M : Machine σ α) : σ → List α → List (σ × α)
  | _, [] => []
  | s, a :: as => (s, a) :: ((M.next s a).map fun s' => replayTrace M s' as).getD []

theorem replay_cons_some {s s' s'' : σ} {a : α} {as : List α} (h : M.next s a = some s')
    (h' : M.replay s' as = some s'') : M.replay s (a :: as) = some s'' := by
  simp [replay, h, h']

theorem replay_append (M : Machine σ α) (s : σ) (as bs : List α) :
    M.replay s (as ++ bs) = (M.replay s as).bind fun s' => M.replay s' bs := by
  induction as generalizing s with
  | nil => rfl
  | cons a as ih =>
      simp only [List.cons_append, replay, Option.bind_assoc]
      exact Option.bind_congr fun s' _ => ih s'

/-- Continuing an execution by a list of actions. -/
theorem Exec.replay {tr : List (σ × α)} {s s' : σ} (h : M.Exec tr s) {as : List α}
    (has : M.replay s as = some s') : M.Exec (tr ++ M.replayTrace s as) s' := by
  induction as generalizing tr s with
  | nil =>
      simp only [Machine.replay, Option.some.injEq] at has
      subst has
      simpa [replayTrace] using h
  | cons a as ih =>
      simp only [Machine.replay] at has
      cases hn : M.next s a with
      | none => simp [hn] at has
      | some t =>
          rw [hn, Option.bind_some] at has
          have := ih (h.step hn) has
          simpa [replayTrace, hn] using this

theorem Reachable.step {s s' : σ} {a : α} (h : M.Reachable s) (hn : M.next s a = some s') :
    M.Reachable s' := by
  obtain ⟨tr, hex⟩ := h
  exact ⟨_, hex.step hn⟩

theorem Reachable.replay {s s' : σ} (h : M.Reachable s) {as : List α}
    (has : M.replay s as = some s') : M.Reachable s' := by
  obtain ⟨tr, hex⟩ := h
  exact ⟨_, hex.replay has⟩

/-- **What `replay` computes is an execution.** -/
theorem exec_of_replay {s s' : σ} (h0 : M.init s) {as : List α}
    (h : M.replay s as = some s') : M.Exec (M.replayTrace s as) s' := by
  simpa using (Exec.init h0).replay h

/-- A closed run, read off at one place: the state it ends in has the value computed for it. -/
theorem exists_exec_of_replay {β : Type*} {s : σ} (h0 : M.init s) (L : List α) (f : σ → β) (v : β)
    (h : (M.replay s L).map f = some v) : ∃ p, M.Exec (M.replayTrace s L) p ∧ f p = v := by
  obtain ⟨p, hp, hf⟩ := Option.map_eq_some_iff.1 h
  exact ⟨p, exec_of_replay h0 hp, hf⟩

instance {C : σ → α → Prop} [∀ s a, Decidable (C s a)] (tr : List (σ × α)) :
    Decidable (Meets C tr) :=
  inferInstanceAs (Decidable (∀ p ∈ tr, C p.1 p.2))

/-- **The invariant rule, for a list of actions.** -/
theorem replay_invariantWhere {C : σ → α → Prop} {I : σ → Prop}
    (hstep : ∀ s a s', I s → C s a → M.next s a = some s' → I s') {s s' : σ} {as : List α}
    (hI : I s) (h : M.replay s as = some s') (hC : Meets C (M.replayTrace s as)) : I s' := by
  induction as generalizing s with
  | nil =>
      obtain rfl := Option.some.inj h
      exact hI
  | cons a as ih =>
      obtain ⟨t, hn, h⟩ := Option.bind_eq_some_iff.1 h
      simp only [replayTrace, hn, Option.map_some, Option.getD_some] at hC
      have hhead : C s a := hC (s, a) List.mem_cons_self
      exact ih (hstep s a t hI hhead hn) h fun q hq => hC q (List.mem_cons_of_mem _ hq)

/-! ### Potentials -/

/-- **The rule of potentials.**  When every action of a kind that leaves a state of the invariant
keeps the invariant and lowers the potential, no list of such actions is longer than the potential
of the state it begins in. -/
theorem length_le_potential {C : α → Prop} {I : σ → Prop} (w : σ → ℕ)
    (hstep : ∀ s a s', I s → C a → M.next s a = some s' → I s' ∧ w s' < w s)
    {s s' : σ} {as : List α} (hI : I s) (hC : ∀ a ∈ as, C a) (h : M.replay s as = some s') :
    I s' ∧ as.length + w s' ≤ w s := by
  induction as generalizing s with
  | nil =>
      obtain rfl : s = s' := by simpa [replay] using h
      exact ⟨hI, by simp⟩
  | cons a as ih =>
      obtain ⟨t, hn, ht⟩ := Option.bind_eq_some_iff.1 h
      obtain ⟨hIt, hlt⟩ := hstep s a t hI (hC a List.mem_cons_self) hn
      obtain ⟨hI', hle⟩ := ih hIt (fun b hb => hC b (List.mem_cons_of_mem a hb)) ht
      refine ⟨hI', ?_⟩
      rw [List.length_cons]
      omega

/-- The actions of a kind come to an end: in whatever order they are taken, there is a bound on
their number. -/
def Halts (M : Machine σ α) (C : α → Prop) (s : σ) : Prop :=
  ∃ bound, ∀ as s', (∀ a ∈ as, C a) → M.replay s as = some s' → as.length ≤ bound

/-- Actions that lower a potential come to an end. -/
theorem halts_of_potential {C : α → Prop} {I : σ → Prop} (w : σ → ℕ)
    (hstep : ∀ s a s', I s → C a → M.next s a = some s' → I s' ∧ w s' < w s) {s : σ} (hI : I s) :
    M.Halts C s := by
  refine ⟨w s, fun as s' hC h => ?_⟩
  have hle := (length_le_potential w hstep hI hC h).2
  omega

end Machine
