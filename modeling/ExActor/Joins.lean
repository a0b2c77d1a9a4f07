/-
**Operations that join.**

A state is read as an element of a join-semilattice, and an operation joins a value to it.  What a
sequence of operations leaves is then the least upper bound of the state and the values: it depends
neither on their order nor on how often each of them occurs.

An operation may join only in states that meet an invariant, and only if it is allowed.

Main definitions:

* `Joins` — the operations that are allowed keep the invariant and join their values.

Main results:

* `Joins.isLUB_foldl` — **what is left is the least upper bound**;
* `Joins.foldl_congr` — **only the set of the operations matters**.
-/

import Mathlib.Order.Bounds.Basic
import Mathlib.Order.Lattice

set_option relaxedAutoImplicit false
set_option autoImplicit false

variable {σ ε α : Type*} [SemilatticeSup α]

/-- In the states that meet `I`, the operations that meet `C` keep `I` and join their values. -/
structure Joins (step : σ → ε → σ) (read : σ → α) (value : ε → α) (I : σ → Prop) (C : ε → Prop) :
    Prop where
  keeps : ∀ s e, I s → C e → I (step s e)
  joins : ∀ s e, I s → C e → read (step s e) = read s ⊔ value e

namespace Joins

variable {step : σ → ε → σ} {read : σ → α} {value : ε → α} {I : σ → Prop} {C : ε → Prop}

theorem invariant_foldl (h : Joins step read value I C) {s : σ} (hs : I s) {l : List ε}
    (hl : ∀ e ∈ l, C e) : I (l.foldl step s) := by
  induction l generalizing s with
  | nil => exact hs
  | cons e l ih =>
      have hstep := h.keeps s e hs (hl e List.mem_cons_self)
      exact ih hstep fun e' he' => hl e' (List.mem_cons_of_mem e he')

/-- **What a sequence of operations leaves** is the least upper bound of the state and the
values. -/
theorem isLUB_foldl (h : Joins step read value I C) {s : σ} (hs : I s) {l : List ε}
    (hl : ∀ e ∈ l, C e) :
    IsLUB (insert (read s) {a | ∃ e ∈ l, value e = a}) (read (l.foldl step s)) := by
  induction l generalizing s with
  | nil => simp
  | cons e l ih =>
      have he := hl e List.mem_cons_self
      have hrest : ∀ e' ∈ l, C e' := fun e' he' => hl e' (List.mem_cons_of_mem e he')
      obtain ⟨hupper, hleast⟩ := ih (h.keeps s e hs he) hrest
      rw [h.joins s e hs he] at hupper hleast
      have hsup := hupper (Set.mem_insert _ _)
      constructor
      · rintro a (rfl | ⟨e', he', rfl⟩)
        · exact le_sup_left.trans hsup
        · rcases List.mem_cons.1 he' with rfl | he'
          · exact le_sup_right.trans hsup
          · exact hupper (Set.mem_insert_of_mem _ ⟨e', he', rfl⟩)
      · intro a ha
        refine hleast ?_
        rintro a' (rfl | ⟨e', he', rfl⟩)
        · exact sup_le (ha (Set.mem_insert _ _))
            (ha (Set.mem_insert_of_mem _ ⟨e, List.mem_cons_self, rfl⟩))
        · exact ha (Set.mem_insert_of_mem _ ⟨e', List.mem_cons_of_mem e he', rfl⟩)

/-- **Only the set of the operations matters**, not their order or how often they occur. -/
theorem foldl_congr (h : Joins step read value I C) {s : σ} (hs : I s) {l l' : List ε}
    (hl : ∀ e ∈ l, C e) (hsame : ∀ e, e ∈ l' ↔ e ∈ l) :
    read (l'.foldl step s) = read (l.foldl step s) := by
  have hlub := h.isLUB_foldl hs hl
  have hlub' := h.isLUB_foldl hs fun e he => hl e ((hsame e).1 he)
  have hset : {a | ∃ e ∈ l', value e = a} = {a | ∃ e ∈ l, value e = a} := by
    ext a
    simp only [Set.mem_ofPred_eq, hsame]
  rw [hset] at hlub'
  exact hlub'.unique hlub

end Joins
