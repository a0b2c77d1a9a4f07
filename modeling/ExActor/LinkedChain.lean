/-
**Singly linked lists in a memory.**

A memory of nodes gives each node at most one next node.  A pointer leads through the memory along
a list of nodes when it is the first of them, each has the next as its next node, and the last has
none.  A list is not disturbed by writes to nodes that are not on it, so that lists without common
nodes can be reasoned about apart.

Main definitions:

* `Linked` — a pointer leads along a list of nodes;
* `Linked.Chunks` — a pointer leads along a list of lists of the same length, linked by their heads.

Main results:

* `Linked.congr`, `Linked.update` — writes elsewhere;
* `Linked.push` — a node in front;
* `Linked.range` — consecutive nodes, linked in a row;
* `Linked.Chunks.congr`, `Linked.Chunks.push` — the same for lists of lists.
-/

import Mathlib.Data.List.Basic
import Mathlib.Logic.Function.Basic

set_option relaxedAutoImplicit false
set_option autoImplicit false

/-- The pointer leads along the list of nodes, to its end. -/
def Linked {ν : Type*} (next : ν → Option ν) : Option ν → List ν → Prop
  | a, [] => a = none
  | a, n :: ns => a = some n ∧ Linked next (next n) ns

namespace Linked

variable {ν : Type*} {next next' : ν → Option ν} {a : Option ν} {n : ν} {ns : List ν}

@[simp] theorem nil_iff : Linked next a [] ↔ a = none := Iff.rfl

@[simp] theorem cons_iff : Linked next a (n :: ns) ↔ a = some n ∧ Linked next (next n) ns := Iff.rfl

/-- A pointer that is not null leads to a first node. -/
theorem exists_cons (h : Linked next (some n) ns) : ∃ rest, ns = n :: rest := by
  cases ns with
  | nil => simp at h
  | cons m rest =>
      obtain ⟨hm, -⟩ := h
      exact ⟨rest, by rw [Option.some.inj hm]⟩

/-- What is written elsewhere does not matter. -/
theorem congr (h : Linked next a ns) (hnext : ∀ n ∈ ns, next' n = next n) : Linked next' a ns := by
  induction ns generalizing a with
  | nil => exact h
  | cons n ns ih =>
      obtain ⟨rfl, hrest⟩ := h
      refine ⟨rfl, ?_⟩
      rw [hnext n List.mem_cons_self]
      exact ih hrest fun m hm => hnext m (List.mem_cons_of_mem n hm)

/-- A node that is not on the list is written. -/
theorem update [DecidableEq ν] (h : Linked next a ns) (hn : n ∉ ns) (b : Option ν) :
    Linked (Function.update next n b) a ns :=
  h.congr fun m hm => Function.update_of_ne (by rintro rfl; exact hn hm) _ _

/-- A node is put in front. -/
theorem push [DecidableEq ν] (h : Linked next a ns) (hn : n ∉ ns) :
    Linked (Function.update next n a) (some n) (n :: ns) := by
  refine ⟨rfl, ?_⟩
  rw [Function.update_self]
  exact h.update hn a

/-- Consecutive nodes of which each has its successor as the next one, except for the last. -/
theorem range {next : ℕ → Option ℕ} {base k : ℕ}
    (hstep : ∀ n, base ≤ n → n + 1 < base + (k + 1) → next n = some (n + 1))
    (hlast : next (base + k) = none) :
    Linked next (some base) (List.range' base (k + 1)) := by
  induction k generalizing base with
  | zero => simpa using hlast
  | succ k ih =>
      rw [List.range'_succ, cons_iff]
      refine ⟨rfl, ?_⟩
      rw [hstep base (Nat.le_refl _) (by omega)]
      refine ih ?_ ?_
      · exact fun n hn hn' => hstep n (by omega) (by omega)
      · rwa [show base + 1 + k = base + (k + 1) by omega]

/-! ### Lists of lists -/

/-- The pointer leads along the heads of lists of `size` nodes, linked by `nextList`. -/
def Chunks (next nextList : ν → Option ν) (size : ℕ) : Option ν → List (List ν) → Prop
  | a, [] => a = none
  | a, c :: cs => c.length = size ∧
      ∃ n, a = some n ∧ Linked next (some n) c ∧ Chunks next nextList size (nextList n) cs

namespace Chunks

variable {nextList nextList' : ν → Option ν} {size : ℕ} {cs : List (List ν)}

/-- The lists have a node each, so a pointer that is not null leads to a node of the first. -/
theorem exists_cons (h : Chunks next nextList size (some n) cs) :
    ∃ c rest, cs = c :: rest ∧ c.length = size ∧ n ∈ c ∧ Linked next (some n) c ∧
      Chunks next nextList size (nextList n) rest := by
  cases cs with
  | nil => exact absurd h (by simp [Chunks])
  | cons c rest =>
      obtain ⟨hlen, m, hm, hc, hrest⟩ := h
      obtain rfl := Option.some.inj hm
      obtain ⟨c', rfl⟩ := hc.exists_cons
      exact ⟨_, rest, rfl, hlen, List.mem_cons_self, hc, hrest⟩

/-- What is written elsewhere does not matter. -/
theorem congr (h : Chunks next nextList size a cs) (hnext : ∀ n ∈ cs.flatten, next' n = next n)
    (hlist : ∀ n ∈ cs.flatten, nextList' n = nextList n) :
    Chunks next' nextList' size a cs := by
  induction cs generalizing a with
  | nil => exact h
  | cons c cs ih =>
      obtain ⟨hlen, n, rfl, hc, hrest⟩ := h
      obtain ⟨c', rfl⟩ := hc.exists_cons
      rw [List.flatten_cons] at hnext hlist
      refine ⟨hlen, n, rfl, hc.congr fun m hm => hnext m (List.mem_append_left _ hm), ?_⟩
      rw [hlist n (List.mem_append_left _ List.mem_cons_self)]
      exact ih hrest (fun m hm => hnext m (List.mem_append_right _ hm))
        fun m hm => hlist m (List.mem_append_right _ hm)

/-- A list whose head has been linked to the first one is put in front. -/
theorem push {c : List ν} (h : Chunks next nextList size a cs) (hc : Linked next (some n) c)
    (hlen : c.length = size) (hlink : nextList n = a) :
    Chunks next nextList size (some n) (c :: cs) := by
  subst hlink
  exact ⟨hlen, n, rfl, hc, h⟩

end Chunks

end Linked
