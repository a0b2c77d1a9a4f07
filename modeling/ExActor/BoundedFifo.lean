/-
**A bounded queue whose elements enter in two steps.**

In a concurrent bounded queue a producer first claims the next position, then publishes the element
it has written there; the consumer releases the element at the head.  What such a queue has to do is
said here by the histories it may produce.  A position may be claimed only while fewer than the
capacity are claimed and not released; the consumer may release only the element at the head, and
only after it has been published; it may miss, that is report an empty queue, only while the element
at the head is not published.  A producer may be refused only when the queue is full, as long as
the positions stay below a limit up to which the implementation tells them apart.  An implementation
that reports a fault has no history at all.

Main definitions:

* `BoundedFifo`, `BoundedFifo.Event` — the state, and what can happen;
* `BoundedFifo.Step`, `BoundedFifo.History` — what may happen;
* `BoundedFifo.claims`, `BoundedFifo.publications`, `BoundedFifo.releases` — read off a history.

Main results:

* `BoundedFifo.History.wellFormed` — never more than the capacity in the queue;
* `BoundedFifo.History.released_prefix` — **first in, first out**;
* `BoundedFifo.History.refuse_full`, `BoundedFifo.History.miss_unpublished` — what a refusal and a
  miss say.
-/

import Mathlib.Data.List.Basic

set_option relaxedAutoImplicit false
set_option autoImplicit false

/-- A bounded queue: the elements by the positions they claimed, the positions that are published,
and how many elements have been released. -/
structure BoundedFifo (α : Type*) where
  claimed : List α
  published : List ℕ
  released : ℕ

namespace BoundedFifo

variable {α : Type*} {C limit : ℕ}

/-- What can happen to a bounded queue. -/
inductive Event (α : Type*)
  /-- A producer claims the next position for its element. -/
  | claim (v : α)
  /-- The element at a position can be taken. -/
  | publish (n : ℕ)
  /-- The consumer takes the element at the head and frees its place. -/
  | release (v : α)
  /-- A producer is told that the queue is full. -/
  | refuse
  /-- The consumer is told that the queue is empty. -/
  | miss
  /-- The implementation finds itself in a state it does not expect. -/
  | fault (what : String)
deriving DecidableEq

/-- The queue nothing has happened to. -/
def empty : BoundedFifo α := ⟨[], [], 0⟩

/-- What may happen to a bounded queue of capacity `C`. -/
inductive Step (C limit : ℕ) (s : BoundedFifo α) : Event α → BoundedFifo α → Prop
  | claim (v : α) : s.claimed.length < s.released + C →
      Step C limit s (.claim v) { s with claimed := s.claimed ++ [v] }
  | publish (n : ℕ) : n < s.claimed.length → n ∉ s.published →
      Step C limit s (.publish n) { s with published := n :: s.published }
  | release (v : α) : s.released ∈ s.published → s.claimed[s.released]? = some v →
      Step C limit s (.release v) { s with released := s.released + 1 }
  | refuse : (s.released + C ≤ limit → s.claimed.length = s.released + C) →
      Step C limit s .refuse s
  | miss : s.released ∉ s.published → Step C limit s .miss s

/-- The histories of a bounded queue of capacity `C`, and the states they lead to. -/
inductive History (C limit : ℕ) : List (Event α) → BoundedFifo α → Prop
  | nil : History C limit [] empty
  | snoc {log : List (Event α)} {s s' : BoundedFifo α} {e : Event α} :
      History C limit log s → Step C limit s e s' → History C limit (log ++ [e]) s'

/-! ### Reading a history -/

/-- The element the event claims a position for. -/
def Event.claimed : Event α → Option α
  | .claim v => some v
  | _ => none

/-- The position the event publishes. -/
def Event.published : Event α → Option ℕ
  | .publish n => some n
  | _ => none

/-- The element the event releases. -/
def Event.released : Event α → Option α
  | .release v => some v
  | _ => none

/-- The elements in the order in which they claimed their positions. -/
def claims (log : List (Event α)) : List α := log.filterMap Event.claimed

/-- The positions in the order in which they were published. -/
def publications (log : List (Event α)) : List ℕ := log.filterMap Event.published

/-- The elements in the order in which they were released. -/
def releases (log : List (Event α)) : List α := log.filterMap Event.released

theorem claims_snoc (log : List (Event α)) (e : Event α) :
    claims (log ++ [e]) = claims log ++ e.claimed.toList := by
  cases h : e.claimed <;> simp [claims, h]

theorem publications_snoc (log : List (Event α)) (e : Event α) :
    publications (log ++ [e]) = publications log ++ e.published.toList := by
  cases h : e.published <;> simp [publications, h]

theorem releases_snoc (log : List (Event α)) (e : Event α) :
    releases (log ++ [e]) = releases log ++ e.released.toList := by
  cases h : e.released <;> simp [releases, h]

/-- The state holds what its history claims. -/
theorem History.claimed_eq {log : List (Event α)} {s : BoundedFifo α}
    (h : History C limit log s) : s.claimed = claims log := by
  induction h with
  | nil => rfl
  | snoc _ hstep ih =>
      rw [claims_snoc, ← ih]
      cases hstep <;> simp [Event.claimed]

/-- The state holds what its history publishes. -/
theorem History.mem_published_iff {log : List (Event α)} {s : BoundedFifo α}
    (h : History C limit log s) (n : ℕ) : n ∈ s.published ↔ n ∈ publications log := by
  induction h with
  | nil => simp [empty, publications]
  | snoc _ hstep ih =>
      rw [publications_snoc, List.mem_append, ← ih]
      cases hstep <;> simp [Event.published, or_comm]

/-- What has been released is the beginning of what has been claimed. -/
theorem History.released_eq {log : List (Event α)} {s : BoundedFifo α}
    (h : History C limit log s) :
    releases log = s.claimed.take s.released ∧ s.released ≤ s.claimed.length := by
  induction h with
  | nil => exact ⟨rfl, Nat.le_refl _⟩
  | snoc _ hstep ih =>
      obtain ⟨ih, hle⟩ := ih
      rw [releases_snoc, ih]
      cases hstep with
      | claim v _ =>
          refine ⟨?_, ?_⟩
          · simp [Event.released, List.take_append_of_le_length hle]
          · simp only [List.length_append, List.length_singleton]
            omega
      | release v _ hv =>
          obtain ⟨hlt, rfl⟩ := List.getElem?_eq_some_iff.1 hv
          exact ⟨by simp [Event.released], hlt⟩
      | _ => exact ⟨by simp [Event.released], hle⟩

/-! ### What histories keep -/

/-- Never more than the capacity is in the queue, and what is released was published, and what is
published was claimed. -/
structure WellFormed (C : ℕ) (s : BoundedFifo α) : Prop where
  released_le : s.released ≤ s.claimed.length
  claimed_le : s.claimed.length ≤ s.released + C
  published_of_lt : ∀ n < s.released, n ∈ s.published
  lt_of_published : ∀ n ∈ s.published, n < s.claimed.length

/-- What may happen keeps a queue well formed. -/
theorem WellFormed.step {s s' : BoundedFifo α} {e : Event α} (hs : WellFormed C s)
    (h : Step C limit s e s') : WellFormed C s' := by
  obtain ⟨hle, hcap, hpub, hlt⟩ := hs
  cases h with
  | claim v hroom =>
      refine ⟨?_, ?_, hpub, ?_⟩
      · simp only [List.length_append, List.length_singleton]
        omega
      · simp only [List.length_append, List.length_singleton]
        omega
      · intro n hn
        simp only [List.length_append, List.length_singleton]
        exact Nat.lt_succ_of_lt (hlt n hn)
  | publish n hn hnew =>
      refine ⟨hle, hcap, ?_, ?_⟩
      · intro m hm
        exact List.mem_cons_of_mem n (hpub m hm)
      · intro m hm
        rcases List.mem_cons.1 hm with rfl | hm
        · exact hn
        · exact hlt m hm
  | release v hhead hv =>
      have hlast := hlt _ hhead
      refine ⟨hlast, by simp only; omega, ?_, hlt⟩
      intro n hn
      rcases Nat.lt_succ_iff_lt_or_eq.1 hn with hn | rfl
      · exact hpub n hn
      · exact hhead
  | refuse | miss => exact ⟨hle, hcap, hpub, hlt⟩

/-- **Never more than the capacity is in the queue**, after any history. -/
theorem History.wellFormed {log : List (Event α)} {s : BoundedFifo α}
    (h : History C limit log s) : WellFormed C s := by
  induction h with
  | nil => exact ⟨by simp [empty], by simp [empty], by simp [empty], by simp [empty]⟩
  | snoc _ hstep ih => exact ih.step hstep

/-- **First in, first out.**  The elements are released in the order in which they claimed their
positions, none is left out and none is released twice. -/
theorem History.released_prefix {log : List (Event α)} {s : BoundedFifo α}
    (h : History C limit log s) : releases log <+: claims log := by
  rw [h.released_eq.1, ← h.claimed_eq]
  exact List.take_prefix _ _

theorem History.length_released {log : List (Event α)} {s : BoundedFifo α}
    (h : History C limit log s) : (releases log).length = s.released := by
  rw [h.released_eq.1, List.length_take, Nat.min_eq_left h.released_eq.2]

/-- Every event of a history happens to the state its beginning leads to. -/
theorem History.split {l r : List (Event α)} {e : Event α} {s : BoundedFifo α}
    (h : History C limit (l ++ e :: r) s) : ∃ t t', History C limit l t ∧ Step C limit t e t' := by
  generalize hw : l ++ e :: r = w at h
  induction h generalizing r with
  | nil => simp at hw
  | @snoc log t t' e' hlog hstep ih =>
      rcases List.eq_nil_or_concat r with rfl | ⟨r', e'', rfl⟩
      · obtain ⟨rfl, he⟩ := List.append_inj' hw rfl
        obtain rfl := List.singleton_inj.1 he
        exact ⟨t, t', hlog, hstep⟩
      · rw [List.concat_eq_append, ← List.cons_append, ← List.append_assoc] at hw
        obtain ⟨hw, -⟩ := List.append_inj' hw rfl
        exact ih hw

/-- A producer is refused only by a full queue, below the limit. -/
theorem History.refuse_full {l r : List (Event α)} {s : BoundedFifo α}
    (h : History C limit (l ++ .refuse :: r) s) (hlimit : (releases l).length + C ≤ limit) :
    (claims l).length = (releases l).length + C := by
  obtain ⟨t, t', hl, hstep⟩ := h.split
  rw [hl.length_released] at hlimit ⊢
  rw [← hl.claimed_eq]
  cases hstep with
  | refuse hfull => exact hfull hlimit

/-- The consumer misses only while the element at the head is not published. -/
theorem History.miss_unpublished {l r : List (Event α)} {s : BoundedFifo α}
    (h : History C limit (l ++ .miss :: r) s) : (releases l).length ∉ publications l := by
  obtain ⟨t, t', hl, hstep⟩ := h.split
  rw [hl.length_released, ← hl.mem_published_iff]
  cases hstep with
  | miss hhead => exact hhead

/-- No history has a fault. -/
theorem History.fault_notMem {log : List (Event α)} {s : BoundedFifo α}
    (h : History C limit log s) (what : String) : .fault what ∉ log := by
  intro hmem
  obtain ⟨l, r, rfl⟩ := List.append_of_mem hmem
  obtain ⟨t, t', -, hstep⟩ := h.split
  cases hstep

end BoundedFifo
