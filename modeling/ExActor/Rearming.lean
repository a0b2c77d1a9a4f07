/-
**A loop that takes out what is due and puts it back.**

A bag of items is ordered by a key.  As long as an item with a smallest key is due, a round of the
loop takes such an item out, records it, and puts it back with another key.  Which of several items
with the smallest key is taken is left open, as is the order in which the bag keeps its items.

The loop ends if what is put back is no longer due.  Putting an item back a second time does not
change it again, so the loop ends only then.

Main definitions:

* `Rearming.Loop`, `Rearming.Round` — the loop and its rounds;
* `Rearming.Ends` — there is no endless sequence of rounds.

Main results:

* `Rearming.ends_iff` — **when the loop ends**;
* `Rearming.Rounds.taken_perm`, `Rearming.Rounds.bag_perm` — what it has taken out, and what it
  leaves, whenever it ends.
-/

import Mathlib.Data.List.Perm.Basic
import Mathlib.Logic.Relation
import Mathlib.Order.Lattice

set_option relaxedAutoImplicit false
set_option autoImplicit false

namespace Rearming

/-- The bag, and what was taken out of it so far. -/
structure Loop (α : Type*) where
  bag : List α
  taken : List α

variable {α κ : Type*} [LinearOrder κ]

/-- The item at the position has a smallest key. -/
def IsTop (key : α → κ) (bag : List α) (i : ℕ) (x : α) : Prop :=
  bag[i]? = some x ∧ ∀ y ∈ bag, key x ≤ key y

/-- A round takes an item with a smallest key, if it is due, and puts it back. -/
inductive Round (key : α → κ) (now : κ) (rearm : α → α) : Loop α → Loop α → Prop
  | take {bag taken : List α} {i : ℕ} {x : α} : IsTop key bag i x → key x ≤ now →
      Round key now rearm ⟨bag, taken⟩ ⟨bag.eraseIdx i ++ [rearm x], taken ++ [x]⟩

/-- Some rounds. -/
abbrev Rounds (key : α → κ) (now : κ) (rearm : α → α) : Loop α → Loop α → Prop :=
  Relation.ReflTransGen (Round key now rearm)

/-- There is no endless sequence of rounds. -/
def Ends (key : α → κ) (now : κ) (rearm : α → α) (s : Loop α) : Prop :=
  Acc (fun s' s => Round key now rearm s s') s

variable {key : α → κ} {now : κ} {rearm : α → α} {s s' : Loop α} {bag : List α} {i : ℕ} {x : α}

/-! ### The top of a bag -/

/-- A bag that is not empty has an item with a smallest key. -/
theorem exists_isTop (key : α → κ) (hbag : bag ≠ []) : ∃ i x, IsTop key bag i x := by
  induction bag with
  | nil => exact absurd rfl hbag
  | cons a bag ih =>
      by_cases hnil : bag = []
      · subst hnil
        exact ⟨0, a, rfl, by simp⟩
      · obtain ⟨i, x, hx, hmin⟩ := ih hnil
        rcases le_total (key a) (key x) with hle | hle
        · refine ⟨0, a, rfl, fun y hy => ?_⟩
          rcases List.mem_cons.1 hy with rfl | hy
          · exact le_refl _
          · exact hle.trans (hmin y hy)
        · refine ⟨i + 1, x, hx, fun y hy => ?_⟩
          rcases List.mem_cons.1 hy with rfl | hy
          · exact hle
          · exact hmin y hy

/-- Taking an item out leaves the others. -/
theorem perm_cons_eraseIdx (h : bag[i]? = some x) : bag.Perm (x :: bag.eraseIdx i) := by
  obtain ⟨hi, rfl⟩ := List.getElem?_eq_some_iff.1 h
  exact (List.getElem_cons_eraseIdx_perm hi).symm

/-- There is a round as long as anything is due. -/
theorem exists_round (rearm : α → α) (taken : List α) (hx : x ∈ bag) (hdue : key x ≤ now) :
    ∃ s', Round key now rearm ⟨bag, taken⟩ s' := by
  obtain ⟨i, top, htop⟩ := exists_isTop key (List.ne_nil_of_mem hx)
  exact ⟨_, .take htop ((htop.2 x hx).trans hdue)⟩

/-! ### When the loop ends -/

/-- Every item of the bag that is due is put back later than `now`. -/
def Settles (key : α → κ) (now : κ) (rearm : α → α) (s : Loop α) : Prop :=
  ∀ x ∈ s.bag, key x ≤ now → now < key (rearm x)

/-- A round settles the item that it takes, and leaves the others alone. -/
theorem Settles.round (h : Settles key now rearm s) (hround : Round key now rearm s s') :
    Settles key now rearm s' := by
  cases hround with
  | take htop hdue =>
      intro y hy hydue
      rcases List.mem_append.1 hy with hy | hy
      · exact h y ((List.eraseIdx_sublist ..).subset hy) hydue
      · obtain rfl := List.mem_singleton.1 hy
        exact absurd hydue (not_le.2 (h _ (List.mem_of_getElem? htop.1) hdue))

theorem Settles.rounds (h : Settles key now rearm s) (hrounds : Rounds key now rearm s s') :
    Settles key now rearm s' := by
  induction hrounds with
  | refl => exact h
  | tail _ hround ih => exact ih.round hround

/-- The number of items that are due. -/
def due (key : α → κ) (now : κ) (bag : List α) : ℕ := bag.countP fun x => decide (key x ≤ now)

/-- A round that settles its item leaves fewer items that are due. -/
theorem due_lt (h : Settles key now rearm s) (hround : Round key now rearm s s') :
    due key now s'.bag < due key now s.bag := by
  cases hround with
  | take htop hdue =>
      have hsettled := h _ (List.mem_of_getElem? htop.1) hdue
      have hbefore := (perm_cons_eraseIdx htop.1).countP_eq fun x => decide (key x ≤ now)
      dsimp only [due]
      rw [List.countP_cons_of_pos (by simpa using hdue)] at hbefore
      rw [hbefore, List.countP_append, List.countP_cons_of_neg (by simpa using hsettled),
        List.countP_nil]
      exact Nat.lt_succ_self _

/-- **If every due item is settled, the loop ends**: the number of due items decreases. -/
theorem Settles.ends (h : Settles key now rearm s) : Ends key now rearm s := by
  induction hn : due key now s.bag using Nat.strong_induction_on generalizing s with
  | _ n ih =>
      refine Acc.intro s fun s' hround => ?_
      exact ih _ (hn ▸ due_lt h hround) (h.round hround) rfl

/-- An item that is due, and is put back as one that is due, keeps the loop going. -/
theorem Ends.settles (hrearm : ∀ x, rearm (rearm x) = rearm x) (h : Ends key now rearm s) :
    Settles key now rearm s := by
  induction h with
  | intro s _ ih =>
      intro x hx hdue
      by_contra hstill
      obtain ⟨s', hround⟩ := exists_round rearm s.taken hx hdue
      -- after the round the item is still there, or it was put back, and is due
      have hstuck : ∃ y ∈ s'.bag, key y ≤ now ∧ ¬ now < key (rearm y) := by
        cases hround with
        | @take _ _ i top htop hdue' =>
            rcases List.mem_cons.1 ((perm_cons_eraseIdx htop.1).mem_iff.1 hx) with rfl | hx
            · exact ⟨rearm x, by simp, not_lt.1 hstill, by rwa [hrearm]⟩
            · exact ⟨x, by simp [hx], hdue, hstill⟩
      obtain ⟨y, hy, hydue, hystill⟩ := hstuck
      exact hystill (ih s' hround y hy hydue)

/-- **When the loop ends.** -/
theorem ends_iff (hrearm : ∀ x, rearm (rearm x) = rearm x) :
    Ends key now rearm s ↔ Settles key now rearm s :=
  ⟨fun h => h.settles hrearm, fun h => h.ends⟩

/-! ### What the loop has done when it ends -/

/-- What was taken out and what is still due are together what was due. -/
theorem Rounds.taken_perm (h : Settles key now rearm s) (hrounds : Rounds key now rearm s s') :
    (s'.taken ++ s'.bag.filter fun x => decide (key x ≤ now)).Perm
      (s.taken ++ s.bag.filter fun x => decide (key x ≤ now)) := by
  induction hrounds with
  | refl => exact List.Perm.refl _
  | @tail s₁ s₂ hrounds hround ih =>
      refine List.Perm.trans ?_ ih
      have hsettles := h.rounds hrounds
      cases hround with
      | @take bag taken i x htop hdue =>
          have hsettled := hsettles x (List.mem_of_getElem? htop.1) hdue
          have hbefore := (perm_cons_eraseIdx htop.1).filter fun x => decide (key x ≤ now)
          rw [List.filter_cons_of_pos (by simpa using hdue)] at hbefore
          dsimp only
          rw [List.filter_append, List.filter_cons_of_neg (by simpa using hsettled),
            List.filter_nil, List.append_nil, List.append_assoc, List.singleton_append]
          exact hbefore.symm.append_left taken

/-- What is left are the other items and what was put back. -/
theorem Rounds.bag_perm (hrounds : Rounds key now rearm s s') :
    ∃ new, s'.taken = s.taken ++ new ∧ (new ++ s'.bag).Perm (s.bag ++ new.map rearm) := by
  induction hrounds with
  | refl => exact ⟨[], by simp, by simp⟩
  | @tail s₁ s₂ _ hround ih =>
      obtain ⟨new, htaken, hperm⟩ := ih
      cases hround with
      | @take bag taken i x htop hdue =>
          refine ⟨new ++ [x], by rw [← List.append_assoc, ← htaken], ?_⟩
          have hbefore := perm_cons_eraseIdx htop.1
          calc new ++ [x] ++ (bag.eraseIdx i ++ [rearm x])
              = new ++ (x :: bag.eraseIdx i) ++ [rearm x] := by simp
            _ |>.Perm (new ++ bag ++ [rearm x]) := (hbefore.symm.append_left new).append_right _
            _ |>.Perm (s.bag ++ new.map rearm ++ [rearm x]) := hperm.append_right _
            _ = s.bag ++ (new ++ [x]).map rearm := by simp

/-- Putting back what is due, item by item, or all at once. -/
theorem perm_map_rearm (key : α → κ) (now : κ) (rearm : α → α) (bag : List α) :
    ((bag.filter fun x => decide (key x ≤ now)) ++
      bag.map fun x => if key x ≤ now then rearm x else x).Perm
        (bag ++ (bag.filter fun x => decide (key x ≤ now)).map rearm) := by
  induction bag with
  | nil => simp
  | cons x bag ih =>
      by_cases hdue : key x ≤ now
      · rw [List.filter_cons_of_pos (by simpa using hdue), List.map_cons, if_pos hdue,
          List.map_cons, List.cons_append, List.cons_append]
        exact (List.perm_middle.trans ((ih.cons _).trans List.perm_middle.symm)).cons x
      · rw [List.filter_cons_of_neg (by simpa using hdue), List.map_cons, if_neg hdue,
          List.cons_append]
        exact List.perm_middle.trans (ih.cons x)

/-- **When the loop ends, exactly what was due was taken out and put back**, and nothing that is
left is due. -/
theorem Rounds.done {bag : List α} (h : Settles key now rearm ⟨bag, []⟩)
    (hrounds : Rounds key now rearm ⟨bag, []⟩ s') (hdone : ∀ s'', ¬ Round key now rearm s' s'') :
    s'.taken.Perm (bag.filter fun x => decide (key x ≤ now)) ∧
      s'.bag.Perm (bag.map fun x => if key x ≤ now then rearm x else x) ∧
      ∀ x ∈ s'.bag, now < key x := by
  have hlater : ∀ x ∈ s'.bag, now < key x := by
    intro x hx
    by_contra hdue
    obtain ⟨s'', hround⟩ := exists_round rearm s'.taken hx (not_lt.1 hdue)
    exact hdone s'' hround
  have htaken := hrounds.taken_perm h
  rw [List.filter_eq_nil_iff.2 (by simpa using hlater), List.append_nil, List.nil_append] at htaken
  refine ⟨htaken, ?_, hlater⟩
  obtain ⟨new, hnew, hleft⟩ := hrounds.bag_perm
  obtain rfl : s'.taken = new := hnew
  have hputBack := (htaken.append_right s'.bag).symm.trans
    (hleft.trans ((htaken.map rearm).append_left bag))
  exact (List.perm_append_left_iff _).1 (hputBack.trans (perm_map_rearm key now rearm bag).symm)

end Rearming
