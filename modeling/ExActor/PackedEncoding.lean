/-
**The packed encoding of a sequence of words.**

Words of eight bytes are written without their zero bytes.  A tag byte says which bytes of the word
are not zero, and these follow it.  After a word of zeros comes one byte that says how many more
words of zeros it stands for; after a word without any zero comes one byte that says how many of the
next words follow it raw, as far as these have at most one zero byte each.  Both counts are at most
255.

A word without zeros costs ten bytes, one more than a tag and eight bytes.  The byte in excess is
paid for by what comes next: by a raw word, which saves its tag, or else by a word with two zero
bytes or more, which saves both.  Only a word at the very end leaves it unpaid.

Main definitions:

* `Word`, `Word.tag`, `Word.run` — words, their tags, the words that a word takes with it;
* `pack` — the encoding.

Main results:

* `pack_cons` — the encoding of the first word and of what it takes with it;
* `length_pack_add_le` — the amortized bound;
* `length_pack_le` — **at most nine bytes a word, and one**.
-/

import Mathlib.Data.List.Basic
import Mathlib.Tactic.Linarith

set_option relaxedAutoImplicit false
set_option autoImplicit false

namespace PackedEncoding

/-! ### Words -/

abbrev Byte := BitVec 8

/-- Eight bytes. -/
structure Word where
  bytes : List Byte
  length_bytes : bytes.length = 8
deriving DecidableEq

namespace Word

/-- How many bytes of the word are zero. -/
def zeros (w : Word) : ℕ := w.bytes.count 0

/-- The bytes that are not zero. -/
def nonZero (w : Word) : List Byte := w.bytes.filter (· ≠ 0)

/-- The tag byte: a bit for each byte that is not zero, the lowest one for the first. -/
def tag (w : Word) : Byte := w.bytes.foldr (fun b t => 2 * t + if b = 0 then 0 else 1) 0

/-- Of the words that follow, those that the word takes with it. -/
def run (w : Word) (ws : List Word) : List Word :=
  if w.zeros = 8 then (ws.takeWhile (·.zeros = 8)).take 255
  else if w.zeros = 0 then (ws.takeWhile (·.zeros ≤ 1)).take 255
  else []

/-- What is written for a word and for those that it takes with it. -/
def written (w : Word) (taken : List Word) : List Byte :=
  w.tag :: w.nonZero ++
    if w.zeros = 8 then [BitVec.ofNat 8 taken.length]
    else if w.zeros = 0 then BitVec.ofNat 8 taken.length :: taken.flatMap bytes
    else []

theorem length_nonZero (w : Word) : w.nonZero.length + w.zeros = 8 := by
  have hsplit := List.length_eq_length_filter_add (l := w.bytes) (fun b => decide (b ≠ 0))
  have hzeros : (w.bytes.filter fun b => !decide (b ≠ 0)).length = w.zeros := by
    rw [zeros, List.count_eq_length_filter]
    congr 1
    exact List.filter_congr fun b _ => by rw [Bool.eq_iff_iff]; simp
  rw [hzeros, w.length_bytes] at hsplit
  exact hsplit.symm

theorem length_flatMap_bytes (ws : List Word) : (ws.flatMap bytes).length = 8 * ws.length := by
  induction ws with
  | nil => rfl
  | cons w ws ih =>
      rw [List.flatMap_cons, List.length_append, ih, w.length_bytes, List.length_cons]
      omega

/-- A word takes a beginning of what follows with it. -/
theorem run_prefix (w : Word) (ws : List Word) : w.run ws <+: ws := by
  unfold run
  split
  · exact (List.take_prefix _ _).trans (List.takeWhile_prefix _)
  · split
    · exact (List.take_prefix _ _).trans (List.takeWhile_prefix _)
    · exact List.nil_prefix

/-- A word without zeros takes the next one with it, if that has at most one. -/
theorem run_ne_nil {w v : Word} (hw : w.zeros = 0) (hv : v.zeros ≤ 1) (ws : List Word) :
    w.run (v :: ws) ≠ [] := by
  simp [run, hw, hv]

end Word

/-! ### The encoding -/

/-- The encoding of the words after the first `n`, which have been written already. -/
def packFrom : ℕ → List Word → List Byte
  | _, [] => []
  | n + 1, _ :: ws => packFrom n ws
  | 0, w :: ws => w.written (w.run ws) ++ packFrom (w.run ws).length ws

/-- The packed encoding. -/
def pack (ws : List Word) : List Byte := packFrom 0 ws

theorem packFrom_eq (n : ℕ) (ws : List Word) : packFrom n ws = pack (ws.drop n) := by
  induction ws generalizing n with
  | nil => cases n <;> simp [packFrom, pack]
  | cons w ws ih =>
      cases n with
      | zero => rfl
      | succ n => rw [packFrom, ih, List.drop_succ_cons]

@[simp] theorem pack_nil : pack [] = [] := rfl

/-- **The encoding of the first word** and of those that it takes with it. -/
theorem pack_cons (w : Word) (ws : List Word) :
    pack (w :: ws) = w.written (w.run ws) ++ pack (ws.drop (w.run ws).length) := by
  rw [← packFrom_eq]
  rfl

/-! ### Its length -/

/-- One for the byte that a word without zeros may have cost in excess, if what comes next does not
pay for it. -/
def excess : List Word → ℕ
  | [] => 0
  | w :: _ => if 2 ≤ w.zeros then 0 else 1

theorem excess_le (ws : List Word) : excess ws ≤ 1 := by
  cases ws with
  | nil => simp [excess]
  | cons w ws =>
      rw [excess]
      split <;> omega

/-- What is left after a word without zeros that took nothing with it pays for the excess. -/
theorem excess_eq_zero {w : Word} (hw : w.zeros = 0) {ws : List Word} (h : w.run ws = []) :
    excess ws = 0 := by
  cases ws with
  | nil => rfl
  | cons v ws =>
      by_cases hv : v.zeros ≤ 1
      · exact absurd h (Word.run_ne_nil hw hv ws)
      · exact if_pos (by omega)

/-- **The amortized bound**: nine bytes a word, and what the first one may cost in excess. -/
theorem length_pack_add_le (ws : List Word) : (pack ws).length ≤ 9 * ws.length + excess ws := by
  induction hn : ws.length using Nat.strong_induction_on generalizing ws with
  | _ n ih =>
      cases ws with
      | nil => simp
      | cons w ws =>
          have hrun := (w.run_prefix ws).length_le
          have hlen : (ws.drop (w.run ws).length).length = ws.length - (w.run ws).length :=
            List.length_drop
          simp only [List.length_cons] at hn
          have hrest := ih _ (by omega) (ws.drop (w.run ws).length) rfl
          have hexcess := excess_le (ws.drop (w.run ws).length)
          have hnonZero := w.length_nonZero
          rw [pack_cons, List.length_append, Word.written, excess]
          by_cases hzero : w.zeros = 8
          · -- a tag and a count, for all the words of zeros
            rw [if_pos hzero, if_pos (by omega)]
            simp only [List.length_append, List.length_cons, List.length_nil]
            omega
          · rw [if_neg hzero]
            by_cases hfull : w.zeros = 0
            · rw [if_pos hfull, if_neg (by omega)]
              simp only [List.length_append, List.length_cons, Word.length_flatMap_bytes]
              by_cases hnil : w.run ws = []
              · -- the next word pays
                have hpaid := excess_eq_zero hfull hnil
                rw [hnil, List.length_nil, List.drop_zero] at hrest
                rw [hnil, List.length_nil, List.drop_zero]
                omega
              · -- the raw words pay
                have hpos := List.length_pos_iff.2 hnil
                omega
            · rw [if_neg hfull]
              simp only [List.length_append, List.length_cons, List.length_nil]
              split <;> omega

/-- **At most nine bytes a word, and one.** -/
theorem length_pack_le (ws : List Word) : (pack ws).length ≤ 9 * ws.length + 1 :=
  (length_pack_add_le ws).trans (Nat.add_le_add_left (excess_le ws) _)

end PackedEncoding
