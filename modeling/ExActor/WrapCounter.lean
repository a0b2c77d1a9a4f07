/-
**A wrapping counter and the integer it stands for.**

A machine register of `w` bits that is only added to and subtracted from holds an exact integer
modulo `2 ^ w`.  Reasoning about the register then splits in two: the exact integer obeys the
ordinary laws, and the register tells the truth about it as long as the integer stays in range.

Main definitions:

* `Tracks` — the register holds the integer modulo `2 ^ w`.

Main results:

* `Tracks.add`, `Tracks.sub` — the register follows the integer;
* `Tracks.eq_zero_iff` — a register reads zero exactly when the integer is zero, in range;
* `Tracks.toNat_eq` — the value of the register is the integer, in range.
-/

import Mathlib.Data.BitVec
import Mathlib.Tactic.Linarith

set_option relaxedAutoImplicit false
set_option autoImplicit false

/-- The register `c` holds the integer `b` modulo `2 ^ w`. -/
def Tracks {w : ℕ} (c : BitVec w) (b : ℤ) : Prop := c = BitVec.ofInt w b

namespace Tracks

variable {w : ℕ} {c : BitVec w} {b : ℤ}

theorem zero : Tracks (0#w) 0 := by simp [Tracks]

theorem add (h : Tracks c b) (k : ℕ) : Tracks (c + BitVec.ofNat w k) (b + k) := by
  unfold Tracks at *
  rw [h, BitVec.ofInt_add, BitVec.ofInt_natCast]

theorem sub (h : Tracks c b) (k : ℕ) : Tracks (c - BitVec.ofNat w k) (b - k) := by
  have hadd : Tracks (c - BitVec.ofNat w k + BitVec.ofNat w k) (b - k + k) := by
    simpa [Tracks] using h
  unfold Tracks at *
  rw [BitVec.ofInt_add, BitVec.ofInt_natCast] at hadd
  exact add_right_cancel hadd

theorem congr (h : Tracks c b) {b' : ℤ} (hb : b = b') : Tracks c b' := hb ▸ h

/-- In range, the register reads zero exactly when the integer is zero. -/
theorem eq_zero_iff (h : Tracks c b) (hlo : -2 ^ w < b) (hhi : b < 2 ^ w) :
    c = 0#w ↔ b = 0 := by
  have hpos : (0 : ℤ) < 2 ^ w := by positivity
  constructor
  · intro hc
    have hnat : (BitVec.ofInt w b).toNat = 0 := by rw [← h, hc]; simp
    rw [BitVec.toNat_ofInt] at hnat
    have hmod : b % 2 ^ w = 0 := by
      have hnn := Int.emod_nonneg b hpos.ne'
      push_cast at hnat
      omega
    obtain ⟨k, rfl⟩ := Int.dvd_of_emod_eq_zero hmod
    have hk : k = 0 := by
      have h₁ : -1 < k := by nlinarith
      have h₂ : k < 1 := by nlinarith
      omega
    simp [hk]
  · rintro rfl
    simpa [Tracks] using h

/-- In range, the value of the register is the integer. -/
theorem toNat_eq (h : Tracks c b) (hlo : 0 ≤ b) (hhi : b < 2 ^ w) : (c.toNat : ℤ) = b := by
  obtain ⟨n, rfl⟩ := Int.eq_ofNat_of_zero_le hlo
  have hn : n < 2 ^ w := by exact_mod_cast hhi
  rw [show c = BitVec.ofNat w n by simpa [Tracks] using h]
  simp [Nat.mod_eq_of_lt hn]

end Tracks
