/-
**Class layouts: subobjects, conversions to a base, instances.**

A class has direct bases, each at a fixed offset, and no base is virtual.  A base subobject of an
object is therefore named by the path of bases that leads to it and lies at the sum of the offsets
on that path.  A pointer converts to a pointer to a base when there is exactly one subobject of
that class and every base on the way to it is public; the conversion adds the offset to a pointer
that is not null.

Nothing here knows of a particular program: the classes are any type.

Main definitions:

* `Hierarchy`, `Subobject`, `Subobject.offset`, `Subobject.comp` — the classes and their subobjects;
* `Upcast` — an implicit conversion, and `Subobject.cast` — what it does to a pointer;
* `Instance`, `Instance.addressOf` — an object in memory and the addresses of its subobjects.

Main results:

* `Subobject.offset_comp` — offsets add up along a path;
* `Subobject.offset_add_size_le` — a subobject lies inside the object;
* `Instance.cast_addressOf` — a conversion leads from a subobject to the subobject inside it.
-/

import Mathlib.Data.BitVec
import Mathlib.Data.List.Basic

set_option relaxedAutoImplicit false
set_option autoImplicit false

/-- A direct base of a class. -/
structure BaseClass (κ : Type*) where
  cls : κ
  offset : ℕ
  isPublic : Bool
deriving DecidableEq

/-- The classes of a program.  A base is complete, hence defined before, the class it is a base of,
and it lies inside it. -/
structure Hierarchy (κ : Type*) where
  bases : κ → List (BaseClass κ)
  size : κ → ℕ
  definedAt : κ → ℕ
  size_pos : ∀ K, 0 < size K
  base_fits : ∀ K, ∀ b ∈ bases K, b.offset + size b.cls ≤ size K
  base_before : ∀ K, ∀ b ∈ bases K, definedAt b.cls < definedAt K

/-- `Subobject H K U`: a subobject of class `U` in an object of class `K`. -/
inductive Subobject {κ : Type*} (H : Hierarchy κ) : κ → κ → Type _
  | self (K : κ) : Subobject H K K
  | base {K U : κ} (b : BaseClass κ) (hb : b ∈ H.bases K) (p : Subobject H b.cls U) :
      Subobject H K U

namespace Subobject

variable {κ : Type*} {H : Hierarchy κ} {K U V : κ}

/-- Where the subobject lies in the object. -/
def offset {K U : κ} : Subobject H K U → ℕ
  | self _ => 0
  | base b _ p => b.offset + p.offset

/-- Every base on the way to the subobject is public. -/
def isPublic {K U : κ} : Subobject H K U → Bool
  | self _ => true
  | base b _ p => b.isPublic && p.isPublic

/-- A subobject of a subobject. -/
def comp {K U V : κ} : Subobject H K U → Subobject H U V → Subobject H K V
  | self _, q => q
  | base b hb p, q => base b hb (p.comp q)

@[simp] theorem offset_self (K : κ) : (self K : Subobject H K K).offset = 0 := rfl

@[simp] theorem self_comp (q : Subobject H K U) : (self K).comp q = q := rfl

@[simp] theorem comp_self (p : Subobject H K U) : p.comp (self U) = p := by
  induction p with
  | self K => rfl
  | base b hb p ih => rw [comp, ih]

/-- **Offsets add up along a path.** -/
@[simp] theorem offset_comp (p : Subobject H K U) (q : Subobject H U V) :
    (p.comp q).offset = p.offset + q.offset := by
  induction p with
  | self K => rw [self_comp, offset_self, Nat.zero_add]
  | base b hb p ih => simp only [comp, offset, ih, Nat.add_assoc]

/-- **A subobject lies inside the object.** -/
theorem offset_add_size_le (p : Subobject H K U) : p.offset + H.size U ≤ H.size K := by
  induction p with
  | self K => rw [offset_self, Nat.zero_add]
  | @base K U b hb p ih =>
      have hfits := H.base_fits K b hb
      rw [offset, Nat.add_assoc]
      omega

theorem offset_lt_size (p : Subobject H K U) : p.offset < H.size K := by
  have hsize := H.size_pos U
  have hle := p.offset_add_size_le
  omega

theorem definedAt_le (p : Subobject H K U) : H.definedAt U ≤ H.definedAt K := by
  induction p with
  | self K => exact Nat.le_refl _
  | @base K U b hb p ih => exact ih.trans (Nat.le_of_lt (H.base_before K b hb))

/-- An object has one subobject of its own class. -/
theorem eq_self (p : Subobject H K K) : p = self K := by
  cases p with
  | self => rfl
  | base b hb q =>
      exact absurd (H.base_before K b hb) (Nat.not_lt.2 q.definedAt_le)

/-! ### Pointers -/

variable {w : ℕ}

/-- A pointer to the object as a pointer to the subobject. -/
def cast (p : Subobject H K U) (ptr : BitVec w) : BitVec w :=
  if ptr = 0 then 0 else ptr + BitVec.ofNat w p.offset

@[simp] theorem cast_null (p : Subobject H K U) : p.cast (0 : BitVec w) = 0 := if_pos rfl

@[simp] theorem cast_self (ptr : BitVec w) : (self K : Subobject H K K).cast ptr = ptr := by
  by_cases h : ptr = 0
  · rw [h, cast_null]
  · rw [cast, if_neg h, offset_self, BitVec.add_zero]

end Subobject

/-! ### Implicit conversions -/

/-- The implicit conversion from `K*` to `U*`: the one subobject of class `U` in a `K`. -/
structure Upcast {κ : Type*} (H : Hierarchy κ) (K U : κ) where
  subobject : Subobject H K U
  isPublic : subobject.isPublic = true
  unique : ∀ p : Subobject H K U, p = subobject

namespace Upcast

variable {κ : Type*} {H : Hierarchy κ}

/-- A pointer converts to its own type. -/
def refl (K : κ) : Upcast H K K := ⟨.self K, rfl, Subobject.eq_self⟩

end Upcast

/-! ### Objects in memory -/

/-- An object of class `K`, in an address space of `w` bits. -/
structure Instance {κ : Type*} (H : Hierarchy κ) (w : ℕ) (K : κ) where
  address : BitVec w
  address_ne : address ≠ 0
  fits : address.toNat + H.size K ≤ 2 ^ w

namespace Instance

variable {κ : Type*} {H : Hierarchy κ} {w : ℕ} {K U V : κ}

/-- The address of a subobject. -/
def addressOf (I : Instance H w K) (p : Subobject H K U) : BitVec w :=
  I.address + BitVec.ofNat w p.offset

@[simp] theorem addressOf_self (I : Instance H w K) : I.addressOf (.self K) = I.address := by
  rw [addressOf, Subobject.offset_self, BitVec.add_zero]

/-- The address of a subobject does not wrap around. -/
theorem toNat_addressOf (I : Instance H w K) (p : Subobject H K U) :
    (I.addressOf p).toNat = I.address.toNat + p.offset := by
  have hlt := p.offset_lt_size
  have hfits := I.fits
  have hoffset : p.offset % 2 ^ w = p.offset := Nat.mod_eq_of_lt (by omega)
  rw [addressOf, BitVec.toNat_add, BitVec.toNat_ofNat, hoffset, Nat.mod_eq_of_lt (by omega)]

theorem addressOf_ne (I : Instance H w K) (p : Subobject H K U) : I.addressOf p ≠ 0 := by
  intro h
  have hzero := congrArg BitVec.toNat h
  rw [toNat_addressOf] at hzero
  refine I.address_ne (BitVec.eq_of_toNat_eq ?_)
  simp only [BitVec.ofNat_eq_ofNat, BitVec.toNat_ofNat, Nat.zero_mod] at hzero ⊢
  omega

/-- Subobjects at different offsets have different addresses. -/
theorem addressOf_inj (I : Instance H w K) (p : Subobject H K U) (q : Subobject H K V) :
    I.addressOf p = I.addressOf q ↔ p.offset = q.offset := by
  constructor
  · intro h
    have hnat := congrArg BitVec.toNat h
    rw [toNat_addressOf, toNat_addressOf] at hnat
    omega
  · intro h
    rw [addressOf, addressOf, h]

/-- **A conversion leads from a subobject to the subobject inside it.** -/
@[simp] theorem cast_addressOf (I : Instance H w K) (p : Subobject H K U) (q : Subobject H U V) :
    q.cast (I.addressOf p) = I.addressOf (p.comp q) := by
  rw [Subobject.cast, if_neg (I.addressOf_ne p), addressOf, addressOf, Subobject.offset_comp,
    BitVec.ofNat_add, BitVec.add_assoc]

end Instance
