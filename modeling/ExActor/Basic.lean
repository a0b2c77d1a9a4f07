/-
**Numbers and containers of the standard library.**

Main definitions:

* `SizeT`, `NodeId` — the fixed-width integers;
* `UnorderedMap` — `std::unordered_map`, as a list of entries with distinct keys: the order of the
  list stands for the unspecified order of iteration;
* `UnorderedMap.values`, `UnorderedMap.mapValues` — iteration over the values, reading and writing.

Main results:

* `UnorderedMap.values_insert`, `UnorderedMap.values_erase` — what enters and leaves the values;
* `UnorderedMap.lookup_mapValues` — what a loop over the entries does to each of them.
-/

import Mathlib.Data.BitVec
import Mathlib.Data.List.AList

set_option relaxedAutoImplicit false
set_option autoImplicit false

namespace ExActor

/-- `size_t` and `std::atomic_size_t`. -/
abbrev SizeT := BitVec 64

/-- The `uint64_t` of a node. -/
abbrev NodeId := BitVec 64

/-- Membership in a list of node ids is decided by comparing them. -/
instance : LawfulBEq NodeId := inferInstance

/-- An `std::unordered_map`. -/
abbrev UnorderedMap (K V : Type) := AList fun _ : K => V

namespace UnorderedMap

variable {K V : Type}

/-- The values of the map, in the order of iteration. -/
def values (m : UnorderedMap K V) : List V := m.entries.map Sigma.snd

/-- A loop that assigns to the value of every entry. -/
def mapValues (f : K → V → V) (m : UnorderedMap K V) : UnorderedMap K V where
  entries := m.entries.map fun e => ⟨e.1, f e.1 e.2⟩
  nodupKeys := by
    have h := m.nodupKeys
    rw [List.NodupKeys, List.keys] at h ⊢
    rwa [List.map_map]

@[simp] theorem values_empty : values (∅ : UnorderedMap K V) = [] := rfl

variable [DecidableEq K]

/-- A key that is found is in the map. -/
theorem mem_of_lookup {m : UnorderedMap K V} {k : K} {v : V} (h : m.lookup k = some v) : k ∈ m :=
  AList.lookup_isSome.1 (by simp [h])

/-- A key of the map is found. -/
theorem exists_lookup {m : UnorderedMap K V} {k : K} (h : k ∈ m) : ∃ v, m.lookup k = some v :=
  Option.isSome_iff_exists.1 (AList.lookup_isSome.2 h)

/-- A new key adds its value. -/
theorem values_insert {m : UnorderedMap K V} {k : K} (h : k ∉ m) (v : V) :
    values (m.insert k v) = v :: values m := by
  simp only [values, AList.entries_insert_of_notMem h, List.map_cons]

/-- Erasing a key takes its entry out. -/
theorem entries_erase {m : UnorderedMap K V} {k : K} {v : V} (h : m.lookup k = some v) :
    m.entries.Perm (⟨k, v⟩ :: (m.erase k).entries) := by
  obtain ⟨v', l, r, -, hentries, herase⟩ := List.exists_of_kerase (mem_of_lookup h)
  have hv : v' = v := by
    have hin : ⟨k, v'⟩ ∈ m.entries := by simp [hentries]
    simpa [h] using (AList.mem_lookup_iff.2 hin).symm
  have herase' : (m.erase k).entries = l ++ r := herase
  subst hv
  rw [hentries, herase']
  exact List.perm_middle

/-- Erasing a key takes its value out. -/
theorem values_erase {m : UnorderedMap K V} {k : K} {v : V} (h : m.lookup k = some v) :
    (values m).Perm (v :: values (m.erase k)) := by
  simpa only [values, List.map_cons] using (entries_erase h).map Sigma.snd

theorem mem_values {m : UnorderedMap K V} {v : V} :
    v ∈ values m ↔ ∃ k, m.lookup k = some v := by
  simp only [values, List.mem_map, Sigma.exists]
  constructor
  · rintro ⟨k, v', hmem, rfl⟩
    exact ⟨k, AList.mem_lookup_iff.2 hmem⟩
  · rintro ⟨k, hk⟩
    exact ⟨k, v, AList.mem_lookup_iff.1 hk, rfl⟩

/-- **What a loop over the entries does to each of them.** -/
theorem lookup_mapValues (f : K → V → V) (m : UnorderedMap K V) (k : K) :
    (mapValues f m).lookup k = (m.lookup k).map (f k) := by
  ext v
  simp only [Option.map_eq_some_iff]
  constructor
  · intro h
    obtain ⟨⟨k', v'⟩, hmem, heq⟩ := List.mem_map.1 (AList.mem_lookup_iff.1 h)
    obtain ⟨rfl, rfl⟩ := by simpa using heq
    exact ⟨v', AList.mem_lookup_iff.2 hmem, rfl⟩
  · rintro ⟨v', hv', rfl⟩
    exact AList.mem_lookup_iff.2 (List.mem_map.2 ⟨⟨k, v'⟩, AList.mem_lookup_iff.1 hv', rfl⟩)

end UnorderedMap

end ExActor
