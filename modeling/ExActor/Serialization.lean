/-
**The buffer that a message is packed into.**

`Serialize` of `serialization.h` builds a message, which may lie in several segments, and has it
written packed into a buffer of a fixed size: the table of the segments first and then each segment,
every piece packed by itself.  The buffer has room for one byte more than every eight, and 32 bytes;
a stream that is written to beyond its end throws, which is `none` here.

The content of the message is the schema's business and the packed encoding that of the library that
writes it; what is here is their sizes.  A message lies in memory, so the sizes do not overflow.

Main definitions:

* `MessageBuilder`, `ArrayOutputStream` — a message that has been built, the stream over the buffer;
* `maxPackedSize`, `serialize` — the size of the buffer, and the bytes that are left in it.

Main results:

* `MessageBuilder.length_packed_le` — a packed message has at most a byte for every piece more;
* `packing_buffer_fits` — **the buffer is always large enough**.
-/

import ExActor.Broker
import ExActor.PackedEncoding
import Mathlib.Algebra.Order.BigOperators.Group.List

set_option relaxedAutoImplicit false
set_option autoImplicit false

namespace ExActor

open PackedEncoding (Word pack)

/-! ### Messages and streams -/

/-- What a `capnp::MallocMessageBuilder` holds after `SerializeTo`. -/
structure MessageBuilder where
  segmentTable : List Word
  segments : List (List Word)
deriving DecidableEq

namespace MessageBuilder

/-- What is written, piece by piece. -/
def pieces (m : MessageBuilder) : List (List Word) := m.segmentTable :: m.segments

/-- `capnp::computeSerializedSizeInWords`. -/
def computeSerializedSizeInWords (m : MessageBuilder) : ℕ := (m.pieces.map List.length).sum

/-- `size_in_bytes`. -/
def sizeInBytes (m : MessageBuilder) : ℕ := m.computeSerializedSizeInWords * 8

/-- The bytes of the packed message. -/
def packed (m : MessageBuilder) : ByteBuffer := m.pieces.flatMap pack

end MessageBuilder

/-- `kj::ArrayOutputStream`: what has been written fits into the array. -/
structure ArrayOutputStream where
  size : ℕ
  array : ByteBuffer
  fits : array.length ≤ size
deriving DecidableEq

namespace ArrayOutputStream

/-- A stream over an array of a size. -/
def ofSize (size : ℕ) : ArrayOutputStream := ⟨size, [], Nat.zero_le size⟩

/-- `write`, which throws when the array is not large enough. -/
def write (s : ArrayOutputStream) (bytes : ByteBuffer) : Option ArrayOutputStream :=
  if h : (s.array ++ bytes).length ≤ s.size then some ⟨s.size, s.array ++ bytes, h⟩ else none

/-- `capnp::writePackedMessage`. -/
def writePackedMessage (s : ArrayOutputStream) (m : MessageBuilder) : Option ArrayOutputStream :=
  m.pieces.foldlM (fun s piece => s.write (pack piece)) s

end ArrayOutputStream

/-! ### `Serialize` -/

/-- `max_packed_size`. -/
def maxPackedSize (sizeInBytes : ℕ) : ℕ := sizeInBytes + (sizeInBytes + 7) / 8 + 32

/-- `Serialize`, of what `SerializeTo` has built. -/
def serialize (m : MessageBuilder) : Option (ByteBuffer) :=
  ((ArrayOutputStream.ofSize (maxPackedSize m.sizeInBytes)).writePackedMessage m).map (·.array)

/-! ### The size of the buffer -/

/-- Packing adds at most a byte to every word, and one to every piece. -/
theorem length_flatMap_pack_le (pieces : List (List Word)) :
    (pieces.flatMap pack).length ≤ 9 * (pieces.map List.length).sum + pieces.length := by
  induction pieces with
  | nil => simp
  | cons piece pieces ih =>
      have hpiece := PackedEncoding.length_pack_le piece
      simp only [List.flatMap_cons, List.length_append, List.map_cons, List.sum_cons,
        List.length_cons]
      omega

/-- **A packed message has at most a byte for every word and for every piece more.** -/
theorem MessageBuilder.length_packed_le (m : MessageBuilder) :
    m.packed.length ≤ 9 * m.computeSerializedSizeInWords + m.pieces.length :=
  length_flatMap_pack_le m.pieces

/-- The buffer has a byte for every word more, and 32. -/
theorem maxPackedSize_eq (m : MessageBuilder) :
    maxPackedSize m.sizeInBytes = 9 * m.computeSerializedSizeInWords + 32 := by
  unfold maxPackedSize MessageBuilder.sizeInBytes
  omega

/-- Pieces that fit together are all written. -/
theorem foldlM_write (pieces : List (List Word)) (s : ArrayOutputStream)
    (h : (s.array ++ pieces.flatMap pack).length ≤ s.size) :
    (pieces.foldlM (fun (s : ArrayOutputStream) piece => s.write (pack piece)) s).map (·.array)
      = some (s.array ++ pieces.flatMap pack) := by
  induction pieces generalizing s with
  | nil => simp
  | cons piece pieces ih =>
      rw [List.flatMap_cons, ← List.append_assoc] at h ⊢
      have hpiece : (s.array ++ pack piece).length ≤ s.size := by
        rw [List.length_append] at h
        omega
      have hwrite : s.write (pack piece) = some ⟨s.size, s.array ++ pack piece, hpiece⟩ :=
        dif_pos hpiece
      rw [List.foldlM_cons, hwrite]
      exact ih ⟨s.size, s.array ++ pack piece, hpiece⟩ h

/-- **The packing buffer is always large enough**: the packed length of a message of at most 32
pieces never exceeds `max_packed_size`, so that nothing throws and `Serialize` returns the packed
message. -/
theorem packing_buffer_fits (m : MessageBuilder) (hpieces : m.pieces.length ≤ 32) :
    m.packed.length ≤ maxPackedSize m.sizeInBytes ∧ serialize m = some m.packed := by
  have hfits : m.packed.length ≤ maxPackedSize m.sizeInBytes := by
    have hpacked := m.length_packed_le
    rw [maxPackedSize_eq]
    omega
  refine ⟨hfits, ?_⟩
  exact foldlM_write m.pieces (.ofSize (maxPackedSize m.sizeInBytes)) hfits

/-- A message of one segment with one word without zeros, which takes ten bytes. -/
theorem packing_buffer_fits_full :
    let m : MessageBuilder :=
      ⟨[⟨[0, 0, 0, 0, 1, 0, 0, 0], rfl⟩], [[⟨[1, 2, 3, 4, 5, 6, 7, 8], rfl⟩]]⟩
    serialize m = some [16, 1, 255, 1, 2, 3, 4, 5, 6, 7, 8, 0] ∧ maxPackedSize m.sizeInBytes = 50 ∧
      m.packed.length ≤ 50 := by
  intro m
  obtain ⟨hfits, hserialize⟩ := packing_buffer_fits m (by decide)
  have hpacked : m.packed = [16, 1, 255, 1, 2, 3, 4, 5, 6, 7, 8, 0] := by decide
  have hsize : maxPackedSize m.sizeInBytes = 50 := by decide
  exact ⟨by rw [hserialize, hpacked], hsize, hsize ▸ hfits⟩

end ExActor
