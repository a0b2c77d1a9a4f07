/-
**The bounded queue of an actor is a bounded FIFO.**

At every moment the positions from `released` up to `released + capacity` have a cell each, and the
sequence number of that cell is the position itself, or one more once its element is published.  A
position that is claimed and not published belongs to exactly one producer, which alone writes its
cell; a published one belongs to the consumer.  A producer that works with a position it loaded long
ago finds a later lap in its cell, so it cannot succeed in claiming, and starts again.

The sign of the difference of two 64-bit words is the sign of the difference of the numbers they
stand for only while these are less than `2 ^ 63` apart.  With fewer than `2 ^ 63` pushes the
positions are, but sequence numbers run ahead of the positions by up to a lap: a producer that has
slept since the beginning takes a sequence number of `2 ^ 63` for one that is behind, and is refused
by a queue that may well be empty.

Main definitions:

* `QueueThread.writes` — the position a producer has claimed and not yet published;
* `QueueThread.Agrees`, `Matches` — what holds between the queue and the bounded FIFO.

Main results:

* `matches_of_exec` — **every history of the queue is one of a bounded FIFO**;
* `queue_refines_fifo` — what this says of `Push` and `TryPop`;
* `queue_refuses_spuriously` — a `Push` refused by an empty queue.
-/

import ExActor.BoundedMpscQueue
import Mathlib.Data.Nat.ModEq

set_option relaxedAutoImplicit false
set_option autoImplicit false

namespace ExActor

open BoundedFifo (History WellFormed claims releases publications)

/-! ### Words and positions -/

theorem ptrdiff_eq_zero_iff {a b : SizeT} : ptrdiff a b = 0 ↔ a = b := by
  unfold ptrdiff
  rw [← BitVec.toInt_zero (w := 64), BitVec.toInt_inj]
  constructor
  · intro h
    bv_omega
  · rintro rfl
    simp

/-- The difference of two words is that of the numbers they stand for, when these are close. -/
theorem ptrdiff_ofNat {a b : ℕ} (hlo : b ≤ a + 2 ^ 63) (hhi : a < b + 2 ^ 63) :
    ptrdiff (BitVec.ofNat 64 a) (BitVec.ofNat 64 b) = (a : ℤ) - b := by
  rw [ptrdiff, BitVec.toInt_sub, BitVec.toInt_ofNat', BitVec.toInt_ofNat', Int.bmod_sub_bmod,
    Int.sub_bmod_bmod]
  exact Int.bmod_eq_of_le (by omega) (by omega)

theorem ofNat_inj {a b : ℕ} (ha : a < 2 ^ 64) (hb : b < 2 ^ 64) :
    BitVec.ofNat 64 a = BitVec.ofNat 64 b ↔ a = b := by
  constructor
  · intro h
    have hnat := congrArg BitVec.toNat h
    rwa [BitVec.toNat_ofNat, BitVec.toNat_ofNat, Nat.mod_eq_of_lt ha, Nat.mod_eq_of_lt hb] at hnat
  · rintro rfl
    rfl

theorem ofNat_succ (a : ℕ) : BitVec.ofNat 64 a + 1 = BitVec.ofNat 64 (a + 1) := by
  rw [BitVec.ofNat_add]
  rfl

/-- Of any capacity many positions in a row, one has the cell of a given position. -/
theorem Capacity.exists_slot (C : Capacity) (first n : ℕ) :
    ∃ m, first ≤ m ∧ m < first + C.val ∧ C.slot m = C.slot n := by
  have hpos := C.pos
  have hlt := Nat.mod_lt first hpos
  refine ⟨first + (n + (C.val - first % C.val)) % C.val, by omega, ?_, ?_⟩
  · have := Nat.mod_lt (n + (C.val - first % C.val)) hpos
    omega
  · have hfirst := Nat.div_add_mod first C.val
    have hsum : first + (n + (C.val - first % C.val)) = n + C.val * (first / C.val + 1) := by
      rw [Nat.mul_succ]
      omega
    refine Fin.ext ?_
    change (first + (n + (C.val - first % C.val)) % C.val) % C.val = n % C.val
    rw [Nat.add_mod_mod, hsum, Nat.add_mul_mod_self_left]

/-- Positions less than a lap apart have different cells. -/
theorem Capacity.slot_inj {C : Capacity} {first m n : ℕ} (hm : first ≤ m)
    (hm' : m < first + C.val) (hn : first ≤ n) (hn' : n < first + C.val)
    (h : C.slot m = C.slot n) : m = n := by
  have hmod : m ≡ n [MOD C.val] := congrArg Fin.val h
  refine hmod.eq_of_abs_lt ?_
  rw [abs_lt]
  omega

/-- A cell serves positions of one parity. -/
theorem Capacity.slot_parity {C : Capacity} {m n : ℕ} (h : C.slot m = C.slot n) :
    m % 2 = n % 2 := by
  have hmod : m % C.val = n % C.val := congrArg Fin.val h
  have hdvd : 2 ∣ C.val := Nat.dvd_of_mod_eq_zero C.even
  rw [← Nat.mod_mod_of_dvd m hdvd, hmod, Nat.mod_mod_of_dvd n hdvd]

/-- Earlier positions of the same cell are at least a lap behind. -/
theorem Capacity.slot_lap {C : Capacity} {m n : ℕ} (h : C.slot m = C.slot n) (hlt : m < n) :
    m + C.val ≤ n := by
  have hmod : m ≡ n [MOD C.val] := congrArg Fin.val h
  have hdvd := (Nat.modEq_iff_dvd' hlt.le).1 hmod
  have := Nat.le_of_dvd (by omega) hdvd
  omega

theorem Capacity.slot_add (C : Capacity) (n : ℕ) : C.slot (n + C.val) = C.slot n :=
  Fin.ext (Nat.add_mod_right n C.val)

section Refinement

variable {α : Type} {C : Capacity}

theorem BoundedMpscQueue.setCell_buffer (q : BoundedMpscQueue α C) (pos : SizeT) (c : Cell α)
    (i : Fin C.val) :
    (q.setCell pos c).buffer i = if i = C.slot pos.toNat then c else q.buffer i := by
  rw [← C.index_eq]
  exact Function.update_apply ..

theorem BoundedMpscQueue.cell_eq (q : BoundedMpscQueue α C) (pos : SizeT) :
    q.cell pos = q.buffer (C.slot pos.toNat) := by
  rw [BoundedMpscQueue.cell, C.index_eq]

/-! ### What holds between the queue and the bounded FIFO -/

/-- The thread has claimed position `n` and not yet published it. -/
def QueueThread.writes (n : ℕ) : QueueThread α → ℕ
  | .push _ (.writeData pos) => if pos.toNat = n then 1 else 0
  | .push _ (.storeSequence pos) => if pos.toNat = n then 1 else 0
  | _ => 0

/-- The thread has moved the element at the head out of its cell. -/
def QueueThread.holdsData : QueueThread α → ℕ
  | .tryPop (.storeSequence _) => 1
  | _ => 0

/-- The thread has freed the cell of its element and not yet moved on to the next position. -/
def QueueThread.increments : QueueThread α → ℕ
  | .tryPop .increment => 1
  | _ => 0

/-- What a thread knows of the queue. -/
def QueueThread.Agrees (f : BoundedFifo (Option α)) (q : BoundedMpscQueue α C) :
    QueueThread α → Prop
  | .push _ .loadEnqueuePos => True
  | .push _ (.loadSequence pos) => ∃ n ≤ f.claimed.length, pos = BitVec.ofNat 64 n
  | .push _ (.compareExchange pos) =>
      ∃ n ≤ f.claimed.length, n < f.released + C.val ∧ pos = BitVec.ofNat 64 n
  | .push v (.writeData pos) => f.claimed[pos.toNat]? = some (some v)
  | .push v (.storeSequence pos) =>
      f.claimed[pos.toNat]? = some (some v) ∧ (q.buffer (C.slot pos.toNat)).data = some v
  | .tryPop .loadSequence => True
  | .tryPop .readData => f.released ∈ f.published
  | .tryPop (.storeSequence data) =>
      f.released ∈ f.published ∧ f.claimed[f.released]? = some data
  | .tryPop .increment => True

/-- What holds between the queue, its threads and the bounded FIFO. -/
structure Matches (f : BoundedFifo (Option α)) (p : QueuePool α C) :
    Prop where
  enqueuePos : p.shared.queue.enqueuePos = BitVec.ofNat 64 f.claimed.length
  dequeuePos : p.shared.queue.dequeuePos + BitVec.ofNat 64 (p.total QueueThread.increments)
    = BitVec.ofNat 64 f.released
  sequence : ∀ n, f.released ≤ n → n < f.released + C.val →
    (p.shared.queue.buffer (C.slot n)).sequence
      = BitVec.ofNat 64 (if n ∈ f.published then n + 1 else n)
  data : ∀ n ∈ f.published, f.released ≤ n →
    (n = f.released → p.total QueueThread.holdsData = 0) →
    f.claimed[n]? = some (p.shared.queue.buffer (C.slot n)).data
  writers : ∀ n, p.total (QueueThread.writes n)
    = if n < f.claimed.length ∧ n ∉ f.published then 1 else 0
  consumers : p.total QueueThread.isConsumer ≤ 1
  threads : ∀ t ∈ p.threads, t.Agrees f p.shared.queue

/-- The queue after its constructor matches the empty FIFO. -/
theorem matches_start : Matches BoundedFifo.empty
    (⟨BoundedMpscQueue.start α C, []⟩ : QueuePool α C) where
  enqueuePos := rfl
  dequeuePos := rfl
  sequence := by
    intro n _ hn
    have hslot : (C.slot n).val = n := Nat.mod_eq_of_lt (by simpa [BoundedFifo.empty] using hn)
    simp [BoundedMpscQueue.start, BoundedMpscQueue.initial, BoundedFifo.empty, hslot]
  data := by simp [BoundedFifo.empty]
  writers := by simp [BoundedFifo.empty]
  consumers := by simp
  threads := by simp

section OneStep

variable {f : BoundedFifo (Option α)} {s s' : QueueState α C} {l r : List (QueueThread α)}
  {t : QueueThread α}

/-- A step that leaves the members alone. -/
theorem Matches.frame {new : List (QueueThread α)} (h : Matches f ⟨s, l ++ t :: r⟩)
    (hqueue : s'.queue = s.queue)
    (hwrites : ∀ n, (new.map (QueueThread.writes n)).sum = t.writes n)
    (hconsumer : (new.map QueueThread.isConsumer).sum ≤ t.isConsumer)
    (hholds : (new.map QueueThread.holdsData).sum = t.holdsData)
    (hincrements : (new.map QueueThread.increments).sum = t.increments)
    (hnew : ∀ u ∈ new, u.Agrees f s.queue) : Matches f ⟨s', l ++ new ++ r⟩ where
  enqueuePos := by simpa only [hqueue] using h.enqueuePos
  dequeuePos := by
    rw [Pool.total_replace _ s s' t hincrements]
    simpa only [hqueue] using h.dequeuePos
  sequence := by simpa only [hqueue] using h.sequence
  data := by
    intro n hn hle hheld
    rw [Pool.total_replace _ s s' t hholds] at hheld
    simpa only [hqueue] using h.data n hn hle hheld
  writers := by
    intro n
    rw [Pool.total_replace _ s s' t (hwrites n)]
    exact h.writers n
  consumers := by
    have hle := h.consumers
    rw [Pool.total_before] at hle
    rw [Pool.total_after]
    omega
  threads := by
    refine Pool.forall_after h.threads ?_ ?_
    · intro u hu
      simpa only [hqueue] using hu
    · intro u hu
      simpa only [hqueue] using hnew u hu

/-- A position that is claimed and not published is in the queue. -/
theorem Matches.live {p : QueuePool α C} (h : Matches f p)
    (hf : WellFormed C.val f) {u : QueueThread α} {n : ℕ} (hu : u ∈ p.threads)
    (hn : u.writes n = 1) :
    n < f.claimed.length ∧ n ∉ f.published ∧ f.released ≤ n ∧ n < f.released + C.val := by
  have hwriters := h.writers n
  have hle := Pool.le_total_of_mem (w := QueueThread.writes n) hu
  split_ifs at hwriters with hlive
  · obtain ⟨hlt, hnew⟩ := hlive
    have hcap := hf.claimed_le
    refine ⟨hlt, hnew, ?_, by omega⟩
    by_contra hlo
    exact hnew (hf.published_of_lt n (by omega))
  · omega

/-- A thread that has claimed a position owns it: nobody else has. -/
theorem Matches.owner (h : Matches f ⟨s, l ++ t :: r⟩) {n : ℕ} (ht : t.writes n = 1) :
    ∀ u ∈ l ++ r, u.writes n = 0 := by
  have hn := h.writers n
  rw [Pool.total_before, ht] at hn
  refine Pool.others_eq_zero_iff.1 ?_
  split_ifs at hn <;> omega

/-- Nobody has claimed a position that is published. -/
theorem Matches.nobody (h : Matches f ⟨s, l ++ t :: r⟩) {n : ℕ} (hn : n ∈ f.published) :
    ∀ u ∈ l ++ r, u.writes n = 0 := by
  have hzero := h.writers n
  rw [if_neg (fun hlive => hlive.2 hn)] at hzero
  intro u hu
  exact Pool.total_eq_zero_iff.1 hzero u (Pool.mem_of_mem_others hu)

/-- The consumer is alone. -/
theorem Matches.alone (h : Matches f ⟨s, l ++ t :: r⟩) (ht : t.isConsumer = 1) :
    ∀ u ∈ l ++ r, u.isConsumer = 0 := by
  have hle := h.consumers
  rw [Pool.total_before, ht] at hle
  exact Pool.others_eq_zero_iff.1 (by omega)

/-- What only the consumer does, nobody else does. -/
theorem Matches.others_eq_zero (h : Matches f ⟨s, l ++ t :: r⟩) (ht : t.isConsumer = 1)
    {w : QueueThread α → ℕ} (hw : ∀ u, u.isConsumer = 0 → w u = 0) : Pool.others w l r = 0 :=
  Pool.others_eq_zero hw (Pool.others_eq_zero_iff.2 (h.alone ht))

theorem increments_eq_zero {u : QueueThread α} (hu : u.isConsumer = 0) : u.increments = 0 := by
  rcases u with ⟨v, pc⟩ | pc
  · rfl
  · simp [QueueThread.isConsumer] at hu

/-- Unless the consumer is about to increment it, `dequeue_pos_` is the next position to release. -/
theorem Matches.position {p : QueuePool α C} (h : Matches f p)
    (hzero : p.total QueueThread.increments = 0) :
    p.shared.queue.dequeuePos = BitVec.ofNat 64 f.released := by
  have hpos := h.dequeuePos
  rw [hzero] at hpos
  simpa using hpos

/-- The consumer, before it increments `dequeue_pos_`. -/
theorem Matches.total_increments (h : Matches f ⟨s, l ++ t :: r⟩) (ht : t.isConsumer = 1)
    (hbefore : t.increments = 0) :
    Pool.total QueueThread.increments (⟨s, l ++ t :: r⟩ : QueuePool α C) = 0 := by
  rw [Pool.total_before, hbefore, h.others_eq_zero ht fun _ => increments_eq_zero]

/-- Writing the cell of a claimed position leaves the cells of the others alone. -/
theorem setCell_of_ne {q : BoundedMpscQueue α C} {pos : SizeT} {c : Cell α} {n : ℕ}
    (hlo : f.released ≤ pos.toNat) (hhi : pos.toNat < f.released + C.val) (hn : f.released ≤ n)
    (hn' : n < f.released + C.val) (hne : n ≠ pos.toNat) :
    (q.setCell pos c).buffer (C.slot n) = q.buffer (C.slot n) := by
  rw [BoundedMpscQueue.setCell_buffer, if_neg]
  intro h
  exact hne (Capacity.slot_inj hn hn' hlo hhi h)

/-- A thread that does not own a position does not care about its cell. -/
theorem Matches.agrees_setCell (h : Matches f ⟨s, l ++ t :: r⟩) (hf : WellFormed C.val f)
    {pos : SizeT} {c : Cell α} (hlo : f.released ≤ pos.toNat)
    (hhi : pos.toNat < f.released + C.val) (hothers : ∀ u ∈ l ++ r, u.writes pos.toNat = 0) :
    ∀ u ∈ l ++ r, u.Agrees f (s.queue.setCell pos c) := by
  intro u hu
  have hmem := Pool.mem_of_mem_others (t := t) hu
  have hagrees := h.threads u hmem
  rcases u with ⟨v, pc⟩ | pc
  · cases pc with
    | storeSequence pos' =>
        obtain ⟨hclaimed, hdata⟩ := hagrees
        obtain ⟨-, -, hlo', hhi'⟩ := h.live hf (n := pos'.toNat) hmem (if_pos rfl)
        have hne : pos'.toNat ≠ pos.toNat := by
          intro heq
          have hzero := hothers _ hu
          simp [QueueThread.writes, heq] at hzero
        exact ⟨hclaimed, by rw [setCell_of_ne hlo hhi hlo' hhi' hne]; exact hdata⟩
    | _ => exact hagrees
  · cases pc <;> exact hagrees

/-! ### The steps of `Push` -/

/-- What a thread knows stays true while the line of elements grows. -/
theorem QueueThread.Agrees.claim {q q' : BoundedMpscQueue α C} {u : QueueThread α} {d : Option α}
    (hu : u.Agrees f q) (hbuffer : q'.buffer = q.buffer) :
    u.Agrees { f with claimed := f.claimed ++ [d] } q' := by
  rcases u with ⟨v, pc⟩ | pc
  · cases pc with
    | loadEnqueuePos => trivial
    | loadSequence pos =>
        obtain ⟨m, hm, rfl⟩ := hu
        exact ⟨m, by simp only [List.length_append]; omega, rfl⟩
    | compareExchange pos =>
        obtain ⟨m, hm, hlt, rfl⟩ := hu
        exact ⟨m, by simp only [List.length_append]; omega, hlt, rfl⟩
    | writeData pos =>
        obtain ⟨hlt, -⟩ := List.getElem?_eq_some_iff.1 hu
        simpa only [QueueThread.Agrees, List.getElem?_append_left hlt] using hu
    | storeSequence pos =>
        obtain ⟨hlt, -⟩ := List.getElem?_eq_some_iff.1 hu.1
        simpa only [QueueThread.Agrees, List.getElem?_append_left hlt, hbuffer] using hu
  · cases pc with
    | loadSequence | increment => trivial
    | readData => exact hu
    | storeSequence data =>
        obtain ⟨hlt, -⟩ := List.getElem?_eq_some_iff.1 hu.2
        simpa only [QueueThread.Agrees, List.getElem?_append_left hlt] using hu

/-- A claim by compare-exchange. -/
theorem Matches.claim {v : α} {pos : SizeT}
    (h : Matches f ⟨s, l ++ .push v (.compareExchange pos) :: r⟩) (hf : WellFormed C.val f)
    (hpos : s.queue.enqueuePos = pos) (hbound : f.claimed.length < 2 ^ 63)
    (e : BoundedFifo.Event (Option α)) :
    Matches { f with claimed := f.claimed ++ [some v] }
      ⟨{ s with queue := { s.queue with enqueuePos := pos + 1 } }.emit e,
        l ++ [.push v (.writeData pos)] ++ r⟩ := by
  have hnat : pos.toNat = f.claimed.length := by
    rw [← hpos, h.enqueuePos, BitVec.toNat_ofNat]
    exact Nat.mod_eq_of_lt (by omega)
  constructor
  · have := h.enqueuePos
    simp only [QueueState.emit, ← hpos] at this ⊢
    rw [this, ofNat_succ, List.length_append, List.length_singleton]
  · rw [Pool.total_replace QueueThread.increments s _ (.push v (.compareExchange pos)) rfl]
    exact h.dequeuePos
  · exact h.sequence
  · intro m hm hle hheld
    rw [Pool.total_replace QueueThread.holdsData s _ (.push v (.compareExchange pos)) rfl] at hheld
    rw [List.getElem?_append_left (hf.lt_of_published m hm)]
    exact h.data m hm hle hheld
  · intro m
    have hm := h.writers m
    have hfresh : f.claimed.length ∉ f.published := fun hp => absurd (hf.lt_of_published _ hp)
      (by omega)
    rw [Pool.total_before] at hm
    rw [Pool.total_after]
    simp only [QueueThread.writes, List.map_cons, List.map_nil, List.sum_cons, List.sum_nil, hnat,
      List.length_append, List.length_singleton] at hm ⊢
    by_cases hmn : f.claimed.length = m
    · -- the new position belongs to this thread, and it belonged to nobody
      subst hmn
      rw [if_neg (by omega)] at hm
      rw [if_pos rfl, if_pos ⟨by omega, hfresh⟩]
      omega
    · have hiff : (m < f.claimed.length + 1 ∧ m ∉ f.published)
          ↔ (m < f.claimed.length ∧ m ∉ f.published) :=
        and_congr_left fun _ => by omega
      rw [if_neg hmn, if_congr hiff rfl rfl]
      omega
  · rw [Pool.total_replace QueueThread.isConsumer s _ (.push v (.compareExchange pos)) rfl]
    exact h.consumers
  · refine Pool.forall_after h.threads (fun u hu => hu.claim rfl) ?_
    intro u hu
    obtain rfl := List.mem_singleton.1 hu
    simp only [QueueThread.Agrees, hnat]
    exact List.getElem?_concat_length

/-- A producer writes its element. -/
theorem Matches.writeData {v : α} {pos : SizeT}
    (h : Matches f ⟨s, l ++ .push v (.writeData pos) :: r⟩) (hf : WellFormed C.val f) :
    Matches f
      ⟨{ s with queue := s.queue.setCell pos { s.queue.cell pos with data := some v } },
        l ++ [.push v (.storeSequence pos)] ++ r⟩ := by
  have hmem : QueueThread.push v (.writeData pos) ∈ l ++ .push v (.writeData pos) :: r := by simp
  obtain ⟨hlt, hnew, hlo, hhi⟩ := h.live hf (n := pos.toNat) hmem (if_pos rfl)
  have hcap := hf.claimed_le
  constructor
  · exact h.enqueuePos
  · rw [Pool.total_replace QueueThread.increments s _ (.push v (.writeData pos)) rfl]
    exact h.dequeuePos
  · intro n hn hn'
    rw [← h.sequence n hn hn', BoundedMpscQueue.setCell_buffer]
    split
    · next hslot => rw [BoundedMpscQueue.cell_eq, hslot]
    · rfl
  · intro n hn hle hheld
    have hnlt := hf.lt_of_published n hn
    have hne : n ≠ pos.toNat := fun h => hnew (h ▸ hn)
    rw [Pool.total_replace QueueThread.holdsData s _ (.push v (.writeData pos)) rfl] at hheld
    rw [h.data n hn hle hheld, setCell_of_ne hlo hhi hle (by omega) hne]
  · intro n
    rw [Pool.total_replace (QueueThread.writes n) s _ (.push v (.writeData pos)) rfl]
    exact h.writers n
  · rw [Pool.total_replace QueueThread.isConsumer s _ (.push v (.writeData pos)) rfl]
    exact h.consumers
  · refine Pool.forall_replace (h.agrees_setCell hf hlo hhi (h.owner (if_pos rfl))) ?_
    intro u hu
    obtain rfl := List.mem_singleton.1 hu
    refine ⟨h.threads _ hmem, ?_⟩
    rw [BoundedMpscQueue.setCell_buffer, if_pos rfl]

/-- A producer publishes its element. -/
theorem Matches.publish {v : α} {pos : SizeT}
    (h : Matches f ⟨s, l ++ .push v (.storeSequence pos) :: r⟩) (hf : WellFormed C.val f)
    (e : BoundedFifo.Event (Option α)) :
    Matches { f with published := pos.toNat :: f.published }
      ⟨{ s with queue :=
          s.queue.setCell pos { s.queue.cell pos with sequence := pos + 1 } }.emit e,
        l ++ [] ++ r⟩ := by
  have hmem : QueueThread.push v (.storeSequence pos) ∈ l ++ .push v (.storeSequence pos) :: r := by
    simp
  obtain ⟨hclaimed, hdata⟩ := h.threads _ hmem
  obtain ⟨hlt, hnew, hlo, hhi⟩ := h.live hf (n := pos.toNat) hmem (if_pos rfl)
  have hcap := hf.claimed_le
  constructor
  · exact h.enqueuePos
  · rw [Pool.total_replace QueueThread.increments s _ (.push v (.storeSequence pos)) rfl]
    exact h.dequeuePos
  · intro n hn hn'
    by_cases heq : n = pos.toNat
    · subst heq
      simp only [QueueState.emit]
      rw [BoundedMpscQueue.setCell_buffer, if_pos rfl, if_pos List.mem_cons_self,
        ← ofNat_succ, BitVec.ofNat_toNat, BitVec.setWidth_eq]
    · simp only [QueueState.emit]
      rw [setCell_of_ne hlo hhi hn hn' heq, h.sequence n hn hn']
      simp only [List.mem_cons, heq, false_or]
  · intro n hn hle hheld
    by_cases heq : n = pos.toNat
    · subst heq
      simp only [QueueState.emit]
      rw [BoundedMpscQueue.setCell_buffer, if_pos rfl, BoundedMpscQueue.cell_eq, hclaimed, hdata]
    · have hn : n ∈ f.published := (List.mem_cons.1 hn).resolve_left heq
      have hnlt := hf.lt_of_published n hn
      rw [Pool.total_replace QueueThread.holdsData s _ (.push v (.storeSequence pos)) rfl] at hheld
      simp only [QueueState.emit]
      rw [h.data n hn hle hheld, setCell_of_ne hlo hhi hle (by omega) heq]
  · intro n
    have hn := h.writers n
    rw [Pool.total_before] at hn
    rw [Pool.total_after]
    simp only [QueueThread.writes, List.map_nil, List.sum_nil, List.mem_cons, not_or] at hn ⊢
    by_cases heq : pos.toNat = n
    · rw [if_pos heq] at hn
      rw [if_neg (fun hlive => hlive.2.1 heq.symm)]
      split_ifs at hn <;> omega
    · have hiff : (n < f.claimed.length ∧ ¬ n = pos.toNat ∧ n ∉ f.published)
          ↔ (n < f.claimed.length ∧ n ∉ f.published) :=
        and_congr_right fun _ => and_iff_right fun h => heq h.symm
      rw [if_neg heq] at hn
      rw [if_congr hiff rfl rfl, hn]
  · rw [Pool.total_replace QueueThread.isConsumer s _ (.push v (.storeSequence pos)) rfl]
    exact h.consumers
  · refine Pool.forall_replace ?_ (by simp)
    intro u hu
    have hagrees := h.agrees_setCell hf (c := { s.queue.cell pos with sequence := pos + 1 }) hlo hhi
      (h.owner (if_pos rfl)) u hu
    rcases u with ⟨v', pc⟩ | pc
    · cases pc <;> exact hagrees
    · cases pc with
      | loadSequence | increment => trivial
      | readData => exact List.mem_cons_of_mem _ hagrees
      | storeSequence data => exact ⟨List.mem_cons_of_mem _ hagrees.1, hagrees.2⟩

/-! ### The steps of `TryPop` -/

/-- The consumer moves the element at the head out of its cell. -/
theorem Matches.readData (h : Matches f ⟨s, l ++ .tryPop .readData :: r⟩)
    (hf : WellFormed C.val f) (hbound : f.claimed.length < 2 ^ 63) :
    let c := s.queue.cell s.queue.dequeuePos
    Matches f
      ⟨{ s with queue := s.queue.setCell s.queue.dequeuePos { c with data := none } },
        l ++ [.tryPop (.storeSequence c.data)] ++ r⟩ := by
  intro c
  have hcell : c = s.queue.buffer (C.slot s.queue.dequeuePos.toNat) :=
    BoundedMpscQueue.cell_eq ..
  have hhead : f.released ∈ f.published := h.threads (.tryPop .readData) (by simp)
  have hlast := hf.lt_of_published _ hhead
  have hcap := hf.claimed_le
  have hnat : s.queue.dequeuePos.toNat = f.released := by
    rw [h.position (h.total_increments rfl rfl), BitVec.toNat_ofNat]
    exact Nat.mod_eq_of_lt (by omega)
  have halone : Pool.total QueueThread.holdsData
      (⟨s, l ++ .tryPop .readData :: r⟩ : QueuePool α C) = 0 := by
    have hothers : Pool.others (QueueThread.holdsData (α := α)) l r = 0 := by
      refine h.others_eq_zero rfl ?_
      intro u hu
      rcases u with ⟨v, pc⟩ | pc
      · rfl
      · simp [QueueThread.isConsumer] at hu
    rw [Pool.total_before, hothers]
    rfl
  constructor
  · exact h.enqueuePos
  · rw [Pool.total_replace QueueThread.increments s _ (.tryPop .readData) rfl]
    exact h.dequeuePos
  · intro n hn hn'
    rw [← h.sequence n hn hn', BoundedMpscQueue.setCell_buffer]
    split
    · next hslot => rw [hcell, hslot]
    · rfl
  · intro n hn hle hheld
    have hnlt := hf.lt_of_published n hn
    have hne : n ≠ f.released := by
      intro heq
      have := hheld heq
      rw [Pool.total_after] at this
      simp [QueueThread.holdsData] at this
    rw [h.data n hn hle (fun _ => halone),
      setCell_of_ne (by omega) (by omega) hle (by omega) (by omega)]
  · intro n
    rw [Pool.total_replace (QueueThread.writes n) s _ (.tryPop .readData) rfl]
    exact h.writers n
  · rw [Pool.total_replace QueueThread.isConsumer s _ (.tryPop .readData) rfl]
    exact h.consumers
  · have hnobody : ∀ u ∈ l ++ r, u.writes s.queue.dequeuePos.toNat = 0 := by
      rw [hnat]
      exact h.nobody hhead
    refine Pool.forall_replace (h.agrees_setCell hf (by omega) (by omega) hnobody) ?_
    intro u hu
    obtain rfl := List.mem_singleton.1 hu
    refine ⟨hhead, ?_⟩
    rw [h.data _ hhead (Nat.le_refl _) (fun _ => halone), hcell, hnat]

/-- The consumer frees the cell of the element it returns. -/
theorem Matches.release {data : Option α}
    (h : Matches f ⟨s, l ++ .tryPop (.storeSequence data) :: r⟩) (hf : WellFormed C.val f)
    (hbound : f.claimed.length < 2 ^ 63) (e : BoundedFifo.Event (Option α)) :
    let pos := s.queue.dequeuePos
    let freed := { s.queue.cell pos with sequence := pos + BitVec.ofNat 64 C.val }
    Matches { f with released := f.released + 1 }
      ⟨{ s with queue := s.queue.setCell pos freed }.emit e,
        l ++ [.tryPop .increment] ++ r⟩ := by
  intro pos freed
  obtain ⟨hhead, -⟩ := h.threads (.tryPop (.storeSequence data)) (by simp)
  have hlast := hf.lt_of_published _ hhead
  have hcap := hf.claimed_le
  have hpos : pos = BitVec.ofNat 64 f.released := h.position (h.total_increments rfl rfl)
  have hnat : pos.toNat = f.released := by
    rw [hpos, BitVec.toNat_ofNat]
    exact Nat.mod_eq_of_lt (by omega)
  constructor
  · exact h.enqueuePos
  · have hothers := h.others_eq_zero rfl fun _ => increments_eq_zero
    rw [Pool.total_after, hothers]
    change pos + 1 = _
    rw [hpos, ofNat_succ]
  · intro n hn hn'
    have hn : f.released + 1 ≤ n := hn
    have hn' : n < f.released + 1 + C.val := hn'
    change ((s.queue.setCell pos freed).buffer (C.slot n)).sequence = _
    by_cases heq : n = f.released + C.val
    · -- the next lap of the cell that has been freed
      have hslot : C.slot n = C.slot pos.toNat := by rw [hnat, heq, C.slot_add]
      have hfree : n ∉ f.published := fun hp => absurd (hf.lt_of_published n hp) (by omega)
      rw [BoundedMpscQueue.setCell_buffer, if_pos hslot, if_neg hfree]
      change pos + BitVec.ofNat 64 C.val = _
      rw [hpos, ← BitVec.ofNat_add, heq]
    · rw [setCell_of_ne (f := f) (by omega) (by omega) (by omega) (by omega) (by omega)]
      exact h.sequence n (by omega) (by omega)
  · intro n hn hle hheld
    have hle : f.released + 1 ≤ n := hle
    have hnlt := hf.lt_of_published n hn
    change f.claimed[n]? = some ((s.queue.setCell pos freed).buffer (C.slot n)).data
    rw [h.data n hn (by omega) (by omega),
      setCell_of_ne (f := f) (by omega) (by omega) (by omega) (by omega) (by omega)]
  · intro n
    rw [Pool.total_replace (QueueThread.writes n) s _ (.tryPop (.storeSequence data)) rfl]
    exact h.writers n
  · rw [Pool.total_replace QueueThread.isConsumer s _ (.tryPop (.storeSequence data)) rfl]
    exact h.consumers
  · refine Pool.forall_replace ?_ (by simp [QueueThread.Agrees])
    intro u hu
    have hnobody : ∀ u ∈ l ++ r, u.writes pos.toNat = 0 := by
      rw [hnat]
      exact h.nobody hhead
    have hagrees := h.agrees_setCell hf (c := freed) (by omega) (by omega) hnobody u hu
    rcases u with ⟨v, pc⟩ | pc
    · cases pc with
      | compareExchange pos' =>
          obtain ⟨n, hn, hlt, rfl⟩ := hagrees
          exact ⟨n, hn, by simp only; omega, rfl⟩
      | _ => exact hagrees
    · exact absurd (h.alone rfl _ hu) (by simp [QueueThread.isConsumer])

/-- The consumer moves on to the next position. -/
theorem Matches.increment (h : Matches f ⟨s, l ++ .tryPop .increment :: r⟩) :
    Matches f
      ⟨{ s with queue := { s.queue with dequeuePos := s.queue.dequeuePos + 1 } },
        l ++ [] ++ r⟩ where
  enqueuePos := h.enqueuePos
  dequeuePos := by
    have hpos := h.dequeuePos
    have hothers := h.others_eq_zero rfl fun _ => increments_eq_zero
    rw [Pool.total_before, hothers] at hpos
    rw [Pool.total_after, hothers]
    change s.queue.dequeuePos + 1 + 0#64 = _
    rw [BitVec.add_zero, ← hpos]
    rfl
  sequence := h.sequence
  data := by
    intro n hn hle hheld
    rw [Pool.total_replace QueueThread.holdsData s _ (.tryPop .increment) rfl] at hheld
    exact h.data n hn hle hheld
  writers := by
    intro n
    rw [Pool.total_replace (QueueThread.writes n) s _ (.tryPop .increment) rfl]
    exact h.writers n
  consumers := by
    have hle := h.consumers
    rw [Pool.total_before] at hle
    rw [Pool.total_after]
    simp only [List.map_nil, List.sum_nil]
    omega
  threads := by
    refine Pool.forall_replace ?_ (by simp)
    intro u hu
    have hagrees := h.threads u (Pool.mem_of_mem_others hu)
    rcases u with ⟨v, pc⟩ | pc
    · cases pc <;> exact hagrees
    · exact absurd (h.alone rfl _ hu) (by simp [QueueThread.isConsumer])

/-! ### What a loaded sequence number says -/

/-- The cell of a position holds the sequence number of some lap. -/
theorem Matches.lap {p : QueuePool α C} (h : Matches f p) (n : ℕ) :
    ∃ m, f.released ≤ m ∧ m < f.released + C.val ∧ C.slot m = C.slot n ∧
      (p.shared.queue.buffer (C.slot n)).sequence
        = BitVec.ofNat 64 (if m ∈ f.published then m + 1 else m) := by
  obtain ⟨m, hlo, hhi, hslot⟩ := C.exists_slot f.released n
  exact ⟨m, hlo, hhi, hslot, by rw [← hslot, h.sequence m hlo hhi]⟩

/-- A producer that finds its position in its cell may claim it. -/
theorem Matches.claimable {p : QueuePool α C} (h : Matches f p)
    (hf : WellFormed C.val f) (hbound : f.claimed.length < 2 ^ 63) {n : ℕ}
    (hn : n ≤ f.claimed.length)
    (heq : (p.shared.queue.cell (BitVec.ofNat 64 n)).sequence = BitVec.ofNat 64 n) :
    n < f.released + C.val := by
  obtain ⟨m, hlo, hhi, hslot, hseq⟩ := h.lap n
  have hle := C.le
  have hreleased := hf.released_le
  have hnat : (BitVec.ofNat 64 n).toNat = n := by
    rw [BitVec.toNat_ofNat]
    exact Nat.mod_eq_of_lt (by omega)
  rw [BoundedMpscQueue.cell_eq, hnat, hseq] at heq
  have hparity := Capacity.slot_parity hslot
  split at heq
  · have := (ofNat_inj (by omega) (by omega)).1 heq
    omega
  · have := (ofNat_inj (by omega) (by omega)).1 heq
    omega

/-- A producer that finds its cell behind its position faces a full queue, as long as no sequence
number exceeds `2 ^ 63`. -/
theorem Matches.full {p : QueuePool α C} (h : Matches f p)
    (hf : WellFormed C.val f) (hbound : f.claimed.length < 2 ^ 63) {n : ℕ}
    (hn : n ≤ f.claimed.length) (hlimit : f.released + C.val ≤ 2 ^ 63)
    (hneg : ptrdiff (p.shared.queue.cell (BitVec.ofNat 64 n)).sequence (BitVec.ofNat 64 n) < 0) :
    f.claimed.length = f.released + C.val := by
  obtain ⟨m, hlo, hhi, hslot, hseq⟩ := h.lap n
  have hcap := hf.claimed_le
  have hnat : (BitVec.ofNat 64 n).toNat = n := by
    rw [BitVec.toNat_ofNat]
    exact Nat.mod_eq_of_lt (by omega)
  have hparity := Capacity.slot_parity hslot
  rw [BoundedMpscQueue.cell_eq, hnat, hseq] at hneg
  -- the difference is that of the numbers, so the lap in the cell is an earlier one
  have hlt : m < n := by
    split at hneg
    · rw [ptrdiff_ofNat (by omega) (by omega)] at hneg
      omega
    · rw [ptrdiff_ofNat (by omega) (by omega)] at hneg
      omega
  have := Capacity.slot_lap hslot hlt
  omega

/-- The consumer finds the element at the head in its cell, or the cell still waits for it. -/
theorem Matches.head {p : QueuePool α C} (h : Matches f p)
    (hf : WellFormed C.val f) (hbound : f.claimed.length < 2 ^ 63)
    (hzero : p.total QueueThread.increments = 0) :
    let pos := p.shared.queue.dequeuePos
    ptrdiff (p.shared.queue.cell pos).sequence (pos + 1)
      = if f.released ∈ f.published then 0 else -1 := by
  intro pos
  have hle := hf.released_le
  have hpos : pos = BitVec.ofNat 64 f.released := h.position hzero
  have hnat : pos.toNat = f.released := by
    rw [hpos, BitVec.toNat_ofNat]
    exact Nat.mod_eq_of_lt (by omega)
  have hcap := C.pos
  rw [BoundedMpscQueue.cell_eq, hnat, h.sequence _ (Nat.le_refl _) (by omega), hpos, ofNat_succ]
  split
  · rw [ptrdiff_ofNat (by omega) (by omega)]
    omega
  · rw [ptrdiff_ofNat (by omega) (by omega)]
    omega

/-! ### Every step -/

/-- **A step of `Push`** is a step of the bounded FIFO, or none. -/
theorem Matches.pushStep {v : α} {pc : ProducerPc} {spurious : Bool}
    (h : Matches f ⟨s, l ++ .push v pc :: r⟩) (hf : WellFormed C.val f)
    (hlog : History C.val (2 ^ 63) s.log f) (hbound : f.claimed.length < 2 ^ 63) :
    let after := ExActor.pushStep s v spurious pc
    ∃ f', History C.val (2 ^ 63) after.1.log f' ∧ Matches f' ⟨after.1, l ++ after.2 ++ r⟩ := by
  intro after
  have hagrees : (QueueThread.push v pc).Agrees f s.queue := h.threads _ (by simp)
  cases pc with
  | loadEnqueuePos =>
      refine ⟨f, hlog, h.frame rfl (fun _ => rfl) (Nat.le_refl _) rfl rfl ?_⟩
      intro u hu
      obtain rfl := List.mem_singleton.1 hu
      exact ⟨_, Nat.le_refl _, h.enqueuePos⟩
  | loadSequence pos =>
      obtain ⟨n, hn, rfl⟩ := hagrees
      simp only [after, ExActor.pushStep]
      split
      · next hzero =>
          refine ⟨f, hlog, h.frame rfl (fun _ => rfl) (Nat.le_refl _) rfl rfl ?_⟩
          intro u hu
          obtain rfl := List.mem_singleton.1 hu
          exact ⟨n, hn, h.claimable hf hbound hn (ptrdiff_eq_zero_iff.1 hzero), rfl⟩
      · split
        · next hneg =>
            refine ⟨f, hlog.snoc (.refuse ?_),
              h.frame rfl (fun _ => rfl) (Nat.le_refl _) rfl rfl ?_⟩
            · intro hlimit
              exact h.full hf hbound hn hlimit hneg
            · simp
        · refine ⟨f, hlog, h.frame rfl (fun _ => rfl) (Nat.le_refl _) rfl rfl ?_⟩
          intro u hu
          obtain rfl := List.mem_singleton.1 hu
          trivial
  | compareExchange pos =>
      obtain ⟨n, hn, hlt, hpos⟩ := hagrees
      simp only [after, ExActor.pushStep]
      split
      · next hwin =>
          -- the position is still the next one, so it was the next one all the time
          have hlast : n = f.claimed.length := by
            have henq : s.queue.enqueuePos = BitVec.ofNat 64 f.claimed.length := h.enqueuePos
            rw [hwin.1, hpos] at henq
            exact (ofNat_inj (by omega) (by omega)).1 henq
          exact ⟨_, hlog.snoc (.claim _ (by omega)), h.claim hf hwin.1 hbound _⟩
      · refine ⟨f, hlog, h.frame rfl (fun _ => rfl) (Nat.le_refl _) rfl rfl ?_⟩
        intro u hu
        obtain rfl := List.mem_singleton.1 hu
        exact ⟨_, Nat.le_refl _, h.enqueuePos⟩
  | writeData pos => exact ⟨f, hlog, h.writeData hf⟩
  | storeSequence pos =>
      obtain ⟨hlt, hnew, -⟩ := h.live hf (u := .push v (.storeSequence pos)) (n := pos.toNat)
        (by simp) (if_pos rfl)
      exact ⟨_, hlog.snoc (.publish _ hlt hnew), h.publish hf _⟩

/-- **A step of `TryPop`** is a step of the bounded FIFO, or none. -/
theorem Matches.tryPopStep {pc : ConsumerPc α} (h : Matches f ⟨s, l ++ .tryPop pc :: r⟩)
    (hf : WellFormed C.val f) (hlog : History C.val (2 ^ 63) s.log f)
    (hbound : f.claimed.length < 2 ^ 63) :
    let after := ExActor.tryPopStep s pc
    ∃ f', History C.val (2 ^ 63) after.1.log f' ∧ Matches f' ⟨after.1, l ++ after.2 ++ r⟩ := by
  intro after
  have hagrees : (QueueThread.tryPop pc).Agrees f s.queue := h.threads _ (by simp)
  cases pc with
  | loadSequence =>
      have hdiff := h.head hf hbound (h.total_increments rfl rfl)
      simp only [after, ExActor.tryPopStep, hdiff]
      by_cases hhead : f.released ∈ f.published
      · simp only [if_pos hhead]
        refine ⟨f, hlog, h.frame rfl (fun _ => rfl) (Nat.le_refl _) rfl rfl ?_⟩
        intro u hu
        obtain rfl := List.mem_singleton.1 hu
        exact hhead
      · simp only [if_neg hhead]
        exact ⟨f, hlog.snoc (.miss hhead),
          h.frame rfl (fun _ => rfl) (Nat.zero_le _) rfl rfl (by simp)⟩
  | readData => exact ⟨f, hlog, h.readData hf hbound⟩
  | storeSequence data =>
      exact ⟨_, hlog.snoc (.release _ hagrees.1 hagrees.2), h.release hf hbound _⟩
  | increment => exact ⟨f, hlog, h.increment⟩

end OneStep

/-! ### Every run -/

/-- What happened is not forgotten, and only values are claimed for. -/
theorem queueStep_log (s : QueueState α C) (t : QueueThread α) (spurious : Bool) :
    (queueStep s t spurious).1.log = s.log ∨
      ∃ e, (queueStep s t spurious).1.log = s.log ++ [e] ∧
        ∀ d ∈ e.claimed, ∃ v pos, d = some v ∧ t = .push v (.compareExchange pos) ∧
          (queueStep s t spurious).2 = [.push v (.writeData pos)] := by
  rcases t with ⟨v, pc⟩ | pc
  · cases pc with
    | loadEnqueuePos | writeData => exact Or.inl rfl
    | loadSequence pos =>
        simp only [queueStep, pushStep]
        split
        · exact Or.inl rfl
        · split
          · exact Or.inr ⟨_, rfl, by simp [BoundedFifo.Event.claimed]⟩
          · exact Or.inl rfl
    | compareExchange pos =>
        simp only [queueStep, pushStep]
        split
        · exact Or.inr ⟨_, rfl, by simp [BoundedFifo.Event.claimed]⟩
        · exact Or.inl rfl
    | storeSequence pos => exact Or.inr ⟨_, rfl, by simp [BoundedFifo.Event.claimed]⟩
  · cases pc with
    | loadSequence =>
        simp only [queueStep, tryPopStep]
        split
        · exact Or.inr ⟨_, rfl, by simp [BoundedFifo.Event.claimed]⟩
        · split
          · exact Or.inl rfl
          · exact Or.inr ⟨_, rfl, by simp [BoundedFifo.Event.claimed]⟩
    | readData | increment => exact Or.inl rfl
    | storeSequence => exact Or.inr ⟨_, rfl, by simp [BoundedFifo.Event.claimed]⟩

theorem queueStep_of_run {s s' : QueueState α C} {t : QueueThread α} {spurious : Bool}
    {new : List (QueueThread α)}
    (h : (BoundedMpscQueue.program α C).run s t spurious = some (s', new)) :
    s' = (queueStep s t spurious).1 ∧ new = (queueStep s t spurious).2 := by
  have h : queueStep s t spurious = (s', new) := Option.some.inj h
  rw [h]
  exact ⟨rfl, rfl⟩

theorem claims_queueStep_le (s : QueueState α C) (t : QueueThread α) (spurious : Bool) :
    (claims s.log).length ≤ (claims (queueStep s t spurious).1.log).length := by
  rcases queueStep_log s t spurious with h | ⟨e, h, -⟩
  · rw [h]
  · rw [h, BoundedFifo.claims_snoc, List.length_append]
    omega

/-- A call that arrives changes nothing. -/
theorem arriveQueue_spec {p : QueuePool α C} {i : QueueCall α}
    {s : QueueState α C} {t : QueueThread α} (h : arriveQueue p i = some (s, t)) :
    s = p.shared ∧ ((∃ v, i = .push v ∧ t = .push v .loadEnqueuePos) ∨
      (i = .tryPop ∧ t = .tryPop .loadSequence ∧ p.total QueueThread.isConsumer = 0)) := by
  cases i with
  | push v =>
      obtain ⟨rfl, rfl⟩ := by simpa [arriveQueue] using h
      exact ⟨rfl, Or.inl ⟨v, rfl, rfl⟩⟩
  | tryPop =>
      simp only [arriveQueue] at h
      split at h
      · next hfree =>
          obtain ⟨rfl, rfl⟩ := by simpa using h
          exact ⟨rfl, Or.inr ⟨rfl, rfl, hfree⟩⟩
      · simp at h

/-- A call that arrives knows nothing yet. -/
theorem Matches.arrive {f : BoundedFifo (Option α)}
    {p : QueuePool α C} {t : QueueThread α} (h : Matches f p)
    (hwrites : ∀ n, t.writes n = 0) (hholds : t.holdsData = 0) (hincrements : t.increments = 0)
    (hconsumer : p.total QueueThread.isConsumer + t.isConsumer ≤ 1)
    (ht : t.Agrees f p.shared.queue) : Matches f ⟨p.shared, p.threads ++ [t]⟩ where
  enqueuePos := h.enqueuePos
  dequeuePos := by
    rw [Pool.total_arrive _ p, hincrements, Nat.add_zero]
    exact h.dequeuePos
  sequence := h.sequence
  data := by
    intro n hn hle hheld
    rw [Pool.total_arrive _ p, hholds, Nat.add_zero] at hheld
    exact h.data n hn hle hheld
  writers := by
    intro n
    rw [Pool.total_arrive _ p, hwrites, Nat.add_zero]
    exact h.writers n
  consumers := by
    rw [Pool.total_arrive _ p]
    exact hconsumer
  threads := Pool.forall_arrive h.threads (fun _ hu => hu) ht

/-- **Every history of the queue is one of a bounded FIFO**, with fewer than `2 ^ 63` claims. -/
theorem matches_of_exec {tr : List (QueuePool α C × QueueAction α)}
    {p : QueuePool α C} (h : (BoundedMpscQueue.machine α C).Exec tr p)
    (hfew : (claims p.shared.log).length < 2 ^ 63) :
    ∃ f, History C.val (2 ^ 63) p.shared.log f ∧ Matches f p := by
  revert hfew
  refine ThreadProgram.invariantWhere (C := fun _ _ => True)
    (I := fun p => (claims p.shared.log).length < 2 ^ 63 →
      ∃ f, History C.val (2 ^ 63) p.shared.log f ∧ Matches f p) ?_ ?_ ?_ h (Machine.meets_true tr)
  · rintro s rfl _
    exact ⟨_, .nil, matches_start⟩
  · intro _ p i s t _ _ hI _ hat hfew
    obtain ⟨rfl, hcall⟩ := arriveQueue_spec hat
    obtain ⟨f, hlog, hmatches⟩ := hI hfew
    refine ⟨f, hlog, ?_⟩
    rcases hcall with ⟨v, -, rfl⟩ | ⟨-, rfl, hfree⟩
    · exact hmatches.arrive (fun _ => rfl) rfl rfl hmatches.consumers trivial
    · exact hmatches.arrive (fun _ => rfl) rfl rfl (by rw [hfree]; exact Nat.le_refl 1) trivial
  · intro _ s s' l t r new spurious _ _ hI _ hrun hfew
    obtain ⟨rfl, rfl⟩ := queueStep_of_run hrun
    have hbefore := Nat.lt_of_le_of_lt (claims_queueStep_le s t spurious) hfew
    obtain ⟨f, hlog, hmatches⟩ := hI hbefore
    simp only [← hlog.claimed_eq] at hbefore
    rcases t with ⟨v, pc⟩ | pc
    · exact hmatches.pushStep hlog.wellFormed hlog hbefore
    · exact hmatches.tryPopStep hlog.wellFormed hlog hbefore

/-- The action is a call of `Push`. -/
def isPushCall : QueueAction α → Bool
  | .arrive (.push _) => true
  | _ => false

/-- How often `Push` has been called. -/
def pushCalls (tr : List (QueuePool α C × QueueAction α)) :
    ℕ := tr.countP fun step => isPushCall step.2

theorem pushCalls_snoc
    (tr : List (QueuePool α C × QueueAction α))
    (p : QueuePool α C) (a : QueueAction α) :
    pushCalls (tr ++ [(p, a)]) = pushCalls tr + if isPushCall a then 1 else 0 := by
  rw [pushCalls, List.countP_append, List.countP_singleton]
  rfl

/-- The thread is a `Push` that has not claimed a position yet. -/
def QueueThread.unclaimed : QueueThread α → ℕ
  | .push _ .loadEnqueuePos => 1
  | .push _ (.loadSequence _) => 1
  | .push _ (.compareExchange _) => 1
  | _ => 0

/-- A `Push` claims one position. -/
theorem unclaimed_queueStep (s : QueueState α C) (t : QueueThread α) (spurious : Bool) :
    (claims (queueStep s t spurious).1.log).length
        + ((queueStep s t spurious).2.map QueueThread.unclaimed).sum
      ≤ (claims s.log).length + t.unclaimed := by
  rcases t with ⟨v, pc⟩ | pc
  · cases pc with
    | loadEnqueuePos | writeData => exact Nat.le_refl _
    | loadSequence pos =>
        simp only [queueStep, pushStep]
        split
        · exact Nat.le_refl _
        · split
          · simp [QueueState.emit, BoundedFifo.claims_snoc, BoundedFifo.Event.claimed]
          · exact Nat.le_refl _
    | compareExchange pos =>
        simp only [queueStep, pushStep]
        split
        · simp [QueueState.emit, BoundedFifo.claims_snoc, BoundedFifo.Event.claimed,
            QueueThread.unclaimed]
        · exact Nat.le_refl _
    | storeSequence pos =>
        simp [queueStep, pushStep, QueueState.emit, BoundedFifo.claims_snoc,
          BoundedFifo.Event.claimed]
  · cases pc with
    | loadSequence =>
        simp only [queueStep, tryPopStep]
        split
        · simp [QueueState.emit, BoundedFifo.claims_snoc, BoundedFifo.Event.claimed]
        · split
          · exact Nat.le_refl _
          · simp [QueueState.emit, BoundedFifo.claims_snoc, BoundedFifo.Event.claimed]
    | readData | increment => exact Nat.le_refl _
    | storeSequence =>
        simp [queueStep, tryPopStep, QueueState.emit, BoundedFifo.claims_snoc,
          BoundedFifo.Event.claimed, QueueThread.unclaimed]

/-- There are no more claims than calls. -/
theorem claims_le_pushCalls
    {tr : List (QueuePool α C × QueueAction α)}
    {p : QueuePool α C} (h : (BoundedMpscQueue.machine α C).Exec tr p) :
    (claims p.shared.log).length + p.total QueueThread.unclaimed ≤ pushCalls tr := by
  induction h with
  | init hinit =>
      obtain ⟨hs, hts⟩ := hinit
      simp [Pool.total, hts, hs, BoundedMpscQueue.start, claims]
  | @step tr p p' a hex hn ih =>
      rw [pushCalls_snoc]
      cases a with
      | arrive i =>
          obtain ⟨s, t, hat, rfl⟩ := ThreadProgram.next_arrive_iff.1 hn
          obtain ⟨rfl, ⟨v, rfl, rfl⟩ | ⟨rfl, rfl, -⟩⟩ := arriveQueue_spec hat
          · rw [Pool.total_arrive _ p, if_pos (by simp [isPushCall])]
            simp only [QueueThread.unclaimed]
            omega
          · rw [Pool.total_arrive _ p, if_neg (by simp [isPushCall])]
            simp only [QueueThread.unclaimed]
            omega
      | run n spurious =>
          obtain ⟨l, t, r, s, new, hp, -, hrun, rfl⟩ := ThreadProgram.next_run_iff.1 hn
          obtain ⟨rfl, rfl⟩ := queueStep_of_run hrun
          rcases p with ⟨s, ts⟩
          obtain rfl : ts = l ++ t :: r := hp
          have hstep := unclaimed_queueStep s t spurious
          rw [Pool.total_before] at ih
          rw [Pool.total_after, if_neg (by simp [isPushCall])]
          simp only at ih ⊢
          omega

/-- Every claim is for the value of a `Push`. -/
theorem claims_some
    {tr : List (QueuePool α C × QueueAction α)}
    {p : QueuePool α C} (h : (BoundedMpscQueue.machine α C).Exec tr p) :
    none ∉ claims p.shared.log := by
  refine ThreadProgram.invariantWhere (C := fun _ _ => True)
    (I := fun p => none ∉ claims p.shared.log) ?_ ?_ ?_ h (Machine.meets_true tr)
  · rintro s rfl
    simp [BoundedMpscQueue.start, claims]
  · intro _ p i s t _ _ hI _ hat
    obtain ⟨rfl, -⟩ := arriveQueue_spec hat
    exact hI
  · intro _ s s' l t r new spurious _ _ hI _ hrun
    obtain ⟨rfl, rfl⟩ := queueStep_of_run hrun
    rcases queueStep_log s t spurious with hlog | ⟨e, hlog, hvalue⟩
    · simpa only [hlog] using hI
    · simp only [hlog, BoundedFifo.claims_snoc, List.mem_append, not_or]
      refine ⟨hI, ?_⟩
      intro hmem
      obtain ⟨v, -, hv, -⟩ := hvalue none (by simpa using hmem)
      simp at hv

/-- **`BoundedMpscQueue` refines a bounded FIFO.**  With fewer than `2 ^ 63` pushes, its history is
one of a FIFO whose capacity is the requested one rounded up, which never faults; the values are
returned in the order in which they were claimed; a push is refused only while a capacity of claimed
elements is not released, as long as `2 ^ 63` less a capacity have been released at most; and a pop
misses only while the element at the head is not published. -/
theorem queue_refines_fifo {capacity : ℕ} (hC : allocate capacity = some C)
    {tr : List (QueuePool α C × QueueAction α)}
    {p : QueuePool α C} (h : (BoundedMpscQueue.machine α C).Exec tr p)
    (hfew : pushCalls tr < 2 ^ 63) :
    (∃ f, History (bitCeil (max capacity 2)) (2 ^ 63) p.shared.log f) ∧
      releases p.shared.log <+: claims p.shared.log ∧ none ∉ claims p.shared.log ∧
      (∀ l r, p.shared.log = l ++ .refuse :: r →
        (releases l).length + bitCeil (max capacity 2) ≤ 2 ^ 63 →
        (claims l).length = (releases l).length + bitCeil (max capacity 2)) ∧
      ∀ l r, p.shared.log = l ++ .miss :: r → (releases l).length ∉ publications l := by
  have hval : C.val = bitCeil (max capacity 2) := by
    unfold allocate at hC
    split at hC
    · obtain rfl := Option.some.inj hC
      rfl
    · simp at hC
  have hclaims := claims_le_pushCalls h
  obtain ⟨f, hlog, -⟩ := matches_of_exec h (by omega)
  rw [← hval]
  refine ⟨⟨f, hlog⟩, hlog.released_prefix, claims_some h, ?_, ?_⟩
  · intro l r heq hlimit
    rw [heq] at hlog
    exact hlog.refuse_full hlimit
  · intro l r heq
    rw [heq] at hlog
    exact hlog.miss_unpublished

end Refinement

/-- The capacity two. -/
def Capacity.two : Capacity := ⟨2, 1, by omega, by omega, rfl⟩

/-- A thread of the queue takes several steps. -/
def queueSteps (n count : ℕ) : List (QueueAction ℕ) := List.replicate count (.run n false)

/-- Two pushes fill a queue of capacity two and a third one is refused.  The second element is
published first, so a pop misses; after the first one is published, a pop returns it. -/
theorem queue_refines_fifo_two :
    allocate 1 = some Capacity.two ∧
    ∃ (tr : List (QueuePool ℕ Capacity.two × QueueAction ℕ)) (p : QueuePool ℕ Capacity.two),
      (BoundedMpscQueue.machine ℕ Capacity.two).Exec tr p ∧ pushCalls tr < 2 ^ 63 ∧
      p.shared.log = [.claim (some 10), .claim (some 20), .publish 1, .refuse, .miss, .publish 0,
        .release (some 10)] ∧
      releases p.shared.log <+: claims p.shared.log := by
  let L : List (QueueAction ℕ) :=
    [.arrive (.push 10), .arrive (.push 20), .arrive (.push 30)]
      ++ queueSteps 0 3 ++ queueSteps 1 5 ++ queueSteps 1 2 ++ [.arrive .tryPop, .run 1 false]
      ++ queueSteps 0 2 ++ [.arrive .tryPop] ++ queueSteps 0 4
  have hC : allocate 1 = some Capacity.two := by decide
  have h0 : (BoundedMpscQueue.machine ℕ Capacity.two).init
      ⟨BoundedMpscQueue.start ℕ Capacity.two, []⟩ := ⟨rfl, rfl⟩
  obtain ⟨p, hex, hp⟩ := Machine.exists_exec_of_replay h0 L (fun p => p.shared.log)
    [.claim (some 10), .claim (some 20), .publish 1, .refuse, .miss, .publish 0,
      .release (some 10)] (by decide)
  have hfew : pushCalls ((BoundedMpscQueue.machine ℕ Capacity.two).replayTrace
      ⟨BoundedMpscQueue.start ℕ Capacity.two, []⟩ L) < 2 ^ 63 := by decide
  exact ⟨hC, _, p, hex, hfew, hp, (queue_refines_fifo hC hex hfew).2.1⟩

section Refinement

variable {α : Type} {C : Capacity}

/-! ### A push refused by an empty queue -/

/-- No sequence number reaches `2 ^ 63`, and so no difference overflows, as long as the claims stay
a capacity below it. -/
theorem sequence_lt_of_exec {tr : List (QueuePool α C × QueueAction α)} {p : QueuePool α C}
    (h : (BoundedMpscQueue.machine α C).Exec tr p)
    (hfew : (claims p.shared.log).length + C.val ≤ 2 ^ 63) (n : ℕ) :
    (p.shared.queue.buffer (C.slot n)).sequence.toNat < 2 ^ 63 := by
  have hpos := C.pos
  obtain ⟨f, hlog, hmatches⟩ := matches_of_exec h (by omega)
  obtain ⟨m, -, hhi, -, hseq⟩ := hmatches.lap n
  have hle := hlog.wellFormed.released_le
  rw [← hlog.claimed_eq] at hfew
  rw [hseq, BitVec.toNat_ofNat]
  split
  · next hm =>
      have := hlog.wellFormed.lt_of_published m hm
      rw [Nat.mod_eq_of_lt (by omega)]
      omega
  · rw [Nat.mod_eq_of_lt (by omega)]
    omega

/-- A run with `k` calls of `Push` leads to the state. -/
def BoundedMpscQueue.Reaches (k : ℕ) (p : QueuePool α C) : Prop :=
  ∃ tr, (BoundedMpscQueue.machine α C).Exec tr p ∧ pushCalls tr = k

namespace BoundedMpscQueue.Reaches

variable {k : ℕ} {p : QueuePool α C} {s s' : QueueState α C} {t : QueueThread α}
  {l r new : List (QueueThread α)}

theorem start : Reaches 0 (⟨BoundedMpscQueue.start α C, []⟩ : QueuePool α C) :=
  ⟨[], .init ⟨rfl, rfl⟩, rfl⟩

theorem push (h : Reaches k p) (v : α) :
    Reaches (k + 1) ⟨p.shared, p.threads ++ [.push v .loadEnqueuePos]⟩ := by
  obtain ⟨tr, hex, rfl⟩ := h
  have hn : (machine α C).next p (.arrive (.push v))
      = some ⟨p.shared, p.threads ++ [.push v .loadEnqueuePos]⟩ := rfl
  exact ⟨_, hex.step hn, pushCalls_snoc ..⟩

theorem tryPop (h : Reaches k p) (hfree : p.total QueueThread.isConsumer = 0) :
    Reaches k ⟨p.shared, p.threads ++ [.tryPop .loadSequence]⟩ := by
  obtain ⟨tr, hex, rfl⟩ := h
  have hat : arriveQueue p .tryPop = some (p.shared, .tryPop .loadSequence) := if_pos hfree
  have hn : (machine α C).next p (.arrive .tryPop)
      = some ⟨p.shared, p.threads ++ [.tryPop .loadSequence]⟩ :=
    ThreadProgram.next_arrive_iff.2 ⟨_, _, hat, rfl⟩
  exact ⟨_, hex.step hn, pushCalls_snoc ..⟩

theorem run (h : Reaches k ⟨s, l ++ t :: r⟩) (hstep : queueStep s t false = (s', new)) :
    Reaches k ⟨s', l ++ new ++ r⟩ := by
  obtain ⟨tr, hex, rfl⟩ := h
  have hrun : (program α C).run s t false = some (s', new) := congrArg some hstep
  have hn : (machine α C).next ⟨s, l ++ t :: r⟩ (.run l.length false)
      = some ⟨s', l ++ new ++ r⟩ :=
    ThreadProgram.next_run_iff.2 ⟨l, t, r, _, _, rfl, rfl, hrun, rfl⟩
  exact ⟨_, hex.step hn, pushCalls_snoc ..⟩

theorem claims_le (h : Reaches k p) : (claims p.shared.log).length ≤ k := by
  obtain ⟨tr, hex, rfl⟩ := h
  have := claims_le_pushCalls hex
  omega

theorem history (h : Reaches k p) (hk : k < 2 ^ 63) :
    ∃ f, History C.val (2 ^ 63) p.shared.log f ∧ Matches f p := by
  have hle := h.claims_le
  obtain ⟨tr, hex, -⟩ := h
  exact matches_of_exec hex (by omega)

/-- A push into a queue with room, without interruption. -/
theorem pushed (h : Reaches k ⟨s, [t]⟩) (hk : k + 1 < 2 ^ 63) (v : α)
    (hroom : (claims s.log).length < (releases s.log).length + C.val) :
    ∃ s' : QueueState α C, Reaches (k + 1) ⟨s', [t]⟩ ∧
      s'.log = s.log ++ [.claim (some v)] ++ [.publish (claims s.log).length] := by
  obtain ⟨f, hlog, hmatches⟩ := h.history (by omega)
  have hcount := h.claims_le
  rw [hlog.length_released, ← hlog.claimed_eq] at hroom
  simp only [← hlog.claimed_eq] at hcount ⊢
  have hpos : s.queue.enqueuePos = BitVec.ofNat 64 f.claimed.length := hmatches.enqueuePos
  have hnat : s.queue.enqueuePos.toNat = f.claimed.length := by
    rw [hpos, BitVec.toNat_ofNat]
    exact Nat.mod_eq_of_lt (by omega)
  have hdiff : ptrdiff (s.queue.cell s.queue.enqueuePos).sequence s.queue.enqueuePos = 0 := by
    have hfree : f.claimed.length ∉ f.published := fun hp =>
      absurd (hlog.wellFormed.lt_of_published _ hp) (by omega)
    rw [ptrdiff_eq_zero_iff, BoundedMpscQueue.cell_eq, hnat,
      hmatches.sequence _ hlog.wellFormed.released_le hroom, if_neg hfree, hpos]
  have hcall := h.push v
  have hpc₁ := hcall.run (l := [t]) (r := []) rfl
  have hempty : queueStep s (.push v (.loadSequence s.queue.enqueuePos)) false
      = (s, [.push v (.compareExchange s.queue.enqueuePos)]) := if_pos hdiff
  have hpc₂ := hpc₁.run (l := [t]) (r := []) hempty
  have hpc₃ := hpc₂.run (l := [t]) (r := []) (if_pos ⟨rfl, rfl⟩)
  have hpc₄ := hpc₃.run (l := [t]) (r := []) rfl
  have hpc₅ := hpc₄.run (l := [t]) (r := []) rfl
  exact ⟨_, hpc₅, by rw [← hnat]; rfl⟩

/-- A pop from a queue whose head is published, without interruption. -/
theorem popped (h : Reaches k ⟨s, [t]⟩) (hk : k < 2 ^ 63) (ht : t.isConsumer = 0)
    (hhead : (releases s.log).length ∈ publications s.log) :
    ∃ (s' : QueueState α C) (d : Option α), Reaches k ⟨s', [t]⟩ ∧
      s'.log = s.log ++ [.release d] := by
  obtain ⟨f, hlog, hmatches⟩ := h.history hk
  have hbound : f.claimed.length < 2 ^ 63 := by
    rw [hlog.claimed_eq]
    exact Nat.lt_of_le_of_lt h.claims_le hk
  rw [hlog.length_released, ← hlog.mem_published_iff] at hhead
  have hzero : Pool.total QueueThread.increments (⟨s, [t]⟩ : QueuePool α C) = 0 := by
    simpa [Pool.total] using increments_eq_zero ht
  have hdiff := hmatches.head hlog.wellFormed hbound hzero
  rw [if_pos hhead] at hdiff
  have hcall := h.tryPop (by simpa [Pool.total] using ht)
  have hready : queueStep s (.tryPop .loadSequence) false = (s, [.tryPop .readData]) := by
    simp only [queueStep, tryPopStep, hdiff]
    rfl
  have hpc₁ := hcall.run (l := [t]) (r := []) hready
  have hpc₂ := hpc₁.run (l := [t]) (r := []) rfl
  have hpc₃ := hpc₂.run (l := [t]) (r := []) rfl
  have hpc₄ := hpc₃.run (l := [t]) (r := []) rfl
  exact ⟨_, _, hpc₄, rfl⟩

/-- A producer that has loaded position zero sleeps while `n` elements pass through the queue. -/
theorem asleep (v : α) (n : ℕ) (hn : n + 1 < 2 ^ 63) :
    ∃ s : QueueState α C, Reaches (n + 1) ⟨s, [.push v (.loadSequence 0)]⟩ ∧
      (claims s.log).length = n ∧ (releases s.log).length = n := by
  induction n with
  | zero =>
      have hcall := (start (α := α) (C := C)).push v
      exact ⟨_, hcall.run (l := []) (r := []) rfl, rfl, rfl⟩
  | succ n ih =>
      obtain ⟨s, hs, hclaims, hreleases⟩ := ih (by omega)
      have hpos := C.pos
      obtain ⟨s₁, hs₁, hlog₁⟩ := hs.pushed hn v (by omega)
      have hreleases₁ : (releases s₁.log).length = n := by
        rw [hlog₁, BoundedFifo.releases_snoc, BoundedFifo.releases_snoc]
        simpa [BoundedFifo.Event.released] using hreleases
      have hhead : (releases s₁.log).length ∈ publications s₁.log := by
        rw [hreleases₁, hlog₁, BoundedFifo.publications_snoc, hclaims]
        simp [BoundedFifo.Event.published]
      obtain ⟨s₂, d, hs₂, hlog₂⟩ := hs₁.popped hn rfl hhead
      refine ⟨s₂, hs₂, ?_, ?_⟩
      · rw [hlog₂, hlog₁, BoundedFifo.claims_snoc, BoundedFifo.claims_snoc, BoundedFifo.claims_snoc]
        simpa [BoundedFifo.Event.claimed] using hclaims
      · rw [hlog₂, BoundedFifo.releases_snoc]
        simpa [BoundedFifo.Event.released] using hreleases₁

end BoundedMpscQueue.Reaches

end Refinement

/-- The capacity four. -/
def Capacity.four : Capacity := ⟨4, 2, by omega, by omega, rfl⟩

/-- A producer sleeps after it has loaded position zero, while `2 ^ 63 - 2` elements pass through a
queue of capacity four.  The cell it then looks at has the sequence number `2 ^ 63`, whose
difference to zero is negative, and the push is refused although the queue is empty. -/
theorem queue_refuses_spuriously :
    allocate 4 = some Capacity.four ∧
    ∃ (tr : List (QueuePool ℕ Capacity.four × QueueAction ℕ)) (p : QueuePool ℕ Capacity.four)
      (l : List (BoundedFifo.Event (Option ℕ))),
      (BoundedMpscQueue.machine ℕ Capacity.four).Exec tr p ∧ pushCalls tr < 2 ^ 63 ∧
        p.shared.log = l ++ [.refuse] ∧ (claims l).length = (releases l).length ∧
        (claims l).length ≠ (releases l).length + bitCeil (max 4 2) := by
  have hfour : bitCeil (max 4 2) = 4 := by decide
  refine ⟨by decide, ?_⟩
  obtain ⟨s, hs, hclaims, hreleases⟩ :=
    BoundedMpscQueue.Reaches.asleep (C := Capacity.four) 0 (2 ^ 63 - 2) (by omega)
  obtain ⟨f, hlog, hmatches⟩ := hs.history (by omega)
  have hreleased : f.released = 2 ^ 63 - 2 := by rw [← hlog.length_released, hreleases]
  have hclaimed : f.claimed.length = 2 ^ 63 - 2 := by rw [hlog.claimed_eq, hclaims]
  have hfree : 2 ^ 63 ∉ f.published := fun hp =>
    absurd (hlog.wellFormed.lt_of_published _ hp) (by omega)
  have hslot : Capacity.four.slot (2 ^ 63) = Capacity.four.slot 0 := by decide
  have hseq : (s.queue.cell 0).sequence = BitVec.ofNat 64 (2 ^ 63) := by
    have := hmatches.sequence (2 ^ 63) (by omega) (by rw [hreleased]; decide)
    rw [if_neg hfree, hslot] at this
    rw [BoundedMpscQueue.cell_eq]
    exact this
  have hdiff : ptrdiff (s.queue.cell 0).sequence 0 = -2 ^ 63 := by
    rw [hseq]
    decide
  have hrefused : queueStep s (.push 0 (.loadSequence 0)) false = (s.emit .refuse, []) := by
    simp only [queueStep, pushStep, hdiff]
    rfl
  obtain ⟨tr, hex, hcalls⟩ := hs.run (l := []) (r := []) hrefused
  refine ⟨tr, _, s.log, hex, by omega, rfl, by omega, by omega⟩

end ExActor
