/-
**Mailboxes: the queues of an actor.**

`MailboxSet` of `actor.h` holds one queue for each entry of `ActorConfig::mailbox_configs`, or a
single unbounded queue when there is none.  A queue is taken to be a linearizable FIFO, so `Push`
and `TryPop` are single steps on a list; a queue of bounded capacity refuses a message when it is
full, and then `MailboxSet::Push` throws.  The capacity bound is a field of `Mailbox`, so a mailbox
that holds more than it may cannot be built.

A message is named by the order in which its operation state was started: the model never looks
inside a `TypeErasedActorMessage`.

Main definitions:

* `MailboxConfig`, `ActorConfig` — `actor_config.h`;
* `Mailbox.push`, `Mailbox.tryPop` — one queue;
* `MailboxSet.push`, `MailboxSet.tryPop` — the queues of an actor.

Main results:

* `MailboxSet.messages_push`, `MailboxSet.messages_tryPop` — a push adds exactly its message, a pop
  takes exactly the message it returns;
* `MailboxSet.push_eq_error_iff` — when a push throws;
* `MailboxSet.queueAt_push`, `MailboxSet.queueAt_tryPop` — each queue is first in, first out.
-/

import Mathlib.Algebra.Group.Nat.Defs
import Mathlib.Data.List.Perm.Basic
import Mathlib.Data.Nat.Log

set_option relaxedAutoImplicit false
set_option autoImplicit false

namespace ExActor

/-- A `TypeErasedActorMessage*`, named by the order in which the messages were submitted. -/
abbrev Message := ℕ

/-! ### Configuration -/

/-- `MailboxConfig` of `actor_config.h`. -/
inductive MailboxConfig
  | unboundedMailbox
  | boundedMailbox (capacity : ℕ)
  | unsafeOneSlotMailbox
deriving DecidableEq

/-- `ActorConfig` of `actor_config.h`. -/
structure ActorConfig where
  maxMessageExecutedPerActivation : ℕ
  mailboxConfigs : List MailboxConfig
  actorName : Option String
  schedulerIndex : ℕ
  priority : ℕ
  coreIndex : ℕ
deriving DecidableEq

/-- The defaults of `ActorConfig`. -/
def ActorConfig.default : ActorConfig where
  maxMessageExecutedPerActivation := 100
  mailboxConfigs := []
  actorName := none
  schedulerIndex := 0
  priority := 0
  coreIndex := 0

/-- `std::bit_ceil`. -/
def bitCeil (n : ℕ) : ℕ := 2 ^ Nat.clog 2 n

/-- How many messages the queue of a mailbox holds at most: `BoundedMpscQueue` rounds its capacity
up to a power of two, `OneSlotUnsafeQueue` has one slot. -/
def MailboxConfig.capacity : MailboxConfig → Option ℕ
  | .unboundedMailbox => none
  | .boundedMailbox capacity => some (bitCeil (max capacity 2))
  | .unsafeOneSlotMailbox => some 1

/-- The exceptions that leave the functions of an actor. -/
inductive ActorError
  | mailboxFull (mailboxIndex : ℕ)
  | shouldActivate (what : String)
  | connect (what : String)
deriving DecidableEq

/-- The text of an exception, without the file and line that the throwing macros put first. -/
def ActorError.what : ActorError → String
  | .mailboxFull mailboxIndex =>
      "Check failed, expected `ok` is true, got false. MailboxSet: mailbox "
        ++ toString mailboxIndex ++ " is full"
  | .shouldActivate what => what
  | .connect what => what

/-! ### One mailbox -/

/-- One queue of a `MailboxSet`, with its configuration. -/
structure Mailbox where
  config : MailboxConfig
  queue : List Message
  fits : ∀ c ∈ config.capacity, queue.length ≤ c
deriving DecidableEq

namespace Mailbox

/-- An empty queue. -/
def empty (config : MailboxConfig) : Mailbox := ⟨config, [], by simp⟩

/-- The queue refuses a further message. -/
def Full (q : Mailbox) : Prop := ∃ c ∈ q.config.capacity, c ≤ q.queue.length

instance (q : Mailbox) : Decidable q.Full := inferInstanceAs (Decidable (∃ c ∈ _, _))

/-- `Push` of a queue; `none` where it returns false. -/
def push (q : Mailbox) (m : Message) : Option Mailbox :=
  if h : q.Full then none
  else some
    { config := q.config
      queue := q.queue ++ [m]
      fits := by
        intro c hc
        have : ¬ c ≤ q.queue.length := fun hle => h ⟨c, hc, hle⟩
        simp only [List.length_append, List.length_singleton]
        omega }

/-- `TryPop` of a queue. -/
def tryPop (q : Mailbox) : Option (Message × Mailbox) :=
  match h : q.queue with
  | [] => none
  | m :: rest => some (m,
      { config := q.config
        queue := rest
        fits := by
          intro c hc
          have := q.fits c hc
          simp only [h, List.length_cons] at this
          omega })

theorem push_eq_none_iff {q : Mailbox} {m : Message} : q.push m = none ↔ q.Full := by
  unfold push
  split <;> simp_all

theorem push_eq_some {q q' : Mailbox} {m : Message} (h : q.push m = some q') :
    q'.config = q.config ∧ q'.queue = q.queue ++ [m] := by
  unfold push at h
  split at h
  · simp at h
  · obtain rfl := Option.some.inj h
    exact ⟨rfl, rfl⟩

theorem tryPop_eq_some {q q' : Mailbox} {m : Message} (h : q.tryPop = some (m, q')) :
    q'.config = q.config ∧ q.queue = m :: q'.queue := by
  unfold tryPop at h
  split at h
  · simp at h
  · obtain ⟨rfl, rfl⟩ := Prod.mk.inj (Option.some.inj h)
    exact ⟨rfl, by assumption⟩

end Mailbox

/-! ### The mailboxes of an actor -/

/-- `MailboxSet` of `actor.h`: an actor has at least one mailbox. -/
structure MailboxSet where
  mailboxes : List Mailbox
  pos : 0 < mailboxes.length
deriving DecidableEq

namespace MailboxSet

/-- The constructor: no configuration means one default unbounded mailbox. -/
def ofConfigs (configs : List MailboxConfig) : MailboxSet :=
  if h : configs = [] then ⟨[Mailbox.empty .unboundedMailbox], by simp⟩
  else ⟨configs.map Mailbox.empty, by
    rw [List.length_map]
    exact List.length_pos_iff.2 h⟩

/-- `MailboxCount`. -/
def mailboxCount (s : MailboxSet) : ℕ := s.mailboxes.length

/-- The set with one queue replaced. -/
def replace (s : MailboxSet) (mailboxIndex : ℕ) (q : Mailbox) : MailboxSet :=
  ⟨s.mailboxes.set mailboxIndex q, by rw [List.length_set]; exact s.pos⟩

/-- `Push`.  `operator[]` of `FixedCapacityBuffer` checks no bound: an index that is out of range
has no defined result, which is the outer `none`. -/
def push (s : MailboxSet) (mailboxIndex : ℕ) (m : Message) :
    Option (Except ActorError MailboxSet) :=
  (s.mailboxes[mailboxIndex]?).map fun q =>
    match q.push m with
    | none => .error (.mailboxFull mailboxIndex)
    | some q' => .ok (s.replace mailboxIndex q')

/-- `TryPop`, for an index in range. -/
def tryPop (s : MailboxSet) (mailboxIndex : ℕ) : Option (Message × MailboxSet) :=
  (s.mailboxes[mailboxIndex]?).bind fun q =>
    q.tryPop.map fun mq => (mq.1, s.replace mailboxIndex mq.2)

/-- All queued messages, mailbox by mailbox. -/
def messages (s : MailboxSet) : List Message := s.mailboxes.flatMap (·.queue)

/-- The number of queued messages. -/
def queued (s : MailboxSet) : ℕ := s.messages.length

/-- The messages queued in one mailbox. -/
def queueAt (s : MailboxSet) (i : ℕ) : List Message := ((s.mailboxes[i]?).map (·.queue)).getD []

theorem mem_messages {s : MailboxSet} {m : Message} :
    m ∈ s.messages ↔ ∃ q ∈ s.mailboxes, m ∈ q.queue := by
  simp [messages, List.mem_flatMap]

theorem queued_eq_zero_iff {s : MailboxSet} :
    s.queued = 0 ↔ ∀ q ∈ s.mailboxes, q.queue = [] := by
  rw [queued, List.length_eq_zero_iff, messages, List.flatMap_eq_nil_iff]

/-- When all the mailboxes are empty, nothing is queued. -/
theorem queued_eq_zero_of_queueAt {s : MailboxSet} (h : ∀ j < s.mailboxCount, s.queueAt j = []) :
    s.queued = 0 := by
  refine queued_eq_zero_iff.2 fun q hq => ?_
  obtain ⟨j, hj, rfl⟩ := List.mem_iff_getElem.1 hq
  simpa [queueAt, hj] using h j hj

theorem tryPop_eq_none_iff {s : MailboxSet} {i : ℕ} : s.tryPop i = none ↔ s.queueAt i = [] := by
  unfold tryPop queueAt
  cases hq : s.mailboxes[i]? with
  | none => simp
  | some q =>
      simp only [Option.bind_some, Option.map_eq_none_iff, Option.map_some, Option.getD_some]
      unfold Mailbox.tryPop
      split
      · next hqueue => simp [hqueue]
      · next hqueue => simp [hqueue]

@[simp] theorem messages_ofConfigs (configs : List MailboxConfig) :
    (ofConfigs configs).messages = [] := by
  unfold ofConfigs messages
  split
  · simp [Mailbox.empty]
  · simp [Mailbox.empty, List.flatMap_map]

@[simp] theorem queued_ofConfigs (configs : List MailboxConfig) :
    (ofConfigs configs).queued = 0 := by simp [queued]

/-- Replacing a queue by one with an additional message adds that message. -/
private theorem messages_replace_perm {s : MailboxSet} {i : ℕ} {q q' : Mailbox} {m : Message}
    (hq : s.mailboxes[i]? = some q) (hperm : q'.queue.Perm (m :: q.queue)) :
    (s.replace i q').messages.Perm (m :: s.messages) := by
  obtain ⟨hi, rfl⟩ := List.getElem?_eq_some_iff.1 hq
  have hsplit : s.mailboxes
      = s.mailboxes.take i ++ s.mailboxes[i] :: s.mailboxes.drop (i + 1) := by
    rw [← List.drop_eq_getElem_cons hi, List.take_append_drop]
  have hset : s.mailboxes.set i q'
      = s.mailboxes.take i ++ q' :: s.mailboxes.drop (i + 1) := by
    rw [List.set_eq_take_append_cons_drop, if_pos hi]
  have hlhs : (s.replace i q').messages = (s.mailboxes.take i).flatMap (·.queue)
      ++ (q'.queue ++ (s.mailboxes.drop (i + 1)).flatMap (·.queue)) := by
    simp only [messages, replace, hset, List.flatMap_append, List.flatMap_cons]
  have hrhs : s.messages = (s.mailboxes.take i).flatMap (·.queue)
      ++ (s.mailboxes[i].queue ++ (s.mailboxes.drop (i + 1)).flatMap (·.queue)) := by
    unfold messages
    conv_lhs => rw [hsplit]
    simp only [List.flatMap_append, List.flatMap_cons]
  rw [hlhs, hrhs]
  have hmid := (hperm.append_right ((s.mailboxes.drop (i + 1)).flatMap (·.queue))).append_left
    ((s.mailboxes.take i).flatMap (·.queue))
  exact hmid.trans List.perm_middle

/-- **A push adds exactly its message.** -/
theorem messages_push {s s' : MailboxSet} {i : ℕ} {m : Message} (h : s.push i m = some (.ok s')) :
    s'.messages.Perm (m :: s.messages) := by
  obtain ⟨q, hq, hpush⟩ := Option.map_eq_some_iff.1 h
  split at hpush
  · simp at hpush
  · next q' hq' =>
      obtain rfl := Except.ok.inj hpush
      refine messages_replace_perm hq ?_
      rw [(Mailbox.push_eq_some hq').2]
      exact List.perm_append_singleton ..

/-- **A pop takes exactly the message it returns.** -/
theorem messages_tryPop {s s' : MailboxSet} {i : ℕ} {m : Message}
    (h : s.tryPop i = some (m, s')) : s.messages.Perm (m :: s'.messages) := by
  obtain ⟨q, hq, hpop⟩ := Option.bind_eq_some_iff.1 h
  obtain ⟨⟨m', q'⟩, hq', heq⟩ := Option.map_eq_some_iff.1 hpop
  obtain ⟨rfl, rfl⟩ := Prod.mk.inj heq
  obtain ⟨hi, -⟩ := List.getElem?_eq_some_iff.1 hq
  have hback : (s.replace i q').mailboxes[i]? = some q' := by
    simp [replace, hi]
  have hq'' : s = (s.replace i q').replace i q := by
    obtain ⟨hi, rfl⟩ := List.getElem?_eq_some_iff.1 hq
    simp [replace]
  conv_lhs => rw [hq'']
  refine messages_replace_perm hback ?_
  rw [(Mailbox.tryPop_eq_some hq').2]

theorem queued_push {s s' : MailboxSet} {i : ℕ} {m : Message} (h : s.push i m = some (.ok s')) :
    s'.queued = s.queued + 1 := by
  simpa [queued] using (messages_push h).length_eq

theorem queued_tryPop {s s' : MailboxSet} {i : ℕ} {m : Message}
    (h : s.tryPop i = some (m, s')) : s'.queued + 1 = s.queued := by
  simpa [queued] using (messages_tryPop h).length_eq.symm

/-- A push throws exactly when the mailbox it names is full. -/
theorem push_eq_error_iff {s : MailboxSet} {i : ℕ} {m : Message} {e : ActorError} :
    s.push i m = some (.error e) ↔
      e = .mailboxFull i ∧ ∃ q, s.mailboxes[i]? = some q ∧ q.Full := by
  simp only [push, Option.map_eq_some_iff]
  constructor
  · rintro ⟨q, hq, h⟩
    split at h
    · next hnone =>
        exact ⟨(Except.error.inj h).symm, q, hq, Mailbox.push_eq_none_iff.1 hnone⟩
    · simp at h
  · rintro ⟨rfl, q, hq, hfull⟩
    exact ⟨q, hq, by rw [Mailbox.push_eq_none_iff.2 hfull]⟩

/-- A push has a defined result exactly when its index is in range. -/
theorem push_ne_none_iff {s : MailboxSet} {i : ℕ} {m : Message} :
    s.push i m ≠ none ↔ i < s.mailboxCount := by
  rw [push, Ne, Option.map_eq_none_iff, List.getElem?_eq_none_iff, mailboxCount, Nat.not_le]

/-! ### The number of queues -/

/-- The number of mailboxes in the configuration: none means one. -/
theorem mailboxCount_ofConfigs (configs : List MailboxConfig) :
    (ofConfigs configs).mailboxCount = max 1 configs.length := by
  unfold ofConfigs mailboxCount
  split
  · next h => simp [h]
  · next h =>
      have hpos := List.length_pos_iff.2 h
      rw [List.length_map]
      omega

theorem mailboxCount_push {s s' : MailboxSet} {i : ℕ} {m : Message}
    (h : s.push i m = some (.ok s')) : s'.mailboxCount = s.mailboxCount := by
  obtain ⟨q, -, hpush⟩ := Option.map_eq_some_iff.1 h
  split at hpush
  · simp at hpush
  · obtain rfl := Except.ok.inj hpush
    exact List.length_set

theorem mailboxCount_tryPop {s s' : MailboxSet} {i : ℕ} {m : Message}
    (h : s.tryPop i = some (m, s')) : s'.mailboxCount = s.mailboxCount := by
  obtain ⟨q, -, hpop⟩ := Option.bind_eq_some_iff.1 h
  obtain ⟨⟨m', q'⟩, -, heq⟩ := Option.map_eq_some_iff.1 hpop
  obtain ⟨rfl, rfl⟩ := Prod.mk.inj heq
  exact List.length_set

/-! ### One queue of the set -/

@[simp] theorem queueAt_ofConfigs (configs : List MailboxConfig) (i : ℕ) :
    (ofConfigs configs).queueAt i = [] := by
  cases hq : (ofConfigs configs).mailboxes[i]? with
  | none => simp [queueAt, hq]
  | some q =>
      have hnil := messages_ofConfigs configs
      rw [messages, List.flatMap_eq_nil_iff] at hnil
      simpa [queueAt, hq] using hnil q (List.mem_of_getElem? hq)

theorem queueAt_replace {s : MailboxSet} {i : ℕ} {q : Mailbox} (q' : Mailbox)
    (hq : s.mailboxes[i]? = some q) (j : ℕ) :
    (s.replace i q').queueAt j = if i = j then q'.queue else s.queueAt j := by
  obtain ⟨hi, rfl⟩ := List.getElem?_eq_some_iff.1 hq
  by_cases hij : i = j
  · subst hij
    simp [queueAt, replace, hi]
  · simp [queueAt, replace, hij]

/-- **A push appends its message to the queue it names.** -/
theorem queueAt_push {s s' : MailboxSet} {i : ℕ} {m : Message} (h : s.push i m = some (.ok s'))
    (j : ℕ) : s'.queueAt j = s.queueAt j ++ if i = j then [m] else [] := by
  obtain ⟨q, hq, hpush⟩ := Option.map_eq_some_iff.1 h
  split at hpush
  · simp at hpush
  · next q' hq' =>
      obtain rfl := Except.ok.inj hpush
      rw [queueAt_replace q' hq, (Mailbox.push_eq_some hq').2]
      by_cases hij : i = j
      · subst hij
        simp [queueAt, hq]
      · simp [hij]

/-- **A pop takes the head of the queue it names.** -/
theorem queueAt_tryPop {s s' : MailboxSet} {i : ℕ} {m : Message}
    (h : s.tryPop i = some (m, s')) (j : ℕ) :
    s.queueAt j = (if i = j then [m] else []) ++ s'.queueAt j := by
  obtain ⟨q, hq, hpop⟩ := Option.bind_eq_some_iff.1 h
  obtain ⟨⟨m', q'⟩, hq', heq⟩ := Option.map_eq_some_iff.1 hpop
  obtain ⟨rfl, rfl⟩ := Prod.mk.inj heq
  rw [queueAt_replace q' hq]
  by_cases hij : i = j
  · subst hij
    simp [queueAt, hq, (Mailbox.tryPop_eq_some hq').2]
  · simp [hij]

end MailboxSet

end ExActor
