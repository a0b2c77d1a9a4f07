/-
**When an approved message is stranded.**

With the `ExActorShouldActivate` hook a push may be vetoed: its message stays in its mailbox and in
`pending_message_count_`, for a later activation.  The closing load of an activation re-activates
the actor while anything is counted, so that the approved messages that are still queued are not
forgotten.  But a message can be taken before its push has counted it.  The activation subtracts it
all the same, so the closing load may read zero while an approved message is queued, and the push
that owes the counter one message is the only one left that could activate the actor.  If the hook
vetoes that push, the approved message is stranded.

This is the only way, provided that `Schedule` does not throw.

Main definitions:

* `Approved`, `takenUncounted` — what the history says of a message;
* `Stage`, `Thread.before`, `Event.passes` — a push counts its message once and asks the hook once;
* `Expects` — a reason to execute a message, such as `Approved`;
* `NotStranded` — while the flag is clear and nobody is on the way, no such message is queued;
* `VetoHarmless` — the step is not the last veto of a message taken before it was counted, while an
  approved message is queued.

Main results:

* `stage_once` — no push counts its message or asks the hook twice;
* `Expects.notStranded_of_exec` — `NotStranded` holds in every reachable state, if the pushes that
  the hook refuses keep it;
* `approved_messages_drained` — **no approved message is stranded**;
* `approved_message_stranded` — a run with such a veto.
-/

import ExActor.ActorWakeup
import Mathlib.Data.List.TakeWhile

set_option relaxedAutoImplicit false
set_option autoImplicit false

namespace ExActor

/-! ### What the history says of a message -/

/-- The hook returned true for the push of the message. -/
def Approved (log : List Event) (m : Message) : Prop := ∃ alive, .hook m alive (.ok true) ∈ log

instance (log : List Event) (m : Message) : Decidable (Approved log m) :=
  inferInstanceAs (Decidable (∃ _, _))

/-- The event records that the message was taken from its mailbox. -/
def Event.isTaken (m : Message) : Event → Bool
  | .taken m' _ => m' = m
  | _ => false

/-- The message was taken from its mailbox before its push counted it. -/
def takenUncounted (log : List Event) (m : Message) : Bool :=
  (log.takeWhile (· ≠ .counted m)).any (Event.isTaken m)

theorem takenUncounted_of_not_mem {log : List Event} {m : Message} (hc : .counted m ∉ log)
    (ht : log.any (Event.isTaken m) = true) : takenUncounted log m = true := by
  unfold takenUncounted
  rwa [List.takeWhile_eq_self_iff.2]
  intro e he
  rw [decide_eq_true_eq]
  rintro rfl
  exact hc he

/-- What has happened to a message stays so. -/
theorem takenUncounted_mono {log log' : List Event} {m : Message} (h : log <+: log')
    (ht : takenUncounted log m = true) : takenUncounted log' m = true := by
  obtain ⟨es, rfl⟩ := h
  obtain ⟨e, he, hm⟩ := List.any_eq_true.1 ht
  refine List.any_eq_true.2 ⟨e, ?_, hm⟩
  rw [List.takeWhile_append]
  split
  · exact List.mem_append_left _ ((List.takeWhile_sublist _).subset he)
  · exact he

/-! ### A push passes each stage once -/

/-- The two things a push records only once. -/
inductive Stage
  | counted
  | asked

/-- The thread is the push of the message and has not passed the stage. -/
def Thread.before (m : Message) : Stage → Thread → ℕ
  | _, .producer m' _ .push => if m' = m then 1 else 0
  | _, .producer m' _ .fetchAdd => if m' = m then 1 else 0
  | .asked, .producer m' _ .shouldActivate => if m' = m then 1 else 0
  | _, _ => 0

/-- The event records that the push of the message passes the stage. -/
def Event.passes (m : Message) : Stage → Event → ℕ
  | .counted, .counted m' => if m' = m then 1 else 0
  | .asked, .hook m' _ _ => if m' = m then 1 else 0
  | _, _ => 0

@[simp] theorem before_at (m : Message) (st : Stage) (c : Caller) (pc : TryActivatePc) :
    (c.at pc).before m st = 0 := by cases st <;> cases c <;> rfl

@[simp] theorem before_after (m : Message) (st : Stage) (c : Caller) :
    (c.after.map (Thread.before m st)).sum = 0 := by cases st <;> cases c <;> rfl

/-- A step takes no push back to a stage it has passed. -/
theorem Actor.Step.stage {A : Actor} {env : Env} {s s' : ActorState} {t : Thread}
    {new : List Thread} (h : A.Step env s t s' new) (m : Message) (st : Stage) :
    (new.map (Thread.before m st)).sum + tally (Event.passes m st) s'.log
      ≤ t.before m st + tally (Event.passes m st) s.log := by
  cases h with
  | lose | win | dropped => simp
  | schedule => simp [Thread.before]
  | count m' i pc hpc =>
      rcases hpc with ⟨-, rfl⟩ | ⟨-, rfl⟩ <;> cases st <;> simp [Thread.before, Event.passes] <;>
        omega
  | popNone limit executed i pc hnone hpc =>
      rcases hpc with rfl | rfl <;> cases st <;> simp [Thread.before]
  | execute limit executed i m' pc hpc =>
      rcases hpc with ⟨-, rfl⟩ | ⟨-, rfl⟩ <;> cases st <;> simp [Thread.before, Event.passes]
  | _ => cases st <;> simp [Thread.before, Event.passes] <;> omega

/-- **No push passes a stage twice**, and none does before it was submitted. -/
theorem stage_once {A : Actor} {tr : List (ActorPool × ActorAction)} {p : ActorPool}
    (h : A.machine.Exec tr p) (m : ℕ) (st : Stage) :
    p.total (Thread.before m st) + tally (Event.passes m st) p.shared.log
      ≤ flag (decide (m < p.shared.submitted)) := by
  refine Actor.invariant (I := fun p => p.total (Thread.before m st)
    + tally (Event.passes m st) p.shared.log ≤ flag (decide (m < p.shared.submitted)))
    ?_ ?_ ?_ h
  · simp [Actor.initial]
  · intro _ p i s t _ hI hat
    rw [Pool.total_arrive _ p]
    cases hat with
    | pushMessage i hroom =>
        have hnew : (Thread.producer p.shared.submitted i .push).before m st
            = if p.shared.submitted = m then 1 else 0 := by cases st <;> rfl
        rw [hnew]
        simp only [flag, decide_eq_true_eq] at hI ⊢
        split_ifs at hI ⊢ <;> omega
    | asyncDestroy => cases st <;> simpa [Thread.before] using hI
  · intro _ s s' l t r new env _ hI hstep
    have hle := hstep.stage m st
    have hsub := hstep.submitted_eq
    rw [Pool.total_before] at hI
    rw [Pool.total_after]
    simp only [hsub] at hI ⊢
    omega

/-- A reason, given by the history, to execute a message: the hook has answered, and no other event
gives it. -/
structure Expects (D : List Event → Message → Prop) : Prop where
  asked : ∀ {log m}, D log m → ∃ alive answer, .hook m alive answer ∈ log
  kept : ∀ {log e m}, D (log ++ [e]) m → D log m ∨ ∃ alive answer, e = .hook m alive answer

theorem expects_approved : Expects Approved where
  asked := by
    rintro log m ⟨alive, h⟩
    exact ⟨alive, _, h⟩
  kept := by
    rintro log e m ⟨alive, h⟩
    rcases List.mem_append.1 h with h | h
    · exact Or.inl ⟨alive, h⟩
    · exact Or.inr ⟨alive, _, (List.mem_singleton.1 h).symm⟩

/-- Nothing is due whose hook is not yet asked. -/
theorem Expects.not_of_before {D : List Event → Message → Prop} (hD : Expects D) {A : Actor}
    {tr : List (ActorPool × ActorAction)} {p : ActorPool} (h : A.machine.Exec tr p) {m : Message}
    {t : Thread} (ht : t ∈ p.threads) (hb : t.before m .asked = 1) : ¬ D p.shared.log m := by
  intro hdue
  obtain ⟨alive, answer, halive⟩ := hD.asked hdue
  have honce := stage_once h m .asked
  have hflag := flag_le_one (decide (m < p.shared.submitted))
  have hthread := Pool.le_total_of_mem (w := Thread.before m .asked) ht
  have hevent := le_tally_of_mem (w := Event.passes m .asked) halive
  simp only [Event.passes, if_true] at hevent
  omega

/-- The message is queued or was taken. -/
def Present (s : ActorState) (m : Message) : Prop :=
  m ∈ s.mailboxSet.messages ∨ s.log.any (Event.isTaken m) = true

/-- A message does not vanish. -/
theorem Actor.Step.present {A : Actor} {env : Env} {s s' : ActorState} {t : Thread}
    {new : List Thread} (h : A.Step env s t s' new) {m : Message} (hm : Present s m) :
    Present s' m := by
  cases h with
  | push m' i set hpush =>
      rcases hm with hm | hm
      · exact Or.inl ((MailboxSet.messages_push hpush).mem_iff.2 (List.mem_cons_of_mem _ hm))
      · exact Or.inr (by simp [ActorState.emit, hm])
  | pop limit executed i m' set hpop =>
      rcases hm with hm | hm
      · rcases List.mem_cons.1 ((MailboxSet.messages_tryPop hpop).mem_iff.1 hm) with rfl | hm
        · exact Or.inr (by simp [ActorState.emit, Event.isTaken])
        · exact Or.inl hm
      · exact Or.inr (by simp [ActorState.emit, hm])
  | _ =>
      rcases hm with hm | hm
      · exact Or.inl hm
      · exact Or.inr (by simp [ActorState.emit, hm])

/-- A producer that has pushed its message and not counted it has made it present. -/
theorem present_of_exec {A : Actor} {tr : List (ActorPool × ActorAction)} {p : ActorPool}
    (h : A.machine.Exec tr p) :
    ∀ t ∈ p.threads, ∀ m i, t = .producer m i .fetchAdd → Present p.shared m := by
  refine Actor.invariant (I := fun p => ∀ t ∈ p.threads, ∀ m i, t = .producer m i .fetchAdd →
    Present p.shared m) ?_ ?_ ?_ h
  · simp
  · intro _ p i s t _ hI hat
    cases hat <;> exact Pool.forall_arrive hI (fun _ hu => hu) (by simp)
  · intro _ s s' l t r new env _ hI hstep
    refine Pool.forall_after hI (fun u hu m i hm => hstep.present (hu m i hm)) ?_
    cases hstep with
    | push m i set hpush =>
        simp only [List.mem_singleton, forall_eq, Thread.producer.injEq, and_true, and_imp]
        rintro m i rfl -
        exact Or.inl ((MailboxSet.messages_push hpush).mem_iff.2 List.mem_cons_self)
    | count m i pc hpc => rcases hpc with ⟨-, rfl⟩ | ⟨-, rfl⟩ <;> simp
    | lose c | dropped c => cases c <;> simp [Caller.after]
    | win c => cases c <;> simp [Caller.at]
    | schedule c => cases c <;> simp [Caller.after]
    | _ => simp

/-! ### Who can still save an approved message -/

/-- The push owes the counter one message that was taken already, or owes the hook a question about
such a message: it will activate the actor, unless the hook vetoes it. -/
def Thread.early (log : List Event) : Thread → ℕ
  | .producer m _ .fetchAdd => if takenUncounted log m then 1 else 0
  | .producer m _ .shouldActivate => if takenUncounted log m then 1 else 0
  | _ => 0

/-- While the flag is clear and nobody is on the way, no message that is due is queued. -/
def NotStranded (D : List Event → Message → Prop) (p : ActorPool) : Prop :=
  p.shared.activated = false → p.total Thread.willCheck = 0 →
    p.total (Thread.early p.shared.log) = 0 →
      ∀ m ∈ p.shared.mailboxSet.messages, ¬ D p.shared.log m

/-- The hook does not throw. -/
def HookOk (_ : ActorPool) : ActorAction → Prop
  | .run _ env => env.shouldActivate.isOk = true
  | _ => True

/-- The step is not the veto of a push whose message was taken before it was counted, in a state
in which an approved message is queued and nobody else can activate the actor. -/
def VetoHarmless (p : ActorPool) : ActorAction → Prop
  | .run n env => env.shouldActivate = .ok false →
      (∃ t ∈ p.threads[n]?, t.asksHook = 1 ∧ t.early p.shared.log = 1) →
      p.shared.activated = false → p.total Thread.willCheck = 0 →
      p.total (Thread.early p.shared.log) = 1 →
        ∀ m ∈ p.shared.mailboxSet.messages, ¬ Approved p.shared.log m
  | .arrive _ => True

instance (p : ActorPool) (a : ActorAction) : Decidable (HookOk p a) :=
  match a with
  | .arrive _ => isTrue trivial
  | .run _ env => inferInstanceAs (Decidable (env.shouldActivate.isOk = true))

instance (p : ActorPool) (a : ActorAction) : Decidable (VetoHarmless p a) :=
  match a with
  | .arrive _ => isTrue trivial
  | .run n env => inferInstanceAs (Decidable (env.shouldActivate = .ok false →
      (∃ t ∈ p.threads[n]?, t.asksHook = 1 ∧ t.early p.shared.log = 1) → _))

theorem early_mono {log log' : List Event} (h : log <+: log') (t : Thread) :
    t.early log ≤ t.early log' := by
  have hmono := fun m => takenUncounted_mono (m := m) h
  rcases t with ⟨m, i, pc⟩ | ⟨k, pc⟩ | pc
  · cases pc with
    | fetchAdd | shouldActivate =>
        simp only [Thread.early]
        split_ifs with h₁ h₂
        · exact le_rfl
        · exact absurd (hmono m h₁) h₂
        · exact Nat.zero_le _
        · exact le_rfl
    | _ => exact le_rfl
  · exact le_rfl
  · exact le_rfl

/-! ### A closing load that reads zero -/

/-- The message of a producer that has not counted it. -/
def Thread.uncountedMessage : Thread → Option Message
  | .producer m _ .fetchAdd => some m
  | _ => none

theorem uncountedMessage_eq_some {t : Thread} {m : Message} (h : t.uncountedMessage = some m) :
    ∃ i, t = .producer m i .fetchAdd := by
  rcases t with ⟨m', i, pc⟩ | ⟨k, pc⟩ | pc
  · cases pc <;> simp_all [Thread.uncountedMessage]
  · simp [Thread.uncountedMessage] at h
  · simp [Thread.uncountedMessage] at h

theorem length_filterMap_uncounted (ts : List Thread) :
    (ts.filterMap Thread.uncountedMessage).length = (ts.map Thread.uncounted).sum := by
  induction ts with
  | nil => rfl
  | cons t ts ih =>
      rcases t with ⟨m, i, pc⟩ | ⟨k, pc⟩ | pc
      · cases pc <;> simp [List.filterMap_cons, Thread.uncountedMessage, Thread.uncounted, ih,
          Nat.add_comm]
      · simp [List.filterMap_cons, Thread.uncountedMessage, Thread.uncounted, ih]
      · simp [List.filterMap_cons, Thread.uncountedMessage, Thread.uncounted, ih]

theorem count_filterMap_uncounted_le (ts : List Thread) (m : Message) :
    (ts.filterMap Thread.uncountedMessage).count m ≤ (ts.map (Thread.before m .counted)).sum := by
  induction ts with
  | nil => simp
  | cons t ts ih =>
      rcases t with ⟨m', i, pc⟩ | ⟨k, pc⟩ | pc
      · cases pc <;> simp [List.filterMap_cons, Thread.uncountedMessage, Thread.before,
          List.count_cons] <;> omega
      · simpa [List.filterMap_cons, Thread.uncountedMessage, Thread.before] using ih
      · simpa [List.filterMap_cons, Thread.uncountedMessage, Thread.before] using ih

/-- No two producers are about to count the same message. -/
theorem nodup_uncounted {A : Actor} {tr : List (ActorPool × ActorAction)} {p : ActorPool}
    (h : A.machine.Exec tr p) : (p.threads.filterMap Thread.uncountedMessage).Nodup := by
  rw [List.nodup_iff_count_le_one]
  intro m
  have hcount : _ ≤ p.total (Thread.before m .counted) := count_filterMap_uncounted_le p.threads m
  have honce := stage_once h m .counted
  have hflag := flag_le_one (decide (m < p.shared.submitted))
  omega

/-- Unless it was taken early, an uncounted message is queued. -/
theorem queued_of_uncounted {A : Actor} {tr : List (ActorPool × ActorAction)} {p : ActorPool}
    (h : A.machine.Exec tr p) (hearly : p.total (Thread.early p.shared.log) = 0) {m : Message}
    {i : ℕ} (ht : .producer m i .fetchAdd ∈ p.threads) : m ∈ p.shared.mailboxSet.messages := by
  rcases present_of_exec h _ ht m i rfl with hm | htaken
  · exact hm
  · have hcounted : .counted m ∉ p.shared.log := by
      intro hmem
      have honce := stage_once h m .counted
      have hflag := flag_le_one (decide (m < p.shared.submitted))
      have hthread := Pool.le_total_of_mem (w := Thread.before m .counted) ht
      have hevent := le_tally_of_mem (w := Event.passes m .counted) hmem
      simp only [Event.passes, Thread.before, if_true] at hthread hevent
      omega
    have := Pool.total_eq_zero_iff.1 hearly _ ht
    simp [Thread.early, takenUncounted_of_not_mem hcounted htaken] at this

/-- When the counter of an idle actor reads zero and no message was taken early, every queued
message is one that its producer has not counted. -/
theorem Expects.not_of_zero {D : List Event → Message → Prop} (hD : Expects D) {A : Actor}
    {tr : List (ActorPool × ActorAction)} {p : ActorPool} (h : A.machine.Exec tr p)
    (hun : Untouched p) (hact : p.shared.activated = false)
    (hzero : p.shared.pendingMessageCount = 0)
    (hearly : p.total (Thread.early p.shared.log) = 0) :
    ∀ m ∈ p.shared.mailboxSet.messages, ¬ D p.shared.log m := by
  have howned : p.total Thread.owns ≤ flag p.shared.activated := owned_of_exec h
  rw [hact, flag_false, Nat.le_zero, Pool.total_eq_zero_iff] at howned
  have htaken : p.total Thread.takenHere = 0 :=
    Pool.total_eq_zero_iff.2 fun t ht => takenHere_eq_zero_of_owns t (howned t ht)
  have hobjects : p.total Thread.uncounted ≤ p.total Thread.objects := by
    refine Pool.total_le_total fun t _ => ?_
    rcases t with ⟨m, i, pc⟩ | ⟨k, pc⟩ | pc
    · cases pc <;> simp [Thread.uncounted, Thread.objects]
    · exact le_rfl
    · exact le_rfl
  have hroom := liveObjects_le h
  have hbal := balance_eq hun
  unfold liveObjects addressSpace at hroom
  have hbal0 := ((tracks_of_exec h).eq_zero_iff (by omega) (by omega)).1 hzero
  have hlen : (p.threads.filterMap Thread.uncountedMessage).length
      = p.shared.mailboxSet.messages.length := by
    have : p.shared.mailboxSet.queued = p.total Thread.uncounted := by omega
    rw [length_filterMap_uncounted]
    exact this.symm
  intro x hx hdue
  -- a message that is due is not waiting to be counted, so there is one more message queued
  have hsub : x :: p.threads.filterMap Thread.uncountedMessage ⊆ p.shared.mailboxSet.messages := by
    intro m hm
    rcases List.mem_cons.1 hm with rfl | hm
    · exact hx
    · obtain ⟨t, ht, htm⟩ := List.mem_filterMap.1 hm
      obtain ⟨i, rfl⟩ := uncountedMessage_eq_some htm
      exact queued_of_uncounted h hearly ht
  have hnot : x ∉ p.threads.filterMap Thread.uncountedMessage := by
    intro hm
    obtain ⟨t, ht, htm⟩ := List.mem_filterMap.1 hm
    obtain ⟨i, rfl⟩ := uncountedMessage_eq_some htm
    exact hD.not_of_before h ht (by simp [Thread.before]) hdue
  have hle := (List.subperm_of_subset (List.nodup_cons.2 ⟨hnot, nodup_uncounted h⟩) hsub).length_le
  rw [List.length_cons, hlen] at hle
  omega

/-! ### No message that is due is stranded -/

@[simp] theorem early_at (log : List Event) (c : Caller) (pc : TryActivatePc) :
    (c.at pc).early log = 0 := by cases c <;> rfl

/-- Only an answer of the hook makes a message due. -/
theorem Expects.not_append {D : List Event → Message → Prop} (hD : Expects D) {log : List Event}
    {e : Event} {m : Message} (hne : ∀ alive answer, e ≠ .hook m alive answer) (h : ¬ D log m) :
    ¬ D (log ++ [e]) m := by
  intro hdue
  rcases hD.kept hdue with hold | ⟨alive, answer, he⟩
  · exact h hold
  · exact hne alive answer he

/-- A step that leaves the flag clear and nobody on the way leaves no message queued that is due,
unless it is a push that the hook refuses. -/
theorem Actor.Step.notStranded {D : List Event → Message → Prop} (hD : Expects D) {A : Actor}
    {env : Env} {s s' : ActorState} {t : Thread} {new : List Thread} (h : A.Step env s t s' new)
    (hdes : t.destroys = 0) (hown : t.owns = 1 → s.activated = true)
    (hhook : t.asksHook = 1 → env.shouldActivate = .ok true) {rest e : ℕ}
    (hpush : ∀ m i, t = .producer m i .push → ¬ D s.log m)
    (hzero : t = .activation .loadPendingMessageCount → s.activated = false →
      s.pendingMessageCount = 0 → e = 0 → ∀ m ∈ s.mailboxSet.messages, ¬ D s.log m)
    (hI : s.activated = false → t.willCheck + rest = 0 → t.early s.log + e = 0 →
      ∀ m ∈ s.mailboxSet.messages, ¬ D s.log m)
    (hact : s'.activated = false) (hcheck : (new.map Thread.willCheck).sum + rest = 0)
    (hearly : (new.map (Thread.early s'.log)).sum + e = 0) :
    ∀ m ∈ s'.mailboxSet.messages, ¬ D s'.log m := by
  cases h with
  | pushFull m' i hfull =>
      intro m hm
      exact hD.not_append (by simp) (hI hact (by simpa [Thread.willCheck] using hcheck)
        (by simpa [Thread.early] using hearly) m hm)
  | push m' i set hset =>
      have hold := hI hact (by simpa [Thread.willCheck] using hcheck)
        (by simp only [Thread.early]; omega)
      intro m hm
      refine hD.not_append (by simp) ?_
      rcases List.mem_cons.1 ((MailboxSet.messages_push hset).mem_iff.1 hm) with rfl | hm
      · exact hpush m i rfl
      · exact hold m hm
  | count m' i pc hpc =>
      rcases hpc with ⟨-, rfl⟩ | ⟨-, rfl⟩
      · have hmono := early_mono (List.prefix_append s.log [.counted m'])
          (.producer m' i .shouldActivate)
        simp only [List.map_cons, List.map_nil, List.sum_cons, List.sum_nil, ActorState.emit]
          at hearly
        have hold := hI hact (by simpa [Thread.willCheck] using hcheck)
          (by simp only [Thread.early] at hmono hearly ⊢; omega)
        intro m hm
        exact hD.not_append (by simp) (hold m hm)
      · simp [Thread.willCheck] at hcheck
  | hookThrew m' i e he => simp [hhook rfl] at he
  | approve => simp [Thread.willCheck] at hcheck
  | veto m' i hv => simp [hhook rfl] at hv
  | lose c hact' => simp [hact] at hact'
  | win => simp at hact
  | dropped | schedule => simp [hown (owns_at_schedule _)] at hact
  | pushThrew => simp [ActorState.emit, hown rfl] at hact
  | setPendingLose | setPending | countDestroy | destroyThrew | join | joined =>
      simp [Thread.destroys] at hdes
  | alreadyDestroyed | reset | storeDestroyed | subDestroyed => simp [Thread.destroys] at hdes
  | start | entryAlive | entryNull | pending | notPending | loadLimit | popNone =>
      simp [hown rfl] at hact
  | pop | execute | sub => simp [ActorState.emit, hown rfl] at hact
  | store | loadPos => simp [Thread.willCheck] at hcheck
  | loadZero hz => exact hzero rfl hact hz (by simpa [Thread.early] using hearly)
  | ret =>
      exact hI hact (by simpa [Thread.willCheck] using hcheck)
        (by simpa [Thread.early] using hearly)

/-- `NotStranded` holds in every reachable state, if the pushes that the hook refuses keep it. -/
theorem Expects.notStranded_of_exec {D : List Event → Message → Prop} (hD : Expects D) {A : Actor}
    {C : ActorPool → ActorAction → Prop} {tr : List (ActorPool × ActorAction)} {p : ActorPool}
    (h : A.machine.Exec tr p) (hN : Machine.Meets NotDestroyed tr) (hC : Machine.Meets C tr)
    (hrefused : ∀ s s' l t r new env, C ⟨s, l ++ t :: r⟩ (.run l.length env) →
      A.Step env s t s' new → t.asksHook = 1 → env.shouldActivate ≠ .ok true →
      NotStranded D ⟨s, l ++ t :: r⟩ → NotStranded D ⟨s', l ++ new ++ r⟩) : NotStranded D p := by
  refine Actor.invariantWhere ?_ ?_ ?_ h ((Machine.meets_and ..).2 ⟨hN, hC⟩)
  · intro _ _ _
    simp [Actor.initial]
  · intro _ p i s t _ _ hI _ hat hact hcheck hearly
    rw [Pool.total_arrive _ p] at hcheck hearly
    cases hat <;> exact hI hact (Nat.eq_zero_of_add_eq_zero_right hcheck)
      (Nat.eq_zero_of_add_eq_zero_right hearly)
  · intro _ s s' l t r new env hex hmeets hI hok hstep
    by_cases hasks : t.asksHook = 1 ∧ env.shouldActivate ≠ .ok true
    · exact hrefused s s' l t r new env hok.2 hstep hasks.1 hasks.2 hI
    · intro hact hcheck hearly
      have hun := untouched_of_exec hex ((Machine.meets_and ..).1 hmeets).1
      have hdes := hun.threads
      unfold NotStranded at hI
      rw [Pool.total_before] at hdes
      rw [Pool.total_before Thread.willCheck, Pool.total_before (Thread.early s.log)] at hI
      rw [Pool.total_after] at hcheck hearly
      have hmono := Pool.others_le_others (l := l) (r := r) fun u _ =>
        early_mono hstep.log_prefix u
      simp only at hI hcheck hearly
      refine hstep.notStranded hD (e := Pool.others (Thread.early s.log) l r) (by omega)
        (activated_of_owns hex) (fun h1 => not_not.1 fun h2 => hasks ⟨h1, h2⟩) ?_ ?_ hI hact hcheck
        (by omega)
      · rintro m i rfl
        have hmem : .producer m i .push
            ∈ (⟨s, l ++ .producer m i .push :: r⟩ : ActorPool).threads := by simp
        exact hD.not_of_before hex hmem (by simp [Thread.before])
      · rintro rfl hclear hz he
        refine hD.not_of_zero hex hun hclear hz ?_
        rw [Pool.total_before]
        simpa [Thread.early] using he

theorem early_le_one (log : List Event) (t : Thread) : t.early log ≤ 1 := by
  rcases t with ⟨m, i, pc⟩ | ⟨k, pc⟩ | pc
  · cases pc with
    | fetchAdd | shouldActivate =>
        simp only [Thread.early]
        split_ifs <;> omega
    | _ => exact Nat.zero_le _
  · exact Nat.zero_le _
  · exact Nat.zero_le _

/-- A veto keeps `NotStranded`, unless the push is the last that could activate the actor. -/
theorem notStranded_of_veto {A : Actor} {env : Env} {s s' : ActorState} {l r new : List Thread}
    {t : Thread} (hH : HookOk ⟨s, l ++ t :: r⟩ (.run l.length env))
    (hV : VetoHarmless ⟨s, l ++ t :: r⟩ (.run l.length env)) (hstep : A.Step env s t s' new)
    (hasks : t.asksHook = 1) (hfalse : env.shouldActivate ≠ .ok true)
    (hI : NotStranded Approved ⟨s, l ++ t :: r⟩) :
    NotStranded Approved ⟨s', l ++ new ++ r⟩ := by
  intro hact hcheck hearly
  cases hstep with
  | veto m' i hv =>
      have hmono := Pool.others_le_others (l := l) (r := r) fun u _ =>
        early_mono (List.prefix_append s.log [.hook m' s.userClassInstance (.ok false)]) u
      rw [Pool.total_after] at hcheck hearly
      simp only [List.map_nil, List.sum_nil, Nat.zero_add, ActorState.emit] at hcheck hearly
      have hrest : Pool.total Thread.willCheck ⟨s, l ++ .producer m' i .shouldActivate :: r⟩
          = 0 := by
        rw [Pool.total_before, hcheck]
        rfl
      have htotal : Pool.total (Thread.early s.log) ⟨s, l ++ .producer m' i .shouldActivate :: r⟩
          = Thread.early s.log (.producer m' i .shouldActivate) := by
        rw [Pool.total_before]
        omega
      have hone := early_le_one s.log (.producer m' i .shouldActivate)
      have hold : ∀ m ∈ s.mailboxSet.messages, ¬ Approved s.log m := by
        rcases Nat.eq_zero_or_pos (Thread.early s.log (.producer m' i .shouldActivate))
          with hz | hpos
        · exact hI hact hrest (htotal.trans hz)
        · have hearly' : Thread.early s.log (.producer m' i .shouldActivate) = 1 := by omega
          exact hV hv ⟨.producer m' i .shouldActivate, by simp, rfl, hearly'⟩ hact hrest
            (htotal.trans hearly')
      simpa [ActorState.emit, Approved] using hold
  | hookThrew m' i e he =>
      have hok : env.shouldActivate.isOk = true := hH
      rw [he] at hok
      cases hok
  | approve m' i he => exact absurd he hfalse
  | lose | win | dropped | schedule => simp at hasks
  | _ => simp [Thread.asksHook] at hasks

/-- **No approved message is stranded.**  In a run in which nobody destroys the actor, the hook does
not throw and `Schedule` does not throw, no quiescent state has an approved message queued, unless
the hook vetoed the last push that could activate the actor after an activation took the message of
that push before it was counted. -/
theorem approved_messages_drained {A : Actor} {tr : List (ActorPool × ActorAction)}
    {p : ActorPool} (h : A.machine.Exec tr p) (hC : Machine.Meets NotDestroyed tr)
    (hH : Machine.Meets HookOk tr) (hS : Machine.Meets ScheduleOk tr)
    (hV : Machine.Meets VetoHarmless tr) (hq : Quiescent p) :
    ∀ q ∈ p.shared.mailboxSet.mailboxes, ∀ m ∈ q.queue, ¬ Approved p.shared.log m := by
  have hnil := hq.threads_eq_nil (untouched_of_exec h hC)
  have htotal : ∀ w : Thread → ℕ, p.total w = 0 := by
    intro w
    simp [Pool.total, hnil]
  have hact := activated_eq_false_of_total h hC hS (htotal _)
  intro q hq' m hm
  have hnot : NotStranded Approved p :=
    expects_approved.notStranded_of_exec h hC ((Machine.meets_and ..).2 ⟨hH, hV⟩)
      fun _ _ _ _ _ _ _ hok hstep hasks hfalse hI =>
        notStranded_of_veto hok.1 hok.2 hstep hasks hfalse hI
  exact hnot hact (htotal _) (htotal _) m (MailboxSet.mem_messages.2 ⟨q, hq', hm⟩)

/-- A vetoed push and an approved one: the activation drains both. -/
theorem approved_messages_drained_after_veto : ∃ tr p, Actor.gated.machine.Exec tr p ∧
    .hook 0 true (.ok false) ∈ p.shared.log ∧ .hook 1 true (.ok true) ∈ p.shared.log ∧
    ∀ q ∈ p.shared.mailboxSet.mailboxes, ∀ m ∈ q.queue, ¬ Approved p.shared.log m := by
  let L : List ActorAction := [.arrive (.pushMessage 0)] ++ threadSteps 0 3 Env.veto
    ++ [.arrive (.pushMessage 0)] ++ threadSteps 0 17 Env.calm
  obtain ⟨p, hex, hp⟩ := Machine.exists_exec_of_replay (Actor.machine_init Actor.gated) L
    (fun p => (p.threads, decide (.hook 0 true (.ok false) ∈ p.shared.log),
      decide (.hook 1 true (.ok true) ∈ p.shared.log))) ([], true, true) (by decide)
  simp only [Prod.mk.injEq, decide_eq_true_eq] at hp
  have hq : Quiescent p := ⟨by simp [Pool.total, hp.1], by simp [Pool.total, hp.1]⟩
  exact ⟨_, p, hex, hp.2.1, hp.2.2,
    approved_messages_drained hex (by decide) (by decide) (by decide) (by decide) hq⟩

/-- The first message is taken by the activation of the second before its own push has counted it,
and then that push is vetoed: the second message stays in its mailbox. -/
theorem approved_message_stranded : ∃ tr p, Actor.gated.machine.Exec tr p ∧
    Machine.Meets NotDestroyed tr ∧ Machine.Meets HookOk tr ∧ Machine.Meets ScheduleOk tr ∧
    Quiescent p ∧ p.shared.mailboxSet.messages = [1] ∧ Approved p.shared.log 1 := by
  let L : List ActorAction := [.arrive (.pushMessage 0), .run 0 Env.calm, .arrive (.pushMessage 0)]
    ++ threadSteps 1 15 Env.calm ++ threadSteps 0 2 Env.veto
  obtain ⟨p, hex, hp⟩ := Machine.exists_exec_of_replay (Actor.machine_init Actor.gated) L
    (fun p => (p.threads, p.shared.mailboxSet.messages, decide (Approved p.shared.log 1)))
    ([], [1], true) (by decide)
  simp only [Prod.mk.injEq, decide_eq_true_eq] at hp
  exact ⟨_, p, hex, by decide, by decide, by decide,
    ⟨by simp [Pool.total, hp.1], by simp [Pool.total, hp.1]⟩, hp.2⟩

end ExActor
