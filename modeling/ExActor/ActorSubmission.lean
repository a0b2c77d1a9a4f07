/-
**What a failed submission leaves behind.**

`ActorMessageSubmissionOperation::start` calls `PushMessage` and, when that throws, completes the
receiver with `set_error`.  From then on the caller may destroy the operation state, so nothing of
the message may stay in the actor.  `PushMessage` can throw at three places: its mailbox is full,
the hook throws, or `Schedule` throws because the scheduler's `connect` rejects the environment.
Only the first is before the message is queued.  After the other two the message is queued and
counted, after the last one `activated_` is set as well, and a later activation executes a message
whose receiver has already been completed.

Main definitions:

* `shouldActivate`, `tryActivate`, `pushMessage`, `start` — the functions of the source, run by one
  thread without interruption;
* `SchedulerUnion.connect` — the `connect` that rejects an index;
* `PushHarmless`, `ThrowsOnlyWhenFull` — the condition on one call, and on the steps of a run.

Main results:

* `start_replays` — the functions are what the steps of one thread do;
* `pushMessage_untouched_iff` — when a push that throws leaves the actor as it was;
* `completions_le_one` — no receiver is completed twice, where a push throws only when its mailbox
  is full;
* `failed_push_leaves_no_trace` — **both together**;
* `failed_push_leaves_its_message` — failed pushes that do leave a trace.
-/

import ExActor.ActorWakeup

set_option relaxedAutoImplicit false
set_option autoImplicit false

namespace ExActor

/-! ### The functions of the source -/

/-- `ShouldActivate`. -/
def shouldActivate (A : Actor) (s : ActorState) (m : Message) (env : Env) :
    ActorState × Except ActorError Bool :=
  if A.hasShouldActivateHook then
    (s.emit (.hook m s.userClassInstance env.shouldActivate),
      env.shouldActivate.mapError .shouldActivate)
  else (s, .ok true)

/-- `TryActivate`, with the activation that it schedules. -/
def tryActivate (s : ActorState) (env : Env) : ActorState × Except ActorError (List Thread) :=
  if s.activated then (s, .ok [])
  else
    let s' := { s with activated := true }
    match env.connect with
    | .error e => (s', .error (.connect e))
    | .ok () =>
        match s'.asyncScope.tryAssociate with
        | none => (s', .ok [])
        | some sc => ({ s' with asyncScope := sc }, .ok [.activation .scheduled])

/-- `PushMessage`. -/
def pushMessage (A : Actor) (s : ActorState) (m : Message) (mailboxIndex : ℕ) (env : Env) :
    Option (ActorState × Except ActorError (List Thread)) :=
  match s.mailboxSet.push mailboxIndex m with
  | none => none
  | some (.error e) => some (s, .error e)
  | some (.ok set) =>
      let s₁ := { s with mailboxSet := set }.emit (.pushed m mailboxIndex)
      let s₂ := { s₁ with pendingMessageCount := s₁.pendingMessageCount + 1 }.emit (.counted m)
      match shouldActivate A s₂ m env with
      | (s₃, .error e) => some (s₃, .error e)
      | (s₃, .ok false) => some (s₃, .ok [])
      | (s₃, .ok true) => some (tryActivate s₃ env)

/-- The `catch` of `start`. -/
def caught (m : Message) : ActorState × Except ActorError (List Thread) → ActorState × List Thread
  | (s, .error e) => (s.emit (.setError m e), [])
  | (s, .ok new) => (s, new)

/-- `ActorMessageSubmissionOperation::start`. -/
def start (A : Actor) (s : ActorState) (m : Message) (mailboxIndex : ℕ) (env : Env) :
    Option (ActorState × List Thread) :=
  (pushMessage A s m mailboxIndex env).map (caught m)

/-- `SchedulerUnion::Sender::connect` checks the index of a union of `size` schedulers. -/
def SchedulerUnion.connect (size schedulerIndex : ℕ) : Except String Unit :=
  if schedulerIndex < size then .ok ()
  else .error ("Check failed, expected `scheduler_index < sizeof...(Schedulers)`, got "
    ++ toString schedulerIndex ++ " vs " ++ toString size ++ ". Scheduler index out of range")

/-! ### The functions are what the steps do -/

/-- A step of a thread, in the middle of a pool. -/
theorem Actor.next_here {A : Actor} {s s' : ActorState} {t : Thread} {new : List Thread} {env : Env}
    (h : A.run s t env = some (s', new)) (l r : List Thread) :
    A.machine.next ⟨s, l ++ t :: r⟩ (.run l.length env) = some ⟨s', l ++ new ++ r⟩ :=
  ThreadProgram.next_run_iff.2 ⟨l, t, r, s', new, rfl, rfl, h, rfl⟩

/-- The thread at one place of the pool takes `k` steps. -/
def Actor.Takes (A : Actor) (env : Env) (l r : List Thread) (k : ℕ) (s : ActorState)
    (ts : List Thread) (s' : ActorState) (ts' : List Thread) : Prop :=
  A.machine.replay ⟨s, l ++ ts ++ r⟩ (List.replicate k (.run l.length env))
    = some ⟨s', l ++ ts' ++ r⟩

theorem Actor.Takes.zero (A : Actor) (env : Env) (l r : List Thread) (s : ActorState)
    (ts : List Thread) : A.Takes env l r 0 s ts s ts := rfl

theorem Actor.Takes.head {A : Actor} {env : Env} {l r : List Thread} {k : ℕ}
    {s s' s'' : ActorState} {t : Thread} {new ts : List Thread}
    (h : A.run s t env = some (s', new)) (hk : A.Takes env l r k s' new s'' ts) :
    A.Takes env l r (k + 1) s [t] s'' ts := by
  unfold Actor.Takes at hk ⊢
  rw [List.replicate_succ]
  refine Machine.replay_cons_some ?_ hk
  simpa using Actor.next_here h l r

theorem tryActivate_takes (A : Actor) {s s' : ActorState} {m : Message} {i : ℕ} {env : Env}
    {new : List Thread} (h : caught m (tryActivate s env) = (s', new)) (l r : List Thread) :
    ∃ k, A.Takes env l r k s [.producer m i (.tryActivate .cas)] s' new := by
  unfold tryActivate at h
  split at h
  · next hact =>
      obtain ⟨rfl, rfl⟩ := by simpa [caught] using h
      refine ⟨1, .head ?_ (.zero ..)⟩
      simp [Actor.run, pushMessageStep, tryActivateStep, hact]
  · next hact =>
      have hcas : A.run s (.producer m i (.tryActivate .cas)) env
          = some ({ s with activated := true }, [.producer m i (.tryActivate .schedule)]) := by
        simp [Actor.run, pushMessageStep, tryActivateStep, hact]
      refine ⟨2, .head hcas (.head ?_ (.zero ..))⟩
      simp only at h
      split at h
      · next e he =>
          obtain ⟨rfl, rfl⟩ := by simpa [caught] using h
          simp [Actor.run, pushMessageStep, tryActivateStep, he]
      · next hok =>
          split at h
          · next hsc =>
              obtain ⟨rfl, rfl⟩ := by simpa [caught] using h
              simp [Actor.run, pushMessageStep, tryActivateStep, hok, hsc]
          · next sc hsc =>
              obtain ⟨rfl, rfl⟩ := by simpa [caught] using h
              simp [Actor.run, pushMessageStep, tryActivateStep, hok, hsc]

/-- **The functions are what the steps of one thread do**, when no other thread comes between. -/
theorem start_replays {A : Actor} {s s' : ActorState} {m : Message} {i : ℕ} {env : Env}
    {new : List Thread} (h : start A s m i env = some (s', new)) (l r : List Thread) :
    ∃ k, A.Takes env l r k s [.producer m i .push] s' new := by
  obtain ⟨⟨s₁, res⟩, hpush, hcaught⟩ := Option.map_eq_some_iff.1 h
  unfold pushMessage at hpush
  split at hpush
  · simp at hpush
  · next e he =>
      obtain ⟨rfl, rfl⟩ := by simpa using hpush
      refine ⟨1, .head ?_ (.zero ..)⟩
      obtain ⟨rfl, rfl⟩ := by simpa [caught] using hcaught
      simp [Actor.run, pushMessageStep, he]
  · next set hset =>
      have hfirst : A.run s (.producer m i .push) env
          = some (({ s with mailboxSet := set } : ActorState).emit (.pushed m i),
            [.producer m i .fetchAdd]) := by
        simp [Actor.run, pushMessageStep, hset]
      simp only [shouldActivate] at hpush
      cases hhook : A.hasShouldActivateHook with
      | false =>
          simp only [hhook, Bool.false_eq_true, if_false, Option.some.injEq] at hpush
          rw [← hpush] at hcaught
          obtain ⟨k, hk⟩ := tryActivate_takes A (i := i) hcaught l r
          refine ⟨k + 2, .head hfirst (.head ?_ hk)⟩
          simp [Actor.run, pushMessageStep, hhook]
      | true =>
          have hsecond : A.run (({ s with mailboxSet := set } : ActorState).emit (.pushed m i))
              (.producer m i .fetchAdd) env = some
                (({ s with
                    mailboxSet := set
                    pendingMessageCount := s.pendingMessageCount + 1
                    log := s.log ++ [.pushed m i] } : ActorState).emit (.counted m),
                  [.producer m i .shouldActivate]) := by
            simp [Actor.run, pushMessageStep, hhook, ActorState.emit]
          simp only [hhook, if_true] at hpush
          cases hans : env.shouldActivate with
          | error e =>
              simp only [hans, Except.mapError, Option.some.injEq, Prod.mk.injEq] at hpush
              obtain ⟨rfl, rfl⟩ := hpush
              obtain ⟨rfl, rfl⟩ := by simpa [caught] using hcaught
              refine ⟨3, .head hfirst (.head hsecond (.head ?_ (.zero ..)))⟩
              simp [Actor.run, pushMessageStep, hans, ActorState.emit]
          | ok b =>
              cases b with
              | false =>
                  simp only [hans, Except.mapError, Option.some.injEq, Prod.mk.injEq] at hpush
                  obtain ⟨rfl, rfl⟩ := hpush
                  obtain ⟨rfl, rfl⟩ := by simpa [caught] using hcaught
                  refine ⟨3, .head hfirst (.head hsecond (.head ?_ (.zero ..)))⟩
                  simp [Actor.run, pushMessageStep, hans, ActorState.emit]
              | true =>
                  simp only [hans, Except.mapError, Option.some.injEq] at hpush
                  rw [← hpush] at hcaught
                  obtain ⟨k, hk⟩ := tryActivate_takes A (i := i) hcaught l r
                  refine ⟨k + 3, .head hfirst (.head hsecond (.head ?_ hk))⟩
                  simp [Actor.run, pushMessageStep, hans, ActorState.emit]

/-! ### One call -/

/-- The mailboxes, the counter and the flag are as before. -/
structure SameActor (s s' : ActorState) : Prop where
  mailboxSet : s'.mailboxSet = s.mailboxSet
  pendingMessageCount : s'.pendingMessageCount = s.pendingMessageCount
  activated : s'.activated = s.activated

/-- The mailbox is full; or the hook does not throw, and it vetoes the push, or the actor is
activated already, or the scheduler accepts the environment. -/
def PushHarmless (A : Actor) (s : ActorState) (mailboxIndex : ℕ) (env : Env) : Prop :=
  (∃ q ∈ s.mailboxSet.mailboxes[mailboxIndex]?, q.Full) ∨
    (A.hasShouldActivateHook = true → env.shouldActivate.isOk = true) ∧
      ((A.hasShouldActivateHook = true ∧ env.shouldActivate = .ok false) ∨ s.activated = true ∨
        env.connect = .ok ())

theorem MailboxSet.push_ne_self {s s' : MailboxSet} {i : ℕ} {m : Message}
    (h : s.push i m = some (.ok s')) : s' ≠ s := by
  rintro rfl
  have := MailboxSet.queued_push h
  omega

theorem MailboxSet.not_full_of_push {s s' : MailboxSet} {i : ℕ} {m : Message}
    (h : s.push i m = some (.ok s')) : ¬ ∃ q ∈ s.mailboxes[i]?, q.Full := by
  rintro ⟨q, hq, hfull⟩
  have herr := (MailboxSet.push_eq_error_iff (e := .mailboxFull i) (m := m)).2 ⟨rfl, q, hq, hfull⟩
  simp [h] at herr

/-- `TryActivate` throws exactly when it wins the flag and the scheduler rejects it. -/
theorem tryActivate_throws_iff {s : ActorState} {env : Env} :
    (∃ e, (tryActivate s env).2 = .error e) ↔
      s.activated = false ∧ env.connect.isOk = false := by
  unfold tryActivate
  split
  · next hact => simp [hact]
  · next hact =>
      simp only
      split
      · next e he => simp [hact, he, Except.isOk, Except.toBool]
      · next hok => split <;> simp [hok, Except.isOk, Except.toBool]

theorem tryActivate_mailboxSet (s : ActorState) (env : Env) :
    (tryActivate s env).1.mailboxSet = s.mailboxSet := by
  unfold tryActivate
  split
  · rfl
  · simp only
    split
    · rfl
    · split <;> rfl

/-- Once its message is queued, a push throws exactly when it is not harmless. -/
theorem pushMessage_throws_iff {A : Actor} {s s' : ActorState} {m : Message} {i : ℕ} {env : Env}
    {res : Except ActorError (List Thread)} {set : MailboxSet}
    (h : pushMessage A s m i env = some (s', res)) (hset : s.mailboxSet.push i m = some (.ok set)) :
    s'.mailboxSet = set ∧ ((∃ e, res = .error e) ↔ ¬ PushHarmless A s i env) := by
  have hfull := MailboxSet.not_full_of_push hset
  simp only [pushMessage, hset, shouldActivate] at h
  simp only [PushHarmless, hfull, false_or]
  cases hhook : A.hasShouldActivateHook with
  | false =>
      simp only [hhook, Bool.false_eq_true, if_false, Option.some.injEq] at h
      obtain ⟨rfl, rfl⟩ : _ = s' ∧ _ = res := ⟨congrArg Prod.fst h, congrArg Prod.snd h⟩
      refine ⟨tryActivate_mailboxSet .., ?_⟩
      rw [tryActivate_throws_iff]
      cases env.connect <;> simp [ActorState.emit, Except.isOk, Except.toBool]
  | true =>
      simp only [hhook, if_true] at h
      cases hans : env.shouldActivate with
      | error e =>
          simp only [hans, Except.mapError, Option.some.injEq, Prod.mk.injEq] at h
          obtain ⟨rfl, rfl⟩ := h
          exact ⟨rfl, by simp [Except.isOk, Except.toBool]⟩
      | ok b =>
          cases b with
          | false =>
              simp only [hans, Except.mapError, Option.some.injEq, Prod.mk.injEq] at h
              obtain ⟨rfl, rfl⟩ := h
              exact ⟨rfl, by simp [Except.isOk, Except.toBool]⟩
          | true =>
              simp only [hans, Except.mapError, Option.some.injEq] at h
              obtain ⟨rfl, rfl⟩ : _ = s' ∧ _ = res := ⟨congrArg Prod.fst h, congrArg Prod.snd h⟩
              refine ⟨tryActivate_mailboxSet .., ?_⟩
              rw [tryActivate_throws_iff]
              cases env.connect <;> simp [ActorState.emit, Except.isOk, Except.toBool]

/-- **When a push that throws leaves the actor as it was.** -/
theorem pushMessage_untouched_iff {A : Actor} {s s' : ActorState} {m : Message} {i : ℕ} {env : Env}
    {res : Except ActorError (List Thread)} (h : pushMessage A s m i env = some (s', res)) :
    ((∃ e, res = .error e) → SameActor s s') ↔ PushHarmless A s i env := by
  cases hpush : s.mailboxSet.push i m with
  | none => simp [pushMessage, hpush] at h
  | some r =>
      cases r with
      | error e =>
          obtain ⟨rfl, rfl⟩ := by simpa [pushMessage, hpush] using h
          have hfull := (MailboxSet.push_eq_error_iff.1 hpush).2
          have hsame : SameActor s s := ⟨rfl, rfl, rfl⟩
          simp [PushHarmless, hfull, hsame]
      | ok set =>
          obtain ⟨hset, hthrows⟩ := pushMessage_throws_iff h hpush
          have hne := MailboxSet.push_ne_self hpush
          constructor
          · intro hsame
            by_contra hharm
            exact hne (hset.symm.trans (hsame (hthrows.2 hharm)).mailboxSet)
          · intro hharm hthrew
            exact absurd hharm (hthrows.1 hthrew)

/-! ### Runs -/

/-- The event completes the receiver of the message. -/
def Event.completes (m : Message) : Event → ℕ
  | .executed m' _ _ _ => if m' = m then 1 else 0
  | .setError m' _ => if m' = m then 1 else 0
  | _ => 0

/-- How often the receiver of the message has been completed. -/
def completions (m : Message) (log : List Event) : ℕ := tally (Event.completes m) log

/-- The thread is about to queue the message or to execute it. -/
def Thread.holds (m : Message) : Thread → ℕ
  | .producer m' _ .push => if m' = m then 1 else 0
  | .activation (.execute _ _ _ m') => if m' = m then 1 else 0
  | _ => 0

/-- The step is not one in which a push throws after it has queued its message. -/
def ThrowsOnlyWhenFull (p : ActorPool) : ActorAction → Prop
  | .run n env => ∀ t ∈ p.threads[n]?,
      (t.asksHook = 1 → env.shouldActivate.isOk = true) ∧
        (t.pushSchedules = 1 → env.connect = .ok ())
  | .arrive _ => True

instance (p : ActorPool) (a : ActorAction) : Decidable (ThrowsOnlyWhenFull p a) :=
  match a with
  | .run n _ => inferInstanceAs (Decidable (∀ t ∈ p.threads[n]?, _))
  | .arrive _ => isTrue trivial

@[simp] theorem holds_at (m : Message) (c : Caller) (pc : TryActivatePc) :
    (c.at pc).holds m = 0 := by cases c <;> rfl

@[simp] theorem holds_after (m : Message) (c : Caller) :
    (c.after.map (Thread.holds m)).sum = 0 := by cases c <;> rfl

/-- A message is handed on, from its push to its mailbox to its activation to its receiver. -/
theorem Actor.Step.completions_le {A : Actor} {env : Env} {s s' : ActorState} {t : Thread}
    {new : List Thread} (h : A.Step env s t s' new)
    (hhook : t.asksHook = 1 → env.shouldActivate.isOk = true)
    (hconnect : t.pushSchedules = 1 → env.connect = .ok ())
    (m : Message) :
    (new.map (Thread.holds m)).sum + s'.mailboxSet.messages.count m
        + tally (Event.completes m) s'.log
      ≤ t.holds m + s.mailboxSet.messages.count m + tally (Event.completes m) s.log := by
  cases h with
  | push m' i set hpush =>
      have hcount := (MailboxSet.messages_push hpush).count_eq m
      rw [List.count_cons] at hcount
      simp [ActorState.emit, Thread.holds, tally, Event.completes] at hcount ⊢
      omega
  | pop limit executed i m' set hpop =>
      have hcount := (MailboxSet.messages_tryPop hpop).count_eq m
      rw [List.count_cons] at hcount
      simp [ActorState.emit, Thread.holds, tally, Event.completes] at hcount ⊢
      omega
  | hookThrew m' i e he =>
      have := hhook rfl
      rw [he] at this
      cases this
  | pushThrew m' i e he =>
      have := hconnect rfl
      rw [he] at this
      cases this
  | lose | win | dropped => simp
  | schedule => simp [Thread.holds]
  | count m' i pc hpc =>
      rcases hpc with ⟨-, rfl⟩ | ⟨-, rfl⟩ <;>
        simp [ActorState.emit, Thread.holds, tally, Event.completes]
  | popNone limit executed i pc hnone hpc =>
      rcases hpc with rfl | rfl <;> simp [Thread.holds]
  | execute limit executed i m' pc hpc =>
      rcases hpc with ⟨-, rfl⟩ | ⟨-, rfl⟩ <;>
        simp [ActorState.emit, Thread.holds, tally, Event.completes] <;> omega
  | pushFull =>
      simp [ActorState.emit, Thread.holds, tally, Event.completes]
      omega
  | _ => simp [ActorState.emit, Thread.holds, tally, Event.completes]

theorem submitted_holds (p : ActorPool) (m i : ℕ) :
    (Thread.producer p.shared.submitted i .push).holds m
      = if p.shared.submitted = m then 1 else 0 := rfl

/-- A receiver is completed at most once, where a push throws only when its mailbox is full. -/
theorem completions_le_one {A : Actor} {tr : List (ActorPool × ActorAction)} {p : ActorPool}
    (h : A.machine.Exec tr p) (hF : Machine.Meets ThrowsOnlyWhenFull tr) (m : ℕ) :
    completions m p.shared.log ≤ 1 := by
  have hinv : p.total (Thread.holds m) + p.shared.mailboxSet.messages.count m
      + completions m p.shared.log ≤ flag (decide (m < p.shared.submitted)) := by
    refine Actor.invariantWhere (I := fun p => p.total (Thread.holds m)
      + p.shared.mailboxSet.messages.count m + completions m p.shared.log
        ≤ flag (decide (m < p.shared.submitted))) ?_ ?_ ?_ h hF
    · simp [Actor.initial, completions]
    · intro _ p i s t _ _ hI _ hat
      rw [Pool.total_arrive _ p]
      cases hat with
      | pushMessage i hroom =>
          rw [submitted_holds]
          simp only [flag, decide_eq_true_eq] at hI ⊢
          split_ifs at hI ⊢ <;> omega
      | asyncDestroy => simpa [Thread.holds] using hI
    · intro _ s s' l t r new env _ _ hI hok hstep
      obtain ⟨hhook, hconnect⟩ := hok t (by simp)
      have hle := hstep.completions_le hhook hconnect m
      have hsub := hstep.submitted_eq
      rw [Pool.total_before] at hI
      rw [Pool.total_after]
      simp only [completions, hsub] at hI ⊢
      omega
  have hflag := flag_le_one (decide (m < p.shared.submitted))
  omega

/-! ### A failed submission leaves no trace -/

/-- **A failed submission leaves no trace**, exactly if the push is harmless; and in a run in which
a push throws only when its mailbox is full, no receiver is completed twice. -/
theorem failed_push_leaves_no_trace (A : Actor) :
    (∀ s m i env s' res, pushMessage A s m i env = some (s', res) →
      (((∃ e, res = .error e) → SameActor s s') ↔ PushHarmless A s i env)) ∧
    ∀ tr p, A.machine.Exec tr p → Machine.Meets ThrowsOnlyWhenFull tr →
      ∀ m, completions m p.shared.log ≤ 1 :=
  ⟨fun _ _ _ _ _ _ h => pushMessage_untouched_iff h, fun _ _ h hF m => completions_le_one h hF m⟩

/-- An actor with one mailbox of one slot. -/
def Actor.oneSlot : Actor :=
  ⟨{ ActorConfig.default with mailboxConfigs := [.unsafeOneSlotMailbox] }, false⟩

/-- A push into a full mailbox throws and leaves the actor as it was. -/
theorem failed_push_leaves_no_trace_full :
    (∃ s s', pushMessage Actor.oneSlot s 1 0 Env.calm = some (s', .error (.mailboxFull 0)) ∧
      SameActor s s') ∧
    ∃ tr p, Actor.oneSlot.machine.Exec tr p ∧ completions 1 p.shared.log = 1 ∧
      ∀ m, completions m p.shared.log ≤ 1 := by
  constructor
  · let s : ActorState := { Actor.oneSlot.initial with
      mailboxSet := ⟨[⟨.unsafeOneSlotMailbox, [0], by decide⟩], by decide⟩ }
    have hpush : pushMessage Actor.oneSlot s 1 0 Env.calm = some (s, .error (.mailboxFull 0)) := by
      decide
    have hharm : PushHarmless Actor.oneSlot s 0 Env.calm := Or.inl (by decide)
    exact ⟨s, s, hpush, ((failed_push_leaves_no_trace Actor.oneSlot).1 _ _ _ _ _ _ hpush).2 hharm
      ⟨_, rfl⟩⟩
  · let L : List ActorAction := [.arrive (.pushMessage 0), .run 0 Env.calm,
      .arrive (.pushMessage 0), .run 1 Env.calm]
    obtain ⟨p, hex, hp⟩ := Machine.exists_exec_of_replay (Actor.machine_init Actor.oneSlot) L
      (fun p => completions 1 p.shared.log) 1 (by decide)
    exact ⟨_, p, hex, hp, (failed_push_leaves_no_trace Actor.oneSlot).2 _ _ hex (by decide)⟩

/-- The hook throws and the message stays queued and counted; an index that is out of range for the
union of two schedulers is rejected and leaves `activated_` set as well; and the message whose hook
threw is executed by the activation of a later push, after its receiver was completed. -/
theorem failed_push_leaves_its_message :
    (pushMessage Actor.gated Actor.gated.initial 0 0 Env.hookThrows).map
        (fun r => (r.1.mailboxSet.messages, r.1.pendingMessageCount, r.2.isOk))
      = some ([0], 1, false) ∧
    (pushMessage Actor.plain Actor.plain.initial 0 0
        { Env.calm with connect := SchedulerUnion.connect 2 2 }).map
        (fun r => (r.1.mailboxSet.messages, r.1.pendingMessageCount, r.1.activated, r.2.isOk))
      = some ([0], 1, true, false) ∧
    ∃ tr p, Actor.gated.machine.Exec tr p ∧ completions 0 p.shared.log = 2 := by
  refine ⟨by decide, by decide, ?_⟩
  let L : List ActorAction := [.arrive (.pushMessage 0), .run 0 Env.calm, .run 0 Env.calm,
    .run 0 Env.hookThrows, .arrive (.pushMessage 0)] ++ threadSteps 0 11 Env.calm
  obtain ⟨p, hex, hp⟩ := Machine.exists_exec_of_replay (Actor.machine_init Actor.gated) L
    (fun p => completions 0 p.shared.log) 2 (by decide)
  exact ⟨_, p, hex, hp⟩

end ExActor
