/-
**Accounting for `pending_message_count_`.**

`PushMessage` queues its message before it counts it, and `PullMailboxAndRun` subtracts what it has
executed only at its end, so the counter agrees with the mailboxes at no particular moment.  What
it does agree with, at every moment and modulo `2 ^ 64`, is the *balance*: the queued messages,
plus the credit of every thread.  A producer between its push and its `fetch_add` has credit `-1`,
an activation that has executed `k` messages and not yet subtracted them has credit `k`.

The balance may be negative: an activation may execute messages that are not counted yet, and
subtract them first.  The counter then wraps around.

Main definitions:

* `Thread.credit`, `balance` — what the counter should hold;
* `Untouched` — what holds as long as nobody destroys the actor;
* `Thread.takenHere`, `Thread.uncounted` — the two sides of a credit;
* `ActorState.losses` — how often the flag was left set without an owner.

Main results:

* `tracks_of_exec` — **the counter holds the balance modulo `2 ^ 64`**;
* `liveObjects_le` — the queued messages and the producers fit in the address space;
* `untouched_of_exec` — an actor that nobody destroys stays alive;
* `balance_eq` — its balance is what is queued or taken, less what is not counted;
* `activated_le_of_exec` — **while the flag is set, somebody owns it**, unless it was lost.
-/

import ExActor.ActorExclusion
import ExActor.WrapCounter

set_option relaxedAutoImplicit false
set_option autoImplicit false

namespace ExActor

/-! ### The balance -/

/-- What the counter still has to receive from the thread, or to give back to it. -/
def Thread.credit : Thread → ℤ
  | .producer _ _ .fetchAdd => -1
  | .destroyer _ .fetchAdd => -1
  | .activation .storeActivatedDestroyed => 1
  | .activation .fetchSubDestroyed => 1
  | .activation (.tryPop _ executed _) => executed
  | .activation (.execute _ executed _ _) => executed + 1
  | .activation (.fetchSub _ executed) => executed
  | _ => 0

/-- The part of the balance that the shared state shows: the queued messages, and one for the
destruction until the instance is reset. -/
def ActorState.base (s : ActorState) : ℤ :=
  s.mailboxSet.queued + flag s.pendingToBeDestroyed - flag (!s.userClassInstance)

/-- What `pending_message_count_` stands for. -/
def balance (p : ActorPool) : ℤ := p.shared.base + p.total Thread.credit

@[simp] theorem credit_at (c : Caller) (pc : TryActivatePc) : (c.at pc).credit = 0 := by
  cases c <;> rfl

@[simp] theorem credit_after (c : Caller) : (c.after.map Thread.credit).sum = 0 := by
  cases c <;> rfl

/-- **Every step moves the counter and the balance alike.** -/
theorem Actor.Step.tracks {A : Actor} {env : Env} {s s' : ActorState} {t : Thread}
    {new : List Thread} (h : A.Step env s t s' new) {rest : ℤ}
    (halive : t = .activation .reset → s.userClassInstance = true)
    (hI : Tracks s.pendingMessageCount (s.base + (t.credit + rest))) :
    Tracks s'.pendingMessageCount (s'.base + ((new.map Thread.credit).sum + rest)) := by
  cases h with
  | push m i set hpush =>
      refine hI.congr ?_
      simp [ActorState.base, ActorState.emit, Thread.credit, MailboxSet.queued_push hpush]
      omega
  | count m i pc hpc =>
      refine (hI.add 1).congr ?_
      rcases hpc with ⟨-, rfl⟩ | ⟨-, rfl⟩ <;>
        simp [ActorState.base, ActorState.emit, Thread.credit] <;> omega
  | setPending k hp =>
      refine hI.congr ?_
      simp [ActorState.base, Thread.credit, hp]
      omega
  | countDestroy k =>
      refine (hI.add 1).congr ?_
      simp [ActorState.base, Thread.credit]
      omega
  | reset =>
      refine hI.congr ?_
      simp [ActorState.base, ActorState.emit, Thread.credit, halive rfl]
      omega
  | subDestroyed =>
      refine (hI.sub 1).congr ?_
      simp [ActorState.base, Thread.credit]
      omega
  | popNone limit executed i pc hnone hpc =>
      refine hI.congr ?_
      rcases hpc with rfl | rfl <;> simp [Thread.credit]
  | pop limit executed i m set hpop =>
      refine hI.congr ?_
      have hq := MailboxSet.queued_tryPop hpop
      simp [ActorState.base, ActorState.emit, Thread.credit, ← hq]
      omega
  | execute limit executed i m pc hpc =>
      refine hI.congr ?_
      rcases hpc with ⟨-, rfl⟩ | ⟨-, rfl⟩ <;>
        simp [ActorState.base, ActorState.emit, Thread.credit]
  | sub limit executed =>
      refine (hI.sub executed).congr ?_
      simp [ActorState.base, ActorState.emit, Thread.credit]
      omega
  | lose | win | dropped => simpa [ActorState.base] using hI
  | schedule =>
      rw [credit_at] at hI
      simpa [ActorState.base, Thread.credit] using hI
  | _ => simpa [ActorState.base, ActorState.emit, Thread.credit] using hI

/-- **The counter holds the balance modulo `2 ^ 64`**, in every reachable state. -/
theorem tracks_of_exec {A : Actor} {tr : List (ActorPool × ActorAction)} {p : ActorPool}
    (h : A.machine.Exec tr p) : Tracks p.shared.pendingMessageCount (balance p) := by
  refine Actor.invariant (I := fun p => Tracks p.shared.pendingMessageCount (balance p))
    ?_ ?_ ?_ h
  · simpa [balance, Actor.initial, ActorState.base] using Tracks.zero
  · intro _ p i s t _ hI hat
    refine (by cases hat <;> exact hI : Tracks s.pendingMessageCount (balance p)).congr ?_
    unfold balance
    rw [Pool.total_arrive _ p]
    cases hat <;> simp [ActorState.base, Thread.credit]
  · intro _ s s' l t r new env hex hI hstep
    unfold balance at hI ⊢
    rw [Pool.total_before] at hI
    rw [Pool.total_after]
    refine hstep.tracks ?_ hI
    rintro rfl
    exact instance_of_needsInstance hex rfl

/-! ### The address space -/

@[simp] theorem objects_at (c : Caller) : (c.at .cas).objects = (c.at .schedule).objects := by
  cases c <;> rfl

@[simp] theorem objects_after (c : Caller) : (c.after.map Thread.objects).sum = 0 := by
  cases c <;> rfl

/-- No step needs more room. -/
theorem Actor.Step.objects_le {A : Actor} {env : Env} {s s' : ActorState} {t : Thread}
    {new : List Thread} (h : A.Step env s t s' new) :
    s'.mailboxSet.queued + (new.map Thread.objects).sum
      ≤ s.mailboxSet.queued + t.objects := by
  cases h with
  | push m i set hpush =>
      simp [ActorState.emit, Thread.objects, MailboxSet.queued_push hpush]
  | pop limit executed i m set hpop =>
      have := MailboxSet.queued_tryPop hpop
      simp [ActorState.emit, Thread.objects]
      omega
  | count m i pc hpc =>
      rcases hpc with ⟨-, rfl⟩ | ⟨-, rfl⟩ <;> simp [ActorState.emit, Thread.objects]
  | lose | win | dropped => simp
  | schedule => simp [Thread.objects]
  | _ => simp [ActorState.emit, Thread.objects]

/-- The producers and the queued messages fit in the address space. -/
theorem liveObjects_le {A : Actor} {tr : List (ActorPool × ActorAction)} {p : ActorPool}
    (h : A.machine.Exec tr p) : liveObjects p ≤ addressSpace := by
  refine Actor.invariant (I := fun p => liveObjects p ≤ addressSpace) ?_ ?_ ?_ h
  · simp [liveObjects, Actor.initial]
  · intro _ p i s t _ hI hat
    unfold liveObjects at hI ⊢
    rw [Pool.total_arrive _ p]
    cases hat with
    | pushMessage i hroom =>
        simpa [liveObjects, Thread.objects, Nat.add_assoc] using hroom
    | asyncDestroy => simpa [Thread.objects] using hI
  · intro _ s s' l t r new env _ hI hstep
    have := hstep.objects_le
    unfold liveObjects at hI ⊢
    rw [Pool.total_before] at hI
    rw [Pool.total_after]
    simp only at hI ⊢
    omega

/-! ### An actor that nobody destroys -/

/-- `AsyncDestroy` is not called. -/
def NotDestroyed (_ : ActorPool) : ActorAction → Prop
  | .arrive .asyncDestroy => False
  | _ => True

/-- `Schedule` does not throw. -/
def ScheduleOk (_ : ActorPool) : ActorAction → Prop
  | .run _ env => env.connect = .ok ()
  | _ => True

instance (p : ActorPool) (a : ActorAction) : Decidable (NotDestroyed p a) :=
  match a with
  | .arrive .asyncDestroy => isFalse id
  | .arrive (.pushMessage _) => isTrue trivial
  | .run _ _ => isTrue trivial

instance (p : ActorPool) (a : ActorAction) : Decidable (ScheduleOk p a) :=
  match a with
  | .arrive _ => isTrue trivial
  | .run _ env => inferInstanceAs (Decidable (env.connect = .ok ()))

/-- The thread is a push that is about to call `Schedule`. -/
def Thread.pushSchedules : Thread → ℕ
  | .producer _ _ (.tryActivate .schedule) => 1
  | _ => 0

/-- The thread takes part in the destruction of the actor. -/
def Thread.destroys : Thread → ℕ
  | .destroyer _ _ => 1
  | .activation .loadRemaining => 1
  | .activation .reset => 1
  | .activation .storeActivatedDestroyed => 1
  | .activation .fetchSubDestroyed => 1
  | _ => 0

/-- Nobody has begun to destroy the actor. -/
structure Untouched (p : ActorPool) : Prop where
  threads : p.total Thread.destroys = 0
  pending : p.shared.pendingToBeDestroyed = false
  alive : p.shared.userClassInstance = true
  scope : p.shared.asyncScope.state = .isOpen

@[simp] theorem destroys_at (c : Caller) (pc : TryActivatePc) :
    (c.at pc).destroys = (c.after.map Thread.destroys).sum := by cases c <;> rfl

/-- A thread that takes no part in the destruction leaves an untouched actor untouched. -/
theorem Actor.Step.untouched {A : Actor} {env : Env} {s s' : ActorState} {t : Thread}
    {new : List Thread} (h : A.Step env s t s' new) (ht : t.destroys = 0)
    (hpending : s.pendingToBeDestroyed = false) (halive : s.userClassInstance = true)
    (hscope : s.asyncScope.state = .isOpen) :
    (new.map Thread.destroys).sum = 0 ∧ s'.pendingToBeDestroyed = false ∧
      s'.userClassInstance = true ∧ s'.asyncScope.state = .isOpen := by
  cases h with
  | lose | dropped =>
      rw [destroys_at] at ht
      exact ⟨ht, hpending, halive, hscope⟩
  | win c hact =>
      rw [destroys_at] at ht
      exact ⟨by simpa using ht, hpending, halive, hscope⟩
  | schedule c sc hok hj hst hn =>
      rw [destroys_at] at ht
      exact ⟨by simpa [Thread.destroys] using ht, hpending, halive, hst.trans hscope⟩
  | entryNull hnull => simp [halive] at hnull
  | pending hp => simp [hpending] at hp
  | ret =>
      simpa [SimpleCountingScope.disassociate, hscope] using ⟨hpending, halive⟩
  | count m i pc hpc =>
      rcases hpc with ⟨-, rfl⟩ | ⟨-, rfl⟩ <;>
        exact ⟨rfl, hpending, halive, hscope⟩
  | popNone limit executed i pc hnone hpc =>
      rcases hpc with rfl | rfl <;> exact ⟨rfl, hpending, halive, hscope⟩
  | execute limit executed i m pc hpc =>
      rcases hpc with ⟨-, rfl⟩ | ⟨-, rfl⟩ <;> exact ⟨rfl, hpending, halive, hscope⟩
  | setPendingLose | setPending | countDestroy | destroyThrew | join | joined =>
      simp [Thread.destroys] at ht
  | alreadyDestroyed | reset | storeDestroyed | subDestroyed => simp [Thread.destroys] at ht
  | _ => exact ⟨rfl, hpending, halive, hscope⟩

/-- **An actor that nobody destroys stays alive.** -/
theorem untouched_of_exec {A : Actor} {tr : List (ActorPool × ActorAction)} {p : ActorPool}
    (h : A.machine.Exec tr p) (hC : Machine.Meets NotDestroyed tr) : Untouched p := by
  refine Actor.invariantWhere ?_ ?_ ?_ h hC
  · exact ⟨rfl, rfl, rfl, rfl⟩
  · intro _ p i s t _ _ hI hok hat
    cases hat with
    | pushMessage i hroom =>
        refine ⟨?_, hI.pending, hI.alive, hI.scope⟩
        rw [Pool.total_arrive _ p, show Pool.total Thread.destroys ⟨p.shared, p.threads⟩ = 0
          from hI.threads]
        rfl
    | asyncDestroy => exact absurd hok id
  · intro _ s s' l t r new env _ _ hI _ hstep
    have hthreads := hI.threads
    rw [Pool.total_before] at hthreads
    obtain ⟨hnew, hpending, halive, hscope⟩ :=
      hstep.untouched (by omega) hI.pending hI.alive hI.scope
    refine ⟨?_, hpending, halive, hscope⟩
    rw [Pool.total_after]
    omega

/-- How many messages the activation has taken and not yet subtracted. -/
def Thread.takenHere : Thread → ℕ
  | .activation (.tryPop _ executed _) => executed
  | .activation (.execute _ executed _ _) => executed + 1
  | .activation (.fetchSub _ executed) => executed
  | _ => 0

/-- The thread is a producer that has pushed its message and not counted it. -/
def Thread.uncounted : Thread → ℕ
  | .producer _ _ .fetchAdd => 1
  | _ => 0

theorem takenHere_eq_zero_of_owns (t : Thread) (h : t.owns = 0) : t.takenHere = 0 := by
  rcases t with ⟨m, i, pc⟩ | ⟨k, pc⟩ | pc
  · rfl
  · rfl
  · cases pc <;> simp_all [Thread.owns, Thread.takenHere]

/-- A thread that takes no part in a destruction is owed what it has taken, and owes what it has
not counted. -/
theorem credit_eq {t : Thread} (h : t.destroys = 0) :
    t.credit = (t.takenHere : ℤ) - t.uncounted := by
  rcases t with ⟨m, i, pc⟩ | ⟨k, pc⟩ | pc
  · cases pc <;> simp [Thread.credit, Thread.takenHere, Thread.uncounted]
  · simp [Thread.destroys] at h
  · cases pc <;> simp [Thread.credit, Thread.takenHere, Thread.uncounted, Thread.destroys] at h ⊢

theorem sum_credit_eq {ts : List Thread} (h : ∀ t ∈ ts, t.destroys = 0) :
    (ts.map Thread.credit).sum
      = ((ts.map Thread.takenHere).sum : ℤ) - (ts.map Thread.uncounted).sum := by
  induction ts with
  | nil => rfl
  | cons t ts ih =>
      have ht := credit_eq (h t List.mem_cons_self)
      have hts := ih fun u hu => h u (List.mem_cons_of_mem t hu)
      simp only [List.map_cons, List.sum_cons, ht, hts]
      push_cast
      omega

/-- The balance of an actor that nobody destroys. -/
theorem balance_eq {p : ActorPool} (hun : Untouched p) :
    balance p = (p.shared.mailboxSet.queued : ℤ) + p.total Thread.takenHere
      - p.total Thread.uncounted := by
  have hcredit := sum_credit_eq (Pool.total_eq_zero_iff.1 hun.threads)
  simp only [balance, ActorState.base, hun.pending, hun.alive, Pool.total, hcredit, flag_false,
    Bool.not_true]
  push_cast
  omega

/-! ### Who owns the flag -/

/-- A push threw out of `Schedule`. -/
def Event.pushThrew : Event → ℕ
  | .setError _ (.connect _) => 1
  | _ => 0

/-- `AsyncDestroy` threw. -/
def Event.destroyFailed : Event → ℕ
  | .destroyThrew _ _ => 1
  | _ => 0

/-- One when the scope has been joined. -/
def ActorState.joined (s : ActorState) : ℕ := flag (decide (s.asyncScope.state = .joined))

/-- How often an owner of the flag has lost it without clearing it. -/
def ActorState.losses (s : ActorState) : ℕ :=
  flag (!s.userClassInstance) + s.joined + tally Event.pushThrew s.log
    + tally Event.destroyFailed s.log

@[simp] theorem ActorState.joined_emit (s : ActorState) (e : Event) :
    (s.emit e).joined = s.joined := rfl

/-- A scope that has been joined stays so. -/
theorem SimpleCountingScope.joined_disassociate {sc : SimpleCountingScope}
    (h : sc.state = .joined) : sc.disassociate.state = .joined := by
  simp [disassociate, h]

theorem SimpleCountingScope.joined_startJoin {sc : SimpleCountingScope} (h : sc.state = .joined) :
    sc.startJoin.state = .joined := by
  simp [startJoin, sc.drained h]

theorem flag_decide_le {P Q : Prop} [Decidable P] [Decidable Q] (h : P → Q) :
    flag (decide P) ≤ flag (decide Q) := by
  by_cases hP : P
  · simp [hP, h hP]
  · simp [hP]

theorem Actor.Step.joined_le {A : Actor} {env : Env} {s s' : ActorState} {t : Thread}
    {new : List Thread} (h : A.Step env s t s' new) : s.joined ≤ s'.joined := by
  cases h with
  | schedule c sc hok hj hst hn => simp [ActorState.joined, hst]
  | join => exact flag_decide_le SimpleCountingScope.joined_startJoin
  | ret => exact flag_decide_le SimpleCountingScope.joined_disassociate
  | _ => exact le_rfl

theorem Actor.Step.instance_le {A : Actor} {env : Env} {s s' : ActorState} {t : Thread}
    {new : List Thread} (h : A.Step env s t s' new) :
    flag (!s.userClassInstance) ≤ flag (!s'.userClassInstance) := by
  cases h with
  | reset => exact flag_le_one _
  | _ => exact le_rfl

/-- Nothing that is lost comes back. -/
theorem Actor.Step.losses_le {A : Actor} {env : Env} {s s' : ActorState} {t : Thread}
    {new : List Thread} (h : A.Step env s t s' new) : s.losses ≤ s'.losses := by
  have hinst := h.instance_le
  have hjoined := h.joined_le
  have hpush := tally_mono (w := Event.pushThrew) h.log_prefix
  have hdestroy := tally_mono (w := Event.destroyFailed) h.log_prefix
  unfold ActorState.losses
  omega

/-- The owner of the flag passes it on or clears it, unless the flag is lost. -/
theorem Actor.Step.keeps_owner {A : Actor} {env : Env} {s s' : ActorState} {t : Thread}
    {new : List Thread} (h : A.Step env s t s' new)
    (ht : t = .activation .loadRemaining → s.userClassInstance = false) {rest : ℕ}
    (hI : flag s.activated ≤ t.owns + rest + s.losses) :
    flag s'.activated ≤ (new.map Thread.owns).sum + rest + s'.losses := by
  have hlosses := h.losses_le
  have hflag := flag_le_one s.activated
  cases h with
  | lose =>
      simp only [owns_at_cas, owns_after] at hI ⊢
      omega
  | win => simp; omega
  | dropped c _ hj =>
      have hlost : 1 ≤ s.losses := by
        simp [ActorState.losses, ActorState.joined, hj]
        omega
      omega
  | schedule =>
      rw [owns_at_schedule] at hI
      simp only [List.map_append, List.sum_append, owns_after, List.map_cons, List.map_nil,
        List.sum_cons, List.sum_nil, Thread.owns] at hI ⊢
      omega
  | pushThrew m i e he =>
      have hlost : 1 ≤ (s.emit (.setError m (.connect e))).losses := by
        simp [ActorState.losses, Event.pushThrew]
        omega
      change flag s.activated ≤ _
      omega
  | destroyThrew k e he =>
      have hlost : 1 ≤ (s.emit (.destroyThrew k (.connect e))).losses := by
        simp [ActorState.losses, Event.destroyFailed]
        omega
      change flag s.activated ≤ _
      omega
  | alreadyDestroyed =>
      have hlost : 1 ≤ s.losses := by
        simp [ActorState.losses, ht rfl]
        omega
      omega
  | store | storeDestroyed => simp
  | count m i pc hpc =>
      rcases hpc with ⟨-, rfl⟩ | ⟨-, rfl⟩ <;>
        simp only [Thread.owns, List.map_cons, List.map_nil, List.sum_cons, List.sum_nil,
          ActorState.emit] at hI hlosses ⊢ <;> omega
  | popNone limit executed i pc hnone hpc =>
      rcases hpc with rfl | rfl <;> simpa [Thread.owns] using hI
  | execute limit executed i m pc hpc =>
      rcases hpc with ⟨-, rfl⟩ | ⟨-, rfl⟩ <;>
        simp only [Thread.owns, List.map_cons, List.map_nil, List.sum_cons, List.sum_nil,
          ActorState.emit] at hI hlosses ⊢ <;> omega
  | _ =>
      simp only [Thread.owns, List.map_cons, List.map_nil, List.sum_cons, List.sum_nil,
        ActorState.emit] at hI hlosses ⊢
      omega

/-- **While the flag is set, somebody owns it**, unless it was lost. -/
theorem activated_le_of_exec {A : Actor} {tr : List (ActorPool × ActorAction)} {p : ActorPool}
    (h : A.machine.Exec tr p) :
    flag p.shared.activated ≤ p.total Thread.owns + p.shared.losses := by
  refine Actor.invariant (I := fun p => flag p.shared.activated
    ≤ p.total Thread.owns + p.shared.losses) ?_ ?_ ?_ h
  · simp [Actor.initial]
  · intro _ p i s t _ hI hat
    rw [Pool.total_arrive _ p]
    cases hat <;> simpa [Thread.owns, ActorState.losses, ActorState.joined] using hI
  · intro _ s s' l t r new env hex hI hstep
    rw [Pool.total_before] at hI
    rw [Pool.total_after]
    refine hstep.keeps_owner ?_ hI
    rintro rfl
    exact instance_of_afterReset hex rfl

/-- No `Schedule` throws in a run in which the scheduler accepts every environment. -/
theorem scheduleOk_of_exec {A : Actor} {tr : List (ActorPool × ActorAction)} {p : ActorPool}
    (h : A.machine.Exec tr p) (hS : Machine.Meets ScheduleOk tr) :
    tally Event.pushThrew p.shared.log = 0 ∧ tally Event.destroyFailed p.shared.log = 0 := by
  refine Actor.invariantWhere (I := fun p => tally Event.pushThrew p.shared.log = 0 ∧
    tally Event.destroyFailed p.shared.log = 0) ?_ ?_ ?_ h hS
  · exact ⟨rfl, rfl⟩
  · intro _ p i s t _ _ hI _ hat
    cases hat <;> exact hI
  · intro _ s s' l t r new env _ _ hI hok hstep
    have hc : env.connect = .ok () := hok
    cases hstep with
    | pushThrew m i e he => simp [he] at hc
    | destroyThrew k e he => simp [he] at hc
    | _ => simpa [Event.pushThrew, Event.destroyFailed] using hI

/-- While nobody destroys the actor and `Schedule` does not throw, the flag is set only as long as
somebody owns it. -/
theorem activated_eq_false_of_total {A : Actor} {tr : List (ActorPool × ActorAction)}
    {p : ActorPool} (h : A.machine.Exec tr p) (hC : Machine.Meets NotDestroyed tr)
    (hS : Machine.Meets ScheduleOk tr) (hnone : p.total Thread.owns = 0) :
    p.shared.activated = false := by
  have hun := untouched_of_exec h hC
  obtain ⟨hpush, hdestroy⟩ := scheduleOk_of_exec h hS
  have hflag := activated_le_of_exec h
  simp only [hnone, ActorState.losses, ActorState.joined, hun.alive, hun.scope, hpush, hdestroy]
    at hflag
  cases hact : p.shared.activated with
  | false => rfl
  | true => simp [hact] at hflag

end ExActor
