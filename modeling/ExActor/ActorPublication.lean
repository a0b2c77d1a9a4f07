/-
**The actor over queues whose elements enter in two steps.**

`ExActor/Actor.lean` takes a push to a mailbox for one step.  The two queues that serve concurrent
producers, `BoundedMpscQueue` and `LinearizableUnboundedMpscQueue`, are not like that: as
`ExActor/BoundedMpscQueueFifo.lean` and `ExActor/MpscQueueFifo.lean` show, a push claims the next
position for its message and publishes the position later, and `TryPop` finds nothing while the
oldest message is not published.  So an activation may find a mailbox empty that is not, even one
with messages whose `PushMessage` has counted them and returned.

Here the actor runs over such queues. Only the publication is a step of its own: a pop frees its
position last of all, and until then nobody sees that it has begun.  Seen through the claims alone,
its steps are those of `ExActor/Actor.lean`, but for the publication, which changes nothing, and for
the activation that passes over a mailbox without taking anything. Neither the accounting nor the
wakeup minds: the push that hides the messages of others has not counted its own message yet, and
will still try to activate the actor.

Main definitions:

* `PublishingState`, `PublishingThread`, `Actor.publishing` — the actor with its queues;
* `Actor.LooseStep` — what a step of it is, seen through the claims;
* `Serial`, `Sound` — what such steps keep.

Main results:

* `Actor.publishing_serial` — **serial execution, in the order of the claims**;
* `Actor.publishing_quiescent` — **no message is stranded or lost**: when no thread is left, each
  submitted message has been completed exactly once.
-/

import ExActor.ActorFifo
import ExActor.ActorWakeup

set_option relaxedAutoImplicit false
set_option autoImplicit false

namespace ExActor

/-! ### The actor with its queues -/

/-- The actor, and the messages that have claimed a position and not published it. -/
structure PublishingState where
  actor : ActorState
  unpublished : List Message
deriving DecidableEq

/-- A thread that runs code of the actor; a `PushMessage` may be inside the `Push` of its queue,
between the claim and the publication. -/
inductive PublishingThread
  | actor (t : Thread)
  | publish (m : Message) (mailboxIndex : ℕ)
deriving DecidableEq

/-- The queue of the mailbox serves concurrent producers. -/
def MailboxSet.concurrent (set : MailboxSet) (mailboxIndex : ℕ) : Bool :=
  match set.mailboxes[mailboxIndex]? with
  | some q => decide (q.config ≠ .unsafeOneSlotMailbox)
  | none => false

/-- The oldest message of the mailbox is not published, so that `TryPop` finds nothing. -/
def PublishingState.Hidden (s : PublishingState) (mailboxIndex : ℕ) : Prop :=
  ∃ m ∈ (s.actor.mailboxSet.queueAt mailboxIndex).head?, m ∈ s.unpublished

instance (s : PublishingState) (mailboxIndex : ℕ) : Decidable (s.Hidden mailboxIndex) :=
  inferInstanceAs (Decidable (∃ m ∈ _, _))

/-- A step of the actor beside its queues. -/
def PublishingState.lift (s : PublishingState) (r : ActorState × List Thread) :
    PublishingState × List PublishingThread :=
  ({ s with actor := r.1 }, r.2.map .actor)

/-- One step of a thread. -/
def Actor.publishingRun (A : Actor) (s : PublishingState) :
    PublishingThread → Env → Option (PublishingState × List PublishingThread)
  | .publish m i, _ =>
      some ({ s with unpublished := s.unpublished.erase m }, [.actor (.producer m i .fetchAdd)])
  | .actor (.producer m i .push), env =>
      (A.run s.actor (.producer m i .push) env).map fun r =>
        -- a push that throws leaves no thread
        if s.actor.mailboxSet.concurrent i ∧ r.2 ≠ [] then
          (⟨r.1, m :: s.unpublished⟩, [.publish m i])
        else s.lift r
  | .actor (.activation (.tryPop limit executed i)), env =>
      if s.Hidden i then some (s, [.actor (.activation (walk s.actor limit executed (i + 1)))])
      else (A.run s.actor (.activation (.tryPop limit executed i)) env).map s.lift
  | .actor t, env => (A.run s.actor t env).map s.lift

/-- The thread as the claims show it: a push that has claimed its position is about to count. -/
def PublishingThread.toThread : PublishingThread → Thread
  | .actor t => t
  | .publish m i => .producer m i .fetchAdd

/-- An actor with its queues and its threads. -/
abbrev PublishingPool := Pool PublishingState PublishingThread

/-- The actor as the claims show it. -/
def claimed (p : PublishingPool) : ActorPool :=
  ⟨p.shared.actor, p.threads.map PublishingThread.toThread⟩

/-- The thread program of an actor with its queues. -/
def Actor.publishingProgram (A : Actor) :
    ThreadProgram PublishingState PublishingThread Env Arrival where
  run := A.publishingRun
  arrive p i := (arriveActor (claimed p) i).map fun r =>
    ({ p.shared with actor := r.1 }, .actor r.2)

/-- All interleavings of the threads of an actor with its queues. -/
def Actor.publishing (A : Actor) : Machine PublishingPool ActorAction :=
  A.publishingProgram.machine (· = ⟨A.initial, []⟩)

theorem Actor.publishing_init (A : Actor) : A.publishing.init ⟨⟨A.initial, []⟩, []⟩ := ⟨rfl, rfl⟩

/-- Nobody destroys the actor and `Schedule` does not throw. -/
def LeftAlone (p : PublishingPool) (a : ActorAction) : Prop :=
  NotDestroyed (claimed p) a ∧ ScheduleOk (claimed p) a

instance (p : PublishingPool) (a : ActorAction) : Decidable (LeftAlone p a) :=
  inferInstanceAs (Decidable (_ ∧ _))

/-! ### What a step is, seen through the claims -/

/-- A step of the actor, or an activation passes over a mailbox, or a message is published. -/
inductive Actor.LooseStep (A : Actor) (env : Env) (s : ActorState) :
    Thread → ActorState → List Thread → Prop
  | step {t : Thread} {s' : ActorState} {new : List Thread} : A.Step env s t s' new →
      LooseStep A env s t s' new
  | passOver (limit executed i : ℕ) (pc : PullPc) :
      pc = .tryPop limit executed (i + 1) ∨ pc = .fetchSub limit executed →
      LooseStep A env s (.activation (.tryPop limit executed i)) s [.activation pc]
  | publish (m : Message) (i : ℕ) :
      LooseStep A env s (.producer m i .fetchAdd) s [.producer m i .fetchAdd]

theorem lift_eq {s s' : PublishingState} {r : ActorState × List Thread}
    {new : List PublishingThread} (h : s.lift r = (s', new)) :
    s'.actor = r.1 ∧ new.map PublishingThread.toThread = r.2 := by
  obtain ⟨rfl, rfl⟩ := Prod.mk.inj h
  rw [List.map_map]
  exact ⟨rfl, List.map_id _⟩

/-- A push leaves no thread or goes on to count its message. -/
theorem Actor.Step.push_cases {A : Actor} {env : Env} {s s' : ActorState} {m : Message} {i : ℕ}
    {new : List Thread} (h : A.Step env s (.producer m i .push) s' new) :
    new = [] ∨ new = [.producer m i .fetchAdd] := by
  generalize ht : Thread.producer m i .push = t at h
  cases h with
  | pushFull => exact Or.inl rfl
  | push m' i' set hpush =>
      obtain ⟨rfl, rfl, -⟩ := Thread.producer.inj ht
      exact Or.inr rfl
  | lose c | win c | dropped c | schedule c => cases c <;> cases ht
  | _ => cases ht

/-- **A step of the actor with its queues is one of `Actor.LooseStep`**, and it publishes what it
has claimed. -/
theorem Actor.publishingRun_spec {A : Actor} {s s' : PublishingState} {t : PublishingThread}
    {env : Env} {new : List PublishingThread} (h : A.publishingRun s t env = some (s', new)) :
    A.LooseStep env s.actor t.toThread s'.actor (new.map PublishingThread.toThread) := by
  unfold Actor.publishingRun at h
  split at h
  · obtain ⟨rfl, rfl⟩ := by simpa using h
    exact .publish _ _
  · next env m i =>
      obtain ⟨⟨s₁, new₁⟩, hrun, hr⟩ := Option.map_eq_some_iff.1 h
      have hstep := Actor.step_of_run hrun
      split at hr
      · next hclaims =>
          obtain ⟨rfl, rfl⟩ := Prod.mk.inj hr
          rcases hstep.push_cases with hnil | rfl
          · exact absurd hnil hclaims.2
          · exact .step hstep
      · obtain ⟨hs, hnew⟩ := lift_eq hr
        rw [hs, hnew]
        exact .step hstep
  · next env limit executed i =>
      split at h
      · obtain ⟨rfl, rfl⟩ := by simpa using h
        exact .passOver limit executed i _ (walk_cases ..)
      · obtain ⟨⟨s₁, new₁⟩, hrun, hr⟩ := Option.map_eq_some_iff.1 h
        obtain ⟨hs, hnew⟩ := lift_eq hr
        rw [hs, hnew]
        exact .step (Actor.step_of_run hrun)
  · obtain ⟨⟨s₁, new₁⟩, hrun, hr⟩ := Option.map_eq_some_iff.1 h
    obtain ⟨hs, hnew⟩ := lift_eq hr
    rw [hs, hnew]
    exact .step (Actor.step_of_run hrun)

/-- **The invariant rule of an actor with its queues**, for what the claims show. -/
theorem Actor.publishing_invariantWhere {A : Actor} {C : PublishingPool → ActorAction → Prop}
    {I : ActorPool → Prop} (hinit : I ⟨A.initial, []⟩)
    (harrive : ∀ p i s t, I (claimed p) → C p (.arrive i) → ArrivedAs (claimed p) i s t →
      I ⟨s, (claimed p).threads ++ [t]⟩)
    (hstep : ∀ p n env s s' l t r new, C p (.run n env) → I ⟨s, l ++ t :: r⟩ →
      A.LooseStep env s t s' new → I ⟨s', l ++ new ++ r⟩)
    {tr : List (PublishingPool × ActorAction)} {p : PublishingPool} (h : A.publishing.Exec tr p)
    (hC : Machine.Meets C tr) : I (claimed p) := by
  refine ThreadProgram.invariantWhere (C := C) (I := fun p => I (claimed p)) ?_ ?_ ?_ h hC
  · rintro s rfl
    exact hinit
  · rintro _ p i s t _ _ hI hok hat
    obtain ⟨⟨s₁, t₁⟩, harr, hr⟩ := Option.map_eq_some_iff.1 hat
    obtain ⟨rfl, rfl⟩ := Prod.mk.inj hr
    have := harrive p i s₁ t₁ hI hok (arriveActor_spec harr)
    simpa [claimed, PublishingThread.toThread] using this
  · rintro _ s s' l t r new env _ _ hI hok hrun
    simp only [claimed, List.map_append, List.map_cons] at hI ⊢
    exact hstep _ _ _ _ _ _ _ _ _ hok hI (Actor.publishingRun_spec hrun)

/-! ### Serial execution -/

/-- At most one thread owns the flag, and the messages are popped and executed in their order. -/
structure Serial (p : ActorPool) : Prop where
  owned : Owned p
  conserved : Conserved p.shared
  served : Served p

theorem Owned.others_inHand {s : ActorState} {l r : List Thread} {t : Thread}
    (h : Owned ⟨s, l ++ t :: r⟩) (ht : t.owns = 1) (i : ℕ) :
    l.flatMap (Thread.inHand i) = [] ∧ r.flatMap (Thread.inHand i) = [] := by
  have hle := flag_le_one s.activated
  unfold Owned at h
  rw [Pool.total_before, ht] at h
  have hothers : ∀ u ∈ l ++ r, u.owns = 0 := Pool.others_eq_zero_iff.1 (by simp only at h; omega)
  exact ⟨List.flatMap_eq_nil_iff.2 fun u hu =>
      inHand_of_owns i u (hothers u (List.mem_append_left r hu)),
    List.flatMap_eq_nil_iff.2 fun u hu =>
      inHand_of_owns i u (hothers u (List.mem_append_right l hu))⟩

/-- What one step keeps. -/
theorem Serial.step {A : Actor} {env : Env} {s s' : ActorState} {l r new : List Thread}
    {t : Thread} (hI : Serial ⟨s, l ++ t :: r⟩) (h : A.LooseStep env s t s' new) :
    Serial ⟨s', l ++ new ++ r⟩ := by
  obtain ⟨howned, hconserved, hserved⟩ := hI
  cases h with
  | step hstep =>
      refine ⟨?_, hstep.conserved hconserved, fun i => ?_⟩
      · unfold Owned at howned ⊢
        rw [Pool.total_before] at howned
        rw [Pool.total_after]
        exact hstep.owned howned
      · have hi := hserved i
        simp only [List.flatMap_append, List.flatMap_cons, List.append_assoc] at hi ⊢
        exact hstep.served (fun ht => howned.others_inHand ht i) hi
  | passOver limit executed i pc hpc =>
      have howns : ([Thread.activation pc].map Thread.owns).sum = 1 := by
        rcases hpc with rfl | rfl <;> rfl
      have hhand : ∀ j, [Thread.activation pc].flatMap (Thread.inHand j) = [] := by
        intro j
        rcases hpc with rfl | rfl <;> rfl
      refine ⟨?_, hconserved, fun j => ?_⟩
      · unfold Owned at howned ⊢
        rwa [Pool.total_replace Thread.owns s s (.activation (.tryPop limit executed i)) howns]
      · have hj := hserved j
        simp only [List.flatMap_append, List.flatMap_cons, Thread.inHand, List.nil_append] at hj
        simp only [List.flatMap_append, hhand, List.append_nil]
        exact hj
  | publish => simpa using ⟨howned, hconserved, hserved⟩

theorem serial_of_exec {A : Actor} {tr : List (PublishingPool × ActorAction)} {p : PublishingPool}
    (h : A.publishing.Exec tr p) : Serial (claimed p) := by
  refine Actor.publishing_invariantWhere (C := fun _ _ => True) ?_ ?_ ?_ h (Machine.meets_true tr)
  · refine ⟨by simp [Owned], fun i => ?_, fun i => ?_⟩
    · simp [Actor.initial, takenFrom, pushedInto]
    · simp [Actor.initial, takenFrom, executedFrom]
  · rintro p i s t ⟨howned, hconserved, hserved⟩ - hat
    refine ⟨?_, ?_, fun j => ?_⟩
    · unfold Owned at howned ⊢
      rw [Pool.total_arrive _ (claimed p)]
      cases hat <;> simpa [Thread.owns] using howned
    · cases hat <;> exact hconserved
    · have hj := hserved j
      cases hat <;> simpa [Thread.inHand] using hj
  · rintro p n env s s' l t r new - hI hstep
    exact hI.step hstep

theorem Serial.touches_le_one {p : ActorPool} (hI : Serial p) : p.total Thread.touches ≤ 1 := by
  have howned := hI.owned
  have hflag := flag_le_one p.shared.activated
  have hle := Pool.total_le_total (p := p) fun t _ => (touches_le_inside t).trans (inside_le_owns t)
  unfold Owned at howned
  omega

/-- **Serial execution, in the order of the claims.**  In every run of an actor over its queues at
most one thread pops the mailboxes, executes a message or resets the instance, and the messages
executed from a mailbox are the beginning of those that have claimed a position in it. -/
theorem Actor.publishing_serial {A : Actor} {tr : List (PublishingPool × ActorAction)}
    {p : PublishingPool} (h : A.publishing.Exec tr p) :
    (claimed p).total Thread.touches ≤ 1 ∧
      ∀ i, executedFrom i p.shared.actor.log <+: pushedInto i p.shared.actor.log := by
  have hI := serial_of_exec h
  refine ⟨hI.touches_le_one, fun i => ?_⟩
  have htaken : executedFrom i p.shared.actor.log <+: takenFrom i p.shared.actor.log := by
    rw [show takenFrom i p.shared.actor.log = _ from hI.served i]
    exact List.prefix_append _ _
  have hpushed : takenFrom i p.shared.actor.log <+: pushedInto i p.shared.actor.log := by
    rw [← show _ = pushedInto i p.shared.actor.log from hI.conserved i]
    exact List.prefix_append _ _
  exact htaken.trans hpushed

/-- The second of two pushes has counted its message and returned while the first has not published
its own: the activation finds nothing in the mailbox, which holds both. -/
theorem Actor.publishing_serial_hidden :
    ∃ tr p, Actor.plain.publishing.Exec tr p ∧ pushedInto 0 p.shared.actor.log = [0, 1] ∧
      p.shared.actor.pendingMessageCount = 1 ∧ p.shared.Hidden 0 ∧
      (claimed p).total Thread.touches ≤ 1 ∧
      ∀ i, executedFrom i p.shared.actor.log <+: pushedInto i p.shared.actor.log := by
  let L : List ActorAction := [.arrive (.pushMessage 0), .run 0 Env.calm,
    .arrive (.pushMessage 0)] ++ threadSteps 1 11 Env.calm
  obtain ⟨p, hex, hp⟩ := Machine.exists_exec_of_replay (Actor.publishing_init Actor.plain) L
    (fun p => (pushedInto 0 p.shared.actor.log, p.shared.actor.pendingMessageCount,
      decide (p.shared.Hidden 0))) ([0, 1], 1, true) (by decide)
  simp only [Prod.mk.injEq, decide_eq_true_eq] at hp
  exact ⟨_, p, hex, hp.1, hp.2.1, hp.2.2, Actor.publishing_serial hex⟩

/-! ### No lost wakeup -/

/-- Without the hook nobody comes to ask it. -/
theorem Actor.Step.asksHook_eq {A : Actor} {env : Env} {s s' : ActorState} {t : Thread}
    {new : List Thread} (h : A.Step env s t s' new) (hhook : A.hasShouldActivateHook = false)
    (ht : t.asksHook = 0) : (new.map Thread.asksHook).sum = 0 := by
  cases h with
  | count m i pc hpc =>
      rcases hpc with ⟨hh, -⟩ | ⟨-, rfl⟩
      · simp [hhook] at hh
      · rfl
  | popNone limit executed i pc hnone hpc => rcases hpc with rfl | rfl <;> rfl
  | execute limit executed i m pc hpc => rcases hpc with ⟨-, rfl⟩ | ⟨-, rfl⟩ <;> rfl
  | approve => simp [Thread.asksHook] at ht
  | lose | dropped => exact asksHook_after _
  | win => simp
  | schedule => simp [Thread.asksHook]
  | _ => rfl

/-- Where nothing throws after it is queued, a message is handed on and never dropped. -/
theorem Actor.Step.completions_eq {A : Actor} {env : Env} {s s' : ActorState} {t : Thread}
    {new : List Thread} (h : A.Step env s t s' new) (ht : t.asksHook = 0)
    (hconnect : env.connect = .ok ()) (m : Message) :
    (new.map (Thread.holds m)).sum + s'.mailboxSet.messages.count m
        + tally (Event.completes m) s'.log
      = t.holds m + s.mailboxSet.messages.count m + tally (Event.completes m) s.log := by
  cases h with
  | push m' i set hpush =>
      have hcount := (MailboxSet.messages_push hpush).count_eq m
      rw [List.count_cons] at hcount
      simp [Thread.holds, Event.completes] at hcount ⊢
      omega
  | pop limit executed i m' set hpop =>
      have hcount := (MailboxSet.messages_tryPop hpop).count_eq m
      rw [List.count_cons] at hcount
      simp [Thread.holds, Event.completes] at hcount ⊢
      omega
  | hookThrew => simp [Thread.asksHook] at ht
  | pushThrew m' i e he => simp [he] at hconnect
  | lose | win | dropped => simp
  | schedule =>
      simp only [holds_at]
      simp [Thread.holds]
  | count m' i pc hpc =>
      rcases hpc with ⟨-, rfl⟩ | ⟨-, rfl⟩ <;> simp [Thread.holds, Event.completes]
  | popNone limit executed i pc hnone hpc => rcases hpc with rfl | rfl <;> simp [Thread.holds]
  | execute limit executed i m' pc hpc =>
      rcases hpc with ⟨-, rfl⟩ | ⟨-, rfl⟩ <;> simp [Thread.holds, Event.completes] <;> omega
  | pushFull =>
      simp [Thread.holds, Event.completes]
      omega
  | _ => simp [Thread.holds, Event.completes]

/-- What holds of an actor without the hook that nobody destroys and whose `Schedule` does not
throw: the flag has exactly one owner while it is set, the counter holds the balance, a clear flag
and a nonzero counter have a thread on its way, and every message is somewhere. -/
structure Sound (p : ActorPool) : Prop where
  owned : Owned p
  untouched : Untouched p
  calm : tally Event.pushThrew p.shared.log = 0 ∧ tally Event.destroyFailed p.shared.log = 0
  tracks : Tracks p.shared.pendingMessageCount (balance p)
  room : liveObjects p ≤ addressSpace
  asks : p.total Thread.asksHook = 0
  held : flag p.shared.activated ≤ p.total Thread.owns
  awake : Awake p
  completed : ∀ m : ℕ, p.total (Thread.holds m) + p.shared.mailboxSet.messages.count m
    + completions m p.shared.log = flag (decide (m < p.shared.submitted))

theorem sound_initial (A : Actor) : Sound ⟨A.initial, []⟩ where
  owned := by simp [Owned]
  untouched := ⟨rfl, rfl, rfl, rfl⟩
  calm := ⟨rfl, rfl⟩
  tracks := by simpa [balance, Actor.initial, ActorState.base] using Tracks.zero
  room := by simp [liveObjects, Actor.initial]
  asks := rfl
  held := by simp [Actor.initial]
  awake := fun _ _ => rfl
  completed := by simp [Actor.initial, completions]

/-- A push begins. -/
theorem Sound.arrive {p : ActorPool} {i : Arrival} {s : ActorState} {t : Thread} (hI : Sound p)
    (hok : NotDestroyed p (.arrive i)) (hat : ArrivedAs p i s t) :
    Sound ⟨s, p.threads ++ [t]⟩ := by
  cases hat with
  | asyncDestroy => exact absurd hok id
  | pushMessage i hroom =>
      have hun := hI.untouched
      refine ⟨?_, ⟨?_, hun.pending, hun.alive, hun.scope⟩, hI.calm, ?_, ?_, ?_, ?_, ?_, fun m => ?_⟩
      · unfold Owned
        rw [Pool.total_arrive _ p]
        exact hI.owned
      · rw [Pool.total_arrive _ p]
        exact hun.threads
      · refine hI.tracks.congr ?_
        unfold balance
        rw [Pool.total_arrive _ p]
        simp [ActorState.base, Thread.credit]
      · unfold liveObjects at hroom ⊢
        rw [Pool.total_arrive _ p]
        simpa [Thread.objects, Nat.add_assoc] using hroom
      · rw [Pool.total_arrive _ p]
        exact hI.asks
      · rw [Pool.total_arrive _ p]
        exact hI.held
      · intro hact hnone
        rw [Pool.total_arrive _ p] at hnone
        exact hI.awake hact (Nat.eq_zero_of_add_eq_zero_right hnone)
      · have hm := hI.completed m
        rw [Pool.total_arrive _ p, submitted_holds]
        simp only [flag, decide_eq_true_eq] at hm ⊢
        split_ifs at hm ⊢ <;> omega

/-- A step of the actor. -/
theorem Sound.ofStep {A : Actor} {env : Env} {s s' : ActorState} {l r new : List Thread}
    {t : Thread} (hI : Sound ⟨s, l ++ t :: r⟩) (hhook : A.hasShouldActivateHook = false)
    (hconnect : env.connect = .ok ()) (h : A.Step env s t s' new) : Sound ⟨s', l ++ new ++ r⟩ := by
  obtain ⟨howned, ⟨hthreads, hpending, halive, hscope⟩, hcalm, htracks, hroom, hasks, hheld, hawake,
    hcompleted⟩ := hI
  unfold Owned at howned
  unfold balance at htracks
  unfold liveObjects at hroom
  unfold Awake at hawake
  simp only [Pool.total_before] at howned hthreads htracks hroom hasks hheld hawake hcompleted
  have hdestroys : t.destroys = 0 := by omega
  have hask : t.asksHook = 0 := by omega
  obtain ⟨hnew, hpending', halive', hscope'⟩ := h.untouched hdestroys hpending halive hscope
  have hcalm' : tally Event.pushThrew s'.log = 0 ∧ tally Event.destroyFailed s'.log = 0 := by
    cases h with
    | pushThrew m i e he => simp [he] at hconnect
    | destroyThrew k e he => simp [he] at hconnect
    | _ => simpa [Event.pushThrew, Event.destroyFailed] using hcalm
  refine ⟨?_, ⟨?_, hpending', halive', hscope'⟩, hcalm', ?_, ?_, ?_, ?_, ?_, fun m => ?_⟩
  · unfold Owned
    rw [Pool.total_after]
    exact h.owned howned
  · rw [Pool.total_after]
    omega
  · unfold balance
    rw [Pool.total_after]
    refine h.tracks ?_ htracks
    rintro rfl
    exact halive
  · have := h.objects_le
    unfold liveObjects
    rw [Pool.total_after]
    simp only at hroom ⊢
    omega
  · have := h.asksHook_eq hhook hask
    rw [Pool.total_after]
    omega
  · have howner : flag s.activated ≤ t.owns + Pool.others Thread.owns l r + s.losses := by omega
    have hkeeps := h.keeps_owner ?_ howner
    · rw [Pool.total_after]
      simpa [ActorState.losses, ActorState.joined, halive', hscope', hcalm'] using hkeeps
    · rintro rfl
      simp [Thread.destroys] at hdestroys
  · intro hact hnone
    rw [Pool.total_after] at hnone
    refine h.awake hask hhook hdestroys ?_ hawake hact hnone
    intro ht
    cases hset : s.activated with
    | true => rfl
    | false =>
        rw [ht, hset, flag_false] at howned
        omega
  · have heq := h.completions_eq hask hconnect m
    have hm := hcompleted m
    rw [Pool.total_after]
    simp only [completions, h.submitted_eq] at hm ⊢
    omega

/-- What one step keeps. -/
theorem Sound.step {A : Actor} {env : Env} {s s' : ActorState} {l r new : List Thread} {t : Thread}
    (hI : Sound ⟨s, l ++ t :: r⟩) (hhook : A.hasShouldActivateHook = false)
    (hconnect : env.connect = .ok ()) (h : A.LooseStep env s t s' new) :
    Sound ⟨s', l ++ new ++ r⟩ := by
  cases h with
  | step hstep => exact hI.ofStep hhook hconnect hstep
  | publish => simpa using hI
  | passOver limit executed i pc hpc =>
      -- the thread weighs the same after it has passed over a mailbox
      have hsame : ∀ {M : Type} [AddCommMonoid M] (w : Thread → M),
          w (.activation pc) = w (.activation (.tryPop limit executed i)) →
          Pool.total w ⟨s, l ++ [Thread.activation pc] ++ r⟩
            = Pool.total w ⟨s, l ++ .activation (.tryPop limit executed i) :: r⟩ := by
        intro M _ w hw
        exact Pool.total_replace w s s _ (by simpa using hw)
      obtain ⟨howned, ⟨hthreads, hpending, halive, hscope⟩, hcalm, htracks, hroom, hasks, hheld,
        hawake, hcompleted⟩ := hI
      refine ⟨?_, ⟨?_, hpending, halive, hscope⟩, hcalm, ?_, ?_, ?_, ?_, ?_, fun m => ?_⟩
      · unfold Owned
        rw [hsame Thread.owns (by rcases hpc with rfl | rfl <;> rfl)]
        exact howned
      · rw [hsame Thread.destroys (by rcases hpc with rfl | rfl <;> rfl)]
        exact hthreads
      · unfold balance
        rw [hsame Thread.credit (by rcases hpc with rfl | rfl <;> rfl)]
        exact htracks
      · unfold liveObjects
        rw [hsame Thread.objects (by rcases hpc with rfl | rfl <;> rfl)]
        exact hroom
      · rw [hsame Thread.asksHook (by rcases hpc with rfl | rfl <;> rfl)]
        exact hasks
      · rw [hsame Thread.owns (by rcases hpc with rfl | rfl <;> rfl)]
        exact hheld
      · unfold Awake
        rw [hsame Thread.willCheck (by rcases hpc with rfl | rfl <;> rfl)]
        exact hawake
      · rw [hsame (Thread.holds m) (by rcases hpc with rfl | rfl <;> rfl)]
        exact hcompleted m

theorem sound_of_exec {A : Actor} (hhook : A.hasShouldActivateHook = false)
    {tr : List (PublishingPool × ActorAction)} {p : PublishingPool} (h : A.publishing.Exec tr p)
    (hC : Machine.Meets LeftAlone tr) : Sound (claimed p) := by
  refine Actor.publishing_invariantWhere (C := LeftAlone) (sound_initial A) ?_ ?_ h hC
  · rintro p i s t hI hok hat
    exact hI.arrive hok.1 hat
  · rintro p n env s s' l t r new hok hI hstep
    exact hI.step hhook hok.2 hstep

/-! ### The messages that are not published -/

/-- The thread is about to publish the message. -/
def PublishingThread.publishes (m : Message) : PublishingThread → ℕ
  | .publish m' _ => if m' = m then 1 else 0
  | .actor _ => 0

theorem publishes_lift (m : Message) (ts : List Thread) :
    ((ts.map PublishingThread.actor).map (PublishingThread.publishes m)).sum = 0 := by
  rw [List.map_map]
  exact List.sum_eq_zero fun x hx => by
    obtain ⟨t, -, rfl⟩ := List.mem_map.1 hx
    rfl

/-- A step publishes what it takes from the unpublished messages. -/
theorem Actor.publishingRun_publishes {A : Actor} {s s' : PublishingState} {t : PublishingThread}
    {env : Env} {new : List PublishingThread} (h : A.publishingRun s t env = some (s', new))
    (m : Message) (hle : t.publishes m ≤ s.unpublished.count m) :
    s'.unpublished.count m + t.publishes m
      = s.unpublished.count m + (new.map (PublishingThread.publishes m)).sum := by
  have hlift : ∀ {u : Thread}, ((A.run s.actor u env).map s.lift = some (s', new)) →
      s'.unpublished.count m + 0
        = s.unpublished.count m + (new.map (PublishingThread.publishes m)).sum := by
    intro u hu
    obtain ⟨r, -, hr⟩ := Option.map_eq_some_iff.1 hu
    obtain ⟨rfl, rfl⟩ := Prod.mk.inj hr
    rw [publishes_lift]
  unfold Actor.publishingRun at h
  split at h
  · next m' i =>
      obtain ⟨rfl, rfl⟩ := by simpa using h
      simp only [PublishingThread.publishes, List.map_cons, List.map_nil, List.sum_cons,
        List.sum_nil, List.count_erase, beq_iff_eq] at hle ⊢
      split_ifs at hle ⊢ <;> omega
  · next env m' i =>
      obtain ⟨⟨s₁, new₁⟩, hrun, hr⟩ := Option.map_eq_some_iff.1 h
      split at hr
      · obtain ⟨rfl, rfl⟩ := Prod.mk.inj hr
        simp [PublishingThread.publishes, List.count_cons]
      · exact hlift (by rw [hrun, Option.map_some, hr])
  · next env limit executed i =>
      split at h
      · obtain ⟨rfl, rfl⟩ := by simpa using h
        simp [PublishingThread.publishes]
      · exact hlift h
  · exact hlift h

/-- The unpublished messages are those of the pushes that have claimed and not published. -/
theorem unpublished_of_exec {A : Actor} {tr : List (PublishingPool × ActorAction)}
    {p : PublishingPool} (h : A.publishing.Exec tr p) (m : Message) :
    p.shared.unpublished.count m = p.total (PublishingThread.publishes m) := by
  refine ThreadProgram.invariantWhere (C := fun _ _ => True) (I := fun p =>
    p.shared.unpublished.count m = p.total (PublishingThread.publishes m)) ?_ ?_ ?_ h
    (Machine.meets_true tr)
  · rintro s rfl
    rfl
  · rintro _ p i s t _ _ hI - hat
    obtain ⟨⟨s₁, t₁⟩, -, hr⟩ := Option.map_eq_some_iff.1 hat
    obtain ⟨rfl, rfl⟩ := Prod.mk.inj hr
    rw [Pool.total_arrive _ p]
    exact hI
  · rintro _ s s' l t r new env _ _ hI - hrun
    rw [Pool.total_before] at hI
    have hstep := Actor.publishingRun_publishes hrun m (by simp only at hI; omega)
    rw [Pool.total_after]
    simp only at hI ⊢
    omega

/-! ### Nothing is stranded -/

/-- A sound actor without threads has nothing queued. -/
theorem Sound.queued_eq_zero {p : ActorPool} (hI : Sound p) (hnil : p.threads = []) :
    p.shared.pendingMessageCount = 0 ∧ p.shared.mailboxSet.queued = 0 := by
  have htotal : ∀ w : Thread → ℕ, p.total w = 0 := by
    intro w
    simp [Pool.total, hnil]
  have hact : p.shared.activated = false := by
    have hheld := hI.held
    rw [htotal] at hheld
    cases hset : p.shared.activated with
    | false => rfl
    | true => simp [hset] at hheld
  have hzero := hI.awake hact (htotal _)
  have hbal : balance p = p.shared.mailboxSet.queued := by
    simp [balance, ActorState.base, Pool.total, hnil, hI.untouched.pending, hI.untouched.alive]
  have hlt : p.shared.mailboxSet.queued ≤ 2 ^ 61 := by
    have hroom := hI.room
    unfold liveObjects addressSpace at hroom
    omega
  have htracks := hI.tracks
  rw [hbal] at htracks
  have := (htracks.eq_zero_iff (by omega) (by omega)).1 hzero
  exact ⟨hzero, by omega⟩

/-- A sound actor without threads has completed every message. -/
theorem Sound.completed_once {p : ActorPool} (hI : Sound p) (hnil : p.threads = []) {m : ℕ}
    (hm : m < p.shared.submitted) : completions m p.shared.log = 1 := by
  have hcompleted := hI.completed m
  have hempty : p.shared.mailboxSet.messages = [] :=
    List.eq_nil_of_length_eq_zero (hI.queued_eq_zero hnil).2
  simp only [Pool.total, hnil, List.map_nil, List.sum_nil, hempty, List.count_nil, hm,
    decide_true, flag_true] at hcompleted
  exact (Nat.zero_add _).symm.trans hcompleted

/-- An actor without threads and queued messages has executed whatever was pushed. -/
theorem Serial.executed_eq_pushed {p : ActorPool} (hI : Serial p) (hnil : p.threads = [])
    (hempty : ∀ q ∈ p.shared.mailboxSet.mailboxes, q.queue = []) (i : ℕ) :
    executedFrom i p.shared.log = pushedInto i p.shared.log := by
  have htaken := hI.conserved i
  have hdone := hI.served i
  have hnone : p.shared.mailboxSet.queueAt i = [] := by
    unfold MailboxSet.queueAt
    cases hq : p.shared.mailboxSet.mailboxes[i]? with
    | none => rfl
    | some q => exact hempty q (List.mem_of_getElem? hq)
  rw [hnone, List.append_nil] at htaken
  rw [hnil, List.flatMap_nil, List.append_nil] at hdone
  exact (htaken.symm.trans hdone).symm

/-- **No message is stranded or lost.**  In every run of an actor without the hook that nobody
destroys and whose `Schedule` does not throw, when no thread is left every message is published,
every mailbox is empty, each mailbox has been executed in the order of the claims, and each
submitted message has been completed exactly once. -/
theorem Actor.publishing_quiescent {A : Actor} (hhook : A.hasShouldActivateHook = false)
    {tr : List (PublishingPool × ActorAction)} {p : PublishingPool} (h : A.publishing.Exec tr p)
    (hC : Machine.Meets LeftAlone tr) (hnil : p.threads = []) :
    p.shared.unpublished = [] ∧ p.shared.actor.pendingMessageCount = 0 ∧
      (∀ q ∈ p.shared.actor.mailboxSet.mailboxes, q.queue = []) ∧
      (∀ i, executedFrom i p.shared.actor.log = pushedInto i p.shared.actor.log) ∧
      ∀ m < p.shared.actor.submitted, completions m p.shared.actor.log = 1 := by
  have hI := sound_of_exec hhook h hC
  have hnil' : (claimed p).threads = [] := by simp [claimed, hnil]
  obtain ⟨hzero, hqueued⟩ := hI.queued_eq_zero hnil'
  have hempty := MailboxSet.queued_eq_zero_iff.1 hqueued
  refine ⟨?_, hzero, hempty, (serial_of_exec h).executed_eq_pushed hnil' hempty,
    fun m hm => hI.completed_once hnil' hm⟩
  refine List.eq_nil_iff_forall_not_mem.2 fun m hm => ?_
  have hcount := unpublished_of_exec h m
  simp only [Pool.total, hnil, List.map_nil, List.sum_nil] at hcount
  exact List.count_eq_zero.1 hcount hm

/-- The first activation passes over the mailbox that an unfinished push hides and resets the flag;
when all threads are done, both messages have been executed, in the order of the claims. -/
theorem Actor.publishing_quiescent_hidden :
    ∃ tr p, Actor.plain.publishing.Exec tr p ∧ executedFrom 0 p.shared.actor.log = [0, 1] ∧
      p.shared.unpublished = [] ∧ p.shared.actor.pendingMessageCount = 0 ∧
      (∀ q ∈ p.shared.actor.mailboxSet.mailboxes, q.queue = []) ∧
      (∀ i, executedFrom i p.shared.actor.log = pushedInto i p.shared.actor.log) ∧
      ∀ m < p.shared.actor.submitted, completions m p.shared.actor.log = 1 := by
  let L : List ActorAction := [.arrive (.pushMessage 0), .run 0 Env.calm,
    .arrive (.pushMessage 0)] ++ threadSteps 1 13 Env.calm ++ threadSteps 0 28 Env.calm
  obtain ⟨p, hex, hp⟩ := Machine.exists_exec_of_replay (Actor.publishing_init Actor.plain) L
    (fun p => (executedFrom 0 p.shared.actor.log, p.threads)) ([0, 1], []) (by decide)
  simp only [Prod.mk.injEq] at hp
  exact ⟨_, p, hex, hp.1, Actor.publishing_quiescent rfl hex (by decide) hp.2⟩

end ExActor
