/-
**The messages of an actor that has come to rest.**

An actor with its queues and without the hook, which nobody destroys, comes to rest like any other
as soon as no push is in progress; when no thread is left every message has been executed.  While a
push stands between `Push` and the counter it need not: the activation that has executed its message
has made the counter negative, and activations follow each other until the push has counted.

Main results:

* `Actor.publishing_drains` — **the actor comes to rest under every schedule**, and then all
  messages have been executed;
* `Actor.publishing_spins` — it may not, while a push has not counted its message.
-/

import ExActor.ActorPublication
import ExActor.ActorRest

set_option relaxedAutoImplicit false
set_option autoImplicit false

namespace ExActor

/-! ### The actor with its queues -/

/-- An action of a thread, whose `Schedule` does not throw. -/
def IsStep : ActorAction → Prop
  | .run _ env => env.connect = .ok ()
  | .arrive _ => False

/-- No push is in progress in an actor with its queues. -/
structure Settled (p : PublishingPool) : Prop where
  sound : Sound (claimed p)
  pushless : ∀ t ∈ p.threads, ∃ pc, t = .actor (.activation pc)
  published : p.shared.unpublished = []

/-- Only the owner of the flag has executed anything that is still counted. -/
theorem Settled.settling {p : PublishingPool} (hI : Settled p) : Settling (claimed p) where
  pending := hI.sound.untouched.pending
  alive := hI.sound.untouched.alive
  owned := hI.sound.owned
  tracks := hI.sound.tracks
  credit t ht := by
    obtain ⟨u, hu, rfl⟩ := List.mem_map.1 ht
    obtain ⟨pc, rfl⟩ := hI.pushless u hu
    have hdestroys := Pool.total_eq_zero_iff.1 hI.sound.untouched.threads _ ht
    exact ⟨activation_credit_nonneg pc, fun howns => activation_credit_eq_zero howns hdestroys⟩

/-- With everything published an activation takes a step of the actor. -/
theorem Actor.publishingRun_activation (A : Actor) {s : PublishingState}
    (hun : s.unpublished = []) (pc : PullPc) (env : Env) :
    A.publishingRun s (.actor (.activation pc)) env
      = (A.run s.actor (.activation pc) env).map s.lift := by
  cases pc with
  | tryPop limit executed i =>
      have hvisible : ¬ s.Hidden i := by
        rintro ⟨m, -, hm⟩
        simp [hun] at hm
      simp only [Actor.publishingRun, if_neg hvisible]
  | _ => rfl

/-- A step of an actor without pushes. -/
theorem Settled.step {A : Actor} (hhook : A.hasShouldActivateHook = false) {p p' : PublishingPool}
    {a : ActorAction} (hI : Settled p) (ha : IsStep a) (h : A.publishing.next p a = some p') :
    Settled p' ∧ potential (claimed p') < potential (claimed p) := by
  cases a with
  | arrive i => exact absurd ha id
  | run n env =>
      obtain ⟨l, t, r, s', new, hp, -, hrun, rfl⟩ := ThreadProgram.next_run_iff.1 h
      obtain ⟨s, ts⟩ := p
      subst hp
      obtain ⟨pc, rfl⟩ := hI.pushless t (by simp)
      have hrunPull : A.publishingRun s (.actor (.activation pc)) env = some (s', new) := hrun
      rw [Actor.publishingRun_activation A hI.published] at hrunPull
      obtain ⟨⟨s₁, new'⟩, hrun', hr⟩ := Option.map_eq_some_iff.1 hrunPull
      obtain ⟨rfl, rfl⟩ := Prod.mk.inj hr
      have hsound := hI.sound
      have hsettling := hI.settling
      simp only [claimed, List.map_append, List.map_cons, PublishingThread.toThread]
        at hsound hsettling
      have hdestroys : (Thread.activation pc).destroys = 0 :=
        Pool.total_eq_zero_iff.1 hsound.untouched.threads _ (by simp)
      obtain ⟨hnew, hlt⟩ := potential_lt hsettling hdestroys hrun'
      have hmap : (new'.map PublishingThread.actor).map PublishingThread.toThread = new' := by
        rw [List.map_map]
        exact List.map_id _
      refine ⟨⟨?_, ?_, hI.published⟩, ?_⟩
      · simp only [claimed, List.map_append, hmap]
        exact hsound.ofStep hhook ha (Actor.step_of_run hrun')
      · refine Pool.forall_after hI.pushless (fun u hu => hu) fun u hu => ?_
        obtain ⟨v, hv, rfl⟩ := List.mem_map.1 hu
        obtain ⟨pc', rfl⟩ := hnew v hv
        exact ⟨pc', rfl⟩
      · simpa only [claimed, List.map_append, List.map_cons, hmap, PublishingThread.toThread]
          using hlt

/-- Every thread of an actor without pushes can take a step. -/
theorem Settled.next {A : Actor} {p : PublishingPool} (hI : Settled p) (hne : p.threads ≠ []) :
    ∃ p', A.publishing.next p (.run 0 Env.calm) = some p' := by
  obtain ⟨s, ts⟩ := p
  cases ts with
  | nil => exact absurd rfl hne
  | cons t ts =>
      obtain ⟨pc, rfl⟩ := hI.pushless t (by simp)
      obtain ⟨r, hr⟩ := Option.isSome_iff_exists.1 (pullMailboxAndRunStep_isSome A s.actor pc)
      have hrun : A.publishingRun s (.actor (.activation pc)) Env.calm = some (s.lift r) := by
        rw [Actor.publishingRun_activation A hI.published, Actor.run, hr, Option.map_some]
      exact ⟨_, (ThreadProgram.next_run_iff (P := A.publishingProgram)
        (p := ⟨s, .actor (.activation pc) :: ts⟩)).2
          ⟨[], _, ts, _, _, rfl, rfl, hrun, rfl⟩⟩

/-- A state without pushes. -/
theorem settled_of_exec {A : Actor} (hhook : A.hasShouldActivateHook = false)
    {tr : List (PublishingPool × ActorAction)} {p : PublishingPool} (h : A.publishing.Exec tr p)
    (hC : Machine.Meets LeftAlone tr)
    (hpush : ∀ t ∈ p.threads, ∃ pc, t = .actor (.activation pc)) : Settled p where
  sound := sound_of_exec hhook h hC
  pushless := hpush
  published := by
    refine List.eq_nil_iff_forall_not_mem.2 fun m hm => ?_
    have hcount := unpublished_of_exec h m
    rw [Pool.total_eq_zero_iff.2 fun t ht => by obtain ⟨pc, rfl⟩ := hpush t ht; rfl] at hcount
    exact List.count_eq_zero.1 hcount hm

/-- **The actor comes to rest under every schedule.**  From every state that an actor without the
hook reaches, undisturbed, and in which no push is in progress, the threads can take no more than a
certain number of steps, in whatever order; and where none can take another one, no thread is left
and each submitted message has been completed exactly once.  `Actor.publishing_spins` shows why the
pushes have to be over. -/
theorem Actor.publishing_drains {A : Actor} (hhook : A.hasShouldActivateHook = false)
    {tr : List (PublishingPool × ActorAction)} {p : PublishingPool} (h : A.publishing.Exec tr p)
    (hC : Machine.Meets LeftAlone tr)
    (hpush : ∀ t ∈ p.threads, ∃ pc, t = .actor (.activation pc)) :
    ∃ bound, ∀ L p', (∀ a ∈ L, IsStep a) → A.publishing.replay p L = some p' →
      L.length ≤ bound ∧ ((∀ n, A.publishing.next p' (.run n Env.calm) = none) →
        p'.threads = [] ∧
          ∀ m < p'.shared.actor.submitted, completions m p'.shared.actor.log = 1) := by
  refine ⟨potential (claimed p), fun L p' hL hreplay => ?_⟩
  obtain ⟨hI, hle⟩ := Machine.length_le_potential (M := A.publishing) (C := IsStep) (I := Settled)
    (fun p => potential (claimed p)) (fun _ _ _ hI ha hn => hI.step hhook ha hn)
    (settled_of_exec hhook h hC hpush) hL hreplay
  refine ⟨by omega, fun hstuck => ?_⟩
  have hnil : p'.threads = [] := by
    by_contra hne
    obtain ⟨p'', hn⟩ := hI.next (A := A) hne
    rw [hstuck 0] at hn
    exact absurd hn (by simp)
  exact ⟨hnil, fun m hm => hI.sound.completed_once (by simp [claimed, hnil]) hm⟩

/-- Two messages are queued and two activations are left, one of which has passed over the mailbox
while it was hidden. -/
theorem Actor.publishing_drains_two_activations :
    ∃ tr p, Actor.plain.publishing.Exec tr p ∧ p.threads.length = 2 ∧
      p.shared.actor.mailboxSet.queued = 2 ∧
      ∃ bound, ∀ L p', (∀ a ∈ L, IsStep a) → Actor.plain.publishing.replay p L = some p' →
        L.length ≤ bound ∧ ((∀ n, Actor.plain.publishing.next p' (.run n Env.calm) = none) →
          p'.threads = [] ∧
            ∀ m < p'.shared.actor.submitted, completions m p'.shared.actor.log = 1) := by
  let L : List ActorAction := .arrive (.pushMessage 0) :: .run 0 Env.calm
    :: .arrive (.pushMessage 0) :: threadSteps 1 13 Env.calm ++ threadSteps 0 4 Env.calm
  obtain ⟨p, hex, hp⟩ := Machine.exists_exec_of_replay (Actor.publishing_init Actor.plain) L
    (fun p => (p.threads, p.shared.actor.mailboxSet.queued))
    ([.actor (.activation .scheduled), .actor (.activation (.tryActivate .cas))], 2) (by decide)
  simp only [Prod.mk.injEq] at hp
  exact ⟨_, p, hex, by simp [hp.1], hp.2,
    Actor.publishing_drains rfl hex (by decide) (by simp [hp.1])⟩

/-! ### While a push has not counted its message -/

/-- A push has not counted its message, which has been executed, and an activation begins. -/
def spinning (count : SizeT) (log : List Event) : PublishingPool :=
  ⟨⟨{ Actor.plain.initial with
      pendingMessageCount := count, asyncScope := ⟨1, .isOpen, by decide⟩, activated := true,
      submitted := 3, log := log }, []⟩,
    [.actor (.activation .scheduled), .actor (.producer 2 0 .fetchAdd)]⟩

/-- The history replaced. -/
def PublishingPool.setLog (p : PublishingPool) (log : List Event) : PublishingPool :=
  ⟨⟨{ p.shared.actor with log := log }, p.shared.unpublished⟩, p.threads⟩

/-- The activation has found nothing and is about to read the counter, or has read it. -/
def spun (pc : PullPc) (count : SizeT) (log : List Event) : PublishingPool :=
  ⟨⟨{ Actor.plain.initial with
      pendingMessageCount := count, asyncScope := ⟨1, .isOpen, by decide⟩, submitted := 3,
      log := log }, []⟩,
    [.actor (.activation pc), .actor (.producer 2 0 .fetchAdd)]⟩

/-- An activation that has found nothing reads a counter that is not zero, and the next one
begins. -/
theorem spinning_again {count : SizeT} (hcount : count ≠ 0) (log : List Event) :
    Actor.plain.publishing.replay (spinning count log) (threadSteps 0 11 Env.calm)
      = some (spinning count (log ++ [.subtracted count 0])) := by
  have hbegin : Actor.plain.publishing.replay (spinning count log) (threadSteps 0 7 Env.calm)
      = some (spun .loadPendingMessageCount (count - BitVec.ofNat 64 0)
        (log ++ [.subtracted count 0])) := rfl
  have hload : ∀ log, Actor.plain.publishing.next (spun .loadPendingMessageCount count log)
      (.run 0 Env.calm) = some (spun (.tryActivate .cas) count log) := by
    intro log
    have hrun : Actor.plain.publishingRun (spun .loadPendingMessageCount count log).shared
        (.actor (.activation .loadPendingMessageCount)) Env.calm
        = some ((spun .loadPendingMessageCount count log).shared,
          [.actor (.activation (.tryActivate .cas))]) := by
      have hpos : (spun .loadPendingMessageCount count log).shared.actor.pendingMessageCount ≠ 0 :=
        hcount
      rw [Actor.publishingRun_activation _ rfl, Actor.run, pullMailboxAndRunStep, if_neg hpos]
      rfl
    exact (ThreadProgram.next_run_iff (P := Actor.plain.publishingProgram)
      (p := spun .loadPendingMessageCount count log)).2 ⟨[], _, _, _, _, rfl, rfl, hrun, rfl⟩
  have hend : ∀ log, Actor.plain.publishing.replay (spun (.tryActivate .cas) count log)
      (threadSteps 0 3 Env.calm) = some (spinning count log) := fun _ => rfl
  rw [show threadSteps 0 11 Env.calm
      = threadSteps 0 7 Env.calm ++ .run 0 Env.calm :: threadSteps 0 3 Env.calm from rfl,
    Machine.replay_append, hbegin, Option.bind_some, BitVec.sub_zero]
  exact Machine.replay_cons_some (hload _) (hend _)

/-- **While a push has not counted its message, activations may follow each other forever.**  The
message has been executed, so that the counter is negative. -/
theorem Actor.publishing_spins :
    ∃ tr p, Actor.plain.publishing.Exec tr p ∧ Machine.Meets LeftAlone tr ∧
      p.shared.actor.mailboxSet.queued = 0 ∧
      ∀ k, ∃ L p', (∀ a ∈ L, IsStep a) ∧ k ≤ L.length ∧
        Actor.plain.publishing.replay p L = some p' := by
  let L₀ : List ActorAction := .arrive (.pushMessage 0) :: threadSteps 0 3 Env.calm
    ++ .arrive (.pushMessage 0) :: threadSteps 1 17 Env.calm
    ++ .arrive (.pushMessage 0) :: threadSteps 1 2 Env.calm ++ threadSteps 0 14 Env.calm
  obtain ⟨p, hex, hp⟩ := Machine.exists_exec_of_replay (Actor.publishing_init Actor.plain) L₀
    (fun p => PublishingPool.setLog p []) (spinning (-1) []) (by decide)
  obtain ⟨log, rfl⟩ : ∃ log, p = spinning (-1) log := by
    refine ⟨p.shared.actor.log, ?_⟩
    calc p = PublishingPool.setLog (PublishingPool.setLog p []) p.shared.actor.log := rfl
      _ = PublishingPool.setLog (spinning (-1) []) p.shared.actor.log := by rw [hp]
      _ = spinning (-1) p.shared.actor.log := rfl
  refine ⟨_, _, hex, by decide, rfl, fun k => ?_⟩
  have hmany : ∀ k log, ∃ L p', (∀ a ∈ L, IsStep a) ∧ k ≤ L.length ∧
      Actor.plain.publishing.replay (spinning (-1) log) L = some p' := by
    intro k
    induction k with
    | zero => exact fun log => ⟨[], _, by simp, Nat.le_refl _, rfl⟩
    | succ k ih =>
        intro log
        obtain ⟨L, p', hL, hlen, hp'⟩ := ih (log ++ [.subtracted (-1) 0])
        refine ⟨threadSteps 0 11 Env.calm ++ L, p', ?_, ?_, ?_⟩
        · intro a ha
          rcases List.mem_append.1 ha with ha | ha
          · rw [List.eq_of_mem_replicate ha]
            rfl
          · exact hL a ha
        · rw [List.length_append, threadSteps, List.length_replicate]
          omega
        · rw [Machine.replay_append, spinning_again (by decide), Option.bind_some, hp']
  exact hmany k log

end ExActor
