/-
**One activation executes a prefix of the mailboxes.**

`PullMailboxAndRun` walks over the mailboxes in the order of their indices and drains each of them
before it goes on to the next one, until it has executed as many messages as it may.  When nothing
comes between its steps, it executes the first messages of all the mailboxes one after the other,
and leaves the others where they are.

It looks at the limit only after it has executed a message, so a limit of zero lets one through.

Main definitions:

* `drain` — the first elements are taken out of a list of queues, in order;
* `executions` — the messages that have been executed, in order;
* `Actor.Reaches` — an activation gets to its end without interruption;
* `HasExecuted` — what the walk has done so far.

Main results:

* `flatten_drain`, `getElem?_drain` — what is left of the queues, together and one by one;
* `reaches_of_walk` — the walk, from any place;
* `scope_held_of_exec` — in every run, an activation holds the scope;
* `activation_executes_prefix` — **one activation executes the first messages and no others**.
-/

import ExActor.ActorExclusion

set_option relaxedAutoImplicit false
set_option autoImplicit false

/-! ### Queues in a row -/

section Queues

variable {α : Type*}

/-- The first `k` elements are taken out of the queues, the first queue first. -/
def drain : ℕ → List (List α) → List (List α)
  | _, [] => []
  | k, q :: qs => q.drop k :: drain (k - q.length) qs

theorem drain_zero (qs : List (List α)) : drain 0 qs = qs := by
  induction qs with
  | nil => rfl
  | cons q qs ih => rw [drain, List.drop_zero, Nat.zero_sub, ih]

/-- Taking elements out twice. -/
theorem drain_drain (j k : ℕ) (qs : List (List α)) : drain k (drain j qs) = drain (j + k) qs := by
  induction qs generalizing j k with
  | nil => rfl
  | cons q qs ih =>
      -- what the first queue could not give, in both turns together
      have hrest : j - q.length + (k - (q.length - j)) = j + k - q.length := by omega
      simp only [drain, List.drop_drop, List.length_drop, ih, hrest]

/-- **What is left of the queues together.** -/
theorem flatten_drain (k : ℕ) (qs : List (List α)) : (drain k qs).flatten = qs.flatten.drop k := by
  induction qs generalizing k with
  | nil => simp [drain]
  | cons q qs ih => rw [drain, List.flatten_cons, List.flatten_cons, ih, List.drop_append]

/-- **What is left of one queue.** -/
theorem getElem?_drain (k : ℕ) (qs : List (List α)) (i : ℕ) :
    (drain k qs)[i]? = qs[i]?.map (List.drop (k - (qs.take i).flatten.length)) := by
  induction qs generalizing k i with
  | nil => simp [drain]
  | cons q qs ih =>
      cases i with
      | zero => simp [drain]
      | succ i => simp [drain, ih, Nat.sub_sub]

/-- The first element is at the head of the first queue that is not empty. -/
theorem drain_one {qs : List (List α)} {i : ℕ} {a : α} {q : List α}
    (hbefore : ∀ j < i, qs[j]? = some []) (h : qs[i]? = some (a :: q)) :
    drain 1 qs = qs.set i q ∧ qs.flatten.head? = some a := by
  induction qs generalizing i with
  | nil => simp at h
  | cons p qs ih =>
      cases i with
      | zero =>
          obtain rfl : p = a :: q := by simpa using h
          simp [drain, drain_zero]
      | succ i =>
          obtain rfl : p = [] := by simpa using hbefore 0 (Nat.succ_pos i)
          have hlater : ∀ j < i, qs[j]? = some [] := fun j hj => by
            simpa using hbefore (j + 1) (by omega)
          obtain ⟨hset, hhead⟩ := ih hlater (by simpa using h)
          simpa [drain] using ⟨hset, hhead⟩

end Queues

namespace ExActor

/-! ### The queues of the mailboxes -/

namespace MailboxSet

/-- The queues, in the order of the indices. -/
def queues (s : MailboxSet) : List (List Message) := s.mailboxes.map (·.queue)

theorem messages_eq_flatten (s : MailboxSet) : s.messages = s.queues.flatten := List.flatMap_def

theorem queueAt_eq (s : MailboxSet) (i : ℕ) : s.queueAt i = (s.queues[i]?).getD [] := by
  rw [queueAt, queues, List.getElem?_map]

theorem length_queues (s : MailboxSet) : s.queues.length = s.mailboxCount := List.length_map _

/-- A mailbox whose queue is empty. -/
theorem getElem?_queues_of_nil {s : MailboxSet} {i : ℕ} (hi : i < s.mailboxCount)
    (h : s.queueAt i = []) : s.queues[i]? = some [] := by
  rw [← length_queues] at hi
  rw [queueAt_eq, List.getElem?_eq_getElem hi, Option.getD_some] at h
  rw [List.getElem?_eq_getElem hi, h]

theorem queues_tryPop {s s' : MailboxSet} {i : ℕ} {m : Message} (h : s.tryPop i = some (m, s')) :
    ∃ rest, s.queues[i]? = some (m :: rest) ∧ s'.queues = s.queues.set i rest := by
  obtain ⟨q, hq, hpop⟩ := Option.bind_eq_some_iff.1 h
  obtain ⟨⟨m', q'⟩, hq', heq⟩ := Option.map_eq_some_iff.1 hpop
  obtain ⟨rfl, rfl⟩ := Prod.mk.inj heq
  refine ⟨q'.queue, ?_, ?_⟩
  · rw [queues, List.getElem?_map, hq, Option.map_some, (Mailbox.tryPop_eq_some hq').2]
  · rw [queues, queues, replace, List.map_set]

/-- When the mailboxes before it are empty, a pop takes the first message of all. -/
theorem drain_tryPop {s s' : MailboxSet} {i : ℕ} {m : Message} (h : s.tryPop i = some (m, s'))
    (hbefore : ∀ j < i, s.queueAt j = []) :
    s'.queues = drain 1 s.queues ∧ s.messages.head? = some m := by
  obtain ⟨rest, hi, hset⟩ := queues_tryPop h
  have hlt : i < s.mailboxCount := by
    rw [← length_queues]
    exact (List.getElem?_eq_some_iff.1 hi).1
  obtain ⟨hdrain, hhead⟩ :=
    drain_one (fun j hj => getElem?_queues_of_nil (hj.trans hlt) (hbefore j hj)) hi
  rw [messages_eq_flatten]
  exact ⟨hset.trans hdrain.symm, hhead⟩

end MailboxSet

/-! ### What the walk has done -/

/-- The message the event executes. -/
def Event.executedMessage : Event → Option Message
  | .executed m _ _ _ => some m
  | _ => none

/-- The messages that have been executed, oldest first. -/
def executions (log : List Event) : List Message := log.filterMap Event.executedMessage

@[simp] theorem executions_emit (s : ActorState) (e : Event) :
    executions (s.emit e).log = executions s.log ++ e.executedMessage.toList := by
  cases h : e.executedMessage <;> simp [executions, ActorState.emit, h]

/-- `s₁` is `s` after its first `k` messages have been executed. -/
structure HasExecuted (s : ActorState) (k : ℕ) (s₁ : ActorState) : Prop where
  le : k ≤ s.mailboxSet.queued
  queues : s₁.mailboxSet.queues = drain k s.mailboxSet.queues
  executions : executions s₁.log = executions s.log ++ s.mailboxSet.messages.take k
  frame : s₁ = { s with mailboxSet := s₁.mailboxSet, log := s₁.log }

namespace HasExecuted

variable {s s₁ : ActorState} {k : ℕ}

theorem zero (s : ActorState) : HasExecuted s 0 s :=
  ⟨Nat.zero_le _, (drain_zero _).symm, by simp, rfl⟩

/-- The messages that are left. -/
theorem messages (h : HasExecuted s k s₁) :
    s₁.mailboxSet.messages = s.mailboxSet.messages.drop k := by
  rw [MailboxSet.messages_eq_flatten, h.queues, flatten_drain, MailboxSet.messages_eq_flatten]

theorem queued (h : HasExecuted s k s₁) : s₁.mailboxSet.queued = s.mailboxSet.queued - k := by
  rw [MailboxSet.queued, h.messages, List.length_drop, MailboxSet.queued]

/-- The messages that are left in one mailbox. -/
theorem queueAt (h : HasExecuted s k s₁) (i : ℕ) :
    s₁.mailboxSet.queueAt i = (s.mailboxSet.queueAt i).drop
      (k - ((s.mailboxSet.mailboxes.take i).flatMap (·.queue)).length) := by
  rw [MailboxSet.queueAt_eq, MailboxSet.queueAt_eq, h.queues, getElem?_drain, List.flatMap_def,
    List.map_take, MailboxSet.queues]
  cases (List.map (·.queue) s.mailboxSet.mailboxes)[i]? <;> simp

/-- **One more message**, from the first mailbox that is not empty. -/
theorem succ (h : HasExecuted s k s₁) {i : ℕ} {m : Message} {set : MailboxSet}
    (hpop : s₁.mailboxSet.tryPop i = some (m, set))
    (hbefore : ∀ j < i, s₁.mailboxSet.queueAt j = []) (alive : Bool) (c : Completion) :
    HasExecuted s (k + 1)
      (({ s₁ with mailboxSet := set }.emit (.taken m i)).emit (.executed m i alive c)) where
  le := by
    have hqueued := h.queued
    have hpopped := MailboxSet.queued_tryPop hpop
    omega
  queues := by
    rw [← drain_drain, ← h.queues]
    exact (MailboxSet.drain_tryPop hpop hbefore).1
  executions := by
    have hhead := (MailboxSet.drain_tryPop hpop hbefore).2
    rw [h.messages, List.head?_drop] at hhead
    rw [executions_emit, executions_emit, List.take_add_one, hhead, ← List.append_assoc,
      ← h.executions]
    simp [Event.executedMessage]
  frame := by
    rw [h.frame]
    rfl

end HasExecuted

/-! ### An activation without interruption -/

/-- With any answers of its environment, the activation takes `n` steps in a row from `pc` to `pc'`,
and starts the threads `new`. -/
def Actor.Reaches (A : Actor) (env : ℕ → Env) (n : ℕ) (s : ActorState) (pc : PullPc)
    (s' : ActorState) (pc' : PullPc) (new : List Thread) : Prop :=
  A.program.Uninterrupted s (.activation pc) ((List.range n).map env) s' (.activation pc') new

namespace Actor.Reaches

variable {A : Actor} {env : ℕ → Env} {s s₁ s' : ActorState} {pc pc₁ pc' : PullPc} {n k : ℕ}
  {started new : List Thread}

theorem here (A : Actor) (env : ℕ → Env) (s : ActorState) (pc : PullPc) :
    A.Reaches env 0 s pc s pc [] := .nil s _

/-- The step that comes first, and what follows it. -/
theorem head (h : pullMailboxAndRunStep A s (env 0) pc = some (s₁, .activation pc₁ :: started))
    (hrest : A.Reaches (fun k => env (k + 1)) n s₁ pc₁ s' pc' new) :
    A.Reaches env (n + 1) s pc s' pc' (new ++ started) := by
  rw [Reaches, List.range_succ_eq_map, List.map_cons, List.map_map]
  exact .cons h hrest

/-- A step that starts no thread. -/
theorem step (h : pullMailboxAndRunStep A s (env 0) pc = some (s₁, [.activation pc₁]))
    (hrest : A.Reaches (fun k => env (k + 1)) n s₁ pc₁ s' pc' new) :
    A.Reaches env (n + 1) s pc s' pc' new := by
  simpa using head h hrest

theorem trans (h : A.Reaches env n s pc s₁ pc₁ [])
    (hrest : A.Reaches (fun j => env (n + j)) k s₁ pc₁ s' pc' new) :
    A.Reaches env (n + k) s pc s' pc' new := by
  have hrun := ThreadProgram.Uninterrupted.trans h hrest
  rw [List.append_nil] at hrun
  rw [Reaches, List.range_add, List.map_append, List.map_map]
  exact hrun

end Actor.Reaches

section Activation

variable {A : Actor} {env : ℕ → Env} {s s₁ : ActorState}

/-- An activation that holds the scope activates its actor again. -/
theorem reaches_of_cas (hactivated : s.activated = false) (hscope : 0 < s.asyncScope.associations)
    (hconnect : ∀ n, (env n).connect = .ok ()) :
    ∃ sc, A.Reaches env 2 s (.tryActivate .cas) { s with activated := true, asyncScope := sc } .ret
      [.activation .scheduled] := by
  have hjoined : s.asyncScope.state ≠ .joined := fun h => by
    have := s.asyncScope.drained h
    omega
  obtain ⟨sc, hsc⟩ := Option.ne_none_iff_exists'.1
    (mt SimpleCountingScope.tryAssociate_eq_none_iff.1 hjoined)
  have hcas : pullMailboxAndRunStep A s (env 0) (.tryActivate .cas)
      = some ({ s with activated := true }, [.activation (.tryActivate .schedule)]) := by
    simp [pullMailboxAndRunStep, tryActivateStep, hactivated]
  have hschedule : pullMailboxAndRunStep A { s with activated := true } (env 1)
      (.tryActivate .schedule) = some ({ s with activated := true, asyncScope := sc },
        [.activation .ret, .activation .scheduled]) := by
    simp [pullMailboxAndRunStep, tryActivateStep, hconnect, hsc]
  exact ⟨sc, .step hcas (.head hschedule (.here ..))⟩

/-- The end of an activation: the counter is lowered, the flag is cleared, and when something is
still pending, the actor is activated again. -/
theorem reaches_of_fetchSub (hscope : 0 < s.asyncScope.associations)
    (hconnect : ∀ n, (env n).connect = .ok ()) {limit executed : ℕ}
    (hle : executed ≤ s.pendingMessageCount.toNat) :
    ∃ n s' new, A.Reaches env n s (.fetchSub limit executed) s' .ret new ∧
      s'.mailboxSet = s.mailboxSet ∧ executions s'.log = executions s.log ∧
      s'.pendingMessageCount.toNat + executed = s.pendingMessageCount.toNat ∧
      new = if executed < s.pendingMessageCount.toNat then [.activation .scheduled] else [] := by
  have hsub : (s.pendingMessageCount - BitVec.ofNat 64 executed).toNat + executed
      = s.pendingMessageCount.toNat := by
    have hlt := s.pendingMessageCount.isLt
    have hexecuted : (BitVec.ofNat 64 executed).toNat = executed := by
      rw [BitVec.toNat_ofNat]
      exact Nat.mod_eq_of_lt (by omega)
    rw [BitVec.toNat_sub_of_le (BitVec.le_def.2 (by omega)), hexecuted]
    omega
  by_cases hzero : s.pendingMessageCount - BitVec.ofNat 64 executed = 0
  · refine ⟨_, _, _, .step rfl (.step rfl (.step (if_pos hzero) (.here ..))), rfl, ?_, hsub, ?_⟩
    · simp [executions, ActorState.emit, Event.executedMessage]
    · have hnone : (0 : SizeT).toNat = 0 := rfl
      rw [hzero, hnone] at hsub
      rw [if_neg (by omega)]
  · let s₁ : ActorState := { s with
      pendingMessageCount := s.pendingMessageCount - BitVec.ofNat 64 executed
      activated := false
      log := s.log ++ [.subtracted s.pendingMessageCount executed] }
    have hconnect₃ : ∀ n, (env (n + 1 + 1 + 1)).connect = .ok () := fun n => hconnect _
    obtain ⟨sc, hsc⟩ : ∃ sc, A.Reaches _ 2 s₁ _ _ _ _ := reaches_of_cas rfl hscope hconnect₃
    refine ⟨_, _, _, .step rfl (.step rfl (.step (if_neg hzero) hsc)), rfl, ?_, hsub, ?_⟩
    · simp [s₁, executions, Event.executedMessage]
    · have hpos : (s.pendingMessageCount - BitVec.ofNat 64 executed).toNat ≠ 0 := fun h =>
        hzero (BitVec.eq_of_toNat_eq h)
      rw [if_pos (by omega)]

/-- **The walk, from any place.**  The activation has executed `executed` messages, fewer than it
may, and the mailboxes that it has passed are empty. -/
theorem reaches_of_walk {limit : ℕ} (fuel : ℕ) {executed i : ℕ} (h : HasExecuted s executed s₁)
    (hlimit : executed < max 1 limit) (hpassed : ∀ j < i, s₁.mailboxSet.queueAt j = [])
    (hfuel : s₁.mailboxSet.queued + (s₁.mailboxSet.mailboxCount - i) < fuel) :
    ∃ n s₂, A.Reaches env n s₁ (walk s₁ limit executed i) s₂
        (.fetchSub limit (min s.mailboxSet.queued (max 1 limit))) [] ∧
      HasExecuted s (min s.mailboxSet.queued (max 1 limit)) s₂ := by
  -- every attempt to pop takes a message or passes a mailbox
  induction fuel generalizing env s₁ executed i with
  | zero => omega
  | succ fuel ih =>
      have hqueued := h.queued
      have hle := h.le
      by_cases hi : i < s₁.mailboxSet.mailboxCount
      · rw [walk, if_pos hi]
        cases hpop : s₁.mailboxSet.tryPop i with
        | none =>
            have hpassed' : ∀ j < i + 1, s₁.mailboxSet.queueAt j = [] := by
              intro j hj
              rcases Nat.lt_succ_iff_lt_or_eq.1 hj with hj | rfl
              · exact hpassed j hj
              · exact MailboxSet.tryPop_eq_none_iff.1 hpop
            have hnone : pullMailboxAndRunStep A s₁ (env 0) (.tryPop limit executed i)
                = some (s₁, [.activation (walk s₁ limit executed (i + 1))]) := by
              simp [pullMailboxAndRunStep, hpop]
            obtain ⟨n, s₂, hreaches, h₂⟩ := ih h hlimit hpassed' (by omega)
            exact ⟨n + 1, s₂, .step hnone hreaches, h₂⟩
        | some mset =>
            obtain ⟨m, set⟩ := mset
            let s₂ := ({ s₁ with mailboxSet := set }.emit (.taken m i)).emit
              (.executed m i s₁.userClassInstance (executeMessage (env 1)))
            have h₂ : HasExecuted s (executed + 1) s₂ := h.succ hpop hpassed _ _
            have hpopped := MailboxSet.queued_tryPop hpop
            have hcount := MailboxSet.mailboxCount_tryPop hpop
            have htaken : pullMailboxAndRunStep A s₁ (env 0) (.tryPop limit executed i)
                = some ({ s₁ with mailboxSet := set }.emit (.taken m i),
                  [.activation (.execute limit executed i m)]) := by
              simp [pullMailboxAndRunStep, hpop]
            by_cases hlast : limit ≤ executed + 1
            · -- the limit is looked at only now, so that a limit of zero ends the walk here as well
              have hexecuted : min s.mailboxSet.queued (max 1 limit) = executed + 1 := by omega
              rw [hexecuted]
              exact ⟨2, s₂, .step htaken (.step (if_pos hlast) (.here ..)), h₂⟩
            · have hpassed' : ∀ j < i, s₂.mailboxSet.queueAt j = [] := fun j hj =>
                (List.append_eq_nil_iff.1
                  ((MailboxSet.queueAt_tryPop hpop j).symm.trans (hpassed j hj))).2
              have hmeasure : s₂.mailboxSet.queued + (s₂.mailboxSet.mailboxCount - i) < fuel := by
                change set.queued + (set.mailboxCount - i) < fuel
                omega
              have hwalk : walk s₂ limit (executed + 1) i = .tryPop limit (executed + 1) i :=
                if_pos (by change i < set.mailboxCount; omega)
              obtain ⟨n, s₃, hreaches, h₃⟩ : ∃ n s₃, A.Reaches (fun k => env (k + 1 + 1)) n s₂
                  (walk s₂ limit (executed + 1) i) s₃ (.fetchSub limit _) [] ∧ HasExecuted s _ s₃ :=
                ih h₂ (by omega) hpassed' hmeasure
              rw [hwalk] at hreaches
              exact ⟨n + 2, s₃, .step htaken (.step (if_neg hlast) hreaches), h₃⟩
      · -- all mailboxes have been passed, and the activation may execute more than there is
        have hnone : s₁.mailboxSet.queued = 0 :=
          MailboxSet.queued_eq_zero_of_queueAt fun j hj => hpassed j (by omega)
        have hexecuted : min s.mailboxSet.queued (max 1 limit) = executed := by omega
        rw [walk, if_neg hi, hexecuted]
        exact ⟨0, s₁, .here .., h⟩

/-- An activation holds the scope, in every run of the actor. -/
theorem scope_held_of_exec {tr : List (ActorPool × ActorAction)} {p : ActorPool}
    (h : A.machine.Exec tr p) {pc : PullPc} (hmem : .activation pc ∈ p.threads) :
    0 < p.shared.asyncScope.associations := by
  rw [associations_of_exec h]
  exact Pool.le_total_of_mem (w := Thread.isActivation) hmem

/-- **One activation executes a prefix of the mailboxes.**  An activation of a live actor whose
counter is the number of queued messages, during which no other thread takes a step, executes the
first `k` messages of the mailboxes in the order of the indices, where `k` is the number of messages
or the limit, which counts as one when it is zero, whichever is less; the others stay where they
are, in order; the counter is lowered by `k`; and exactly if messages are left, one further
activation is scheduled.  The activation holds the scope, as every one does in a run, and the
scheduler connects to the next one as it has connected to this one. -/
theorem activation_executes_prefix (A : Actor) {s : ActorState}
    (hinstance : s.userClassInstance = true) (hlive : s.pendingToBeDestroyed = false)
    (hscope : 0 < s.asyncScope.associations)
    (hcount : s.pendingMessageCount.toNat = s.mailboxSet.queued) (env : ℕ → Env)
    (hconnect : ∀ n, (env n).connect = .ok ()) :
    let k := min s.mailboxSet.queued (max 1 A.config.maxMessageExecutedPerActivation)
    ∃ n s' new, A.program.Uninterrupted s (.activation .entry) ((List.range n).map env) s'
        (.activation .ret) new ∧
      executions s'.log = executions s.log ++ s.mailboxSet.messages.take k ∧
      s'.mailboxSet.messages = s.mailboxSet.messages.drop k ∧
      (∀ i, s'.mailboxSet.queueAt i = (s.mailboxSet.queueAt i).drop
        (k - ((s.mailboxSet.mailboxes.take i).flatMap (·.queue)).length)) ∧
      s'.pendingMessageCount.toNat + k = s.pendingMessageCount.toNat ∧
      new = if k < s.mailboxSet.queued then [.activation .scheduled] else [] := by
  intro k
  let limit := min A.config.maxMessageExecutedPerActivation s.pendingMessageCount.toNat
  have hk : min s.mailboxSet.queued (max 1 limit) = k := by omega
  have hpos : 0 < max 1 limit := by omega
  obtain ⟨n, s₁, hwalk, h₁⟩ : ∃ n s₁, A.Reaches (fun j => env (j + 1 + 1 + 1)) n s
      (walk s limit 0 0) s₁ (.fetchSub limit _) [] ∧ HasExecuted s _ s₁ :=
    reaches_of_walk _ (HasExecuted.zero s) hpos (by simp) (Nat.lt_succ_self _)
  rw [hk] at hwalk h₁
  have hpending : s₁.pendingMessageCount = s.pendingMessageCount := by rw [h₁.frame]
  have hscope₁ : 0 < s₁.asyncScope.associations := by rw [h₁.frame]; exact hscope
  have hconnect₁ : ∀ j, (env (n + j + 1 + 1 + 1)).connect = .ok () := fun j => hconnect _
  have hle : k ≤ s₁.pendingMessageCount.toNat := by
    rw [hpending, hcount]
    exact h₁.le
  obtain ⟨n', s', new, hend, hset, hlog, hlowered, hnew⟩ :=
    reaches_of_fetchSub hscope₁ hconnect₁ hle
  have hreaches : A.Reaches env _ s .entry s' .ret new :=
    .step (if_pos hinstance) (.step (if_neg (by simp [hlive])) (.step rfl (.trans hwalk hend)))
  refine ⟨_, s', new, hreaches, hlog.trans h₁.executions, ?_, ?_, ?_, ?_⟩
  · rw [hset, h₁.messages]
  · rw [hset]
    exact h₁.queueAt
  · rw [hlowered, hpending]
  · rw [hnew, hpending, hcount]

end Activation

/-- An actor whose activations execute so many messages. -/
def Actor.withLimit (limit : ℕ) : Actor :=
  ⟨{ ActorConfig.default with maxMessageExecutedPerActivation := limit }, false⟩

/-- An activation has begun, and four messages are queued in the first and in the last one of three
mailboxes. -/
def ActorState.threeMailboxes : ActorState where
  mailboxSet := ⟨[⟨.unboundedMailbox, [10, 11], by simp [MailboxConfig.capacity]⟩,
    ⟨.unboundedMailbox, [], by simp⟩,
    ⟨.unboundedMailbox, [12, 13], by simp [MailboxConfig.capacity]⟩], by simp⟩
  pendingMessageCount := 4
  userClassInstance := true
  asyncScope := ⟨1, .isOpen, by simp⟩
  activated := true
  pendingToBeDestroyed := false
  submitted := 14
  destroyCalls := 0
  log := []

/-- The activation ends in the last mailbox, after the empty one, and schedules another one. -/
theorem activation_executes_prefix_three :
    ∃ n s' new, (Actor.withLimit 3).program.Uninterrupted .threeMailboxes (.activation .entry)
        (List.replicate n Env.calm) s' (.activation .ret) new ∧
      executions s'.log = [10, 11, 12] ∧ s'.mailboxSet.queueAt 2 = [13] ∧
      s'.pendingMessageCount = 1 ∧ new = [.activation .scheduled] := by
  obtain ⟨n, s', new, hrun, hexecuted, -, hleft, hlowered, hnew⟩ :=
    activation_executes_prefix (Actor.withLimit 3) (s := .threeMailboxes) rfl rfl (by decide)
      (by decide) (fun _ => Env.calm) (fun _ => rfl)
  rw [List.map_const', List.length_range] at hrun
  refine ⟨n, s', new, hrun, hexecuted, hleft 2, ?_, hnew⟩
  exact BitVec.eq_of_toNat_eq (Nat.add_right_cancel hlowered)

-- a limit of zero lets one message through
example :
    (((Actor.withLimit 0).program.machine (fun _ => True)).replay
        ⟨.threeMailboxes, [.activation .entry]⟩ (threadSteps 0 10 Env.calm)).map
      (fun p => (executions p.shared.log, p.threads))
        = some ([10], [.activation .ret, .activation .scheduled]) := by decide

end ExActor
