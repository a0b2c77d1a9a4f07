/-
**The actor: pushing messages, activations, destruction.**

`Actor` of `actor.h` is shared between the threads that push messages, the scheduler threads that
run its activations and the coroutine that destroys it.  This module is its model: the shared
state, and one indivisible step of `PushMessage`, `PullMailboxAndRun` and `AsyncDestroy` for every
mailbox operation, every atomic operation and every `Schedule` of the source.  Atomic operations
are sequentially consistent, so the interleavings of `Actor.program` are all there is.

What the user's code and the scheduler answer is not under the actor's control: the
`ExActorShouldActivate` hook may answer anything or throw, and `Schedule` may throw because the
scheduler's `connect` rejects the environment.  Each step is therefore given an `Env`.

`async_scope_` is `stdexec::simple_counting_scope`: an association is held from `Schedule` until
the activation has returned, `join` completes exactly when none is left, and a scope that has been
joined admits no further association, in which case `spawn` drops the activation.

The list `log` of events and the counters `submitted` and `destroyCalls` are history: no step reads
them.

Main definitions:

* `SimpleCountingScope` — the scope;
* `ActorState`, `Thread`, `Event` — the shared state, the threads, what is recorded;
* `pushMessageStep`, `asyncDestroyStep`, `pullMailboxAndRunStep`, `tryActivateStep` — the steps;
* `Actor.program`, `Actor.machine` — the interleavings.
-/

import ExActor.Basic
import ExActor.Interleaving
import ExActor.Mailbox

set_option relaxedAutoImplicit false
set_option autoImplicit false

namespace ExActor

/-! ### The scope of the activations -/

/-- The states of `simple_counting_scope` that an actor's scope passes through: `close` is never
called on it. -/
inductive ScopeState
  | isOpen
  | openAndJoining
  | joined
deriving DecidableEq

/-- `stdexec::simple_counting_scope`.  A scope is joined only when nothing is associated. -/
structure SimpleCountingScope where
  associations : ℕ
  state : ScopeState
  drained : state = .joined → associations = 0
deriving DecidableEq

namespace SimpleCountingScope

def empty : SimpleCountingScope := ⟨0, .isOpen, by simp⟩

/-- An operation joins the scope, unless the scope has been joined. -/
def tryAssociate (sc : SimpleCountingScope) : Option SimpleCountingScope :=
  if h : sc.state = .joined then none
  else some ⟨sc.associations + 1, sc.state, fun hj => absurd hj h⟩

/-- An operation leaves the scope; the last one completes a join that is waiting. -/
def disassociate (sc : SimpleCountingScope) : SimpleCountingScope :=
  if sc.state = .openAndJoining ∧ sc.associations ≤ 1 then ⟨0, .joined, fun _ => rfl⟩
  else ⟨sc.associations - 1, sc.state, fun hj => by rw [sc.drained hj]⟩

/-- `join` is started. -/
def startJoin (sc : SimpleCountingScope) : SimpleCountingScope :=
  if h : sc.associations = 0 then ⟨0, .joined, fun _ => rfl⟩
  else ⟨sc.associations, .openAndJoining, by simp⟩

end SimpleCountingScope

/-! ### Events, threads and the shared state -/

/-- How `ActorMessage::Execute` completes the receiver of its message. -/
inductive Completion
  | setValue
  | setStopped
deriving DecidableEq

/-- What the history of an actor records. -/
inductive Event
  /-- `mailbox_set_.Push` queued the message. -/
  | pushed (m : Message) (mailboxIndex : ℕ)
  /-- `PushMessage` added the message to `pending_message_count_`. -/
  | counted (m : Message)
  /-- The hook was called through `user_class_instance_`, null or not, and answered. -/
  | hook (m : Message) (instanceAlive : Bool) (answer : Except String Bool)
  /-- `PushMessage` threw, so `ActorMessageSubmissionOperation::start` called `set_error`. -/
  | setError (m : Message) (error : ActorError)
  /-- `TryPop` returned the message. -/
  | taken (m : Message) (mailboxIndex : ℕ)
  /-- `Execute` ran the message, on an instance that is null or not. -/
  | executed (m : Message) (mailboxIndex : ℕ) (instanceAlive : Bool) (completion : Completion)
  /-- `fetch_sub(message_executed)` was applied to `before`. -/
  | subtracted (before : SizeT) (executed : ℕ)
  /-- `user_class_instance_.reset()`. -/
  | reset
  /-- `AsyncDestroy` completed. -/
  | destroyed (k : ℕ)
  /-- `AsyncDestroy` threw. -/
  | destroyThrew (k : ℕ) (error : ActorError)
deriving DecidableEq

/-- Where a `TryActivate` stands. -/
inductive TryActivatePc
  | cas
  | schedule
deriving DecidableEq

/-- Where a `PushMessage` stands. -/
inductive PushPc
  | push
  | fetchAdd
  | shouldActivate
  | tryActivate (pc : TryActivatePc)
deriving DecidableEq

/-- Where an `AsyncDestroy` stands. -/
inductive DestroyPc
  | setPendingToBeDestroyed
  | fetchAdd
  | tryActivate (pc : TryActivatePc)
  | join
  | awaitJoin
deriving DecidableEq

/-- Where an activation stands, with the local variables of `PullMailboxAndRun`. -/
inductive PullPc
  /-- In the queue of the scheduler. -/
  | scheduled
  /-- At the comparison of `user_class_instance_` with null. -/
  | entry
  | loadRemaining
  | loadPendingToBeDestroyed
  | reset
  | storeActivatedDestroyed
  | fetchSubDestroyed
  | loadLimit
  | tryPop (limit executed mailboxIndex : ℕ)
  | execute (limit executed mailboxIndex : ℕ) (m : Message)
  | fetchSub (limit executed : ℕ)
  | storeActivated
  | loadPendingMessageCount
  | tryActivate (pc : TryActivatePc)
  /-- About to return, and so to leave the scope. -/
  | ret
deriving DecidableEq

/-- A thread that runs code of the actor. -/
inductive Thread
  | producer (m : Message) (mailboxIndex : ℕ) (pc : PushPc)
  | destroyer (k : ℕ) (pc : DestroyPc)
  | activation (pc : PullPc)
deriving DecidableEq

/-- The members of `Actor`, and the history. -/
structure ActorState where
  mailboxSet : MailboxSet
  pendingMessageCount : SizeT
  /-- `user_class_instance_` is not null. -/
  userClassInstance : Bool
  asyncScope : SimpleCountingScope
  activated : Bool
  pendingToBeDestroyed : Bool
  submitted : ℕ
  destroyCalls : ℕ
  log : List Event
deriving DecidableEq

/-- The state with an event recorded. -/
def ActorState.emit (s : ActorState) (e : Event) : ActorState := { s with log := s.log ++ [e] }

@[simp] theorem ActorState.emit_mailboxSet (s : ActorState) (e : Event) :
    (s.emit e).mailboxSet = s.mailboxSet := rfl

@[simp] theorem ActorState.emit_pendingMessageCount (s : ActorState) (e : Event) :
    (s.emit e).pendingMessageCount = s.pendingMessageCount := rfl

@[simp] theorem ActorState.emit_userClassInstance (s : ActorState) (e : Event) :
    (s.emit e).userClassInstance = s.userClassInstance := rfl

@[simp] theorem ActorState.emit_asyncScope (s : ActorState) (e : Event) :
    (s.emit e).asyncScope = s.asyncScope := rfl

@[simp] theorem ActorState.emit_activated (s : ActorState) (e : Event) :
    (s.emit e).activated = s.activated := rfl

@[simp] theorem ActorState.emit_pendingToBeDestroyed (s : ActorState) (e : Event) :
    (s.emit e).pendingToBeDestroyed = s.pendingToBeDestroyed := rfl

@[simp] theorem ActorState.emit_submitted (s : ActorState) (e : Event) :
    (s.emit e).submitted = s.submitted := rfl

@[simp] theorem ActorState.emit_destroyCalls (s : ActorState) (e : Event) :
    (s.emit e).destroyCalls = s.destroyCalls := rfl

/-- An actor: its configuration, and whether its class defines `ExActorShouldActivate`. -/
structure Actor where
  config : ActorConfig
  hasShouldActivateHook : Bool
deriving DecidableEq

/-- What the code outside the actor answers during one step. -/
structure Env where
  /-- The hook's answer or the exception it throws. -/
  shouldActivate : Except String Bool
  /-- Whether the scheduler's `connect` throws. -/
  connect : Except String Unit
  /-- The stop token of the receiver. -/
  stopRequested : Bool

/-- The state after the constructor. -/
def Actor.initial (A : Actor) : ActorState where
  mailboxSet := MailboxSet.ofConfigs A.config.mailboxConfigs
  pendingMessageCount := 0
  userClassInstance := true
  asyncScope := SimpleCountingScope.empty
  activated := false
  pendingToBeDestroyed := false
  submitted := 0
  destroyCalls := 0
  log := []

/-! ### The steps -/

/-- How a step of `TryActivate` leaves its caller. -/
inductive TryActivateResult
  | next (pc : TryActivatePc)
  | returned
  | threw (e : ActorError)
deriving DecidableEq

/-- One step of `TryActivate`: the compare-exchange, then `Schedule`. -/
def tryActivateStep (s : ActorState) (env : Env) :
    TryActivatePc → ActorState × TryActivateResult × List Thread
  | .cas =>
      if s.activated then (s, .returned, [])
      else ({ s with activated := true }, .next .schedule, [])
  | .schedule =>
      match env.connect with
      | .error e => (s, .threw (.connect e), [])
      | .ok () =>
          match s.asyncScope.tryAssociate with
          | none => (s, .returned, [])
          | some sc => ({ s with asyncScope := sc }, .returned, [.activation .scheduled])

/-- One step of `PushMessage`, with the `catch` of `ActorMessageSubmissionOperation::start`. -/
def pushMessageStep (A : Actor) (s : ActorState) (m : Message) (mailboxIndex : ℕ) (env : Env) :
    PushPc → Option (ActorState × List Thread)
  | .push =>
      match s.mailboxSet.push mailboxIndex m with
      | none => none
      | some (.error e) => some (s.emit (.setError m e), [])
      | some (.ok set) => some ({ s with mailboxSet := set }.emit (.pushed m mailboxIndex),
          [.producer m mailboxIndex .fetchAdd])
  | .fetchAdd =>
      some ({ s with pendingMessageCount := s.pendingMessageCount + 1 }.emit (.counted m),
        [.producer m mailboxIndex
          (if A.hasShouldActivateHook then .shouldActivate else .tryActivate .cas)])
  | .shouldActivate =>
      let s' := s.emit (.hook m s.userClassInstance env.shouldActivate)
      match env.shouldActivate with
      | .error e => some (s'.emit (.setError m (.shouldActivate e)), [])
      | .ok true => some (s', [.producer m mailboxIndex (.tryActivate .cas)])
      | .ok false => some (s', [])
  | .tryActivate pc =>
      match tryActivateStep s env pc with
      | (s', .next pc', new) => some (s', .producer m mailboxIndex (.tryActivate pc') :: new)
      | (s', .returned, new) => some (s', new)
      | (s', .threw e, new) => some (s'.emit (.setError m e), new)

/-- One step of `AsyncDestroy`. -/
def asyncDestroyStep (s : ActorState) (k : ℕ) (env : Env) :
    DestroyPc → Option (ActorState × List Thread)
  | .setPendingToBeDestroyed =>
      if s.pendingToBeDestroyed then some (s.emit (.destroyed k), [])
      else some ({ s with pendingToBeDestroyed := true }, [.destroyer k .fetchAdd])
  | .fetchAdd =>
      some ({ s with pendingMessageCount := s.pendingMessageCount + 1 },
        [.destroyer k (.tryActivate .cas)])
  | .tryActivate pc =>
      match tryActivateStep s env pc with
      | (s', .next pc', new) => some (s', .destroyer k (.tryActivate pc') :: new)
      | (s', .returned, new) => some (s', .destroyer k .join :: new)
      | (s', .threw e, new) => some (s'.emit (.destroyThrew k e), new)
  | .join => some ({ s with asyncScope := s.asyncScope.startJoin }, [.destroyer k .awaitJoin])
  | .awaitJoin =>
      if s.asyncScope.state = .joined then some (s.emit (.destroyed k), []) else none

/-- `ActorMessage::Execute`: the receiver is stopped or completed. -/
def executeMessage (env : Env) : Completion :=
  if env.stopRequested then .setStopped else .setValue

/-- The head of the loop over the mailboxes. -/
def walk (s : ActorState) (limit executed mailboxIndex : ℕ) : PullPc :=
  if mailboxIndex < s.mailboxSet.mailboxCount then .tryPop limit executed mailboxIndex
  else .fetchSub limit executed

/-- One step of `PullMailboxAndRun`.  When its `Schedule` throws, the exception reaches the fatal
`DiscardResult` of `MakeSender`: the process terminates and there is no next state. -/
def pullMailboxAndRunStep (A : Actor) (s : ActorState) (env : Env) :
    PullPc → Option (ActorState × List Thread)
  | .scheduled => some (s, [.activation .entry])
  | .entry =>
      if s.userClassInstance then some (s, [.activation .loadPendingToBeDestroyed])
      else some (s, [.activation .loadRemaining])
  | .loadRemaining => some (s, [.activation .ret])
  | .loadPendingToBeDestroyed =>
      if s.pendingToBeDestroyed then some (s, [.activation .reset])
      else some (s, [.activation .loadLimit])
  | .reset =>
      some ({ s with userClassInstance := false }.emit .reset,
        [.activation .storeActivatedDestroyed])
  | .storeActivatedDestroyed =>
      some ({ s with activated := false }, [.activation .fetchSubDestroyed])
  | .fetchSubDestroyed =>
      some ({ s with pendingMessageCount := s.pendingMessageCount - 1 }, [.activation .ret])
  | .loadLimit =>
      let limit := min A.config.maxMessageExecutedPerActivation s.pendingMessageCount.toNat
      some (s, [.activation (walk s limit 0 0)])
  | .tryPop limit executed mailboxIndex =>
      match s.mailboxSet.tryPop mailboxIndex with
      | none => some (s, [.activation (walk s limit executed (mailboxIndex + 1))])
      | some (m, set) => some ({ s with mailboxSet := set }.emit (.taken m mailboxIndex),
          [.activation (.execute limit executed mailboxIndex m)])
  | .execute limit executed mailboxIndex m =>
      let s' := s.emit (.executed m mailboxIndex s.userClassInstance (executeMessage env))
      if limit ≤ executed + 1 then some (s', [.activation (.fetchSub limit (executed + 1))])
      else some (s', [.activation (.tryPop limit (executed + 1) mailboxIndex)])
  | .fetchSub _ executed =>
      some ({ s with pendingMessageCount :=
          s.pendingMessageCount - BitVec.ofNat 64 executed }.emit
            (.subtracted s.pendingMessageCount executed),
        [.activation .storeActivated])
  | .storeActivated =>
      some ({ s with activated := false }, [.activation .loadPendingMessageCount])
  | .loadPendingMessageCount =>
      if s.pendingMessageCount = 0 then some (s, [.activation .ret])
      else some (s, [.activation (.tryActivate .cas)])
  | .tryActivate pc =>
      match tryActivateStep s env pc with
      | (s', .next pc', new) => some (s', .activation (.tryActivate pc') :: new)
      | (s', .returned, new) => some (s', .activation .ret :: new)
      | (_, .threw _, _) => none
  | .ret => some ({ s with asyncScope := s.asyncScope.disassociate }, [])

/-- One step of a thread. -/
def Actor.run (A : Actor) (s : ActorState) : Thread → Env → Option (ActorState × List Thread)
  | .producer m mailboxIndex pc, env => pushMessageStep A s m mailboxIndex env pc
  | .destroyer k pc, env => asyncDestroyStep s k env pc
  | .activation pc, env => pullMailboxAndRunStep A s env pc

/-! ### The interleavings -/

/-- The calls that arrive from outside. -/
inductive Arrival
  | pushMessage (mailboxIndex : ℕ)
  | asyncDestroy
deriving DecidableEq

/-- The state of an actor with its threads. -/
abbrev ActorPool := Pool ActorState Thread

/-- The objects a producer keeps alive: its stack frame and, until it is queued, the operation
state of its message. -/
def Thread.objects : Thread → ℕ
  | .producer _ _ .push => 2
  | .producer _ _ _ => 1
  | _ => 0

/-- The live objects of producers and queued messages.  They are distinct and each takes at least
eight bytes. -/
def liveObjects (p : ActorPool) : ℕ := p.shared.mailboxSet.queued + p.total Thread.objects

/-- How many objects of eight bytes a 64-bit address space holds. -/
def addressSpace : ℕ := 2 ^ 61

/-- A `PushMessage` brings its frame and its message, and needs room for them. -/
def arriveActor (p : ActorPool) : Arrival → Option (ActorState × Thread)
  | .pushMessage mailboxIndex =>
      if liveObjects p + 2 ≤ addressSpace then
        some ({ p.shared with submitted := p.shared.submitted + 1 },
          .producer p.shared.submitted mailboxIndex .push)
      else none
  | .asyncDestroy =>
      some ({ p.shared with destroyCalls := p.shared.destroyCalls + 1 },
        .destroyer p.shared.destroyCalls .setPendingToBeDestroyed)

/-- The thread program of an actor. -/
def Actor.program (A : Actor) : ThreadProgram ActorState Thread Env Arrival where
  run := A.run
  arrive := arriveActor

/-- The actions of an actor with its threads. -/
abbrev ActorAction := PoolAction Env Arrival

/-- All interleavings of the threads of an actor. -/
def Actor.machine (A : Actor) : Machine ActorPool ActorAction :=
  A.program.machine (· = A.initial)

/-- The initial pool is one the machine starts from. -/
theorem Actor.machine_init (A : Actor) : A.machine.init ⟨A.initial, []⟩ := ⟨rfl, rfl⟩

/-- Nothing is refused, nothing is stopped. -/
def Env.calm : Env := ⟨.ok true, .ok (), false⟩

/-- The hook answers false. -/
def Env.veto : Env := ⟨.ok false, .ok (), false⟩

/-- The hook throws. -/
def Env.hookThrows : Env := ⟨.error "hook", .ok (), false⟩

/-- A thread takes several steps in the same environment. -/
def threadSteps (n count : ℕ) (env : Env) : List ActorAction := List.replicate count (.run n env)

/-- An actor with the default configuration and no hook. -/
def Actor.plain : Actor := ⟨ActorConfig.default, false⟩

/-- An actor with the default configuration and the hook. -/
def Actor.gated : Actor := ⟨ActorConfig.default, true⟩

end ExActor
