/-
**Switching to distributed mode.**

`ActorRegistry::StartOrJoinCluster` makes the broker, publishes it, and starts it.  Its first checks
and the constructor of the broker come before anything is published.  Then the registry keeps a
reference to the broker, the backend actor is told the reference by a message that the call awaits,
and a second message, also awaited, has the broker bind its socket.

A call that throws before the broker is published leaves the registry in single-node mode.  A call
whose socket cannot be bound throws after it, and nothing is taken back.

What ZeroMQ answers is part of a call.  Calls may be in progress at the same time; each is a thread,
and a step of it ends where it awaits.

Main definitions:

* `ActorRegistry`, `BrokerActor` — the members of the registry and of its backend, the broker;
* `ActorRegistry.startOrJoinCluster`, `ActorRegistry.resume` — the coroutine;
* `clusterStartMachine` — all interleavings of calls;
* `SingleNode` — what the registry is like in single-node mode;
* `ClusterCall.Refused` — the call throws before the broker is published.

Main results:

* `clusterStartOk_of_exec` — what a call in progress has published;
* `failed_start_single_node_iff` — **when a call that throws leaves single-node mode**, and
  `bind_failure_stays_distributed`, a call that does not.
-/

import ExActor.ActorRef
import ExActor.Broker
import ExActor.Interleaving

set_option relaxedAutoImplicit false
set_option autoImplicit false

namespace ExActor

/-! ### The registry -/

/-- The `Actor<MessageBroker>`, with the members of the broker that concern its start. -/
structure BrokerActor where
  actor : TypeErasedActor
  broker : Broker
  /-- `self_actor_ref_` of the broker. -/
  selfActorRef : BrokerRef
  /-- The address that the socket of `recv_socket_puller_` is bound to. -/
  recvSocketPuller : Option String
  /-- `periodical_task_scheduler_` is running. -/
  periodicalTaskScheduler : Bool

/-- The members of `ActorRegistry` and of its backend that concern distributed mode. -/
structure ActorRegistry where
  thisNodeId : NodeId
  brokerActor : Option BrokerActor
  brokerActorRef : BrokerRef
  /-- `broker_actor_ref_` of the backend. -/
  backendBrokerActorRef : BrokerRef

/-- The registry after its constructor. -/
def ActorRegistry.initial (thisNodeId : NodeId) : ActorRegistry :=
  ⟨thisNodeId, none, BasicActorRef.empty, BasicActorRef.empty⟩

/-- `BasicActorRef<MessageBroker>(UINT64_MAX, broker_actor_.get())`, which takes the hash from the
actor. -/
def brokerRefOf (actor : TypeErasedActor) : BrokerRef :=
  BasicActorRef.ofActorTypeHash (BitVec.allOnes 64) (some actor) actor.actorTypeHash

/-- A call of `StartOrJoinCluster`, with what it gets from the rest of the program. -/
structure ClusterCall where
  config : ClusterConfig
  now : TimeMs
  /-- The actor object that is allocated for the broker. -/
  actor : TypeErasedActor
  /-- `connect` of the contact socket. -/
  connect : Except String Unit
  /-- `bind` of the receiving socket. -/
  bind : Except String Unit
deriving DecidableEq

/-- What `StartOrJoinCluster` throws. -/
inductive ClusterStartError
  | alreadyDistributed
  | emptyListenAddress
  /-- A check of the broker's constructor. -/
  | constructor (e : BrokerError)
  /-- A `zmq::error_t`. -/
  | zmq (what : String)
  | notSpawned
deriving DecidableEq

/-- The text of an exception, without the file and line that the throwing macros put first. -/
def ClusterStartError.what : ClusterStartError → String
  | .alreadyDistributed =>
      "Check failed, expected `broker_actor_ref_.IsEmpty()` is true, got false. "
        ++ "Already in distributed mode."
  | .emptyListenAddress =>
      "Check failed, expected `!cluster_config.listen_address.empty()` is true, got false. "
        ++ "listen_address must not be empty"
  | .constructor e => e.what
  | .zmq what => what
  | .notSpawned =>
      "Check failed, expected `!self_actor_ref_.IsEmpty()` is true, got false. "
        ++ "ExActorOnSpawned() must be called before Start()"

/-! ### Starting the broker -/

/-- The constructor of the broker, with the socket that it connects to the contact node. -/
def constructBroker (thisNodeId : NodeId) (call : ClusterCall) :
    Except ClusterStartError BrokerActor :=
  match Broker.construct thisNodeId call.config call.now with
  | .error e => .error (.constructor e)
  | .ok broker =>
      let b : BrokerActor := ⟨call.actor, broker, BasicActorRef.empty, none, false⟩
      if call.config.contactNodeAddress = "" then .ok b
      else
        match call.connect with
        | .error what => .error (.zmq what)
        | .ok () => .ok b

/-- `MessageBroker::Start`.  The request handler is set before the socket is bound. -/
def BrokerActor.start (b : BrokerActor) (bind : Except String Unit) :
    BrokerActor × Except ClusterStartError Unit :=
  if b.selfActorRef.isEmpty then (b, .error .notSpawned)
  else
    let b := { b with broker := b.broker.start }
    match bind with
    | .error what => (b, .error (.zmq what))
    | .ok () =>
        ({ b with
            recvSocketPuller := some b.broker.clusterConfig.listenAddress
            periodicalTaskScheduler := true }, .ok ())

/-- Where a call is. -/
inductive ClusterCallAt
  /-- It awaits `SetBrokerActorRef`. -/
  | settingBroker (ref : BrokerRef)
  /-- It awaits `Start`. -/
  | starting
  | ended (outcome : Except ClusterStartError Unit)

/-- `StartOrJoinCluster` until it ends or awaits something. -/
def ActorRegistry.startOrJoinCluster (r : ActorRegistry) (call : ClusterCall) :
    ActorRegistry × ClusterCallAt :=
  if r.brokerActorRef.isEmpty = false then (r, .ended (.error .alreadyDistributed))
  else if call.config.listenAddress = "" then (r, .ended (.error .emptyListenAddress))
  else
    match constructBroker r.thisNodeId call with
    | .error e => (r, .ended (.error e))
    | .ok b =>
        let ref := brokerRefOf b.actor
        -- the broker learns its own reference in `ExActorOnSpawned`
        ({ r with brokerActor := some { b with selfActorRef := ref }, brokerActorRef := ref },
          .settingBroker ref)

/-- The message that the call awaits is handled, and the call goes on. -/
def ActorRegistry.resume (r : ActorRegistry) (call : ClusterCall) :
    ClusterCallAt → Option (ActorRegistry × ClusterCallAt)
  | .settingBroker ref => some ({ r with backendBrokerActorRef := ref }, .starting)
  | .starting =>
      r.brokerActor.map fun b =>
        let (b', outcome) := b.start call.bind
        ({ r with brokerActor := some b' }, .ended outcome)
  | .ended _ => none

/-- Calls of `StartOrJoinCluster`. -/
def clusterStartProgram :
    ThreadProgram ActorRegistry (ClusterCall × ClusterCallAt) Unit ClusterCall where
  run r t _ := (r.resume t.1 t.2).map fun p => (p.1, [(t.1, p.2)])
  arrive p call := some ((p.shared.startOrJoinCluster call).1,
    (call, (p.shared.startOrJoinCluster call).2))

/-- All interleavings of calls. -/
def clusterStartMachine :
    Machine (Pool ActorRegistry (ClusterCall × ClusterCallAt)) (PoolAction Unit ClusterCall) :=
  clusterStartProgram.machine fun r => ∃ thisNodeId, r = .initial thisNodeId

/-- The registry and the calls. -/
abbrev ClusterStartPool := Pool ActorRegistry (ClusterCall × ClusterCallAt)

/-- The call that throws in a step, and what it throws. -/
def thrownIn (p : ClusterStartPool) :
    PoolAction Unit ClusterCall → Option (ClusterCall × ClusterStartError)
  | .arrive call =>
      match (p.shared.startOrJoinCluster call).2 with
      | .ended (.error e) => some (call, e)
      | _ => none
  | .run i _ =>
      match p.threads[i]? with
      | none => none
      | some (call, place) =>
          match p.shared.resume call place with
          | some (_, .ended (.error e)) => some (call, e)
          | _ => none

/-! ### Operations that need the broker -/

/-- The check that an operation makes before it uses the broker. -/
def requireBroker (ref : BrokerRef) (text : String) : Except String Unit :=
  if ref.isEmpty then
    .error ("Check failed, expected `!broker_actor_ref_.IsEmpty()` is true, got false. " ++ text)
  else .ok ()

namespace ActorRegistry

/-- `SpawnWithCreateFn` of the backend, up to the request that it sends. -/
def spawnWithCreateFn (r : ActorRegistry) (nodeId : NodeId) : Except String Unit :=
  if nodeId = r.thisNodeId then .ok ()
  else requireBroker r.backendBrokerActorRef "Broker actor not set"

/-- `DestroyActor` of the backend, up to the request that it sends. -/
def destroyActor (r : ActorRegistry) (nodeId : NodeId) : Except String Unit :=
  if nodeId = r.thisNodeId then .ok ()
  else requireBroker r.backendBrokerActorRef
    "Trying to destroy a remote actor, but not in distributed mode"

/-- `GetActorRefByName` of the backend, up to the request that it sends. -/
def getActorRefByName (r : ActorRegistry) (nodeId : NodeId) : Except String Unit :=
  if nodeId = r.thisNodeId then .ok ()
  else requireBroker r.backendBrokerActorRef "Broker actor not set"

/-- `WaitClusterState`, up to the message that it sends to the broker. -/
def waitClusterState (r : ActorRegistry) : Except String Unit :=
  requireBroker r.brokerActorRef
    ("WaitClusterState requires distributed mode, call StartOrJoinCluster() after Init() "
      ++ "to enable it.")

end ActorRegistry

/-! ### Single-node mode -/

/-- The registry is in single-node mode: nothing refers to a broker, so that a call of
`StartOrJoinCluster` is not rejected as already distributed, and remote operations report that there
is no broker. -/
structure SingleNode (r : ActorRegistry) : Prop where
  registry : r.brokerActorRef.isEmpty = true
  backend : r.backendBrokerActorRef.isEmpty = true
  mayStart : ∀ call, (r.startOrJoinCluster call).2 ≠ .ended (.error .alreadyDistributed)
  remote : ∀ nodeId, nodeId ≠ r.thisNodeId → r.spawnWithCreateFn nodeId ≠ .ok () ∧
    r.destroyActor nodeId ≠ .ok () ∧ r.getActorRefByName nodeId ≠ .ok ()
  waits : r.waitClusterState ≠ .ok ()

/-- The call throws before the broker is published. -/
def ClusterCall.Refused (call : ClusterCall) : Prop :=
  call.config.listenAddress = "" ∨ (call.config.contactNodeAddress ≠ "" ∧
    (call.config.contactNodeAddress = call.config.listenAddress ∨ call.connect ≠ .ok ()))

theorem requireBroker_ne_ok {ref : BrokerRef} (h : ref.isEmpty = true) (text : String) :
    requireBroker ref text ≠ .ok () := by
  simp [requireBroker, h]

/-- Two references decide. -/
theorem singleNode_iff {r : ActorRegistry} :
    SingleNode r ↔ r.brokerActorRef.isEmpty = true ∧ r.backendBrokerActorRef.isEmpty = true := by
  refine ⟨fun h => ⟨h.registry, h.backend⟩, fun ⟨hregistry, hbackend⟩ =>
    ⟨hregistry, hbackend, fun call => ?_, fun nodeId hne => ⟨?_, ?_, ?_⟩,
      requireBroker_ne_ok hregistry _⟩⟩
  · unfold ActorRegistry.startOrJoinCluster
    rw [hregistry, if_neg (by simp)]
    split
    · simp
    · split
      · next e hconstruct =>
          intro heq
          obtain rfl : e = .alreadyDistributed := by simpa using heq
          unfold constructBroker at hconstruct
          split at hconstruct
          · simp at hconstruct
          · split at hconstruct
            · simp at hconstruct
            · split at hconstruct <;> simp at hconstruct
      · simp
  · rw [ActorRegistry.spawnWithCreateFn, if_neg hne]
    exact requireBroker_ne_ok hbackend _
  · rw [ActorRegistry.destroyActor, if_neg hne]
    exact requireBroker_ne_ok hbackend _
  · rw [ActorRegistry.getActorRefByName, if_neg hne]
    exact requireBroker_ne_ok hbackend _

/-- The constructor of the broker fails exactly if the call is refused, once the listen address is
not empty. -/
theorem constructBroker_error {thisNodeId : NodeId} {call : ClusterCall} {e : ClusterStartError}
    (h : constructBroker thisNodeId call = .error e) : call.Refused := by
  unfold constructBroker Broker.construct at h
  by_cases hlisten : call.config.listenAddress = ""
  · exact Or.inl hlisten
  · by_cases hcontact : call.config.contactNodeAddress = ""
    · simp [hlisten, hcontact] at h
    · by_cases hsame : call.config.contactNodeAddress = call.config.listenAddress
      · exact Or.inr ⟨hcontact, Or.inl hsame⟩
      · refine Or.inr ⟨hcontact, Or.inr fun hconnect => ?_⟩
        simp [hlisten, hcontact, hsame, hconnect, Broker.connectContactSendSocket, Except.map] at h

theorem constructBroker_ok {thisNodeId : NodeId} {call : ClusterCall} {b : BrokerActor}
    (h : constructBroker thisNodeId call = .ok b) : ¬ call.Refused := by
  unfold constructBroker Broker.construct at h
  rintro (hlisten | ⟨hcontact, hsame | hconnect⟩)
  · simp [hlisten] at h
  · by_cases hlisten : call.config.listenAddress = ""
    · simp [hlisten] at h
    · simp [hlisten, hsame] at h
  · by_cases hlisten : call.config.listenAddress = ""
    · simp [hlisten] at h
    · by_cases hsame : call.config.contactNodeAddress = call.config.listenAddress
      · simp [hlisten, hsame] at h
      · cases hanswer : call.connect with
        | ok u => exact hconnect hanswer
        | error what => simp [hlisten, hcontact, hsame, hanswer, Broker.connectContactSendSocket,
            Except.map] at h

/-! ### What a call has published -/

/-- **What `StartOrJoinCluster` does before it awaits**: it throws and leaves the registry as it is,
or publishes the broker. -/
theorem startOrJoinCluster_cases (r : ActorRegistry) (call : ClusterCall) :
    (r.brokerActorRef.isEmpty = false ∧
      r.startOrJoinCluster call = (r, .ended (.error .alreadyDistributed))) ∨
    (r.brokerActorRef.isEmpty = true ∧ call.Refused ∧
      ∃ e, r.startOrJoinCluster call = (r, .ended (.error e))) ∨
    (r.brokerActorRef.isEmpty = true ∧ ¬ call.Refused ∧ ∃ brokerActor ref, ref.isEmpty = false ∧
      r.startOrJoinCluster call
        = ({ r with brokerActor := brokerActor, brokerActorRef := ref }, .settingBroker ref)) := by
  unfold ActorRegistry.startOrJoinCluster
  cases hempty : r.brokerActorRef.isEmpty with
  | false => exact Or.inl ⟨rfl, by simp⟩
  | true =>
      refine Or.inr ?_
      by_cases hlisten : call.config.listenAddress = ""
      · exact Or.inl ⟨rfl, Or.inl hlisten, .emptyListenAddress, by simp [hlisten]⟩
      · cases hconstruct : constructBroker r.thisNodeId call with
        | error e =>
            exact Or.inl ⟨rfl, constructBroker_error hconstruct, e, by simp [hlisten]⟩
        | ok b =>
            exact Or.inr ⟨rfl, constructBroker_ok hconstruct,
              some { b with selfActorRef := brokerRefOf b.actor }, brokerRefOf b.actor, rfl,
              by simp [hlisten]⟩

/-- A call in progress was not refused; it has published the broker in the registry, and in the
backend once it starts the broker. -/
def ClusterCallOk (r : ActorRegistry) (t : ClusterCall × ClusterCallAt) : Prop :=
  match t.2 with
  | .settingBroker ref =>
      ¬ t.1.Refused ∧ ref.isEmpty = false ∧ r.brokerActorRef.isEmpty = false
  | .starting =>
      ¬ t.1.Refused ∧ r.brokerActorRef.isEmpty = false ∧ r.backendBrokerActorRef.isEmpty = false
  | .ended _ => True

/-- The backend has no reference that the registry does not have, and the calls are right. -/
structure ClusterStartOk (p : ClusterStartPool) : Prop where
  backend : p.shared.brokerActorRef.isEmpty = true → p.shared.backendBrokerActorRef.isEmpty = true
  calls : ∀ t ∈ p.threads, ClusterCallOk p.shared t

/-- References stay. -/
theorem ClusterCallOk.mono {r r' : ActorRegistry} {t : ClusterCall × ClusterCallAt}
    (h : ClusterCallOk r t)
    (hregistry : r.brokerActorRef.isEmpty = false → r'.brokerActorRef.isEmpty = false)
    (hbackend : r.backendBrokerActorRef.isEmpty = false →
      r'.backendBrokerActorRef.isEmpty = false) : ClusterCallOk r' t := by
  obtain ⟨call, place⟩ := t
  cases place with
  | settingBroker ref => exact ⟨h.1, h.2.1, hregistry h.2.2⟩
  | starting => exact ⟨h.1, hregistry h.2.1, hbackend h.2.2⟩
  | ended outcome => exact trivial

theorem clusterStartOk_of_exec {tr : List (ClusterStartPool × PoolAction Unit ClusterCall)}
    {p : ClusterStartPool} (h : clusterStartMachine.Exec tr p) : ClusterStartOk p := by
  refine clusterStartProgram.invariantWhere (C := fun _ _ => True) (I := ClusterStartOk) ?_ ?_ ?_ h
    (Machine.meets_true tr)
  · rintro r ⟨thisNodeId, rfl⟩
    exact ⟨fun _ => rfl, by simp⟩
  · intro _ p call r t _ _ hI _ hat
    obtain ⟨rfl, rfl⟩ := Prod.mk.inj (Option.some.inj hat)
    rcases startOrJoinCluster_cases p.shared call with ⟨-, heq⟩ | ⟨-, -, e, heq⟩ |
      ⟨hempty, hrefused, brokerActor, ref, href, heq⟩
    · rw [heq]
      exact ⟨hI.backend, Pool.forall_arrive hI.calls (fun _ => id) trivial⟩
    · rw [heq]
      exact ⟨hI.backend, Pool.forall_arrive hI.calls (fun _ => id) trivial⟩
    · rw [heq]
      refine ⟨fun _ => hI.backend hempty, Pool.forall_arrive hI.calls (fun t ht => ?_)
        ⟨hrefused, href, href⟩⟩
      exact ht.mono (fun _ => href) id
  · intro _ r r' l t rest new k _ _ hI _ hr
    obtain ⟨⟨r₁, place'⟩, hresume, heq⟩ := Option.map_eq_some_iff.1 hr
    obtain ⟨rfl, rfl⟩ := Prod.mk.inj heq
    obtain ⟨call, place⟩ := t
    have hcall := hI.calls (call, place) (by simp)
    cases place with
    | settingBroker ref =>
        obtain ⟨rfl, rfl⟩ := Prod.mk.inj (Option.some.inj hresume)
        obtain ⟨hrefused, href, hregistry⟩ := hcall
        refine ⟨fun hempty => ?_,
          Pool.forall_after hI.calls (fun u hu => hu.mono id fun _ => href) ?_⟩
        · dsimp only at hempty hregistry
          rw [hregistry] at hempty
          simp at hempty
        · intro u hu
          rw [List.mem_singleton.1 hu]
          exact ⟨hrefused, hregistry, href⟩
    | starting =>
        obtain ⟨b, -, hstart⟩ := Option.map_eq_some_iff.1 hresume
        obtain ⟨rfl, rfl⟩ := Prod.mk.inj hstart
        refine ⟨hI.backend, Pool.forall_after hI.calls (fun u hu => hu.mono id id) fun u hu => ?_⟩
        rw [List.mem_singleton.1 hu]
        exact trivial
    | ended outcome => simp [ActorRegistry.resume] at hresume

/-! ### Calls that throw -/

/-- **When a call that throws leaves single-node mode.**  In every run, a call that throws, and not
because the registry is already in distributed mode, leaves the registry in single-node mode if and
only if it was refused before the broker was published. -/
theorem failed_start_single_node_iff {tr : List (ClusterStartPool × PoolAction Unit ClusterCall)}
    {p p' : ClusterStartPool} {a : PoolAction Unit ClusterCall} {call : ClusterCall}
    {e : ClusterStartError} (h : clusterStartMachine.Exec tr p)
    (hn : clusterStartMachine.next p a = some p') (hthrown : thrownIn p a = some (call, e))
    (hown : e ≠ .alreadyDistributed) : SingleNode p'.shared ↔ call.Refused := by
  have hI := clusterStartOk_of_exec h
  rw [singleNode_iff]
  cases a with
  | arrive i =>
      obtain ⟨r, t, hat, rfl⟩ := (ThreadProgram.next_arrive_iff (P := clusterStartProgram)).1 hn
      obtain ⟨rfl, rfl⟩ := Prod.mk.inj (Option.some.inj hat)
      simp only [thrownIn] at hthrown
      rcases startOrJoinCluster_cases p.shared i with ⟨-, heq⟩ | ⟨hempty, hrefused, e', heq⟩ |
        ⟨-, -, brokerActor, ref, -, heq⟩
      · rw [heq] at hthrown
        obtain ⟨-, rfl⟩ := Prod.mk.inj (Option.some.inj hthrown)
        exact absurd rfl hown
      · rw [heq] at hthrown ⊢
        obtain ⟨rfl, -⟩ := Prod.mk.inj (Option.some.inj hthrown)
        exact ⟨fun _ => hrefused, fun _ => ⟨hempty, hI.backend hempty⟩⟩
      · rw [heq] at hthrown
        simp at hthrown
  | run n k =>
      obtain ⟨l, t, rest, r', new, hp, rfl, hr, rfl⟩ :=
        (ThreadProgram.next_run_iff (P := clusterStartProgram)).1 hn
      obtain ⟨⟨r₁, place'⟩, hresume, heq⟩ := Option.map_eq_some_iff.1 hr
      obtain ⟨rfl, rfl⟩ := Prod.mk.inj heq
      obtain ⟨call', place⟩ := t
      have hcall := hI.calls (call', place) (by rw [hp]; simp)
      simp only [thrownIn, hp, Pool.getElem?_middle, hresume] at hthrown
      cases place with
      | settingBroker ref =>
          obtain ⟨rfl, rfl⟩ := Prod.mk.inj (Option.some.inj hresume)
          simp at hthrown
      | starting =>
          -- the references were published, and stay
          obtain ⟨b, -, hstart⟩ := Option.map_eq_some_iff.1 hresume
          obtain ⟨rfl, rfl⟩ := Prod.mk.inj hstart
          obtain ⟨hrefused, hregistry, -⟩ := hcall
          obtain rfl : call' = call := by
            split at hthrown
            · exact (Prod.mk.inj (Option.some.inj hthrown)).1
            · simp at hthrown
          refine ⟨fun hsingle => ?_, fun href => absurd href hrefused⟩
          have hempty := hsingle.1
          dsimp only at hempty hregistry
          rw [hregistry] at hempty
          simp at hempty
      | ended outcome => simp [ActorRegistry.resume] at hresume

/-- A node that starts a cluster. -/
def startNode (listenAddress contactNodeAddress : String) (bind : Except String Unit) :
    ClusterCall where
  config := ⟨listenAddress, contactNodeAddress, ⟨5000, 3⟩, "node"⟩
  now := 0
  actor := ⟨1, 1, 1⟩
  connect := .ok ()
  bind := bind

/-- A node that contacts itself is refused, and the registry stays in single-node mode. -/
theorem failed_start_single_node_contact : ∃ p' : ClusterStartPool, ∃ call,
    thrownIn ⟨.initial 7, []⟩ (.arrive call)
      = some (call, .constructor (.contactIsListen "tcp://127.0.0.1:5301")) ∧
    clusterStartMachine.next ⟨.initial 7, []⟩ (.arrive call) = some p' ∧ SingleNode p'.shared := by
  have hthrown : thrownIn ⟨.initial 7, []⟩
      (.arrive (startNode "tcp://127.0.0.1:5301" "tcp://127.0.0.1:5301" (.ok ())))
      = some (startNode "tcp://127.0.0.1:5301" "tcp://127.0.0.1:5301" (.ok ()),
        .constructor (.contactIsListen "tcp://127.0.0.1:5301")) := by decide
  exact ⟨_, _, hthrown, rfl, (failed_start_single_node_iff (Machine.Exec.init ⟨⟨7, rfl⟩, rfl⟩) rfl
    hthrown (by simp)).2 (Or.inr ⟨by decide, Or.inl rfl⟩)⟩

/-- The listen address is in use.  The call throws, the registry still refers to the broker, and a
second call, with an address that is free, is rejected. -/
theorem bind_failure_stays_distributed : ∃ tr p p' call,
    clusterStartMachine.Exec tr p ∧ clusterStartMachine.next p (.run 0 ()) = some p' ∧
    thrownIn p (.run 0 ()) = some (call, .zmq "Address already in use") ∧
    ¬ SingleNode p'.shared ∧
    thrownIn p' (.arrive (startNode "tcp://127.0.0.1:5302" "" (.ok ())))
      = some (startNode "tcp://127.0.0.1:5302" "" (.ok ()), .alreadyDistributed) := by
  obtain ⟨p, hex, hp⟩ := Machine.exists_exec_of_replay (M := clusterStartMachine)
    (s := ⟨.initial 7, []⟩) ⟨⟨7, rfl⟩, rfl⟩
    [.arrive (startNode "tcp://127.0.0.1:5301" "" (.error "Address already in use")), .run 0 ()]
    (fun p => (thrownIn p (.run 0 ()), (clusterStartMachine.next p (.run 0 ())).map fun p' =>
      (p'.shared.brokerActorRef.isEmpty,
        thrownIn p' (.arrive (startNode "tcp://127.0.0.1:5302" "" (.ok ()))))))
    (some (startNode "tcp://127.0.0.1:5301" "" (.error "Address already in use"),
        .zmq "Address already in use"),
      some (false, some (startNode "tcp://127.0.0.1:5302" "" (.ok ()), .alreadyDistributed)))
    (by decide)
  obtain ⟨hthrown, hnext⟩ := Prod.mk.inj hp
  obtain ⟨p', hn, hp'⟩ := Option.map_eq_some_iff.1 hnext
  obtain ⟨hempty, hagain⟩ := Prod.mk.inj hp'
  refine ⟨_, p, p', _, hex, hn, hthrown, fun hsingle => ?_, hagain⟩
  have hregistry := hsingle.registry
  rw [hempty] at hregistry
  simp at hregistry

end ExActor
