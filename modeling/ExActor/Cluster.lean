/-
**A cluster of message brokers.**

Processes come and go: each runs one broker, under a node id that was never used before, and listens
at the address of its configuration.  A process may crash at any time, and another one may then
listen at the same address.  A message in flight carries the address it was sent to, and is
delivered to whichever process listens there when it arrives, in any order, or lost.

The callback of `RecvSocketPuller` and the periodical tasks run their coroutine under a fatal
`DiscardResult`: when it throws, the process terminates.

A two-way message names its two nodes by id, but travels by address.  If the node it was sent to has
crashed and another one listens at its address, the other one gets the message and
`DispatchReceivedMessage` throws.  Gossip is never refused, because a node id stands for one address
and one name throughout the cluster; but a node that it makes known gets a socket, the waiters are
evaluated and deferred replies are sent, and ZeroMQ or a predicate may throw there.  There is no
other way.

Main definitions:

* `Process`, `ProcessAction`, `Process.step` — a process, and what it does by itself;
* `Cluster`, `ClusterAction`, `Cluster.machine` — the processes with the messages in flight;
* `ExposedAction`, `Cluster.exposedMachine` — the same where ZeroMQ and predicates may throw;
* `Cluster.Consistent` — everything that is told is about a node that was launched;
* `DispatchReturns`, `DeliveredToParty`, `OutsideReturns`, `FreshAddress` — conditions on a step.

Main results:

* `Cluster.consistent_of_exec` — `Cluster.Consistent` holds in every reachable state;
* `dispatch_returns_iff` — **when no delivery throws**; in `delivery_terminates_restarted_node` and
  `gossip_terminates_contact_node` one does.
-/

import ExActor.BrokerKnowledge
import ExActor.Machine

set_option relaxedAutoImplicit false
set_option autoImplicit false

namespace ExActor

/-! ### Processes -/

/-- What has become of a process. -/
inductive ProcessStatus
  | running
  | crashed
  /-- An exception reached a fatal `DiscardResult`. -/
  | terminated (error : BrokerError)
deriving DecidableEq

/-- A process: its broker, and the requests whose handler has not answered. -/
structure Process where
  broker : Broker
  handling : List BrokerTwoWayMessage
  status : ProcessStatus

/-- What a process does by itself. -/
inductive ProcessAction
  | sendRequest (toNodeId : NodeId) (data : ByteBuffer)
  | resumeSendRequest (requestId : RequestId)
  | resumeHandleIncomingRequest (n : ℕ) (data : ByteBuffer)
  | broadcastGossip (now : TimeMs) (nodeIds : List NodeId)
  | checkHeartbeatTimeout (now : TimeMs)
  | waitClusterState (predicate : ClusterState → Bool) (timeoutMs now : TimeMs)
  | resumeWaitClusterState (i : ℕ)
  | checkClusterStateWaiterTimeout (now : TimeMs)

/-- The process after a method that runs under a fatal `DiscardResult`. -/
def Process.afterTask {α : Type} (p : Process) (r : BrokerResult α) : Process × List Sent :=
  match r.result with
  | .ok _ => ({ p with broker := r.broker }, r.sent)
  | .error e => ({ p with broker := r.broker, status := .terminated e }, r.sent)

/-- One message of the broker that does not come from the network.  An exception of `SendRequest`
goes to its caller. -/
def Process.step (p : Process) :
    (act : ProcessAction) → (answers : OutsideAnswers := .calm) → Option (Process × List Sent)
  | .sendRequest toNodeId data, _ =>
      let r := p.broker.sendRequest toNodeId data
      some ({ p with broker := r.broker }, r.sent)
  | .resumeSendRequest requestId, _ =>
      (p.broker.resumeSendRequest requestId).map fun q => ({ p with broker := q.1 }, [])
  | .resumeHandleIncomingRequest n data, answers =>
      (p.handling[n]?).map fun msg =>
        Process.afterTask { p with handling := p.handling.eraseIdx n }
          (p.broker.resumeHandleIncomingRequest msg data answers)
  | .broadcastGossip now nodeIds, answers =>
      if p.broker.mayPick nodeIds then
        some (p.afterTask (p.broker.broadcastGossip now nodeIds answers))
      else none
  | .checkHeartbeatTimeout now, _ =>
      some ({ p with broker := p.broker.checkHeartbeatTimeout now }, [])
  | .waitClusterState predicate timeoutMs now, _ =>
      some ({ p with broker := (p.broker.waitClusterState predicate timeoutMs now).1 }, [])
  | .resumeWaitClusterState i, _ =>
      (p.broker.resumeWaitClusterState i).map fun q => ({ p with broker := q.1 }, [])
  | .checkClusterStateWaiterTimeout now, _ =>
      some ({ p with broker := p.broker.checkClusterStateWaiterTimeout now }, [])

/-- `DispatchReceivedMessage`, under the fatal `DiscardResult` of `StartRecvSocketPuller`. -/
def Process.receive (p : Process) (msg : BrokerMessage) (answers : OutsideAnswers := .calm) :
    Process × List Sent :=
  let r := p.broker.dispatchReceivedMessage msg answers
  match r.result with
  | .ok request => ({ p with
      broker := r.broker, handling := p.handling ++ request.toList }, r.sent)
  | .error e => ({ p with broker := r.broker, status := .terminated e }, r.sent)

/-! ### The cluster -/

/-- All processes that were ever launched, and the messages in flight. -/
structure Cluster where
  processes : List Process
  inFlight : List Sent

/-- No process was launched. -/
def Cluster.initial : Cluster := ⟨[], []⟩

inductive ClusterAction
  | launch (nodeId : NodeId) (config : ClusterConfig) (now : TimeMs)
  | crash (i : ℕ)
  | deliver (j i : ℕ)
  | lose (j : ℕ)
  | process (i : ℕ) (act : ProcessAction)

/-- One running process does something. -/
def Cluster.act (c : Cluster) (i : ℕ) (f : Process → Option (Process × List Sent)) :
    Option Cluster :=
  (c.processes[i]?).bind fun p =>
    if p.status = .running then
      (f p).map fun q => ⟨c.processes.set i q.1, c.inFlight ++ q.2⟩
    else none

/-- A running process listens at the address. -/
def Cluster.bound (c : Cluster) (address : String) : Prop :=
  ∃ p ∈ c.processes, p.status = .running ∧ p.broker.clusterConfig.listenAddress = address

instance (c : Cluster) (address : String) : Decidable (c.bound address) :=
  inferInstanceAs (Decidable (∃ p ∈ c.processes, _))

/-- One step.  A process that cannot construct its broker is not launched. -/
def Cluster.next (c : Cluster) :
    (a : ClusterAction) → (answers : OutsideAnswers := .calm) → Option Cluster
  | .launch nodeId config now, answers =>
      if (∀ p ∈ c.processes, p.broker.thisNodeId ≠ nodeId) ∧ ¬ c.bound config.listenAddress then
        match Broker.construct nodeId config now answers with
        | .error _ => none
        | .ok b => some { c with processes := c.processes ++ [⟨b.start, [], .running⟩] }
      else none
  | .crash i, _ => c.act i fun p => some ({ p with status := .crashed }, [])
  | .deliver j i, answers =>
      (c.inFlight[j]?).bind fun s =>
        Cluster.act { c with inFlight := c.inFlight.eraseIdx j } i fun p =>
          if p.broker.clusterConfig.listenAddress = s.address then some (p.receive s.msg answers)
          else none
  | .lose j, _ => some { c with inFlight := c.inFlight.eraseIdx j }
  | .process i act, answers => c.act i fun p => p.step act answers

/-- All runs of the cluster, as long as ZeroMQ and the predicates do not throw. -/
def Cluster.machine : Machine Cluster ClusterAction where
  init c := c = Cluster.initial
  next c a := c.next a

/-! ### Exceptions of code outside -/

/-- The broker does something else than `DispatchReceivedMessage`, and meets an exception of ZeroMQ
or of a predicate after it has sent some messages.  A task ends the process; to the caller of
`SendRequest` or `WaitClusterState` the exception is returned. -/
def Process.interrupted (p : Process) (what : String) (count : ℕ) :
    ProcessAction → Option (Process × List Sent)
  | .broadcastGossip now nodeIds =>
      if p.broker.mayPick nodeIds then
        some ({ p with status := .terminated (.outside what) },
          (p.broker.broadcastGossip now nodeIds).sent.take count)
      else none
  | .checkHeartbeatTimeout _ => some ({ p with status := .terminated (.outside what) }, [])
  | .sendRequest toNodeId data =>
      if toNodeId = p.broker.thisNodeId then none
      else some ({ p with broker := (p.broker.sendTwoWayMessage toNodeId data).broker }, [])
  | .waitClusterState .. => some (p, [])
  | .resumeSendRequest _ | .resumeHandleIncomingRequest .. | .resumeWaitClusterState _
  | .checkClusterStateWaiterTimeout _ => none

/-- A step with what the code outside answers, or with an exception in something else than
`DispatchReceivedMessage`. -/
inductive ExposedAction
  | step (a : ClusterAction) (answers : OutsideAnswers)
  | interrupt (i : ℕ) (act : ProcessAction) (count : ℕ) (what : String)

/-- One step, whatever the code outside does. -/
def Cluster.exposedNext (c : Cluster) : ExposedAction → Option Cluster
  | .step a answers => c.next a answers
  | .interrupt i act count what => c.act i fun p => p.interrupted what count act

/-- All runs of the cluster, whatever ZeroMQ and the predicates throw. -/
def Cluster.exposedMachine : Machine Cluster ExposedAction where
  init c := c = Cluster.initial
  next := Cluster.exposedNext

/-! ### Everything that is told is about a node that was launched -/

/-- What identifies the node of a process: its id, its address and its name. -/
def Process.identity (p : Process) : NodeId × String × String :=
  (p.broker.thisNodeId, p.broker.clusterConfig.listenAddress, p.broker.clusterConfig.nodeName)

/-- The nodes that were launched. -/
def Cluster.identities (c : Cluster) : List (NodeId × String × String) :=
  c.processes.map Process.identity

/-- The node state is about one of the nodes. -/
def About (ids : List (NodeId × String × String)) (ns : NodeState) : Prop :=
  (ns.nodeId, ns.address, ns.nodeName) ∈ ids

theorem timeless_about (ids : List (NodeId × String × String)) : Timeless (About ids) :=
  fun _ _ h => h

theorem agree_about {ids : List (NodeId × String × String)} (h : (ids.map Prod.fst).Nodup) :
    Agree (About ids) := by
  intro ns ns' hns hns' hid
  have heq := List.inj_on_of_nodup_map h hns hns' hid
  simp only [Prod.mk.injEq] at heq
  exact heq.2

/-- All that is held and all that is in flight is about nodes that were launched, and no two nodes
have the same id. -/
structure Cluster.Consistent (c : Cluster) : Prop where
  ids : (c.identities.map Prod.fst).Nodup
  handlers : ∀ p ∈ c.processes, p.broker.requestHandler = true
  brokers : ∀ p ∈ c.processes, p.broker.Knows (About c.identities)
  inFlight : ∀ s ∈ c.inFlight, s.Knows (About c.identities)

theorem Broker.Knows.mono {K K' : NodeState → Prop} {b : Broker} (h : b.Knows K)
    (hK : ∀ ns, K ns → K' ns) : b.Knows K' := by
  refine ⟨fun nodeId ns hlookup => ?_, fun nodeId address hlookup => ?_⟩
  · obtain ⟨hid, hns⟩ := h.table nodeId ns hlookup
    exact ⟨hid, hK ns hns⟩
  · obtain ⟨ns, hns, hid, haddress⟩ := h.sockets nodeId address hlookup
    exact ⟨ns, hK ns hns, hid, haddress⟩

theorem Sent.Knows.mono {K K' : NodeState → Prop} {s : Sent} (h : s.Knows K)
    (hK : ∀ ns, K ns → K' ns) : s.Knows K' := by
  unfold Sent.Knows at h ⊢
  split
  · next msg hmsg =>
      rw [hmsg] at h
      exact fun ns hns => hK ns (h ns hns)
  · next msg hmsg =>
      rw [hmsg] at h
      obtain ⟨ns, hns, haddress, hparty⟩ := h
      exact ⟨ns, hK ns hns, haddress, hparty⟩

/-- A method under a fatal `DiscardResult`. -/
theorem Process.kept_afterTask {K : NodeState → Prop} {b : Broker} {p : Process} {α : Type}
    {r : BrokerResult α} (h : Broker.Kept K b r.broker r.sent) :
    Broker.Kept K b (p.afterTask r).1.broker (p.afterTask r).2 := by
  unfold Process.afterTask
  split <;> exact h

/-- What a process does keeps its identity and what it knows. -/
theorem Process.kept_step {K : NodeState → Prop} (hK : Timeless K) {p : Process}
    (h : p.broker.Knows K) {act : ProcessAction} {answers : OutsideAnswers}
    {q : Process × List Sent}
    (hq : p.step act answers = some q) : Broker.Kept K p.broker q.1.broker q.2 := by
  cases act with
  | sendRequest toNodeId data =>
      obtain rfl := Option.some.inj hq
      exact Broker.kept_sendRequest h toNodeId data
  | resumeSendRequest requestId =>
      obtain ⟨r, hr, rfl⟩ := Option.map_eq_some_iff.1 hq
      obtain ⟨request, -, hr⟩ := Option.bind_eq_some_iff.1 hr
      split at hr
      · obtain rfl := Option.some.inj hr
        exact ⟨rfl, rfl, rfl, ⟨h.table, h.sockets⟩, by simp⟩
      · simp at hr
  | resumeHandleIncomingRequest n data =>
      obtain ⟨msg, -, rfl⟩ := Option.map_eq_some_iff.1 hq
      exact Process.kept_afterTask (Broker.kept_resumeHandleIncomingRequest h msg data)
  | broadcastGossip now nodeIds =>
      simp only [Process.step] at hq
      split at hq
      · obtain rfl := Option.some.inj hq
        exact Process.kept_afterTask (Broker.kept_broadcastGossip hK h now nodeIds)
      · simp at hq
  | checkHeartbeatTimeout now =>
      obtain rfl := Option.some.inj hq
      exact Broker.kept_checkHeartbeatTimeout h now
  | waitClusterState predicate timeoutMs now =>
      obtain rfl := Option.some.inj hq
      refine ⟨?_, ?_, ?_, ?_, by simp⟩ <;> simp only [Broker.waitClusterState] <;> split
      all_goals first | rfl | exact ⟨h.table, h.sockets⟩
  | resumeWaitClusterState i =>
      obtain ⟨r, hr, rfl⟩ := Option.map_eq_some_iff.1 hq
      obtain ⟨waiter, -, hr⟩ := Option.bind_eq_some_iff.1 hr
      split at hr
      · obtain rfl := Option.some.inj hr
        exact ⟨rfl, rfl, rfl, ⟨h.table, h.sockets⟩, by simp⟩
      · simp at hr
  | checkClusterStateWaiterTimeout now =>
      obtain rfl := Option.some.inj hq
      exact ⟨rfl, rfl, rfl, ⟨h.table, h.sockets⟩, by simp⟩

theorem Process.kept_receive {K : NodeState → Prop} (hK : Timeless K) {p : Process}
    (h : p.broker.Knows K) {s : Sent} (hs : s.Knows K) (answers : OutsideAnswers) :
    Broker.Kept K p.broker (p.receive s.msg answers).1.broker (p.receive s.msg answers).2 := by
  have hkept := @Broker.kept_dispatchReceivedMessage _ _ answers hK h _ hs
  unfold Process.receive
  dsimp only
  split <;> exact hkept

theorem Process.kept_interrupted {K : NodeState → Prop} (hK : Timeless K) {p : Process}
    (h : p.broker.Knows K) {act : ProcessAction} {count : ℕ} {what : String}
    {q : Process × List Sent} (hq : p.interrupted what count act = some q) :
    Broker.Kept K p.broker q.1.broker q.2 := by
  cases act with
  | broadcastGossip now nodeIds =>
      simp only [Process.interrupted] at hq
      split at hq
      · obtain rfl := Option.some.inj hq
        have hkept := @Broker.kept_broadcastGossip _ _ OutsideAnswers.calm hK h now nodeIds
        exact ⟨rfl, rfl, rfl, h, fun s hs => hkept.sent s (List.mem_of_mem_take hs)⟩
      · simp at hq
  | sendRequest toNodeId data =>
      simp only [Process.interrupted] at hq
      split at hq
      · simp at hq
      · obtain rfl := Option.some.inj hq
        have hkept := Broker.kept_sendTwoWayMessage h toNodeId data
        exact ⟨hkept.thisNodeId, hkept.clusterConfig, hkept.requestHandler, hkept.knows, by simp⟩
  | checkHeartbeatTimeout | waitClusterState =>
      obtain rfl := Option.some.inj hq
      exact Broker.Kept.refl h
  | resumeSendRequest | resumeHandleIncomingRequest | resumeWaitClusterState
  | checkClusterStateWaiterTimeout => cases hq

/-- A process that keeps what it knows keeps the cluster consistent. -/
theorem Cluster.Consistent.act {c c' : Cluster} (h : c.Consistent) {i : ℕ}
    {f : Process → Option (Process × List Sent)}
    (hf : ∀ p ∈ c.processes, ∀ q, f p = some q →
      Broker.Kept (About c.identities) p.broker q.1.broker q.2)
    (hc : c.act i f = some c') : c'.Consistent ∧ c'.identities = c.identities := by
  obtain ⟨p, hp, hc⟩ := Option.bind_eq_some_iff.1 hc
  split at hc
  · obtain ⟨q, hq, rfl⟩ := Option.map_eq_some_iff.1 hc
    obtain ⟨hlt, rfl⟩ := List.getElem?_eq_some_iff.1 hp
    have hkept := hf _ (List.getElem_mem hlt) q hq
    have hidentity : q.1.identity = c.processes[i].identity := by
      simp [Process.identity, hkept.thisNodeId, hkept.clusterConfig]
    have hids : Cluster.identities ⟨c.processes.set i q.1, c.inFlight ++ q.2⟩ = c.identities := by
      have hlt' : i < (c.processes.map Process.identity).length := by simpa using hlt
      simp only [Cluster.identities, List.map_set, hidentity]
      rw [← List.getElem_map Process.identity (h := hlt'), List.set_getElem_self]
    refine ⟨⟨?_, ?_, ?_, ?_⟩, hids⟩
    · rw [hids]
      exact h.ids
    · intro p' hp'
      rcases List.mem_or_eq_of_mem_set hp' with hp' | rfl
      · exact h.handlers p' hp'
      · rw [hkept.requestHandler]
        exact h.handlers _ (List.getElem_mem hlt)
    · rw [hids]
      intro p' hp'
      rcases List.mem_or_eq_of_mem_set hp' with hp' | rfl
      · exact h.brokers p' hp'
      · exact hkept.knows
    · rw [hids]
      intro s hs
      rcases List.mem_append.1 hs with hs | hs
      · exact h.inFlight s hs
      · exact hkept.sent s hs
  · simp at hc

/-- What the constructor leaves. -/
theorem Broker.construct_eq_ok {nodeId : NodeId} {config : ClusterConfig} {now : TimeMs}
    {answers : OutsideAnswers} {b : Broker}
    (h : Broker.construct nodeId config now answers = .ok b) :
    b.thisNodeId = nodeId ∧ b.clusterConfig = config ∧
      b.nodeIdToState = (∅ : UnorderedMap NodeId NodeState).insert nodeId
        ⟨now, nodeId, config.listenAddress, config.nodeName⟩ ∧ b.nodeIdToSendSocket = ∅ := by
  unfold Broker.construct at h
  split at h
  · simp at h
  · dsimp only at h
    split at h
    · obtain rfl := Except.ok.inj h
      exact ⟨rfl, rfl, rfl, rfl⟩
    · split at h
      · simp at h
      · simp only [Broker.connectContactSendSocket] at h
        split at h
        · simp [Except.map] at h
        · obtain rfl := Except.ok.inj h
          exact ⟨rfl, rfl, rfl, rfl⟩

theorem Cluster.Consistent.launch {c : Cluster} (h : c.Consistent) {nodeId : NodeId}
    {config : ClusterConfig} {now : TimeMs} {answers : OutsideAnswers} {b : Broker}
    (hfresh : ∀ p ∈ c.processes, p.broker.thisNodeId ≠ nodeId)
    (hb : Broker.construct nodeId config now answers = .ok b) :
    Cluster.Consistent { c with processes := c.processes ++ [⟨b.start, [], .running⟩] } ∧
      Cluster.identities { c with processes := c.processes ++ [⟨b.start, [], .running⟩] }
        = c.identities ++ [(nodeId, config.listenAddress, config.nodeName)] := by
  obtain ⟨hid, hconfig, htable, hsockets⟩ := Broker.construct_eq_ok hb
  have hids : Cluster.identities { c with processes := c.processes ++ [⟨b.start, [], .running⟩] }
      = c.identities ++ [(nodeId, config.listenAddress, config.nodeName)] := by
    simp [Cluster.identities, Process.identity, Broker.start, hid, hconfig]
  have hmono : ∀ ns, About c.identities ns →
      About (c.identities ++ [(nodeId, config.listenAddress, config.nodeName)]) ns :=
    fun _ hns => List.mem_append_left _ hns
  refine ⟨⟨?_, ?_, ?_, ?_⟩, hids⟩
  · rw [hids, List.map_append, List.map_singleton]
    refine List.nodup_append'.2 ⟨h.ids, List.nodup_singleton _, ?_⟩
    intro id hmem hnew
    obtain rfl := List.mem_singleton.1 hnew
    obtain ⟨identity, hidentity, hfst⟩ := List.mem_map.1 hmem
    obtain ⟨p, hp, rfl⟩ := List.mem_map.1 hidentity
    exact hfresh p hp hfst
  · intro p hp
    rcases List.mem_append.1 hp with hp | hp
    · exact h.handlers p hp
    · obtain rfl := List.mem_singleton.1 hp
      rfl
  · rw [hids]
    intro p hp
    rcases List.mem_append.1 hp with hp | hp
    · exact (h.brokers p hp).mono hmono
    · obtain rfl := List.mem_singleton.1 hp
      refine ⟨fun id ns hlookup => ?_, fun id address hlookup => ?_⟩
      · have hlookup : b.nodeIdToState.lookup id = some ns := hlookup
        rw [htable] at hlookup
        by_cases heq : id = nodeId
        · subst heq
          rw [AList.lookup_insert] at hlookup
          obtain rfl := Option.some.inj hlookup
          exact ⟨rfl, List.mem_append_right _ (List.mem_singleton_self _)⟩
        · rw [AList.lookup_insert_ne heq] at hlookup
          simp at hlookup
      · have hlookup : b.nodeIdToSendSocket.lookup id = some address := hlookup
        simp [hsockets] at hlookup
  · rw [hids]
    exact fun s hs => (h.inFlight s hs).mono hmono

/-- A step keeps the cluster consistent, and only a launch adds a node. -/
theorem Cluster.Consistent.next {c c' : Cluster} (h : c.Consistent) {a : ClusterAction}
    {answers : OutsideAnswers} (hn : c.next a answers = some c') :
    c'.Consistent ∧ (c'.identities = c.identities ∨ ∃ nodeId config now,
      a = .launch nodeId config now ∧
        c'.identities = c.identities ++ [(nodeId, config.listenAddress, config.nodeName)]) := by
  cases a with
  | launch nodeId config now =>
      simp only [Cluster.next] at hn
      split at hn
      · next hfresh =>
          split at hn
          · simp at hn
          · next b hb =>
              obtain rfl := Option.some.inj hn
              obtain ⟨hconsistent, hids⟩ := h.launch hfresh.1 hb
              exact ⟨hconsistent, Or.inr ⟨nodeId, config, now, rfl, hids⟩⟩
      · simp at hn
  | crash i =>
      refine (h.act (fun p hp q hq => ?_) hn).imp_right Or.inl
      obtain rfl := Option.some.inj hq
      exact Broker.Kept.refl (h.brokers p hp)
  | deliver j i =>
      obtain ⟨s, hs, hn⟩ := Option.bind_eq_some_iff.1 hn
      have herase : Cluster.Consistent { c with inFlight := c.inFlight.eraseIdx j } :=
        ⟨h.ids, h.handlers, h.brokers,
          fun s' hs' => h.inFlight s' ((List.eraseIdx_sublist ..).subset hs')⟩
      refine (herase.act (fun p hp q hq => ?_) hn).imp_right Or.inl
      split at hq
      · obtain rfl := Option.some.inj hq
        exact Process.kept_receive (timeless_about _) (h.brokers p hp)
          (h.inFlight s (List.mem_of_getElem? hs)) answers
      · simp at hq
  | lose j =>
      obtain rfl := Option.some.inj hn
      exact ⟨⟨h.ids, h.handlers, h.brokers,
        fun s' hs' => h.inFlight s' ((List.eraseIdx_sublist ..).subset hs')⟩, Or.inl rfl⟩
  | process i act =>
      refine (h.act (fun p hp q hq => ?_) hn).imp_right Or.inl
      exact Process.kept_step (timeless_about _) (h.brokers p hp) hq

/-- No process has been launched. -/
theorem Cluster.consistent_initial : Cluster.initial.Consistent :=
  ⟨by simp [Cluster.initial, Cluster.identities], by simp [Cluster.initial],
    by simp [Cluster.initial], by simp [Cluster.initial]⟩

/-- The same where code outside may throw. -/
theorem Cluster.Consistent.exposedNext {c c' : Cluster} (h : c.Consistent) {a : ExposedAction}
    (hn : Cluster.exposedMachine.next c a = some c') :
    c'.Consistent ∧ (c'.identities = c.identities ∨ ∃ nodeId config now answers,
      a = .step (.launch nodeId config now) answers ∧
        c'.identities = c.identities ++ [(nodeId, config.listenAddress, config.nodeName)]) := by
  cases a with
  | step a answers =>
      obtain ⟨hconsistent, hids | ⟨nodeId, config, now, rfl, hids⟩⟩ := h.next hn
      · exact ⟨hconsistent, Or.inl hids⟩
      · exact ⟨hconsistent, Or.inr ⟨nodeId, config, now, answers, rfl, hids⟩⟩
  | interrupt i act count what =>
      refine (h.act (fun p hp q hq => ?_) hn).imp_right Or.inl
      exact Process.kept_interrupted (timeless_about _) (h.brokers p hp) hq

theorem Cluster.consistent_of_exposed {tr : List (Cluster × ExposedAction)} {c : Cluster}
    (h : Cluster.exposedMachine.Exec tr c) : c.Consistent := by
  refine h.invariantWhere (C := fun _ _ => True) (I := Cluster.Consistent) ?_ ?_
    (Machine.meets_true tr)
  · rintro c rfl
    exact Cluster.consistent_initial
  · intro tr c a c' _ _ hI _ hn
    exact (hI.exposedNext hn).1

/-- **A run in which nothing throws** is a run of the cluster whose code outside may throw. -/
theorem Cluster.exposed_of_exec {tr : List (Cluster × ClusterAction)} {c : Cluster}
    (h : Cluster.machine.Exec tr c) :
    Cluster.exposedMachine.Exec (tr.map fun s => (s.1, .step s.2 .calm)) c := by
  induction h with
  | init hinit => exact .init hinit
  | @step tr s s' a _ hn ih =>
      have hn : Cluster.exposedMachine.next s (.step a .calm) = some s' := hn
      rw [List.map_append]
      exact ih.step hn

/-- **Everything that is told is about a node that was launched**, in every reachable state. -/
theorem Cluster.consistent_of_exec {tr : List (Cluster × ClusterAction)} {c : Cluster}
    (h : Cluster.machine.Exec tr c) : c.Consistent :=
  Cluster.consistent_of_exposed (Cluster.exposed_of_exec h)

/-! ### Deliveries -/

/-- If the step delivers a message, or the request handler has answered one, then
`DispatchReceivedMessage` does not throw. -/
def DispatchReturns (c : Cluster) : ExposedAction → Prop
  | .step (.deliver j i) answers => ∀ s ∈ c.inFlight[j]?, ∀ p ∈ c.processes[i]?,
      ∃ request, (p.broker.dispatchReceivedMessage s.msg answers).result = .ok request
  | .step (.process i (.resumeHandleIncomingRequest n data)) answers => ∀ p ∈ c.processes[i]?,
      ∀ msg ∈ p.handling[n]?,
        (p.broker.resumeHandleIncomingRequest msg data answers).result = .ok ()
  | _ => True

/-- If the step delivers a two-way message, the receiver is one of the two nodes it names. -/
def DeliveredToParty (c : Cluster) : ClusterAction → Prop
  | .deliver j i => ∀ s ∈ c.inFlight[j]?, ∀ p ∈ c.processes[i]?, p.broker.Concerns s.msg
  | _ => True

/-- If the step delivers a message, none of the calls throws that `DispatchReceivedMessage` makes
for it to ZeroMQ and to the predicates; and if the request handler has answered one, the sending of
the reply does not throw. -/
def OutsideReturns (c : Cluster) : ExposedAction → Prop
  | .step (.deliver j i) answers => ∀ s ∈ c.inFlight[j]?, ∀ p ∈ c.processes[i]?,
      ∀ call ∈ p.broker.dispatchCalls s.msg, answers call = none
  | .step (.process i (.resumeHandleIncomingRequest n _)) answers => ∀ p ∈ c.processes[i]?,
      ∀ msg ∈ p.handling[n]?, msg.requestNodeId ∈ p.broker.nodeIdToSendSocket →
        answers .sendReply = none
  | _ => True

/-- If the step launches a process, no process has listened at its address before. -/
def FreshAddress (c : Cluster) : ClusterAction → Prop
  | .launch _ config _ => ∀ p ∈ c.processes,
      p.broker.clusterConfig.listenAddress ≠ config.listenAddress
  | _ => True

/-- A condition on the steps of a cluster, whatever the code outside answers. -/
def OnStep (C : Cluster → ClusterAction → Prop) (c : Cluster) : ExposedAction → Prop
  | .step a _ => C c a
  | .interrupt .. => True

instance (c : Cluster) (a : ClusterAction) : Decidable (DeliveredToParty c a) :=
  match a with
  | .deliver j i =>
      inferInstanceAs (Decidable (∀ s ∈ c.inFlight[j]?, ∀ p ∈ c.processes[i]?, _))
  | .launch .. | .crash _ | .lose _ | .process .. => isTrue trivial

instance (c : Cluster) (a : ClusterAction) : Decidable (FreshAddress c a) :=
  match a with
  | .launch .. => inferInstanceAs (Decidable (∀ p ∈ c.processes, _))
  | .deliver .. | .crash _ | .lose _ | .process .. => isTrue trivial

instance (C : Cluster → ClusterAction → Prop) [∀ c a, Decidable (C c a)] (c : Cluster)
    (a : ExposedAction) : Decidable (OnStep C c a) :=
  match a with
  | .step a _ => inferInstanceAs (Decidable (C c a))
  | .interrupt .. => isTrue trivial

instance (c : Cluster) (a : ExposedAction) : Decidable (OutsideReturns c a) :=
  match a with
  | .step (.deliver j i) _ =>
      inferInstanceAs (Decidable (∀ s ∈ c.inFlight[j]?, ∀ p ∈ c.processes[i]?, ∀ call ∈ _, _))
  | .step (.process i act) _ =>
      match act with
      | .resumeHandleIncomingRequest n _ =>
          inferInstanceAs (Decidable (∀ p ∈ c.processes[i]?, ∀ msg ∈ p.handling[n]?, _ → _))
      | .sendRequest .. | .resumeSendRequest _ | .broadcastGossip .. | .checkHeartbeatTimeout _
      | .waitClusterState .. | .resumeWaitClusterState _ | .checkClusterStateWaiterTimeout _ =>
          isTrue trivial
  | .step (.launch ..) _ | .step (.crash _) _ | .step (.lose _) _ | .interrupt .. => isTrue trivial

/-- A step returns or not according to whom the message is delivered to, and to what code outside
does. -/
theorem dispatchReturns_iff_of_consistent {c : Cluster} (h : c.Consistent) (a : ExposedAction) :
    DispatchReturns c a ↔ OnStep DeliveredToParty c a ∧ OutsideReturns c a := by
  cases a with
  | interrupt => simp [DispatchReturns, OnStep, OutsideReturns]
  | step a answers =>
      cases a with
      | deliver j i =>
          have hone : ∀ s ∈ c.inFlight[j]?, ∀ p ∈ c.processes[i]?,
              ((∃ request,
                  (p.broker.dispatchReceivedMessage s.msg answers).result = .ok request) ↔
                p.broker.Concerns s.msg ∧
                  ∀ call ∈ p.broker.dispatchCalls s.msg, answers call = none) := by
            intro s hs p hp
            have hp := List.mem_of_getElem? hp
            exact Broker.dispatchReceivedMessage_ok_iff (timeless_about _) (agree_about h.ids)
              (h.brokers p hp) (h.handlers p hp) (h.inFlight s (List.mem_of_getElem? hs))
          constructor
          · intro hreturns
            exact ⟨fun s hs p hp => ((hone s hs p hp).1 (hreturns s hs p hp)).1,
              fun s hs p hp => ((hone s hs p hp).1 (hreturns s hs p hp)).2⟩
          · rintro ⟨hparty, hcalls⟩ s hs p hp
            exact (hone s hs p hp).2 ⟨hparty s hs p hp, hcalls s hs p hp⟩
      | process i act =>
          cases act with
          | resumeHandleIncomingRequest n data =>
              simp only [DispatchReturns, OnStep, DeliveredToParty, OutsideReturns, true_and,
                Broker.resumeHandleIncomingRequest_ok_iff]
          | _ => simp [DispatchReturns, OnStep, DeliveredToParty, OutsideReturns]
      | _ => simp [DispatchReturns, OnStep, DeliveredToParty, OutsideReturns]

/-- The addresses of the nodes that were launched. -/
def Cluster.addresses (c : Cluster) : List String := c.identities.map (·.2.1)

/-- **No address is used twice**, in runs in which every process is launched at a new address. -/
theorem addresses_nodup_of_exposed {tr : List (Cluster × ExposedAction)} {c : Cluster}
    (h : Cluster.exposedMachine.Exec tr c) (hF : Machine.Meets (OnStep FreshAddress) tr) :
    c.addresses.Nodup := by
  refine h.invariantWhere (I := fun c => c.addresses.Nodup) ?_ ?_ hF
  · rintro c rfl
    simp [Cluster.initial, Cluster.addresses, Cluster.identities]
  · intro tr c a c' hex _ hI hok hn
    rcases ((Cluster.consistent_of_exposed hex).exposedNext hn).2 with
      hids | ⟨nodeId, config, now, answers, rfl, hids⟩
    · rwa [Cluster.addresses, hids]
    · rw [Cluster.addresses, hids, List.map_append, List.map_singleton]
      refine List.nodup_append'.2 ⟨hI, List.nodup_singleton _, ?_⟩
      intro address hmem hnew
      obtain rfl := List.mem_singleton.1 hnew
      obtain ⟨identity, hidentity, haddress⟩ := List.mem_map.1 hmem
      obtain ⟨p, hp, rfl⟩ := List.mem_map.1 hidentity
      exact hok p hp haddress

theorem addresses_nodup_of_exec {tr : List (Cluster × ClusterAction)} {c : Cluster}
    (h : Cluster.machine.Exec tr c) (hF : Machine.Meets FreshAddress tr) : c.addresses.Nodup := by
  refine addresses_nodup_of_exposed (Cluster.exposed_of_exec h) fun s hs => ?_
  obtain ⟨s', hs', rfl⟩ := List.mem_map.1 hs
  exact hF s' hs'

/-- While no address is used twice, the node at the address of a message is the one it was sent
to. -/
theorem deliveredToParty_of_nodup {c c' : Cluster} (h : c.Consistent) (hnodup : c.addresses.Nodup)
    {a : ClusterAction} {answers : OutsideAnswers} (hn : c.next a answers = some c') :
    DeliveredToParty c a := by
  cases a with
  | deliver j i =>
      intro s hs p hp
      obtain ⟨s', hs', hn⟩ := Option.bind_eq_some_iff.1 hn
      obtain rfl : s = s' := Option.some.inj (Eq.trans (Eq.symm hs) hs')
      obtain ⟨p', hp', hn⟩ := Option.bind_eq_some_iff.1 hn
      obtain rfl : p = p' := Option.some.inj (Eq.trans (Eq.symm hp) hp')
      split at hn
      · obtain ⟨q, hq, -⟩ := Option.map_eq_some_iff.1 hn
        dsimp only at hq
        split at hq
        · next haddress =>
            have hknows := h.inFlight s (List.mem_of_getElem? hs)
            unfold Sent.Knows at hknows
            unfold Broker.Concerns
            cases hmsg : s.msg with
            | gossip msg => trivial
            | twoWay msg =>
                rw [hmsg] at hknows
                obtain ⟨ns, hns, hto, hparty⟩ := hknows
                have hp := List.mem_map_of_mem (f := Process.identity) (List.mem_of_getElem? hp)
                have hsame := List.inj_on_of_nodup_map hnodup hns hp (hto.trans haddress.symm)
                have hid : ns.nodeId = p.broker.thisNodeId := congrArg Prod.fst hsame
                rwa [← hid]
        · simp at hq
      · simp at hn
  | launch | crash | lose | process => trivial

/-- A step of a run returns exactly if it delivers to a party and nothing outside throws. -/
theorem dispatchReturns_iff_of_mem {tr : List (Cluster × ExposedAction)} {c : Cluster}
    (h : Cluster.exposedMachine.Exec tr c) {p : Cluster × ExposedAction} (hp : p ∈ tr) :
    DispatchReturns p.1 p.2 ↔ OnStep DeliveredToParty p.1 p.2 ∧ OutsideReturns p.1 p.2 := by
  obtain ⟨tr₁, tr₂, rfl⟩ := List.append_of_mem hp
  exact dispatchReturns_iff_of_consistent (Cluster.consistent_of_exposed h.split.1) p.2

/-- **When no delivery throws.**  In every run, whatever ZeroMQ and the predicates throw, no
delivered message makes `DispatchReceivedMessage` throw exactly if every two-way message is
delivered to one of the two nodes that it names, and none of the calls throws that
`DispatchReceivedMessage` makes to ZeroMQ and to predicates.  The first is so in every run in which
no process is launched at an address that another process has listened at. -/
theorem dispatch_returns_iff {tr : List (Cluster × ExposedAction)} {c : Cluster}
    (h : Cluster.exposedMachine.Exec tr c) :
    (Machine.Meets DispatchReturns tr ↔
        Machine.Meets (OnStep DeliveredToParty) tr ∧ Machine.Meets OutsideReturns tr) ∧
      (Machine.Meets (OnStep FreshAddress) tr → Machine.Meets (OnStep DeliveredToParty) tr) := by
  refine ⟨⟨fun hreturns => ⟨fun p hp => ?_, fun p hp => ?_⟩, fun hmeets p hp => ?_⟩,
    fun hF p hp => ?_⟩
  · exact ((dispatchReturns_iff_of_mem h hp).1 (hreturns p hp)).1
  · exact ((dispatchReturns_iff_of_mem h hp).1 (hreturns p hp)).2
  · exact (dispatchReturns_iff_of_mem h hp).2 ⟨hmeets.1 p hp, hmeets.2 p hp⟩
  · obtain ⟨tr₁, tr₂, rfl⟩ := List.append_of_mem hp
    obtain ⟨hex, c', hn, -⟩ := h.split
    have hnodup := addresses_nodup_of_exposed hex ((Machine.meets_append ..).1 hF).1
    obtain ⟨c₁, a⟩ := p
    cases a with
    | step a answers =>
        exact deliveredToParty_of_nodup (Cluster.consistent_of_exposed hex) hnodup hn
    | interrupt => trivial

/-! ### Three runs -/

/-- The address and the contact node of a node, with no name. -/
def clusterConfigOf (listenAddress contactNodeAddress : String) : ClusterConfig :=
  ⟨listenAddress, contactNodeAddress, ⟨10000, 3⟩, ""⟩

/-- Nodes 1 and 2 are launched and find each other: node 1 tells its contact node 2, which tells
node 1. -/
def discovery : List ClusterAction :=
  [.launch 1 (clusterConfigOf "tcp://a" "tcp://b") 0, .launch 2 (clusterConfigOf "tcp://b" "") 0,
    .process 0 (.broadcastGossip 0 []), .deliver 0 1, .process 1 (.broadcastGossip 0 [1]),
    .deliver 0 0]

/-- ZeroMQ refuses to connect to one address. -/
def refusing (address : String) : OutsideAnswers
  | .connect _ a => if a = address then some "Invalid argument" else none
  | _ => none

/-- The steps, where ZeroMQ refuses to connect to an address that stands for every interface. -/
def exposed (as : List ClusterAction) : List ExposedAction :=
  as.map fun a => .step a (refusing "tcp://*:5302")

/-- Node 1 sends a request to node 2, whose reply arrives. -/
theorem dispatch_returns_iff_request : ∃ tr c, Cluster.exposedMachine.Exec tr c ∧
    c.processes.map (fun p => p.broker.outstandingRequests.lookup 0)
      = [some ⟨0, [7], none, 2⟩, none] ∧ Machine.Meets DispatchReturns tr := by
  let L : List ClusterAction := discovery ++ [.process 0 (.sendRequest 2 [5]), .deliver 0 1,
    .process 1 (.resumeHandleIncomingRequest 0 [7]), .deliver 0 0]
  obtain ⟨c, hex, hc⟩ := Machine.exists_exec_of_replay (M := Cluster.exposedMachine) rfl (exposed L)
    (fun c => c.processes.map fun p => p.broker.outstandingRequests.lookup 0)
    [some ⟨0, [7], none, 2⟩, none] (by decide)
  exact ⟨_, c, hex, hc, (dispatch_returns_iff hex).1.2 ⟨by decide, by decide⟩⟩

/-- Node 2 crashes with a request in flight, and node 3 is launched at its address: the request
terminates node 3, though nothing outside throws. -/
theorem delivery_terminates_restarted_node : ∃ tr c, Cluster.exposedMachine.Exec tr c ∧
    Machine.Meets OutsideReturns tr ∧
    c.processes.map (fun p => (p.broker.thisNodeId, p.status)) = [(1, .running), (2, .crashed),
      (3, .terminated .notAddressedToThisNode)] ∧ ¬ Machine.Meets DispatchReturns tr := by
  let L : List ClusterAction := discovery ++ [.process 0 (.sendRequest 2 [5]), .crash 1,
    .launch 3 (clusterConfigOf "tcp://b" "") 0, .deliver 0 2]
  obtain ⟨c, hex, hc⟩ := Machine.exists_exec_of_replay (M := Cluster.exposedMachine) rfl (exposed L)
    (fun c => c.processes.map fun p => (p.broker.thisNodeId, p.status))
    [(1, .running), (2, .crashed), (3, .terminated .notAddressedToThisNode)] (by decide)
  refine ⟨_, c, hex, by decide, hc, fun hreturns => ?_⟩
  have hparty : Machine.Meets (OnStep DeliveredToParty)
      (Cluster.exposedMachine.replayTrace Cluster.initial (exposed L)) :=
    fun p hp => ((dispatchReturns_iff_of_mem hex hp).1 (hreturns p hp)).1
  exact absurd hparty (by decide)

/-- A node that listens at every interface gossips its address, to which nobody can connect: this
terminates its contact node. -/
theorem gossip_terminates_contact_node : ∃ tr c, Cluster.exposedMachine.Exec tr c ∧
    Machine.Meets (OnStep FreshAddress) tr ∧
    c.processes.map (fun p => (p.broker.thisNodeId, p.status))
      = [(1, .running), (2, .terminated (.outside "Invalid argument"))] ∧
    ¬ Machine.Meets DispatchReturns tr := by
  let L : List ClusterAction :=
    [.launch 1 (clusterConfigOf "tcp://*:5302" "tcp://b") 0,
      .launch 2 (clusterConfigOf "tcp://b" "") 0, .process 0 (.broadcastGossip 0 []), .deliver 0 1]
  obtain ⟨c, hex, hc⟩ := Machine.exists_exec_of_replay (M := Cluster.exposedMachine) rfl (exposed L)
    (fun c => c.processes.map fun p => (p.broker.thisNodeId, p.status))
    [(1, .running), (2, .terminated (.outside "Invalid argument"))] (by decide)
  refine ⟨_, c, hex, by decide, hc, fun hreturns => ?_⟩
  have houtside : Machine.Meets OutsideReturns
      (Cluster.exposedMachine.replayTrace Cluster.initial (exposed L)) :=
    fun p hp => ((dispatchReturns_iff_of_mem hex hp).1 (hreturns p hp)).2
  exact absurd houtside (by decide)

end ExActor
