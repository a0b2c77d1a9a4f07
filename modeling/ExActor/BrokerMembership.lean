/-
**Membership, sockets and outstanding requests.**

A broker keeps three maps that name other nodes: the table of the nodes that are alive, the send
sockets, and the requests that wait for a reply.  Gossip discovers nodes, a heartbeat check loses
them, `SendRequest` leaves a request, and any of them may throw half-way.  Whatever the order, a
node has a socket exactly if it is in the table and is not the node itself; and a request that was
not signalled waits for a node that has one.

Main definitions:

* `Broker.Connected` — the table and the sockets agree;
* `Broker.Watched` — every request that was not signalled waits for a node that has a socket.

Main results:

* `membership_and_sockets_agree` — **the table and the sockets agree**, and no `MapAt` throws;
* `no_request_waits_on_forgotten_node` — **a request that waits is failed when its node is lost**.
-/

import ExActor.BrokerStep

set_option relaxedAutoImplicit false
set_option autoImplicit false

namespace ExActor

namespace Broker

variable {b b' : Broker} {done : List ReplyOperation} {sent : List Sent}

/-! ### The table and the sockets -/

/-- The broker is in its own table, and the nodes with a socket are the others. -/
structure Connected (b : Broker) : Prop where
  self : b.thisNodeId ∈ b.nodeIdToState
  sockets : ∀ nodeId,
    nodeId ∈ b.nodeIdToSendSocket ↔ nodeId ∈ b.nodeIdToState ∧ nodeId ≠ b.thisNodeId

theorem connected_construct {nodeId : NodeId} {config : ClusterConfig} {now : TimeMs}
    (h : construct nodeId config now = .ok b) : b.Connected := by
  obtain ⟨hid, -, htable, hsockets⟩ := construct_eq_ok h
  refine ⟨?_, fun id => ?_⟩
  · rw [hid, htable]
    exact (AList.mem_insert _).2 (Or.inl rfl)
  · rw [hsockets, htable, hid, AList.mem_insert]
    simp

/-- **Every change keeps the agreement.** -/
theorem Connected.change (hchange : Change b done sent b') (h : b.Connected) : b'.Connected := by
  cases hchange with
  | refreshed nodeId cur t hcur =>
      -- the entry was there before
      have hmem : nodeId ∈ b.nodeIdToState := UnorderedMap.mem_of_lookup hcur
      have hkeys : ∀ id, id ∈ (b.refresh nodeId cur t).nodeIdToState ↔ id ∈ b.nodeIdToState := by
        intro id
        rw [refresh, AList.mem_insert]
        exact ⟨fun hid => hid.elim (fun heq => heq ▸ hmem) (fun hin => hin), Or.inr⟩
      refine ⟨(hkeys _).2 h.self, fun id => ?_⟩
      rw [hkeys]
      exact h.sockets id
  | discovered ns hnew =>
      have hother : ns.nodeId ≠ b.thisNodeId := by
        intro heq
        rw [heq] at hnew
        exact AList.lookup_eq_none.1 hnew h.self
      obtain ⟨deferred, heq⟩ := discover_broker_eq b ns
      rw [heq]
      refine ⟨(AList.mem_insert _).2 (Or.inr h.self), fun id => ?_⟩
      simp only [AList.mem_insert, h.sockets id]
      by_cases hid : id = ns.nodeId
      · subst hid
        simp [hother]
      · simp [hid]
  | lost nodeId hother =>
      refine ⟨AList.mem_erase.2 ⟨hother.symm, h.self⟩, fun id => ?_⟩
      have hsockets : id ∈ (b.onNodeConnectionLost nodeId).nodeIdToSendSocket ↔
          id ≠ nodeId ∧ id ∈ b.nodeIdToSendSocket := AList.mem_erase
      have htable : id ∈ (b.onNodeConnectionLost nodeId).nodeIdToState ↔
          id ≠ nodeId ∧ id ∈ b.nodeIdToState := AList.mem_erase
      rw [hsockets, htable, h.sockets id, and_assoc]
      rfl
  | _ => exact ⟨h.self, h.sockets⟩

/-- Gossip to nodes that have an entry and a socket is sent. -/
theorem sendGossip_ok {msg : BrokerMessage} {nodeIds : List NodeId}
    (h : ∀ nodeId ∈ nodeIds, nodeId ∈ b.nodeIdToState ∧ nodeId ∈ b.nodeIdToSendSocket) :
    (b.sendGossip msg nodeIds).result = .ok () := by
  induction nodeIds with
  | nil => rfl
  | cons nodeId nodeIds ih =>
      obtain ⟨hstate, hsocket⟩ := h nodeId List.mem_cons_self
      obtain ⟨state, hstate⟩ := UnorderedMap.exists_lookup hstate
      obtain ⟨socket, hsocket⟩ := UnorderedMap.exists_lookup hsocket
      rw [sendGossip, hstate, hsocket]
      exact ih fun id hid => h id (List.mem_cons_of_mem nodeId hid)

theorem mem_of_mem_peers {nodeId : NodeId} (h : nodeId ∈ b.peers) :
    nodeId ∈ b.nodeIdToState ∧ nodeId ≠ b.thisNodeId := by
  obtain ⟨hmem, hother⟩ := List.mem_filter.1 h
  exact ⟨hmem, by simpa using hother⟩

/-- `BroadcastGossip` does not throw, whichever peers are picked. -/
theorem Connected.broadcastGossip_ok (h : b.Connected) (now : TimeMs) {nodeIds : List NodeId}
    (hpick : b.mayPick nodeIds) (hfanout : b.clusterConfig.networkConfig.gossipFanout ≠ 0) :
    (b.broadcastGossip now nodeIds).result = .ok () := by
  obtain ⟨state, hstate⟩ := UnorderedMap.exists_lookup h.self
  have hrefreshed := h.change (Change.refreshed b.thisNodeId state now hstate)
  have hsend : ∀ msg,
      ((b.refresh b.thisNodeId state now).sendGossip msg nodeIds).result = .ok () := by
    intro msg
    refine sendGossip_ok fun nodeId hmem => ?_
    obtain ⟨hin, hother⟩ := mem_of_mem_peers (hpick.2.1 nodeId hmem)
    have hin' : nodeId ∈ (b.refresh b.thisNodeId state now).nodeIdToState :=
      (AList.mem_insert _).2 (Or.inr hin)
    exact ⟨hin', (hrefreshed.sockets nodeId).2 ⟨hin', hother⟩⟩
  unfold broadcastGossip
  rw [hstate]
  dsimp only
  rw [if_neg hfanout]
  split
  · next e he =>
      rw [refresh] at hsend
      simp [hsend] at he
  · split
    · rfl
    · dsimp only
      split <;> rfl

/-- `OnNodeAlive` finds the node: `HandleGossipMessage` has just inserted it. -/
theorem handleNodeState_ne_keyNotFound (b : Broker) (ns : NodeState) (nodeId : NodeId) :
    (b.handleNodeState ns).result ≠ .error (.keyNotFound nodeId) := by
  unfold handleNodeState
  split
  · rw [onNodeAlive_calm (AList.lookup_insert _)]
    simp
  · split
    · simp
    · split <;> simp

theorem handleNodeStates_ne_keyNotFound (b : Broker) (nss : List NodeState) (nodeId : NodeId) :
    (b.handleNodeStates nss).result ≠ .error (.keyNotFound nodeId) := by
  induction nss generalizing b with
  | nil => simp [handleNodeStates]
  | cons ns nss ih =>
      have hfirst := handleNodeState_ne_keyNotFound b ns nodeId
      unfold handleNodeStates
      dsimp only
      split
      · next e he => rwa [he] at hfirst
      · exact ih _

end Broker

theorem Process.connected_of_exec {tr : List (Process × BrokerAction)} {p : Process}
    (h : Process.machine.Exec tr p) : p.broker.Connected :=
  Process.invariant (fun _ _ _ _ hb => Broker.connected_construct hb)
    (fun _ _ _ _ hchange hI => hI.change hchange) h

/-- **Membership and sockets agree.**  In every reachable state the node itself is in the table and
the nodes with a socket are the other nodes of the table; so `BroadcastGossip` does not throw,
whichever peers are picked, and `OnNodeAlive` finds every node. -/
theorem membership_and_sockets_agree {tr : List (Process × BrokerAction)} {p : Process}
    (h : Process.machine.Exec tr p) :
    p.broker.thisNodeId ∈ p.broker.nodeIdToState ∧
      (∀ nodeId, nodeId ∈ p.broker.nodeIdToSendSocket ↔
        nodeId ∈ p.broker.nodeIdToState ∧ nodeId ≠ p.broker.thisNodeId) ∧
      (∀ now nodeIds, p.broker.mayPick nodeIds →
        p.broker.clusterConfig.networkConfig.gossipFanout ≠ 0 →
          (p.broker.broadcastGossip now nodeIds).result = .ok ()) ∧
      ∀ msg nodeId, (p.broker.handleGossipMessage msg).result ≠ .error (.keyNotFound nodeId) := by
  have hconnected := Process.connected_of_exec h
  refine ⟨hconnected.self, hconnected.sockets, fun now nodeIds hpick hfanout => ?_,
    fun msg nodeId => ?_⟩
  · exact hconnected.broadcastGossip_ok now hpick hfanout
  · exact Broker.handleNodeStates_ne_keyNotFound p.broker msg.nodeStates nodeId

/-- Node 1 is told of node 2, then of itself under a wrong address, which throws: it can still send
gossip to node 2. -/
theorem membership_and_sockets_agree_conflict : ∃ tr p, Process.machine.Exec tr p ∧
    p.status = .terminated (.conflictingAddress 1 "tcp://a" "tcp://c") ∧
    (p.broker.broadcastGossip 5 [2]).result = .ok () := by
  obtain ⟨p, hex, hp⟩ := Machine.exists_exec_of_replay Process.init_first
    [.receive (gossipOfTwo 1), .receive (.gossip ⟨2, [⟨3, 1, "tcp://c", ""⟩]⟩)]
    (fun p => (p.status, decide (p.broker.mayPick [2]),
      decide (p.broker.clusterConfig.networkConfig.gossipFanout ≠ 0)))
    (.terminated (.conflictingAddress 1 "tcp://a" "tcp://c"), true, true) (by decide)
  simp only [Prod.mk.injEq, decide_eq_true_eq] at hp
  exact ⟨_, p, hex, hp.1, (membership_and_sockets_agree hex).2.2.1 5 [2] hp.2.1 hp.2.2⟩

/-! ### Requests -/

/-- One signal drains the semaphore of a request. -/
theorem Semaphore.drained_acquire {sem : Semaphore} (h : sem ≤ 1) :
    (sem.acquire 1).drained = true := decide_eq_true (sub_nonpos.2 h)

theorem Semaphore.acquire_le {sem : Semaphore} (h : sem ≤ 1) : sem.acquire 1 ≤ 1 :=
  (sub_le_self sem zero_le_one).trans h

namespace Broker

variable {b b' : Broker} {done : List ReplyOperation} {sent : List Sent}

/-- Every request that was not signalled waits for a node that has a socket. -/
def Watched (b : Broker) : Prop :=
  ∀ requestId request, b.outstandingRequests.lookup requestId = some request →
    request.sem ≤ 1 ∧
      (request.sem.drained = false → request.responseNodeId ∈ b.nodeIdToSendSocket)

/-- **Every change keeps the requests watched.** -/
theorem Watched.change (hchange : Change b done sent b') (h : b.Watched) : b'.Watched := by
  intro requestId request hlookup
  cases hchange with
  | discovered ns hnew =>
      obtain ⟨deferred, heq⟩ := discover_broker_eq b ns
      rw [heq] at hlookup ⊢
      obtain ⟨hsem, hwatched⟩ := h requestId request hlookup
      exact ⟨hsem, fun hwaits => (AList.mem_insert _).2 (Or.inr (hwatched hwaits))⟩
  | lost nodeId hother =>
      have hmap : (b.onNodeConnectionLost nodeId).outstandingRequests.lookup requestId
          = (b.outstandingRequests.lookup requestId).map (failRequest nodeId) :=
        UnorderedMap.lookup_mapValues ..
      rw [hmap] at hlookup
      obtain ⟨old, hold, rfl⟩ := Option.map_eq_some_iff.1 hlookup
      obtain ⟨hsem, hwatched⟩ := h requestId old hold
      by_cases hnode : old.responseNodeId = nodeId
      · -- the request is signalled now
        rw [failRequest, if_pos hnode]
        refine ⟨Semaphore.acquire_le hsem, fun hwaits => ?_⟩
        rw [Semaphore.drained_acquire hsem] at hwaits
        simp at hwaits
      · rw [failRequest, if_neg hnode]
        exact ⟨hsem, fun hwaits => AList.mem_erase.2 ⟨hnode, hwatched hwaits⟩⟩
  | requested toNodeId data socket hself hsocket hfree =>
      by_cases hid : requestId = b.sendRequestIdCounter
      · subst hid
        obtain rfl := by simpa using hlookup
        exact ⟨le_refl _, fun _ => UnorderedMap.mem_of_lookup hsocket⟩
      · dsimp only at hlookup
        rw [AList.lookup_insert_ne hid] at hlookup
        exact h requestId request hlookup
  | answered id pending payload hpending =>
      by_cases hid : requestId = id
      · subst hid
        obtain rfl := by simpa using hlookup
        have hsem := (h requestId pending hpending).1
        refine ⟨Semaphore.acquire_le hsem, fun hwaits => ?_⟩
        rw [answer, Semaphore.drained_acquire hsem] at hwaits
        simp at hwaits
      · dsimp only at hlookup
        rw [AList.lookup_insert_ne hid] at hlookup
        exact h requestId request hlookup
  | requestResumed id old hold hdrained =>
      by_cases hid : requestId = id
      · subst hid
        simp at hlookup
      · dsimp only at hlookup
        rw [AList.lookup_erase_ne hid] at hlookup
        exact h requestId request hlookup
  | _ => exact h requestId request hlookup

theorem watched_construct {nodeId : NodeId} {config : ClusterConfig} {now : TimeMs}
    (h : construct nodeId config now = .ok b) : b.Watched := by
  intro requestId request hlookup
  rw [(construct_pending h).1] at hlookup
  simp at hlookup

/-- A request that throws leaves the outstanding requests as they are. -/
theorem outstandingRequests_of_sendRequest_error {toNodeId : NodeId} {data : ByteBuffer}
    {e : BrokerError} (h : (b.sendRequest toNodeId data).result = .error e) :
    (b.sendRequest toNodeId data).broker.outstandingRequests = b.outstandingRequests := by
  rcases sendRequest_cases b toNodeId data with ⟨-, heq⟩ | ⟨-, -, heq⟩ | ⟨_, -, -, -, heq⟩ |
    ⟨_, -, -, -, heq⟩
  · rw [heq]
  · rw [heq]
  · rw [heq]
  · simp [heq] at h

end Broker

theorem Process.watched_of_exec {tr : List (Process × BrokerAction)} {p : Process}
    (h : Process.machine.Exec tr p) : p.broker.Watched :=
  Process.invariant (fun _ _ _ _ hb => Broker.watched_construct hb)
    (fun _ _ _ _ hchange hI => hI.change hchange) h

/-- **No request waits on a forgotten node.**  In every reachable state, a request that was not
signalled waits for a node that is in the table and has a socket, and a heartbeat check that removes
this node fails it; and a request that throws because its node is not connected leaves the
outstanding requests as they are. -/
theorem no_request_waits_on_forgotten_node {tr : List (Process × BrokerAction)} {p : Process}
    (h : Process.machine.Exec tr p) :
    (∀ requestId request, p.broker.outstandingRequests.lookup requestId = some request →
      request.sem.drained = false →
        request.responseNodeId ∈ p.broker.nodeIdToState ∧
        request.responseNodeId ∈ p.broker.nodeIdToSendSocket ∧
        ∀ now, request.responseNodeId ∉ (p.broker.checkHeartbeatTimeout now).nodeIdToState →
          (p.broker.checkHeartbeatTimeout now).resumeSendRequest requestId
            = some ({ p.broker.checkHeartbeatTimeout now with
                outstandingRequests :=
                  (p.broker.checkHeartbeatTimeout now).outstandingRequests.erase requestId },
              .error (.nodeDead request.responseNodeId))) ∧
      ∀ toNodeId data thisNodeId remoteNodeId,
        (p.broker.sendRequest toNodeId data).result
          = .error (.unconnected thisNodeId remoteNodeId) →
          (p.broker.sendRequest toNodeId data).broker.outstandingRequests
            = p.broker.outstandingRequests := by
  have hwatched := Process.watched_of_exec h
  have hconnected := Process.connected_of_exec h
  refine ⟨fun requestId request hlookup hwaits => ?_, fun toNodeId data _ _ he => ?_⟩
  · obtain ⟨hsem, hsocket⟩ := hwatched requestId request hlookup
    have hmem := ((hconnected.sockets _).1 (hsocket hwaits)).1
    refine ⟨hmem, hsocket hwaits, fun now hlost => ?_⟩
    have hremoved : request.responseNodeId ∈ p.broker.nodesToRemove now := by
      by_contra hstays
      exact hlost (Broker.mem_nodeIdToState_lost.2 ⟨hmem, hstays⟩)
    rw [Broker.resumeSendRequest, Broker.lookup_checkHeartbeatTimeout, hlookup]
    simp [hremoved, Broker.failRequest, Semaphore.drained_acquire hsem]
  · exact Broker.outstandingRequests_of_sendRequest_error he

/-- Node 1 sends a request to node 2, which is never heard of again. -/
theorem no_request_waits_on_forgotten_node_silent : ∃ tr p, Process.machine.Exec tr p ∧
    ((p.broker.checkHeartbeatTimeout 20000).resumeSendRequest 0).map Prod.snd
      = some (.error (.nodeDead 2)) := by
  obtain ⟨p, hex, hp⟩ := Machine.exists_exec_of_replay Process.init_first
    [.receive (gossipOfTwo 1), .process (.sendRequest 2 [5])]
    (fun p => (p.broker.outstandingRequests.lookup 0,
      (p.broker.checkHeartbeatTimeout 20000).nodeIdToState.lookup 2))
    (some ⟨1, [], none, 2⟩, none) (by decide)
  obtain ⟨hrequest, hlost⟩ := Prod.mk.inj hp
  have hfailed := ((no_request_waits_on_forgotten_node hex).1 0 _ hrequest (by decide)).2.2 20000
    (AList.lookup_eq_none.1 hlost)
  exact ⟨_, p, hex, by rw [hfailed]; rfl⟩

end ExActor
