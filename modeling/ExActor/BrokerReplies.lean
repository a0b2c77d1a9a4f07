/-
**Replies are sent or wait for their requester.**

The reply to a request is made when the request handler has answered, which may be long after the
request arrived.  If the requester has a socket then, the reply is sent; otherwise it is deferred
under the id of the requester, survives the loss of nodes, and is sent when the requester is
discovered.  `SendReply` may defer again what `OnNodeAlive` takes out of the deferred replies, but
the new socket is there before the loop starts, so it does not.

For each requester the replies that were completed are, in this order, those that were sent followed
by those that wait; and replies wait only for nodes without a socket.

Main definitions:

* `repliesTo`, `Broker.waitingFor` — the replies sent to a node, and those that wait for it;
* `Process.completed`, `Process.sent` — the replies that a run completed, and all it has sent;
* `Broker.Deferring` — replies wait under the id of their requester, which has no socket.

Main results:

* `Broker.Change.replies` — **what one change does to the replies for a node**;
* `replies_sent_or_deferred` — **replies are neither lost, duplicated nor stranded**.
-/

import ExActor.BrokerMembership

set_option relaxedAutoImplicit false
set_option autoImplicit false

namespace ExActor

/-! ### Replies that were sent and replies that wait -/

/-- The reply that the message is, when the node sends it. -/
def Sent.reply (thisNodeId : NodeId) (s : Sent) : Option ReplyOperation :=
  match s.msg with
  | .gossip _ => none
  | .twoWay msg =>
      if msg.responseNodeId = thisNodeId then some ⟨msg.requestNodeId, msg.requestId, msg.payload⟩
      else none

/-- The replies to the requester, in their order. -/
def forNode (nodeId : NodeId) (replies : List ReplyOperation) : List ReplyOperation :=
  replies.filter fun reply => reply.requestNodeId = nodeId

/-- The replies to the requester among what the node has sent. -/
def repliesTo (thisNodeId nodeId : NodeId) (sent : List Sent) : List ReplyOperation :=
  forNode nodeId (sent.filterMap (Sent.reply thisNodeId))

@[simp] theorem forNode_nil (nodeId : NodeId) : forNode nodeId [] = [] := rfl

@[simp] theorem forNode_append (nodeId : NodeId) (replies replies' : List ReplyOperation) :
    forNode nodeId (replies ++ replies') = forNode nodeId replies ++ forNode nodeId replies' := by
  simp [forNode]

@[simp] theorem repliesTo_nil (thisNodeId nodeId : NodeId) : repliesTo thisNodeId nodeId [] = [] :=
  rfl

@[simp] theorem repliesTo_append (thisNodeId nodeId : NodeId) (sent sent' : List Sent) :
    repliesTo thisNodeId nodeId (sent ++ sent')
      = repliesTo thisNodeId nodeId sent ++ repliesTo thisNodeId nodeId sent' := by
  simp [repliesTo]

theorem forNode_of_forall {nodeId : NodeId} {replies : List ReplyOperation}
    (h : ∀ reply ∈ replies, reply.requestNodeId = nodeId) : forNode nodeId replies = replies :=
  List.filter_eq_self.2 fun reply hmem => by simpa using h reply hmem

theorem forNode_of_ne {nodeId : NodeId} {replies : List ReplyOperation}
    (h : ∀ reply ∈ replies, reply.requestNodeId ≠ nodeId) : forNode nodeId replies = [] :=
  List.filter_eq_nil_iff.2 fun reply hmem => by simpa using h reply hmem

/-- The messages that carry replies to a node are these replies. -/
theorem filterMap_reply (socket : String) {thisNodeId nodeId : NodeId}
    {replies : List ReplyOperation} (h : ∀ reply ∈ replies, reply.requestNodeId = nodeId) :
    (replies.map fun reply =>
      (⟨socket, .twoWay ⟨nodeId, thisNodeId, reply.requestId, reply.data⟩⟩ : Sent)).filterMap
        (Sent.reply thisNodeId) = replies := by
  induction replies with
  | nil => rfl
  | cons reply replies ih =>
      obtain ⟨id, requestId, data⟩ := reply
      obtain rfl : id = nodeId := h _ List.mem_cons_self
      rw [List.map_cons, List.filterMap_cons, ih fun r hr => h r (List.mem_cons_of_mem _ hr)]
      simp [Sent.reply]

/-- What is not a reply of the node does not count. -/
theorem repliesTo_of_ne {thisNodeId nodeId toNodeId : NodeId} (h : toNodeId ≠ thisNodeId)
    (socket : String) (requestId : RequestId) (data : ByteBuffer) :
    repliesTo thisNodeId nodeId [⟨socket, .twoWay ⟨thisNodeId, toNodeId, requestId, data⟩⟩]
      = [] := by
  simp [repliesTo, Sent.reply, h]

namespace Broker

variable {b b' : Broker} {done : List ReplyOperation} {sent : List Sent}

/-- The replies that wait for a node. -/
def waitingFor (b : Broker) (nodeId : NodeId) : List ReplyOperation :=
  (b.deferredReplies.lookup nodeId).getD []

/-! ### What a change does to the replies -/

/-- Replies wait under the id of their requester, which has no socket. -/
structure Deferring (b : Broker) : Prop where
  connected : b.Connected
  requesters : ∀ nodeId, ∀ reply ∈ b.waitingFor nodeId, reply.requestNodeId = nodeId
  unconnected : ∀ nodeId ∈ b.nodeIdToSendSocket, b.deferredReplies.lookup nodeId = none

theorem deferring_construct {nodeId : NodeId} {config : ClusterConfig} {now : TimeMs}
    (h : construct nodeId config now = .ok b) : b.Deferring := by
  have hdeferred := (construct_pending h).2.1
  refine ⟨connected_construct h, fun id reply hmem => ?_, fun id _ => ?_⟩
  · simp [waitingFor, hdeferred] at hmem
  · simp [hdeferred]

theorem Deferring.waitingFor_eq_nil (h : b.Deferring) {nodeId : NodeId}
    (hmem : nodeId ∈ b.nodeIdToSendSocket) : b.waitingFor nodeId = [] := by
  rw [waitingFor, h.unconnected nodeId hmem, Option.getD_none]

/-- The discovery of a node sends the replies that wait for it, and leaves the others. -/
theorem Deferring.discover (h : b.Deferring) (ns : NodeState) :
    (b.discover ns).broker.deferredReplies = b.deferredReplies.erase ns.nodeId ∧
      (b.discover ns).sent = (b.waitingFor ns.nodeId).map fun reply =>
        ⟨ns.address, .twoWay ⟨ns.nodeId, b.thisNodeId, reply.requestId, reply.data⟩⟩ := by
  have hwaiting : (b.deferredReplies.lookup ns.nodeId).getD [] = b.waitingFor ns.nodeId := rfl
  rw [discover_eq]
  dsimp only
  rw [hwaiting, sendReplies_of_socket (AList.lookup_insert _) (h.requesters ns.nodeId)]
  exact ⟨rfl, rfl⟩

/-- **What one change does to the replies for a node**: those that waited and those that were
completed are sent, or wait. -/
theorem Change.replies (hchange : Change b done sent b') (h : b.Deferring) (nodeId : NodeId) :
    b.waitingFor nodeId ++ forNode nodeId done
      = repliesTo b.thisNodeId nodeId sent ++ b'.waitingFor nodeId := by
  cases hchange with
  | discovered ns hnew =>
      obtain ⟨hdeferred, hsent⟩ := h.discover ns
      have hafter : (b.discover ns).broker.waitingFor nodeId
          = ((b.deferredReplies.erase ns.nodeId).lookup nodeId).getD [] := by
        rw [waitingFor, hdeferred]
      rw [forNode_nil, List.append_nil, repliesTo, hsent,
        filterMap_reply ns.address (h.requesters ns.nodeId), hafter]
      by_cases hid : nodeId = ns.nodeId
      · subst hid
        rw [AList.lookup_erase, Option.getD_none, List.append_nil,
          forNode_of_forall (h.requesters ns.nodeId)]
      · rw [AList.lookup_erase_ne hid, forNode_of_ne, List.nil_append]
        · rfl
        · intro reply hmem
          rw [h.requesters ns.nodeId reply hmem]
          exact fun heq => hid heq.symm
  | notInserted toNodeId data socket hself | requested toNodeId data socket hself =>
      rw [repliesTo_of_ne hself, List.nil_append, forNode_nil, List.append_nil]
      rfl
  | deferred reply hnone =>
      by_cases hid : nodeId = reply.requestNodeId
      · subst hid
        rw [forNode_of_forall (by simp), repliesTo_nil, List.nil_append]
        simp [waitingFor]
      · rw [forNode_of_ne (by simpa using fun heq => hid heq.symm), repliesTo_nil, List.append_nil,
          List.nil_append]
        simp only [waitingFor]
        rw [AList.lookup_insert_ne hid]
  | replied reply socket hsocket =>
      have hreply : repliesTo b.thisNodeId nodeId
          [⟨socket, .twoWay ⟨reply.requestNodeId, b.thisNodeId, reply.requestId, reply.data⟩⟩]
            = forNode nodeId [reply] := by simp [repliesTo, Sent.reply]
      rw [hreply]
      by_cases hid : nodeId = reply.requestNodeId
      · subst hid
        rw [h.waitingFor_eq_nil (UnorderedMap.mem_of_lookup hsocket)]
        simp
      · rw [forNode_of_ne (by simpa using fun heq => hid heq.symm), List.append_nil,
          List.nil_append]
  | _ => exact List.append_nil _

/-- **Every change keeps the replies deferred for nodes without a socket.** -/
theorem Deferring.change (hchange : Change b done sent b') (h : b.Deferring) : b'.Deferring := by
  have hconnected := h.connected.change hchange
  cases hchange with
  | discovered ns hnew =>
      obtain ⟨hdeferred, -⟩ := h.discover ns
      refine ⟨hconnected, fun id reply hmem => ?_, fun id hmem => ?_⟩
      · rw [waitingFor, hdeferred] at hmem
        by_cases hid : id = ns.nodeId
        · subst hid
          simp at hmem
        · rw [AList.lookup_erase_ne hid] at hmem
          exact h.requesters id reply hmem
      · rw [hdeferred]
        by_cases hid : id = ns.nodeId
        · subst hid
          exact AList.lookup_erase _ _
        · rw [AList.lookup_erase_ne hid]
          obtain ⟨deferred, heq⟩ := discover_broker_eq b ns
          rw [heq] at hmem
          exact h.unconnected id (((AList.mem_insert _).1 hmem).resolve_left hid)
  | lost nodeId hother =>
      exact ⟨hconnected, h.requesters, fun id hmem => h.unconnected id (AList.mem_erase.1 hmem).2⟩
  | deferred reply hnone =>
      refine ⟨hconnected, fun id r hmem => ?_, fun id hmem => ?_⟩
      · by_cases hid : id = reply.requestNodeId
        · subst hid
          have hmem : r ∈ b.waitingFor reply.requestNodeId ++ [reply] := by
            simpa [waitingFor] using hmem
          rcases List.mem_append.1 hmem with hmem | hmem
          · exact h.requesters _ r hmem
          · rw [List.mem_singleton.1 hmem]
        · simp only [waitingFor] at hmem
          rw [AList.lookup_insert_ne hid] at hmem
          exact h.requesters id r hmem
      · have hid : id ≠ reply.requestNodeId := by
          rintro rfl
          exact AList.lookup_eq_none.1 hnone hmem
        dsimp only
        rw [AList.lookup_insert_ne hid]
        exact h.unconnected id hmem
  | _ => exact ⟨hconnected, h.requesters, h.unconnected⟩

/-! ### Where replies are sent -/

/-- Every reply goes to the socket of its requester. -/
def Addressed (b : Broker) (sent : List Sent) : Prop :=
  ∀ s ∈ sent, ∀ reply, s.reply b.thisNodeId = some reply →
    b.nodeIdToSendSocket.lookup reply.requestNodeId = some s.address

theorem addressed_of_forall_none (h : ∀ s ∈ sent, s.reply b.thisNodeId = none) :
    b.Addressed sent := by
  intro s hs reply hreply
  rw [h s hs] at hreply
  simp at hreply

theorem Deferring.addressed_discover (h : b.Deferring) (ns : NodeState) :
    (b.discover ns).broker.Addressed (b.discover ns).sent := by
  obtain ⟨-, hsent⟩ := h.discover ns
  obtain ⟨deferred, heq⟩ := discover_broker_eq b ns
  intro s hs reply hreply
  rw [heq] at hreply ⊢
  rw [hsent] at hs
  obtain ⟨waiting, -, rfl⟩ := List.mem_map.1 hs
  obtain rfl : ⟨ns.nodeId, waiting.requestId, waiting.data⟩ = reply := by
    simpa [Sent.reply] using hreply
  exact AList.lookup_insert _

/-- Gossip takes no socket away. -/
theorem Connected.lookup_handleNodeState (h : b.Connected) (ns : NodeState) {nodeId : NodeId}
    {socket : String} (hsocket : b.nodeIdToSendSocket.lookup nodeId = some socket) :
    (b.handleNodeState ns).broker.nodeIdToSendSocket.lookup nodeId = some socket := by
  unfold handleNodeState
  split
  · next hnew =>
      -- the new node is another one, since this one has a socket
      have hne : nodeId ≠ ns.nodeId := by
        rintro rfl
        have hmem := ((h.sockets _).1 (UnorderedMap.mem_of_lookup hsocket)).1
        exact AList.lookup_eq_none.1 hnew hmem
      obtain ⟨deferred, heq⟩ := discover_broker_eq b ns
      have hkept : (b.discover ns).broker.nodeIdToSendSocket.lookup nodeId = some socket := by
        rw [heq]
        dsimp only
        rw [AList.lookup_insert_ne hne]
        exact hsocket
      exact hkept
  · split
    · exact hsocket
    · split <;> exact hsocket

theorem Connected.lookup_handleNodeStates (h : b.Connected) (nss : List NodeState)
    {nodeId : NodeId} {socket : String}
    (hsocket : b.nodeIdToSendSocket.lookup nodeId = some socket) :
    (b.handleNodeStates nss).broker.nodeIdToSendSocket.lookup nodeId = some socket := by
  induction nss generalizing b with
  | nil => exact hsocket
  | cons ns nss ih =>
      have hfirst := h.lookup_handleNodeState ns hsocket
      have hconnected := (changes_handleNodeState b ns).invariant
        (fun _ _ _ _ hchange hI => Connected.change hchange hI) h
      unfold handleNodeStates
      dsimp only
      split
      · exact hfirst
      · exact ih hconnected hfirst

theorem Deferring.addressed_handleNodeState (h : b.Deferring) (ns : NodeState) :
    (b.handleNodeState ns).broker.Addressed (b.handleNodeState ns).sent := by
  unfold handleNodeState
  split
  · exact h.addressed_discover ns
  · split
    · exact addressed_of_forall_none (by simp)
    · split <;> exact addressed_of_forall_none (List.forall_mem_nil _)

/-- **The deferred replies go to the sockets of their requesters.** -/
theorem Deferring.addressed_handleNodeStates (h : b.Deferring) (nss : List NodeState) :
    (b.handleNodeStates nss).broker.Addressed (b.handleNodeStates nss).sent := by
  induction nss generalizing b with
  | nil => exact addressed_of_forall_none (by simp [handleNodeStates])
  | cons ns nss ih =>
      have hfirst := h.addressed_handleNodeState ns
      have hchanges := changes_handleNodeState b ns
      have hdeferring := hchanges.invariant
        (fun _ _ _ _ hchange hI => Deferring.change hchange hI) h
      have hrest := ih hdeferring
      unfold handleNodeStates
      dsimp only
      split
      · exact hfirst
      · intro s hs reply hreply
        rcases List.mem_append.1 hs with hs | hs
        · rw [(changes_handleNodeStates _ nss).thisNodeId] at hreply
          exact hdeferring.connected.lookup_handleNodeStates nss (hfirst s hs reply hreply)
        · exact hrest s hs reply hreply

/-- A broadcast sends nothing but gossip. -/
theorem gossip_of_mem_sendGossip {msg : BrokerGossipMessage} {nodeIds : List NodeId} {s : Sent}
    (h : s ∈ (b.sendGossip (.gossip msg) nodeIds).sent) : ∃ msg, s.msg = .gossip msg := by
  induction nodeIds with
  | nil => simp [sendGossip] at h
  | cons id nodeIds ih =>
      unfold sendGossip at h
      split at h
      · rcases List.mem_cons.1 h with rfl | h
        · exact ⟨msg, rfl⟩
        · exact ih h
      · simp at h

theorem gossip_of_mem_broadcastGossip {now : TimeMs} {nodeIds : List NodeId} {s : Sent}
    (h : s ∈ (b.broadcastGossip now nodeIds).sent) : ∃ msg, s.msg = .gossip msg := by
  unfold broadcastGossip at h
  split at h
  · simp at h
  · dsimp only at h
    split at h
    · simp at h
    · split at h
      · exact gossip_of_mem_sendGossip h
      · split at h
        · exact gossip_of_mem_sendGossip h
        · rcases List.mem_append.1 h with h | h
          · exact gossip_of_mem_sendGossip h
          · simp only [Option.mem_toList, Option.map_eq_some_iff] at h
            obtain ⟨socket, -, rfl⟩ := h
            exact ⟨_, rfl⟩

theorem addressed_sendRequest (b : Broker) (toNodeId : NodeId) (data : ByteBuffer) :
    (b.sendRequest toNodeId data).broker.Addressed (b.sendRequest toNodeId data).sent := by
  rcases sendRequest_cases b toNodeId data with ⟨-, heq⟩ | ⟨-, -, heq⟩ | ⟨_, hother, -, -, heq⟩ |
    ⟨_, hother, -, -, heq⟩
  · rw [heq]
    exact addressed_of_forall_none (List.forall_mem_nil _)
  · rw [heq]
    exact addressed_of_forall_none (List.forall_mem_nil _)
  · rw [heq]
    exact addressed_of_forall_none (by simp [Sent.reply, hother])
  · rw [heq]
    exact addressed_of_forall_none (by simp [Sent.reply, hother])

theorem addressed_sendReply (b : Broker) (reply : ReplyOperation) :
    (b.sendReply reply).1.Addressed (b.sendReply reply).2 := by
  unfold sendReply
  split
  · exact addressed_of_forall_none (by simp)
  · next socket hsocket =>
      intro s hs r hr
      obtain rfl := List.mem_singleton.1 hs
      obtain rfl : reply = r := by simpa [Sent.reply] using hr
      exact hsocket

end Broker

/-! ### Runs -/

namespace Process

/-- The replies that a run completed. -/
def completed (tr : List (Process × BrokerAction)) : List ReplyOperation :=
  tr.flatMap fun s => s.1.completions s.2

/-- All that a run has sent. -/
def sent (tr : List (Process × BrokerAction)) : List Sent := tr.flatMap fun s => s.1.sends s.2

variable {tr : List (Process × BrokerAction)} {p p' : Process} {a : BrokerAction}

theorem deferring_of_exec (h : machine.Exec tr p) : p.broker.Deferring :=
  invariant (fun _ _ _ _ hb => Broker.deferring_construct hb)
    (fun _ _ _ _ hchange hI => hI.change hchange) h

/-- What a sequence of changes does to the replies for a node. -/
theorem replies_of_changes {b b' : Broker} {done : List ReplyOperation} {sent : List Sent}
    (hchanges : Broker.Changes b done sent b') (h : b.Deferring) (nodeId : NodeId) :
    b'.Deferring ∧ b.waitingFor nodeId ++ forNode nodeId done
      = repliesTo b.thisNodeId nodeId sent ++ b'.waitingFor nodeId := by
  induction hchanges with
  | refl => exact ⟨h, List.append_nil _⟩
  | tail hchanges hchange ih =>
      obtain ⟨hmid, heq⟩ := ih
      have hlast := hchange.replies hmid nodeId
      rw [hchanges.thisNodeId] at hlast
      refine ⟨hmid.change hchange, ?_⟩
      rw [forNode_append, repliesTo_append, ← List.append_assoc, heq, List.append_assoc, hlast,
        List.append_assoc]

/-- **Every reply goes to the socket of its requester.** -/
theorem addressed_of_react (h : p.broker.Deferring) {sent : List Sent}
    (ha : p.react a = some (p', sent)) : p'.broker.Addressed sent := by
  cases reaction_of_react ha with
  | gossiped msg status => exact h.addressed_handleNodeStates msg.nodeStates
  | requested toNodeId data => exact Broker.addressed_sendRequest p.broker toNodeId data
  | answered n data msg hmsg => exact Broker.addressed_sendReply p.broker _
  | broadcast now nodeIds status =>
      refine Broker.addressed_of_forall_none fun s hs => ?_
      obtain ⟨m, hgossip⟩ := Broker.gossip_of_mem_broadcastGossip hs
      rw [Sent.reply, hgossip]
  | _ => exact Broker.addressed_of_forall_none (List.forall_mem_nil _)

/-- A step that completes a reply connects no node. -/
theorem nodeIdToSendSocket_of_completions {sent : List Sent} (ha : p.react a = some (p', sent))
    (hdone : p.completions a ≠ []) :
    p'.broker.nodeIdToSendSocket = p.broker.nodeIdToSendSocket := by
  unfold completions at hdone
  split at hdone
  · obtain ⟨msg, -, ha⟩ := Option.map_eq_some_iff.1 ha
    obtain ⟨rfl, rfl⟩ := Prod.mk.inj ha
    obtain ⟨deferred, heq⟩ := Broker.sendReply_eq p.broker ⟨msg.requestNodeId, msg.requestId, _⟩
    change (p.broker.sendReply ⟨msg.requestNodeId, msg.requestId, _⟩).1.nodeIdToSendSocket = _
    rw [heq]
  · simp at hdone

/-- The run lemma: what was completed for a node was sent or waits, in this order. -/
theorem completed_eq_of_exec (h : machine.Exec tr p) (nodeId : NodeId) :
    forNode nodeId (completed tr)
      = repliesTo p.broker.thisNodeId nodeId (sent tr) ++ p.broker.waitingFor nodeId := by
  induction h with
  | init h0 =>
      obtain ⟨id, config, now, b, hb, rfl⟩ := h0
      simp [completed, sent, Broker.waitingFor, (Broker.construct_pending hb).2.1]
  | @step tr p p' a hex hn ih =>
      have hchanges := changes_of_react (next_eq_some hn)
      obtain ⟨-, hstep⟩ := replies_of_changes hchanges (deferring_of_exec hex) nodeId
      have hdone : completed (tr ++ [(p, a)]) = completed tr ++ p.completions a := by
        simp [completed]
      have hsent : sent (tr ++ [(p, a)]) = sent tr ++ p.sends a := by simp [sent]
      rw [hdone, hsent, forNode_append, ih, List.append_assoc, hstep, hchanges.thisNodeId,
        repliesTo_append, List.append_assoc]

end Process

/-- **Replies are neither lost, duplicated nor stranded.**  In every reachable state no reply waits
for a node that has a socket.  The replies that the run completed for a node are those that it has
sent to it followed by those that wait for it, in the order of completion.  Every reply was sent on
the socket of its requester, and the step that connects a node sends it the replies that waited. -/
theorem replies_sent_or_deferred {tr : List (Process × BrokerAction)} {p : Process}
    (h : Process.machine.Exec tr p) :
    (∀ nodeId ∈ p.broker.nodeIdToSendSocket, p.broker.deferredReplies.lookup nodeId = none) ∧
      (∀ nodeId, forNode nodeId (Process.completed tr)
        = repliesTo p.broker.thisNodeId nodeId (Process.sent tr) ++ p.broker.waitingFor nodeId) ∧
      ∀ q a q', (q, a) ∈ tr → Process.machine.next q a = some q' →
        q'.broker.Addressed (q.sends a) ∧
          ∀ nodeId ∈ q'.broker.nodeIdToSendSocket, nodeId ∉ q.broker.nodeIdToSendSocket →
            repliesTo q.broker.thisNodeId nodeId (q.sends a) = q.broker.waitingFor nodeId := by
  refine ⟨(Process.deferring_of_exec h).unconnected, Process.completed_eq_of_exec h,
    fun q a q' hmem hn => ?_⟩
  obtain ⟨tr₁, tr₂, rfl⟩ := List.append_of_mem hmem
  have hdeferring := Process.deferring_of_exec h.split.1
  have hreact := Process.next_eq_some hn
  refine ⟨Process.addressed_of_react hdeferring hreact, fun nodeId hconnected hnew => ?_⟩
  obtain ⟨hdeferring', hstep⟩ :=
    Process.replies_of_changes (Process.changes_of_react hreact) hdeferring nodeId
  rw [hdeferring'.waitingFor_eq_nil hconnected, List.append_nil] at hstep
  by_cases hdone : q.completions a = []
  · rw [← hstep, hdone, forNode_nil, List.append_nil]
  · rw [Process.nodeIdToSendSocket_of_completions hreact hdone] at hconnected
    exact absurd hconnected hnew

/-- Node 1 answers a request of node 2 before it is told of node 2, loses node 2, answers another
request, and is told of node 2 again. -/
theorem replies_sent_or_deferred_reconnected : ∃ tr p, Process.machine.Exec tr p ∧
    repliesTo p.broker.thisNodeId 2 (Process.sent tr) ++ p.broker.waitingFor 2
      = [⟨2, 0, [7]⟩, ⟨2, 1, [8]⟩] ∧ p.broker.deferredReplies.lookup 2 = none := by
  let L : List BrokerAction := [.start, .receive (.twoWay ⟨2, 1, 0, [5]⟩),
    .process (.resumeHandleIncomingRequest 0 [7]), .receive (gossipOfTwo 1),
    .receive (.twoWay ⟨2, 1, 1, [6]⟩), .process (.checkHeartbeatTimeout 20000),
    .process (.resumeHandleIncomingRequest 0 [8]), .receive (gossipOfTwo 20000)]
  obtain ⟨p, hex, hp⟩ := Machine.exists_exec_of_replay Process.init_first L
    (fun p => (p.broker.nodeIdToSendSocket.lookup 2,
      forNode 2 (Process.completed (Process.machine.replayTrace Process.first L))))
    (some "tcp://b", [⟨2, 0, [7]⟩, ⟨2, 1, [8]⟩]) (by decide)
  obtain ⟨hsocket, hdone⟩ := Prod.mk.inj hp
  obtain ⟨hnone, heq, -⟩ := replies_sent_or_deferred hex
  exact ⟨_, p, hex, (heq 2).symm.trans hdone, hnone 2 (UnorderedMap.mem_of_lookup hsocket)⟩

end ExActor
