/-
**What the methods of a broker do to its state.**

A method of the broker is a sequence of elementary changes: gossip discovers some nodes and
refreshes others, a heartbeat check loses nodes one after the other, a broadcast refreshes the node
itself and sends.  `Broker.Change` lists the elementary changes, and every step of a broker is a
sequence of them; an invariant of the broker is therefore proved once for each change, and holds
between the rounds of a loop as well as at the end of a method.

A broker is run here by itself: it receives any messages at all, from nodes that need not exist, its
callers send requests and its handler answers in any order, the clock reads anything.  It goes on
after a message that threw.

Main definitions:

* `BrokerAction`, `Process.react`, `Process.machine` — a broker by itself;
* `Process.Reaction` — what it does, case by case;
* `Broker.Change`, `Broker.Changes` — the elementary changes, and sequences of them;
* `Process.completions`, `Process.sends` — the replies that the request handler completes, and what
  is sent.

Main results:

* `Process.reaction_of_react` — **every step is one of these cases**;
* `Process.changes_of_react` — **every step is a sequence of elementary changes**;
* `Process.invariant` — the invariant rule.
-/

import ExActor.Cluster

set_option relaxedAutoImplicit false
set_option autoImplicit false

namespace ExActor

/-! ### A broker by itself -/

/-- What makes a broker do something. -/
inductive BrokerAction
  | start
  | receive (msg : BrokerMessage)
  | process (act : ProcessAction)

/-- The process does something; nobody looks at its status. -/
def Process.react (p : Process) : BrokerAction → Option (Process × List Sent)
  | .start => some ({ p with broker := p.broker.start }, [])
  | .receive msg => some (p.receive msg)
  | .process act => p.step act

/-- All runs of a broker from its construction. -/
def Process.machine : Machine Process BrokerAction where
  init p := ∃ nodeId config now b, Broker.construct nodeId config now = .ok b ∧
    p = ⟨b, [], .running⟩
  next p a := (p.react a).map Prod.fst

/-- The replies that the action completes: the request handler has answered. -/
def Process.completions (p : Process) : BrokerAction → List ReplyOperation
  | .process (.resumeHandleIncomingRequest n data) =>
      ((p.handling[n]?).map fun msg => ⟨msg.requestNodeId, msg.requestId, data⟩).toList
  | _ => []

/-- What the action sends. -/
def Process.sends (p : Process) (a : BrokerAction) : List Sent := ((p.react a).map Prod.snd).getD []

theorem Process.next_eq_some {p p' : Process} {a : BrokerAction}
    (h : Process.machine.next p a = some p') : p.react a = some (p', p.sends a) := by
  obtain ⟨⟨q, sent⟩, hq, rfl⟩ := Option.map_eq_some_iff.1 h
  simp [Process.sends, hq]

/-- **What a broker does**, one case for each of its messages and for each way that a two-way
message is taken.  A gossip message or a broadcast that throws terminates the process after all. -/
inductive Process.Reaction (p : Process) : BrokerAction → Process → List Sent → Prop
  | started : Reaction p .start { p with broker := p.broker.start } []
  | gossiped (msg : BrokerGossipMessage) (status : ProcessStatus) :
      Reaction p (.receive (.gossip msg))
        { p with
          broker := (p.broker.handleGossipMessage msg).broker
          status := status }
        (p.broker.handleGossipMessage msg).sent
  | replied (msg : BrokerTwoWayMessage) : msg.requestNodeId = p.broker.thisNodeId →
      Reaction p (.receive (.twoWay msg))
        { p with broker := p.broker.handleRepliedResponse msg } []
  | handled (msg : BrokerTwoWayMessage) : msg.requestNodeId ≠ p.broker.thisNodeId →
      msg.responseNodeId = p.broker.thisNodeId → p.broker.requestHandler = true →
      Reaction p (.receive (.twoWay msg)) { p with handling := p.handling ++ [msg] } []
  | refused (msg : BrokerTwoWayMessage) (e : BrokerError) :
      msg.requestNodeId ≠ p.broker.thisNodeId →
      (p.broker.dispatchReceivedMessage (.twoWay msg)).result = .error e →
      Reaction p (.receive (.twoWay msg)) { p with status := .terminated e } []
  | requested (toNodeId : NodeId) (data : ByteBuffer) :
      Reaction p (.process (.sendRequest toNodeId data))
        { p with broker := (p.broker.sendRequest toNodeId data).broker }
        (p.broker.sendRequest toNodeId data).sent
  | requestResumed (requestId : RequestId) (request : OutstandingRequest) :
      p.broker.outstandingRequests.lookup requestId = some request →
      request.sem.drained = true →
      Reaction p (.process (.resumeSendRequest requestId))
        { p with broker := { p.broker with
          outstandingRequests := p.broker.outstandingRequests.erase requestId } } []
  | answered (n : ℕ) (data : ByteBuffer) (msg : BrokerTwoWayMessage) : p.handling[n]? = some msg →
      Reaction p (.process (.resumeHandleIncomingRequest n data))
        { p with
          broker := (p.broker.sendReply ⟨msg.requestNodeId, msg.requestId, data⟩).1
          handling := p.handling.eraseIdx n }
        (p.broker.sendReply ⟨msg.requestNodeId, msg.requestId, data⟩).2
  | broadcast (now : TimeMs) (nodeIds : List NodeId) (status : ProcessStatus) :
      Reaction p (.process (.broadcastGossip now nodeIds))
        { p with
          broker := (p.broker.broadcastGossip now nodeIds).broker
          status := status }
        (p.broker.broadcastGossip now nodeIds).sent
  | checked (now : TimeMs) :
      Reaction p (.process (.checkHeartbeatTimeout now))
        { p with broker := p.broker.checkHeartbeatTimeout now } []
  | waited (predicate : ClusterState → Bool) (timeoutMs now : TimeMs) :
      Reaction p (.process (.waitClusterState predicate timeoutMs now))
        { p with broker := (p.broker.waitClusterState predicate timeoutMs now).1 } []
  | waitResumed (i : ℕ) (waiter : ClusterStateWaiter) :
      p.broker.clusterStateWaiters[i]? = some waiter → waiter.sem.drained = true →
      Reaction p (.process (.resumeWaitClusterState i))
        { p with broker := { p.broker with
          clusterStateWaiters := p.broker.clusterStateWaiters.eraseIdx i } } []
  | expired (now : TimeMs) :
      Reaction p (.process (.checkClusterStateWaiterTimeout now))
        { p with broker := p.broker.checkClusterStateWaiterTimeout now } []

/-- A message that arrives is gossip, a reply, a request, or it is refused. -/
theorem Process.reaction_receive (p : Process) (msg : BrokerMessage) :
    p.Reaction (.receive msg) (p.receive msg).1 (p.receive msg).2 := by
  cases msg with
  | gossip msg =>
      unfold Process.receive Broker.dispatchReceivedMessage
      dsimp only
      cases (p.broker.handleGossipMessage msg).result with
      | ok _ =>
          simp only [Except.map, Option.toList_none, List.append_nil]
          exact .gossiped msg p.status
      | error e => exact .gossiped msg (.terminated e)
  | twoWay msg =>
      by_cases hthis : msg.requestNodeId = p.broker.thisNodeId
      · simp only [Process.receive, Broker.dispatchReceivedMessage, if_pos hthis,
          Option.toList_none, List.append_nil]
        exact .replied msg hthis
      · by_cases hother : msg.responseNodeId = p.broker.thisNodeId
        · cases hset : p.broker.requestHandler with
          | true =>
              simp only [Process.receive, Broker.dispatchReceivedMessage, if_neg hthis,
                if_pos hother, Broker.handleIncomingRequest, hset, if_true, Option.toList_some]
              exact .handled msg hthis hother hset
          | false =>
              have hresult : (p.broker.dispatchReceivedMessage (.twoWay msg))
                  = ⟨p.broker, [], .error .requestHandlerNotSet⟩ := by
                simp [Broker.dispatchReceivedMessage, hthis, hother, Broker.handleIncomingRequest,
                  hset]
              simp only [Process.receive, hresult]
              exact .refused msg _ hthis (by rw [hresult])
        · have hresult : (p.broker.dispatchReceivedMessage (.twoWay msg))
              = ⟨p.broker, [], .error .notAddressedToThisNode⟩ := by
            simp [Broker.dispatchReceivedMessage, hthis, hother]
          simp only [Process.receive, hresult]
          exact .refused msg _ hthis (by rw [hresult])

/-- **Every step is one of these.** -/
theorem Process.reaction_of_react {p p' : Process} {a : BrokerAction} {sent : List Sent}
    (h : p.react a = some (p', sent)) : p.Reaction a p' sent := by
  cases a with
  | start =>
      obtain ⟨rfl, rfl⟩ := Prod.mk.inj (Option.some.inj h)
      exact .started
  | receive msg =>
      have hreceive : p.receive msg = (p', sent) := Option.some.inj h
      have hreaction := p.reaction_receive msg
      rwa [hreceive] at hreaction
  | process act =>
      cases act with
      | sendRequest toNodeId data =>
          obtain ⟨rfl, rfl⟩ := Prod.mk.inj (Option.some.inj h)
          exact .requested toNodeId data
      | resumeSendRequest requestId =>
          obtain ⟨q, hq, h⟩ := Option.map_eq_some_iff.1 h
          obtain ⟨rfl, rfl⟩ := Prod.mk.inj h
          obtain ⟨request, hrequest, hq⟩ := Option.bind_eq_some_iff.1 hq
          split at hq
          · next hdrained =>
              obtain rfl := Option.some.inj hq
              exact .requestResumed requestId request hrequest hdrained
          · simp at hq
      | resumeHandleIncomingRequest n data =>
          obtain ⟨msg, hmsg, h⟩ := Option.map_eq_some_iff.1 h
          obtain ⟨rfl, rfl⟩ := Prod.mk.inj h
          exact .answered n data msg hmsg
      | broadcastGossip now nodeIds =>
          have h : p.step (.broadcastGossip now nodeIds) = some (p', sent) := h
          simp only [Process.step] at h
          split at h
          · unfold Process.afterTask at h
            split at h
            · obtain ⟨rfl, rfl⟩ := Prod.mk.inj (Option.some.inj h)
              exact .broadcast now nodeIds p.status
            · next e _ =>
                obtain ⟨rfl, rfl⟩ := Prod.mk.inj (Option.some.inj h)
                exact .broadcast now nodeIds (.terminated e)
          · simp at h
      | checkHeartbeatTimeout now =>
          obtain ⟨rfl, rfl⟩ := Prod.mk.inj (Option.some.inj h)
          exact .checked now
      | waitClusterState predicate timeoutMs now =>
          obtain ⟨rfl, rfl⟩ := Prod.mk.inj (Option.some.inj h)
          exact .waited predicate timeoutMs now
      | resumeWaitClusterState i =>
          obtain ⟨q, hq, h⟩ := Option.map_eq_some_iff.1 h
          obtain ⟨rfl, rfl⟩ := Prod.mk.inj h
          obtain ⟨waiter, hwaiter, hq⟩ := Option.bind_eq_some_iff.1 hq
          split at hq
          · next hdrained =>
              obtain rfl := Option.some.inj hq
              exact .waitResumed i waiter hwaiter hdrained
          · simp at hq
      | checkClusterStateWaiterTimeout now =>
          obtain ⟨rfl, rfl⟩ := Prod.mk.inj (Option.some.inj h)
          exact .expired now

/-! ### The methods, field by field -/

namespace Broker

/-- A new node enters the table. -/
def discover (b : Broker) (ns : NodeState) : BrokerResult Unit :=
  onNodeAlive { b with nodeIdToState := b.nodeIdToState.insert ns.nodeId ns } ns.nodeId

/-- The entry of a node gets another time stamp. -/
def refresh (b : Broker) (nodeId : NodeId) (cur : NodeState) (t : TimeMs) : Broker :=
  let state := { cur with lastSeenTimestampMs := t }
  { b with nodeIdToState := b.nodeIdToState.insert nodeId state }

/-- The later of two time stamps. -/
def latest (t t' : TimeMs) : TimeMs := if t < t' then t' else t

theorem toNat_latest (t t' : TimeMs) : (latest t t').toNat = max t.toNat t'.toNat := by
  unfold latest
  split
  · next hlt => rw [max_eq_right (le_of_lt (BitVec.lt_def.1 hlt))]
  · next hge => rw [max_eq_left (not_lt.1 fun hlt => hge (BitVec.lt_def.2 hlt))]

theorem le_latest_left (t t' : TimeMs) : t ≤ latest t t' := by
  rw [BitVec.le_def, toNat_latest]
  exact le_max_left _ _

theorem le_latest_right (t t' : TimeMs) : t' ≤ latest t t' := by
  rw [BitVec.le_def, toNat_latest]
  exact le_max_right _ _

theorem latest_eq_or (t t' : TimeMs) : latest t t' = t ∨ latest t t' = t' := by
  unfold latest
  split
  · exact Or.inr rfl
  · exact Or.inl rfl

/-- **What an entry of gossip does**: it enters the table, it gives the entry there the later of the
two time stamps, or it throws because the two disagree. -/
theorem handleNodeState_spec (b : Broker) (ns : NodeState) :
    (b.nodeIdToState.lookup ns.nodeId = none ∧ b.handleNodeState ns = b.discover ns) ∨
    (∃ cur, b.nodeIdToState.lookup ns.nodeId = some cur ∧
      b.handleNodeState ns = ⟨b.refresh ns.nodeId cur
        (latest cur.lastSeenTimestampMs ns.lastSeenTimestampMs), [], .ok ()⟩) ∨
    ∃ cur e, b.nodeIdToState.lookup ns.nodeId = some cur ∧
      ¬ (cur.address = ns.address ∧ cur.nodeName = ns.nodeName) ∧
      b.handleNodeState ns = ⟨b, [], .error e⟩ := by
  cases hlookup : b.nodeIdToState.lookup ns.nodeId with
  | none => exact Or.inl ⟨rfl, by rw [handleNodeState, hlookup, discover]⟩
  | some cur =>
      rw [handleNodeState, hlookup]
      dsimp only
      by_cases haddress : cur.address = ns.address
      · by_cases hname : cur.nodeName = ns.nodeName
        · rw [if_neg (not_not.2 haddress), if_neg (not_not.2 hname)]
          exact Or.inr (Or.inl ⟨cur, rfl, rfl⟩)
        · rw [if_neg (not_not.2 haddress), if_pos hname]
          exact Or.inr (Or.inr ⟨cur, _, rfl, fun h => hname h.2, rfl⟩)
      · rw [if_pos haddress]
        exact Or.inr (Or.inr ⟨cur, _, rfl, fun h => haddress h.1, rfl⟩)

/-- What `HandleRepliedResponse` does to a request. -/
def answer (payload : ByteBuffer) (pending : OutstandingRequest) : OutstandingRequest :=
  { pending with responseBytes := payload, sem := pending.sem.acquire 1 }

/-- What `EvaluateClusterStateWaiters` does to a waiter. -/
def evaluate (state : ClusterState) (waiter : ClusterStateWaiter) : ClusterStateWaiter :=
  if !waiter.conditionMet && waiter.predicate state then
    { waiter with conditionMet := true, sem := waiter.sem.acquire 1 }
  else waiter

/-- A reply touches only the deferred replies. -/
theorem sendReply_eq (b : Broker) (reply : ReplyOperation) :
    ∃ deferred, (b.sendReply reply).1 = { b with deferredReplies := deferred } := by
  unfold sendReply
  split
  · exact ⟨_, rfl⟩
  · exact ⟨b.deferredReplies, rfl⟩

theorem sendReplies_eq (b : Broker) (replies : List ReplyOperation) :
    ∃ deferred, (b.sendReplies replies).1 = { b with deferredReplies := deferred } := by
  induction replies generalizing b with
  | nil => exact ⟨b.deferredReplies, rfl⟩
  | cons reply replies ih =>
      obtain ⟨deferred, hfirst⟩ := sendReply_eq b reply
      obtain ⟨deferred', hrest⟩ := ih (b.sendReply reply).1
      refine ⟨deferred', ?_⟩
      rw [sendReplies]
      dsimp only
      rw [hrest, hfirst]

/-- To a node that has a socket, replies are sent in their order. -/
theorem sendReplies_of_socket {b : Broker} {nodeId : NodeId} {socket : String}
    (hsocket : b.nodeIdToSendSocket.lookup nodeId = some socket) {replies : List ReplyOperation}
    (hreplies : ∀ reply ∈ replies, reply.requestNodeId = nodeId) :
    b.sendReplies replies = (b, replies.map fun reply =>
      ⟨socket, .twoWay ⟨nodeId, b.thisNodeId, reply.requestId, reply.data⟩⟩) := by
  induction replies with
  | nil => rfl
  | cons reply replies ih =>
      have hid := hreplies reply List.mem_cons_self
      have hrest := ih fun r hr => hreplies r (List.mem_cons_of_mem reply hr)
      have hreply : b.sendReply reply
          = (b, [⟨socket, .twoWay ⟨nodeId, b.thisNodeId, reply.requestId, reply.data⟩⟩]) := by
        rw [sendReply, hid, hsocket]
      rw [sendReplies, hreply]
      dsimp only
      rw [hrest]
      rfl

/-- What the discovery of a node does: it gets a socket, the waiters are evaluated on the new table,
and the deferred replies are sent. -/
theorem discover_eq (b : Broker) (ns : NodeState) :
    let table := b.nodeIdToState.insert ns.nodeId ns
    let b₁ : Broker := { b with
      nodeIdToState := table
      contactNodeDiscovered := b.contactNodeDiscovered ||
        ns.address == b.clusterConfig.contactNodeAddress
      nodeIdToSendSocket := b.nodeIdToSendSocket.insert ns.nodeId ns.address }
    let b₂ : Broker := { b₁ with
      clusterStateWaiters := b.clusterStateWaiters.map (evaluate ⟨b₁.buildAliveNodeInfoList⟩)
      deferredReplies := b.deferredReplies.erase ns.nodeId }
    let p := b₂.sendReplies ((b.deferredReplies.lookup ns.nodeId).getD [])
    b.discover ns = ⟨p.1, p.2, .ok ()⟩ := by
  intro table b₁ b₂ p
  exact onNodeAlive_calm (AList.lookup_insert _)

/-- Of the discovery, only what becomes of the deferred replies is left open. -/
theorem discover_broker_eq (b : Broker) (ns : NodeState) :
    let table := b.nodeIdToState.insert ns.nodeId ns
    ∃ deferred, (b.discover ns).broker = { b with
      nodeIdToState := table
      contactNodeDiscovered := b.contactNodeDiscovered ||
        ns.address == b.clusterConfig.contactNodeAddress
      nodeIdToSendSocket := b.nodeIdToSendSocket.insert ns.nodeId ns.address
      clusterStateWaiters := b.clusterStateWaiters.map
        (evaluate ⟨buildAliveNodeInfoList { b with nodeIdToState := table }⟩)
      deferredReplies := deferred } := by
  intro table
  rw [discover_eq]
  exact sendReplies_eq ..

/-! ### The elementary changes -/

/-- One elementary change, with the replies it completes and what it sends. -/
inductive Change (b : Broker) : List ReplyOperation → List Sent → Broker → Prop
  | started : Change b [] [] b.start
  | contacted (now : TimeMs) : Change b [] [] (b.connectContactSendSocket now).broker
  | told (address : String) (msg : BrokerGossipMessage) : Change b [] [⟨address, .gossip msg⟩] b
  | refreshed (nodeId : NodeId) (cur : NodeState) (t : TimeMs) :
      b.nodeIdToState.lookup nodeId = some cur → Change b [] [] (b.refresh nodeId cur t)
  | discovered (ns : NodeState) : b.nodeIdToState.lookup ns.nodeId = none →
      Change b [] (b.discover ns).sent (b.discover ns).broker
  | lost (nodeId : NodeId) : nodeId ≠ b.thisNodeId → Change b [] [] (b.onNodeConnectionLost nodeId)
  /-- `SendTwoWayMessage` has thrown. -/
  | unconnected : Change b [] [] { b with sendRequestIdCounter := b.sendRequestIdCounter + 1 }
  /-- The request was sent, but its id is still in use. -/
  | notInserted (toNodeId : NodeId) (data : ByteBuffer) (socket : String) :
      toNodeId ≠ b.thisNodeId → b.nodeIdToSendSocket.lookup toNodeId = some socket →
      b.sendRequestIdCounter ∈ b.outstandingRequests →
      Change b [] [⟨socket, .twoWay ⟨b.thisNodeId, toNodeId, b.sendRequestIdCounter, data⟩⟩]
        { b with sendRequestIdCounter := b.sendRequestIdCounter + 1 }
  | requested (toNodeId : NodeId) (data : ByteBuffer) (socket : String) :
      toNodeId ≠ b.thisNodeId → b.nodeIdToSendSocket.lookup toNodeId = some socket →
      b.sendRequestIdCounter ∉ b.outstandingRequests →
      Change b [] [⟨socket, .twoWay ⟨b.thisNodeId, toNodeId, b.sendRequestIdCounter, data⟩⟩]
        { b with
          sendRequestIdCounter := b.sendRequestIdCounter + 1
          outstandingRequests :=
            b.outstandingRequests.insert b.sendRequestIdCounter ⟨1, [], none, toNodeId⟩ }
  | answered (requestId : RequestId) (pending : OutstandingRequest) (payload : ByteBuffer) :
      b.outstandingRequests.lookup requestId = some pending →
      Change b [] [] { b with
        outstandingRequests := b.outstandingRequests.insert requestId (answer payload pending) }
  | requestResumed (requestId : RequestId) (request : OutstandingRequest) :
      b.outstandingRequests.lookup requestId = some request → request.sem.drained = true →
      Change b [] [] { b with outstandingRequests := b.outstandingRequests.erase requestId }
  | deferred (reply : ReplyOperation) :
      b.nodeIdToSendSocket.lookup reply.requestNodeId = none →
      Change b [reply] [] { b with
        deferredReplies := b.deferredReplies.insert reply.requestNodeId
          ((b.deferredReplies.lookup reply.requestNodeId).getD [] ++ [reply]) }
  | replied (reply : ReplyOperation) (socket : String) :
      b.nodeIdToSendSocket.lookup reply.requestNodeId = some socket →
      Change b [reply]
        [⟨socket, .twoWay ⟨reply.requestNodeId, b.thisNodeId, reply.requestId, reply.data⟩⟩] b
  | waited (predicate : ClusterState → Bool) (deadlineMs : TimeMs) :
      predicate ⟨b.buildAliveNodeInfoList⟩ = false →
      Change b [] [] { b with
        clusterStateWaiters := b.clusterStateWaiters ++ [⟨1, deadlineMs, false, predicate⟩] }
  | waitResumed (i : ℕ) (waiter : ClusterStateWaiter) :
      b.clusterStateWaiters[i]? = some waiter → waiter.sem.drained = true →
      Change b [] [] { b with clusterStateWaiters := b.clusterStateWaiters.eraseIdx i }
  | expired (now : TimeMs) : Change b [] [] (b.checkClusterStateWaiterTimeout now)

/-- A sequence of elementary changes. -/
inductive Changes (b : Broker) : List ReplyOperation → List Sent → Broker → Prop
  | refl : Changes b [] [] b
  | tail {b' b'' : Broker} {done done' : List ReplyOperation} {sent sent' : List Sent} :
      Changes b done sent b' → Change b' done' sent' b'' →
      Changes b (done ++ done') (sent ++ sent') b''

variable {b b' b'' : Broker} {done done' : List ReplyOperation} {sent sent' : List Sent}

theorem Change.single (h : Change b done sent b') : Changes b done sent b' := by
  simpa using Changes.refl.tail h

theorem Changes.trans (h : Changes b done sent b') (h' : Changes b' done' sent' b'') :
    Changes b (done ++ done') (sent ++ sent') b'' := by
  induction h' with
  | refl => simpa using h
  | tail _ hchange ih => simpa only [← List.append_assoc] using ih.tail hchange

/-- **A fact that survives every change survives a sequence of them.** -/
theorem Changes.invariant {I : Broker → Prop}
    (hI : ∀ b done sent b', Change b done sent b' → I b → I b')
    (h : Changes b done sent b') (hb : I b) : I b' := by
  induction h with
  | refl => exact hb
  | tail _ hchange ih => exact hI _ _ _ _ hchange ih

/-- Nothing changes the identity of a broker. -/
theorem Change.thisNodeId (h : Change b done sent b') : b'.thisNodeId = b.thisNodeId := by
  cases h with
  | discovered ns =>
      obtain ⟨deferred, heq⟩ := discover_broker_eq b ns
      rw [heq]
  | _ => rfl

/-- The constructor leaves nothing that waits. -/
theorem construct_pending {nodeId : NodeId} {config : ClusterConfig} {now : TimeMs} {b : Broker}
    (h : construct nodeId config now = .ok b) : b.outstandingRequests = ∅ ∧
      b.deferredReplies = ∅ ∧ b.clusterStateWaiters = [] ∧ b.sendRequestIdCounter = 0 := by
  unfold construct at h
  split at h
  · simp at h
  · dsimp only at h
    split at h
    · obtain rfl := Except.ok.inj h
      exact ⟨rfl, rfl, rfl, rfl⟩
    · split at h
      · simp at h
      · obtain rfl := Except.ok.inj h
        exact ⟨rfl, rfl, rfl, rfl⟩

theorem Changes.thisNodeId (h : Changes b done sent b') : b'.thisNodeId = b.thisNodeId := by
  induction h with
  | refl => rfl
  | tail _ hchange ih => exact hchange.thisNodeId.trans ih

/-! ### The methods are sequences of changes -/

theorem changes_handleNodeState (b : Broker) (ns : NodeState) :
    Changes b [] (b.handleNodeState ns).sent (b.handleNodeState ns).broker := by
  unfold handleNodeState
  split
  · next hnew => exact (Change.discovered ns hnew).single
  · next cur hcur =>
      split
      · exact .refl
      · split
        · exact .refl
        · exact (Change.refreshed ns.nodeId cur _ hcur).single

theorem changes_handleNodeStates (b : Broker) (nss : List NodeState) :
    Changes b [] (b.handleNodeStates nss).sent (b.handleNodeStates nss).broker := by
  induction nss generalizing b with
  | nil => exact .refl
  | cons ns nss ih =>
      have hfirst := changes_handleNodeState b ns
      unfold handleNodeStates
      dsimp only
      split
      · exact hfirst
      · exact hfirst.trans (ih _)

/-- A node that has timed out is not the node itself. -/
theorem ne_of_timedOut {now : TimeMs} {nodeId : NodeId} {state : NodeState}
    (h : b.timedOut now nodeId state = true) : nodeId ≠ b.thisNodeId := by
  rintro rfl
  simp [timedOut] at h

/-- The nodes that `CheckHeartbeatTimeout` removes. -/
def nodesToRemove (b : Broker) (now : TimeMs) : List NodeId :=
  (b.nodeIdToState.entries.filter fun e => b.timedOut now e.1 e.2).map Sigma.fst

theorem checkHeartbeatTimeout_eq (b : Broker) (now : TimeMs) :
    b.checkHeartbeatTimeout now = (b.nodesToRemove now).foldl onNodeConnectionLost b := rfl

theorem mem_nodesToRemove {now : TimeMs} {nodeId : NodeId} :
    nodeId ∈ b.nodesToRemove now ↔
      ∃ state, b.nodeIdToState.lookup nodeId = some state ∧ b.timedOut now nodeId state = true := by
  constructor
  · intro hmem
    obtain ⟨⟨id, state⟩, he, rfl⟩ := List.mem_map.1 hmem
    obtain ⟨he, htimedOut⟩ := List.mem_filter.1 he
    exact ⟨state, AList.mem_lookup_iff.2 he, htimedOut⟩
  · rintro ⟨state, hlookup, htimedOut⟩
    exact List.mem_map.2
      ⟨⟨nodeId, state⟩, List.mem_filter.2 ⟨AList.mem_lookup_iff.1 hlookup, htimedOut⟩, rfl⟩

/-- The table has one entry for each node. -/
theorem nodup_nodesToRemove (b : Broker) (now : TimeMs) : (b.nodesToRemove now).Nodup :=
  List.Nodup.sublist (List.filter_sublist.map Sigma.fst) b.nodeIdToState.nodupKeys

theorem changes_lost (nodeIds : List NodeId) (b : Broker)
    (hothers : ∀ nodeId ∈ nodeIds, nodeId ≠ b.thisNodeId) :
    Changes b [] [] (nodeIds.foldl onNodeConnectionLost b) := by
  induction nodeIds generalizing b with
  | nil => exact .refl
  | cons nodeId nodeIds ih =>
      have hlost := (Change.lost nodeId (hothers nodeId List.mem_cons_self)).single
      exact hlost.trans (ih _ fun id hid => hothers id (List.mem_cons_of_mem nodeId hid))

theorem changes_checkHeartbeatTimeout (b : Broker) (now : TimeMs) :
    Changes b [] [] (b.checkHeartbeatTimeout now) := by
  rw [checkHeartbeatTimeout_eq]
  refine changes_lost (b.nodesToRemove now) b fun nodeId hmem => ?_
  obtain ⟨state, -, htimedOut⟩ := mem_nodesToRemove.1 hmem
  exact ne_of_timedOut htimedOut

theorem mem_nodeIdToState_foldl_lost {nodeIds : List NodeId} {nodeId : NodeId} :
    nodeId ∈ (nodeIds.foldl onNodeConnectionLost b).nodeIdToState ↔
      nodeId ∈ b.nodeIdToState ∧ nodeId ∉ nodeIds := by
  induction nodeIds generalizing b with
  | nil => simp
  | cons id nodeIds ih =>
      have hfirst : nodeId ∈ (b.onNodeConnectionLost id).nodeIdToState ↔
          nodeId ≠ id ∧ nodeId ∈ b.nodeIdToState := AList.mem_erase
      rw [List.foldl_cons, ih, hfirst, List.mem_cons, not_or]
      tauto

/-- The nodes that stay. -/
theorem mem_nodeIdToState_lost {now : TimeMs} {nodeId : NodeId} :
    nodeId ∈ (b.checkHeartbeatTimeout now).nodeIdToState ↔
      nodeId ∈ b.nodeIdToState ∧ nodeId ∉ b.nodesToRemove now :=
  mem_nodeIdToState_foldl_lost

/-- What the loss of some nodes does to a request. -/
theorem lookup_outstandingRequests_lost {nodeIds : List NodeId} (hnodup : nodeIds.Nodup)
    (b : Broker) (requestId : RequestId) :
    (nodeIds.foldl onNodeConnectionLost b).outstandingRequests.lookup requestId
      = (b.outstandingRequests.lookup requestId).map fun request =>
          if request.responseNodeId ∈ nodeIds then failRequest request.responseNodeId request
          else request := by
  induction nodeIds generalizing b with
  | nil => simp
  | cons nodeId nodeIds ih =>
      obtain ⟨hnotMem, hnodup⟩ := List.nodup_cons.1 hnodup
      rw [List.foldl_cons, ih hnodup]
      have hfirst : (b.onNodeConnectionLost nodeId).outstandingRequests.lookup requestId
          = (b.outstandingRequests.lookup requestId).map (failRequest nodeId) :=
        UnorderedMap.lookup_mapValues ..
      rw [hfirst, Option.map_map]
      congr 1
      funext request
      by_cases heq : request.responseNodeId = nodeId
      · -- the other rounds do not concern this request
        subst heq
        simp [failRequest, hnotMem]
      · simp [failRequest, heq]

/-- **What a heartbeat check does to a request**: it fails it if its node is removed. -/
theorem lookup_checkHeartbeatTimeout (b : Broker) (now : TimeMs) (requestId : RequestId) :
    (b.checkHeartbeatTimeout now).outstandingRequests.lookup requestId
      = (b.outstandingRequests.lookup requestId).map fun request =>
          if request.responseNodeId ∈ b.nodesToRemove now then
            failRequest request.responseNodeId request
          else request :=
  lookup_outstandingRequests_lost (b.nodup_nodesToRemove now) b requestId

theorem sendGossip_broker (b : Broker) (msg : BrokerMessage) (nodeIds : List NodeId) :
    (b.sendGossip msg nodeIds).broker = b := by
  induction nodeIds with
  | nil => rfl
  | cons nodeId nodeIds ih =>
      unfold sendGossip
      split
      · exact ih
      · rfl

/-- **What `BroadcastGossip` leaves**: the entry of the node itself has the time stamp `now`, and
there may be another socket to the contact node. -/
theorem broadcastGossip_cases (b : Broker) (now : TimeMs) (nodeIds : List NodeId) :
    (b.broadcastGossip now nodeIds).broker = b ∨
    ∃ state, b.nodeIdToState.lookup b.thisNodeId = some state ∧
      ((b.broadcastGossip now nodeIds).broker = b.refresh b.thisNodeId state now ∨
        b.contactNodeDiscovered = false ∧
          (b.broadcastGossip now nodeIds).broker = { b.refresh b.thisNodeId state now with
            contactNodeSendSocket := some b.clusterConfig.contactNodeAddress
            contactNodeSendSocketLastBuildMs := now }) := by
  unfold broadcastGossip
  split
  · exact Or.inl rfl
  · next state hstate =>
      refine Or.inr ⟨state, hstate, ?_⟩
      dsimp only
      split
      · exact Or.inl rfl
      · split
        · rw [sendGossip_broker]
          exact Or.inl rfl
        · split
          · exact Or.inl rfl
          · split
            · next hrebuild =>
                rw [Bool.and_eq_true, Bool.not_eq_true'] at hrebuild
                exact Or.inr ⟨hrebuild.1, rfl⟩
            · exact Or.inl rfl

theorem changes_sendGossip (b : Broker) (msg : BrokerGossipMessage) (nodeIds : List NodeId) :
    Changes b [] (b.sendGossip (.gossip msg) nodeIds).sent b := by
  induction nodeIds with
  | nil => exact .refl
  | cons nodeId nodeIds ih =>
      unfold sendGossip
      split
      · exact (Change.told _ msg).single.trans ih
      · exact .refl

theorem changes_contact (b : Broker) (socket : Option String) (msg : BrokerGossipMessage) :
    Changes b [] (socket.map fun address => (⟨address, .gossip msg⟩ : Sent)).toList b := by
  cases socket with
  | none => exact .refl
  | some address => exact (Change.told address msg).single

theorem changes_broadcastGossip (b : Broker) (now : TimeMs) (nodeIds : List NodeId) :
    Changes b [] (b.broadcastGossip now nodeIds).sent (b.broadcastGossip now nodeIds).broker := by
  unfold broadcastGossip
  split
  · exact .refl
  · next state hstate =>
      have hself := (Change.refreshed b.thisNodeId state now hstate).single
      dsimp only
      split
      · exact hself
      · have hsend := changes_sendGossip (b.refresh b.thisNodeId state now) ⟨b.thisNodeId,
          UnorderedMap.values (b.refresh b.thisNodeId state now).nodeIdToState⟩ nodeIds
        have hpeers := hself.trans hsend
        split
        · rw [sendGossip_broker]
          exact hpeers
        · split
          · exact hpeers
          · split
            · exact hpeers.trans ((Change.contacted now).single.trans (Change.told _ _).single)
            · exact hpeers.trans (changes_contact _ _ _)

/-- **What `SendRequest` does**: it refuses its own node, or it takes the next id, for a node that
has no socket, an id that is in use, or a request that it sends. -/
theorem sendRequest_cases (b : Broker) (toNodeId : NodeId) (data : ByteBuffer) :
    let next := b.sendRequestIdCounter + 1
    let msg : BrokerMessage := .twoWay ⟨b.thisNodeId, toNodeId, b.sendRequestIdCounter, data⟩
    (toNodeId = b.thisNodeId ∧
      b.sendRequest toNodeId data = ⟨b, [], .error (.sendToSelf toNodeId)⟩) ∨
    (toNodeId ≠ b.thisNodeId ∧ b.nodeIdToSendSocket.lookup toNodeId = none ∧
      b.sendRequest toNodeId data = ⟨{ b with sendRequestIdCounter := next }, [],
        .error (.unconnected b.thisNodeId toNodeId)⟩) ∨
    (∃ socket, toNodeId ≠ b.thisNodeId ∧ b.nodeIdToSendSocket.lookup toNodeId = some socket ∧
      b.sendRequestIdCounter ∈ b.outstandingRequests ∧
      b.sendRequest toNodeId data = ⟨{ b with sendRequestIdCounter := next }, [⟨socket, msg⟩],
        .error .notInserted⟩) ∨
    ∃ socket, toNodeId ≠ b.thisNodeId ∧ b.nodeIdToSendSocket.lookup toNodeId = some socket ∧
      b.sendRequestIdCounter ∉ b.outstandingRequests ∧
      b.sendRequest toNodeId data = ⟨{ b with
        sendRequestIdCounter := next
        outstandingRequests :=
          b.outstandingRequests.insert b.sendRequestIdCounter ⟨1, [], none, toNodeId⟩ },
        [⟨socket, msg⟩], .ok b.sendRequestIdCounter⟩ := by
  by_cases hself : toNodeId = b.thisNodeId
  · exact Or.inl ⟨hself, by rw [sendRequest, if_pos hself]⟩
  · cases hsocket : b.nodeIdToSendSocket.lookup toNodeId with
    | none =>
        refine Or.inr (Or.inl ⟨hself, rfl, ?_⟩)
        simp only [sendRequest, if_neg hself, sendTwoWayMessage, hsocket]
    | some socket =>
        simp only [sendRequest, if_neg hself, sendTwoWayMessage, hsocket]
        by_cases hused : b.sendRequestIdCounter ∈ b.outstandingRequests
        · rw [if_pos hused]
          exact Or.inr (Or.inr (Or.inl ⟨socket, hself, rfl, hused, rfl⟩))
        · rw [if_neg hused]
          exact Or.inr (Or.inr (Or.inr ⟨socket, hself, rfl, hused, rfl⟩))

theorem changes_sendRequest (b : Broker) (toNodeId : NodeId) (data : ByteBuffer) :
    Changes b [] (b.sendRequest toNodeId data).sent (b.sendRequest toNodeId data).broker := by
  rcases sendRequest_cases b toNodeId data with ⟨hself, heq⟩ | ⟨hself, hsocket, heq⟩ |
    ⟨socket, hself, hsocket, hused, heq⟩ | ⟨socket, hself, hsocket, hfree, heq⟩
  · rw [heq]
    exact .refl
  · rw [heq]
    exact Change.unconnected.single
  · rw [heq]
    exact (Change.notInserted toNodeId data socket hself hsocket hused).single
  · rw [heq]
    exact (Change.requested toNodeId data socket hself hsocket hfree).single

theorem changes_sendReply (b : Broker) (reply : ReplyOperation) :
    Changes b [reply] (b.sendReply reply).2 (b.sendReply reply).1 := by
  unfold sendReply
  split
  · next hnone => exact (Change.deferred reply hnone).single
  · next socket hsocket => exact (Change.replied reply socket hsocket).single

theorem changes_handleRepliedResponse (b : Broker) (msg : BrokerTwoWayMessage) :
    Changes b [] [] (b.handleRepliedResponse msg) := by
  unfold handleRepliedResponse
  split
  · exact .refl
  · next pending hpending =>
      exact (Change.answered msg.requestId pending msg.payload hpending).single

theorem changes_waitClusterState (b : Broker) (predicate : ClusterState → Bool)
    (timeoutMs now : TimeMs) :
    Changes b [] [] (b.waitClusterState predicate timeoutMs now).1 := by
  unfold waitClusterState
  dsimp only
  split
  · exact .refl
  · next hfalse => exact (Change.waited predicate _ (by simpa using hfalse)).single

end Broker

/-- **Every step is a sequence of elementary changes.** -/
theorem Process.changes_of_react {p p' : Process} {a : BrokerAction} {sent : List Sent}
    (h : p.react a = some (p', sent)) :
    Broker.Changes p.broker (p.completions a) sent p'.broker := by
  cases Process.reaction_of_react h with
  | started => exact Broker.Change.started.single
  | gossiped msg status => exact Broker.changes_handleNodeStates p.broker msg.nodeStates
  | replied msg hthis => exact Broker.changes_handleRepliedResponse p.broker msg
  | handled msg hthis hother hset => exact .refl
  | refused msg e hthis herror => exact .refl
  | requested toNodeId data => exact Broker.changes_sendRequest p.broker toNodeId data
  | requestResumed requestId request hrequest hdrained =>
      exact (Broker.Change.requestResumed requestId request hrequest hdrained).single
  | answered n data msg hmsg =>
      rw [Process.completions, hmsg]
      exact Broker.changes_sendReply p.broker ⟨msg.requestNodeId, msg.requestId, data⟩
  | broadcast now nodeIds status => exact Broker.changes_broadcastGossip p.broker now nodeIds
  | checked now => exact Broker.changes_checkHeartbeatTimeout p.broker now
  | waited predicate timeoutMs now =>
      exact Broker.changes_waitClusterState p.broker predicate timeoutMs now
  | waitResumed i waiter hwaiter hdrained =>
      exact (Broker.Change.waitResumed i waiter hwaiter hdrained).single
  | expired now => exact (Broker.Change.expired now).single

/-- **The invariant rule of a broker**: what the constructor establishes and every change keeps. -/
theorem Process.invariant {I : Broker → Prop}
    (hinit : ∀ nodeId config now b, Broker.construct nodeId config now = .ok b → I b)
    (hchange : ∀ b done sent b', Broker.Change b done sent b' → I b → I b')
    {tr : List (Process × BrokerAction)} {p : Process} (h : Process.machine.Exec tr p) :
    I p.broker := by
  refine h.invariantWhere (C := fun _ _ => True) (I := fun p => I p.broker) ?_ ?_
    (Machine.meets_true tr)
  · rintro p ⟨nodeId, config, now, b, hb, rfl⟩
    exact hinit nodeId config now b hb
  · intro _ p a p' _ _ hI _ hn
    exact (Process.changes_of_react (Process.next_eq_some hn)).invariant hchange hI

/-- Node 1 with no contact node, just constructed. -/
def Process.first : Process where
  broker := {
    thisNodeId := 1
    clusterConfig := clusterConfigOf "tcp://a" ""
    sendRequestIdCounter := 0
    deferredReplies := ∅
    outstandingRequests := ∅
    nodeIdToState := (∅ : UnorderedMap NodeId NodeState).insert 1 ⟨0, 1, "tcp://a", ""⟩
    clusterStateWaiters := []
    contactNodeSendSocket := none
    contactNodeSendSocketLastBuildMs := 0
    contactNodeDiscovered := false
    nodeIdToSendSocket := ∅
    requestHandler := false }
  handling := []
  status := .running

theorem Process.init_first : Process.machine.init Process.first :=
  ⟨1, clusterConfigOf "tcp://a" "", 0, _, rfl, rfl⟩

/-- Gossip that node 2 was seen. -/
def gossipOfTwo (lastSeen : TimeMs) : BrokerMessage := .gossip ⟨2, [⟨lastSeen, 2, "tcp://b", ""⟩]⟩

end ExActor
