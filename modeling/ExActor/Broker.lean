/-
**The message broker.**

`MessageBroker` of `network.h` is an actor: its messages run one after another, and a coroutine that
suspends is resumed as a later message.  The model is its state and one function for each of its
methods, cut where a coroutine suspends.  A method that throws leaves the state as it was at the
throw, so each function returns the state and what was sent together with its result.

A ZeroMQ `DEALER` send socket is the address it is connected to.  A message is on the wire as the
value that is serialized.

What is not under the broker's control comes in as arguments: the readings of the clock, the peers
that the random generator picks, the predicates of the waiters, the answers of the request handler.
ZeroMQ may throw when a socket is constructed or connected, or a message is sent, and a predicate
when it is evaluated; whether they do is the argument `answers` of the methods that
`DispatchReceivedMessage` consists of and of those that connect the contact socket.  Where the
argument is left out, and in the other methods, it is assumed that they return.

Main definitions:

* `NodeState`, `BrokerMessage` — the messages of `message.h`;
* `Broker`, `BrokerResult`, `BrokerError` — the state, what a method leaves, what it throws;
* `sendRequest`, `dispatchReceivedMessage`, `broadcastGossip`, `checkHeartbeatTimeout`,
  `waitClusterState`, `checkClusterStateWaiterTimeout` and what they call — the methods.
-/

import ExActor.Basic

set_option relaxedAutoImplicit false
set_option autoImplicit false

namespace ExActor

/-! ### Messages -/

/-- A `uint64_t` of milliseconds. -/
abbrev TimeMs := BitVec 64

/-- The `uint64_t` of a request. -/
abbrev RequestId := BitVec 64

/-- A `ByteBuffer`. -/
abbrev ByteBuffer := List (BitVec 8)

structure NodeState where
  lastSeenTimestampMs : TimeMs
  nodeId : NodeId
  address : String
  nodeName : String
deriving DecidableEq

structure BrokerGossipMessage where
  fromNodeId : NodeId
  nodeStates : List NodeState
deriving DecidableEq

structure BrokerTwoWayMessage where
  requestNodeId : NodeId
  responseNodeId : NodeId
  /-- The request id in the request node. -/
  requestId : RequestId
  payload : ByteBuffer
deriving DecidableEq

inductive BrokerMessage
  | twoWay (msg : BrokerTwoWayMessage)
  | gossip (msg : BrokerGossipMessage)
deriving DecidableEq

/-! ### Errors -/

/-- What the methods of the broker throw. -/
inductive BrokerError
  | emptyListenAddress
  | contactIsListen (address : String)
  | sendToSelf (nodeId : NodeId)
  | notInserted
  /-- A `NetworkError` of `SendTwoWayMessage`. -/
  | unconnected (thisNodeId remoteNodeId : NodeId)
  /-- A `NetworkError` of `OnNodeConnectionLost`. -/
  | nodeDead (remoteNodeId : NodeId)
  | zeroFanout
  | conflictingAddress (nodeId : NodeId) (current incoming : String)
  | conflictingNodeName (nodeId : NodeId) (current incoming : String)
  | notAddressedToThisNode
  | requestHandlerNotSet
  /-- `MapAt` of a key that is not in the map. -/
  | keyNotFound (nodeId : NodeId)
  /-- An exception of ZeroMQ or of a predicate. -/
  | outside (what : String)
deriving DecidableEq

/-- The format `{:#x}`. -/
def hex (nodeId : NodeId) : String := "0x" ++ String.ofList (Nat.toDigits 16 nodeId.toNat)

/-- The text of an exception, without the file, line and function that the macros and `MapAt` put
first. -/
def BrokerError.what : BrokerError → String
  | .emptyListenAddress =>
      "Check failed, expected `!cluster_config_.listen_address.empty()` is true, got false. "
        ++ "listen_address must not be empty"
  | .contactIsListen address =>
      "Check failed, expected `cluster_config_.contact_node_address != "
        ++ "cluster_config_.listen_address`, got " ++ address ++ " vs " ++ address ++ ". "
  | .sendToSelf nodeId =>
      "Check failed, expected `to_node_id != this_node_id_`, got " ++ toString nodeId.toNat
        ++ " vs " ++ toString nodeId.toNat ++ ". Cannot send message to current node"
  | .notInserted => "Check failed, expected `inserted` is true, got false. "
  | .unconnected thisNodeId remoteNodeId =>
      "Node " ++ hex thisNodeId ++ " is trying to send request to an unconnected node "
        ++ hex remoteNodeId
  | .nodeDead remoteNodeId => "Node " ++ hex remoteNodeId ++ " is dead, cannot complete request"
  | .zeroFanout => "Check failed, expected `fanout > 0`, got 0 vs 0. "
  | .conflictingAddress nodeId current incoming =>
      "Check failed, expected `cur_node_state.address == incoming_node_state.address`, got "
        ++ current ++ " vs " ++ incoming ++ ". Node " ++ hex nodeId
        ++ " has conflicting address, " ++ current ++ " vs " ++ incoming ++ "."
  | .conflictingNodeName nodeId current incoming =>
      "Check failed, expected `cur_node_state.node_name == incoming_node_state.node_name`, got "
        ++ current ++ " vs " ++ incoming ++ ". Node " ++ hex nodeId
        ++ " has conflicting node_name, " ++ current ++ " vs " ++ incoming ++ "."
  | .notAddressedToThisNode => "Received two-way message not addressed to this node"
  | .requestHandlerNotSet =>
      "Check failed, expected `request_handler_ != nullptr` is true, got false. "
        ++ "Request handler not set"
  | .keyNotFound nodeId => "map key '" ++ toString nodeId.toNat ++ "' not found"
  | .outside what => what

/-! ### What is outside -/

/-- A call of code that is not the broker's. -/
inductive OutsideCall
  /-- The constructor of the socket for a node that has been found, and its options. -/
  | socket (nodeId : NodeId)
  | connect (nodeId : NodeId) (address : String)
  /-- The predicate of a waiter, evaluated because a node has been found. -/
  | predicate (nodeId : NodeId) (waiter : ℕ)
  /-- `ZmqSendOrDie` of a reply that has been deferred for a node. -/
  | sendDeferred (nodeId : NodeId) (reply : ℕ)
  /-- `ZmqSendOrDie` of the reply to a request. -/
  | sendReply
  /-- The constructor of the contact socket, its options, and its `connect`. -/
  | contactSocket
deriving DecidableEq

/-- What the code outside answers: what a call throws, if it does. -/
abbrev OutsideAnswers := OutsideCall → Option String

/-- Every call returns. -/
def OutsideAnswers.calm : OutsideAnswers := fun _ => none

@[simp] theorem OutsideAnswers.calm_apply (call : OutsideCall) : OutsideAnswers.calm call = none :=
  rfl

/-! ### The state -/

/-- The members of `NetworkConfig` that the methods read. -/
structure NetworkConfig where
  heartbeatTimeoutMs : TimeMs
  gossipFanout : SizeT
deriving DecidableEq

structure ClusterConfig where
  listenAddress : String
  contactNodeAddress : String
  networkConfig : NetworkConfig
  nodeName : String
deriving DecidableEq

structure NodeInfo where
  nodeId : NodeId
  address : String
  nodeName : String
deriving DecidableEq

structure ClusterState where
  nodes : List NodeInfo
deriving DecidableEq

/-- The result of `WaitClusterState`. -/
structure WaitClusterStateResult where
  clusterState : ClusterState
  conditionMet : Bool
deriving DecidableEq

/-- A `Semaphore` that is drained makes the coroutine that waits for it runnable. -/
abbrev Semaphore := ℤ

/-- The semaphore is drained. -/
def Semaphore.drained (s : Semaphore) : Bool := decide (s ≤ 0)

/-- `Acquire(n)`. -/
def Semaphore.acquire (s : Semaphore) (n : ℤ) : Semaphore := s - n

structure OutstandingRequest where
  sem : Semaphore
  responseBytes : ByteBuffer
  exceptionPtr : Option BrokerError
  responseNodeId : NodeId
deriving DecidableEq

structure ReplyOperation where
  requestNodeId : NodeId
  requestId : RequestId
  data : ByteBuffer
deriving DecidableEq

structure ClusterStateWaiter where
  sem : Semaphore
  deadlineMs : TimeMs
  conditionMet : Bool
  predicate : ClusterState → Bool

/-- The members of `MessageBroker`.  A send socket is the address it is connected to. -/
structure Broker where
  thisNodeId : NodeId
  clusterConfig : ClusterConfig
  sendRequestIdCounter : RequestId
  deferredReplies : UnorderedMap NodeId (List ReplyOperation)
  outstandingRequests : UnorderedMap RequestId OutstandingRequest
  nodeIdToState : UnorderedMap NodeId NodeState
  clusterStateWaiters : List ClusterStateWaiter
  contactNodeSendSocket : Option String
  contactNodeSendSocketLastBuildMs : TimeMs
  contactNodeDiscovered : Bool
  nodeIdToSendSocket : UnorderedMap NodeId String
  /-- `request_handler_` is set. -/
  requestHandler : Bool

/-- A message with the address it is sent to. -/
structure Sent where
  address : String
  msg : BrokerMessage
deriving DecidableEq

/-- What a method leaves: the state, what it has sent, and its result or exception. -/
structure BrokerResult (α : Type) where
  broker : Broker
  sent : List Sent
  result : Except BrokerError α

namespace Broker

/-! ### Construction -/

/-- `ConnectContactSendSocket`.  After an exception the contact socket is closed or not connected,
and the broker is not used any more. -/
def connectContactSendSocket (b : Broker) (now : TimeMs) (answers : OutsideAnswers := .calm) :
    BrokerResult Unit :=
  match answers .contactSocket with
  | some what => ⟨{ b with contactNodeSendSocket := none }, [], .error (.outside what)⟩
  | none =>
      ⟨{ b with
        contactNodeSendSocket := some b.clusterConfig.contactNodeAddress
        contactNodeSendSocketLastBuildMs := now }, [], .ok ()⟩

/-- The constructor. -/
def construct (thisNodeId : NodeId) (config : ClusterConfig) (now : TimeMs)
    (answers : OutsideAnswers := .calm) : Except BrokerError Broker :=
  if config.listenAddress = "" then .error .emptyListenAddress
  else
    let b : Broker := {
      thisNodeId := thisNodeId
      clusterConfig := config
      sendRequestIdCounter := 0
      deferredReplies := ∅
      outstandingRequests := ∅
      nodeIdToState := (∅ : UnorderedMap NodeId NodeState).insert thisNodeId
        ⟨now, thisNodeId, config.listenAddress, config.nodeName⟩
      clusterStateWaiters := []
      contactNodeSendSocket := none
      contactNodeSendSocketLastBuildMs := 0
      contactNodeDiscovered := false
      nodeIdToSendSocket := ∅
      requestHandler := false }
    if config.contactNodeAddress = "" then .ok b
    else if config.contactNodeAddress = config.listenAddress then
      .error (.contactIsListen config.contactNodeAddress)
    else
      let r := b.connectContactSendSocket now answers
      r.result.map fun _ => r.broker

/-- `Start`: from here on the broker receives messages. -/
def start (b : Broker) : Broker := { b with requestHandler := true }

/-! ### The waiters of the cluster state -/

/-- `BuildAliveNodeInfoList`. -/
def buildAliveNodeInfoList (b : Broker) : List NodeInfo :=
  b.nodeIdToState.entries.map fun e => ⟨e.1, e.2.address, e.2.nodeName⟩

/-- `EvaluateClusterStateWaiters`, when no predicate throws. -/
def evaluateClusterStateWaiters (b : Broker) : Broker :=
  let state : ClusterState := ⟨b.buildAliveNodeInfoList⟩
  { b with clusterStateWaiters := b.clusterStateWaiters.map fun waiter =>
      if !waiter.conditionMet && waiter.predicate state then
        { waiter with conditionMet := true, sem := waiter.sem.acquire 1 }
      else waiter }

/-- The first waiter whose predicate is evaluated and throws, and what it throws.  The waiters whose
condition has been met are passed over. -/
def predicateThrows (b : Broker) (nodeId : NodeId) (answers : OutsideAnswers) :
    Option (ℕ × String) :=
  b.clusterStateWaiters.zipIdx.findSome? fun w =>
    if w.1.conditionMet then none
    else (answers (.predicate nodeId w.2)).map fun what => (w.2, what)

/-- `WaitClusterState`, up to its suspension: it returns, or leaves a waiter. -/
def waitClusterState (b : Broker) (predicate : ClusterState → Bool) (timeoutMs now : TimeMs) :
    Broker × Option WaitClusterStateResult :=
  let state : ClusterState := ⟨b.buildAliveNodeInfoList⟩
  if predicate state then (b, some ⟨state, true⟩)
  else
    ({ b with clusterStateWaiters :=
        b.clusterStateWaiters ++ [⟨1, now + timeoutMs, false, predicate⟩] }, none)

/-- `WaitClusterState` resumes, when its semaphore is drained. -/
def resumeWaitClusterState (b : Broker) (i : ℕ) : Option (Broker × WaitClusterStateResult) :=
  (b.clusterStateWaiters[i]?).bind fun waiter =>
    if waiter.sem.drained then
      some ({ b with clusterStateWaiters := b.clusterStateWaiters.eraseIdx i },
        ⟨⟨b.buildAliveNodeInfoList⟩, waiter.conditionMet⟩)
    else none

/-- `CheckClusterStateWaiterTimeout`. -/
def checkClusterStateWaiterTimeout (b : Broker) (now : TimeMs) : Broker :=
  { b with clusterStateWaiters := b.clusterStateWaiters.map fun waiter =>
      if !waiter.conditionMet && decide (waiter.deadlineMs ≤ now) then
        { waiter with sem := waiter.sem.acquire 1 }
      else waiter }

/-! ### Sending -/

/-- `SendTwoWayMessage`.  The counter goes on even when there is no socket. -/
def sendTwoWayMessage (b : Broker) (nodeId : NodeId) (data : ByteBuffer) :
    BrokerResult RequestId :=
  let requestId := b.sendRequestIdCounter
  let b' := { b with sendRequestIdCounter := b.sendRequestIdCounter + 1 }
  match b'.nodeIdToSendSocket.lookup nodeId with
  | none => ⟨b', [], .error (.unconnected b.thisNodeId nodeId)⟩
  | some socket =>
      ⟨b', [⟨socket, .twoWay ⟨b.thisNodeId, nodeId, requestId, data⟩⟩], .ok requestId⟩

/-- `SendReply`. -/
def sendReply (b : Broker) (reply : ReplyOperation) : Broker × List Sent :=
  match b.nodeIdToSendSocket.lookup reply.requestNodeId with
  | none =>
      let replies := (b.deferredReplies.lookup reply.requestNodeId).getD []
      ({ b with deferredReplies :=
          b.deferredReplies.insert reply.requestNodeId (replies ++ [reply]) }, [])
  | some socket =>
      (b, [⟨socket, .twoWay ⟨reply.requestNodeId, b.thisNodeId, reply.requestId, reply.data⟩⟩])

/-- The loop of `OnNodeAlive` over the deferred replies. -/
def sendReplies (b : Broker) : List ReplyOperation → Broker × List Sent
  | [] => (b, [])
  | reply :: replies =>
      let p := b.sendReply reply
      let q := sendReplies p.1 replies
      (q.1, p.2 ++ q.2)

/-- `SendRequest`, up to its suspension; the result is the id of the request. -/
def sendRequest (b : Broker) (toNodeId : NodeId) (data : ByteBuffer) : BrokerResult RequestId :=
  if toNodeId = b.thisNodeId then ⟨b, [], .error (.sendToSelf toNodeId)⟩
  else
    let r := b.sendTwoWayMessage toNodeId data
    match r.result with
    | .error e => ⟨r.broker, r.sent, .error e⟩
    | .ok requestId =>
        if requestId ∈ r.broker.outstandingRequests then ⟨r.broker, r.sent, .error .notInserted⟩
        else
          ⟨{ r.broker with outstandingRequests :=
              r.broker.outstandingRequests.insert requestId ⟨1, [], none, toNodeId⟩ },
            r.sent, .ok requestId⟩

/-- `SendRequest` resumes, when its semaphore is drained. -/
def resumeSendRequest (b : Broker) (requestId : RequestId) :
    Option (Broker × Except BrokerError ByteBuffer) :=
  (b.outstandingRequests.lookup requestId).bind fun request =>
    if request.sem.drained then
      some ({ b with outstandingRequests := b.outstandingRequests.erase requestId },
        match request.exceptionPtr with
        | some e => .error e
        | none => .ok request.responseBytes)
    else none

/-! ### Nodes that come and go -/

/-- The first of the deferred replies whose sending throws, and what it throws. -/
def sendThrows (nodeId : NodeId) (answers : OutsideAnswers) (count : ℕ) : Option (ℕ × String) :=
  (List.range count).findSome? fun k =>
    (answers (.sendDeferred nodeId k)).map fun what => (k, what)

/-- `OnNodeAlive`.  A socket that could not be connected stays in the map of the source; as nothing
is sent through it any more, it is left out here. -/
def onNodeAlive (b : Broker) (nodeId : NodeId) (answers : OutsideAnswers := .calm) :
    BrokerResult Unit :=
  match b.nodeIdToState.lookup nodeId with
  | none => ⟨b, [], .error (.keyNotFound nodeId)⟩
  | some newNode =>
      let b₀ := { b with
        contactNodeDiscovered := b.contactNodeDiscovered ||
          newNode.address == b.clusterConfig.contactNodeAddress }
      match answers (.socket newNode.nodeId) <|>
          answers (.connect newNode.nodeId newNode.address) with
      | some what => ⟨b₀, [], .error (.outside what)⟩
      | none =>
          let b₁ := { b₀ with
            nodeIdToSendSocket := b.nodeIdToSendSocket.insert newNode.nodeId newNode.address }
          let b₂ := b₁.evaluateClusterStateWaiters
          match b₁.predicateThrows newNode.nodeId answers with
          | some (i, what) =>
              -- the waiters before this one have been evaluated
              ⟨{ b₁ with clusterStateWaiters :=
                  b₂.clusterStateWaiters.take i ++ b₁.clusterStateWaiters.drop i },
                [], .error (.outside what)⟩
          | none =>
              let replies := (b₂.deferredReplies.lookup newNode.nodeId).getD []
              let p := { b₂ with
                deferredReplies := b₂.deferredReplies.erase newNode.nodeId }.sendReplies replies
              match sendThrows newNode.nodeId answers replies.length with
              | some (k, what) => ⟨p.1, p.2.take k, .error (.outside what)⟩
              | none => ⟨p.1, p.2, .ok ()⟩

/-- What `OnNodeConnectionLost` does to a request. -/
def failRequest (nodeId : NodeId) (request : OutstandingRequest) : OutstandingRequest :=
  if request.responseNodeId = nodeId then
    { request with exceptionPtr := some (.nodeDead nodeId), sem := request.sem.acquire 1 }
  else request

/-- `OnNodeConnectionLost`, when no predicate throws.  The deferred replies stay. -/
def onNodeConnectionLost (b : Broker) (nodeId : NodeId) : Broker :=
  evaluateClusterStateWaiters { b with
    outstandingRequests :=
      UnorderedMap.mapValues (fun _ => failRequest nodeId) b.outstandingRequests
    contactNodeDiscovered :=
      match b.nodeIdToState.lookup nodeId with
      | none => b.contactNodeDiscovered
      | some state =>
          b.contactNodeDiscovered && state.address != b.clusterConfig.contactNodeAddress
    nodeIdToState := b.nodeIdToState.erase nodeId
    nodeIdToSendSocket := b.nodeIdToSendSocket.erase nodeId }

/-- The node has not been heard of for too long. -/
def timedOut (b : Broker) (now : TimeMs) (nodeId : NodeId) (state : NodeState) : Bool :=
  !(nodeId == b.thisNodeId || decide (now ≤ state.lastSeenTimestampMs) ||
    decide (now - state.lastSeenTimestampMs < b.clusterConfig.networkConfig.heartbeatTimeoutMs))

/-- `CheckHeartbeatTimeout`. -/
def checkHeartbeatTimeout (b : Broker) (now : TimeMs) : Broker :=
  let nodesToRemove :=
    (b.nodeIdToState.entries.filter fun e => b.timedOut now e.1 e.2).map Sigma.fst
  nodesToRemove.foldl onNodeConnectionLost b

/-! ### Gossip -/

/-- One round of the loop of `HandleGossipMessage`. -/
def handleNodeState (b : Broker) (incoming : NodeState) (answers : OutsideAnswers := .calm) :
    BrokerResult Unit :=
  match b.nodeIdToState.lookup incoming.nodeId with
  | none =>
      onNodeAlive { b with nodeIdToState := b.nodeIdToState.insert incoming.nodeId incoming }
        incoming.nodeId answers
  | some cur =>
      if cur.address ≠ incoming.address then
        ⟨b, [], .error (.conflictingAddress cur.nodeId cur.address incoming.address)⟩
      else if cur.nodeName ≠ incoming.nodeName then
        ⟨b, [], .error (.conflictingNodeName cur.nodeId cur.nodeName incoming.nodeName)⟩
      else
        let lastSeen :=
          if cur.lastSeenTimestampMs < incoming.lastSeenTimestampMs then
            incoming.lastSeenTimestampMs
          else cur.lastSeenTimestampMs
        let state := { cur with lastSeenTimestampMs := lastSeen }
        ⟨{ b with nodeIdToState := b.nodeIdToState.insert incoming.nodeId state }, [], .ok ()⟩

/-- The loop of `HandleGossipMessage`. -/
def handleNodeStates (b : Broker) :
    (incoming : List NodeState) → (answers : OutsideAnswers := .calm) → BrokerResult Unit
  | [], _ => ⟨b, [], .ok ()⟩
  | incoming :: rest, answers =>
      let r := b.handleNodeState incoming answers
      match r.result with
      | .error e => ⟨r.broker, r.sent, .error e⟩
      | .ok () =>
          let r' := handleNodeStates r.broker rest answers
          ⟨r'.broker, r.sent ++ r'.sent, r'.result⟩

/-- `HandleGossipMessage`. -/
def handleGossipMessage (b : Broker) (msg : BrokerGossipMessage)
    (answers : OutsideAnswers := .calm) : BrokerResult Unit :=
  b.handleNodeStates msg.nodeStates answers

/-- The nodes that `GetRandomPeers` chooses from. -/
def peers (b : Broker) : List NodeId :=
  (b.nodeIdToState.entries.map Sigma.fst).filter (· ≠ b.thisNodeId)

/-- `GetRandomPeers` may return these nodes. -/
def mayPick (b : Broker) (nodeIds : List NodeId) : Prop :=
  nodeIds.Nodup ∧ (∀ nodeId ∈ nodeIds, nodeId ∈ b.peers) ∧
    nodeIds.length = min b.clusterConfig.networkConfig.gossipFanout.toNat b.peers.length

instance (b : Broker) (nodeIds : List NodeId) : Decidable (b.mayPick nodeIds) :=
  -- the instance for all values of a `BitVec` would be found first
  haveI : Decidable (∀ nodeId ∈ nodeIds, nodeId ∈ b.peers) := List.decidableBAll _ nodeIds
  inferInstanceAs (Decidable (_ ∧ _ ∧ _))

/-- The loop of `BroadcastGossip` over the peers. -/
def sendGossip (b : Broker) (msg : BrokerMessage) : List NodeId → BrokerResult Unit
  | [] => ⟨b, [], .ok ()⟩
  | nodeId :: nodeIds =>
      match b.nodeIdToState.lookup nodeId, b.nodeIdToSendSocket.lookup nodeId with
      | some _, some socket =>
          let r := sendGossip b msg nodeIds
          ⟨r.broker, ⟨socket, msg⟩ :: r.sent, r.result⟩
      | _, _ => ⟨b, [], .error (.keyNotFound nodeId)⟩

/-- `kContactSocketRebuildCooldownMs`. -/
def contactSocketRebuildCooldownMs : TimeMs := 1000

/-- `BroadcastGossip`, with the peers that `GetRandomPeers` returns.  The clock is read up to three
times, for the entry of the node itself, for the age of the contact socket and for its renewal;
here the three readings are one. -/
def broadcastGossip (b : Broker) (now : TimeMs) (nodeIds : List NodeId)
    (answers : OutsideAnswers := .calm) : BrokerResult Unit :=
  match b.nodeIdToState.lookup b.thisNodeId with
  | none => ⟨b, [], .error (.keyNotFound b.thisNodeId)⟩
  | some state =>
      let self := { state with lastSeenTimestampMs := now }
      let b₁ := { b with nodeIdToState := b.nodeIdToState.insert b.thisNodeId self }
      if b₁.clusterConfig.networkConfig.gossipFanout = 0 then ⟨b₁, [], .error .zeroFanout⟩
      else
        let msg : BrokerMessage :=
          .gossip ⟨b₁.thisNodeId, UnorderedMap.values b₁.nodeIdToState⟩
        let r := b₁.sendGossip msg nodeIds
        match r.result with
        | .error e => ⟨r.broker, r.sent, .error e⟩
        | .ok () =>
            match b₁.contactNodeSendSocket with
            | none => ⟨b₁, r.sent, .ok ()⟩
            | some _ =>
                let r₂ :=
                  if !b₁.contactNodeDiscovered && decide (contactSocketRebuildCooldownMs ≤
                      now - b₁.contactNodeSendSocketLastBuildMs) then
                    b₁.connectContactSendSocket now answers
                  else ⟨b₁, [], .ok ()⟩
                let b₂ := r₂.broker
                ⟨b₂, r.sent ++ (b₂.contactNodeSendSocket.map fun socket => ⟨socket, msg⟩).toList,
                  r₂.result⟩

/-! ### Receiving -/

/-- `HandleRepliedResponse`. -/
def handleRepliedResponse (b : Broker) (msg : BrokerTwoWayMessage) : Broker :=
  match b.outstandingRequests.lookup msg.requestId with
  | none => b
  | some pending =>
      let request := { pending with responseBytes := msg.payload, sem := pending.sem.acquire 1 }
      { b with outstandingRequests := b.outstandingRequests.insert msg.requestId request }

/-- `HandleIncomingRequest` up to its suspension in the request handler; the result is the request
whose reply the coroutine will send. -/
def handleIncomingRequest (b : Broker) (msg : BrokerTwoWayMessage) :
    BrokerResult (Option BrokerTwoWayMessage) :=
  if b.requestHandler then ⟨b, [], .ok (some msg)⟩ else ⟨b, [], .error .requestHandlerNotSet⟩

/-- `HandleIncomingRequest` resumes with the answer of the request handler.  A reply that is
deferred is not sent yet. -/
def resumeHandleIncomingRequest (b : Broker) (msg : BrokerTwoWayMessage) (data : ByteBuffer)
    (answers : OutsideAnswers := .calm) : BrokerResult Unit :=
  let q := b.sendReply ⟨msg.requestNodeId, msg.requestId, data⟩
  match answers .sendReply with
  | some what => if q.2 = [] then ⟨q.1, [], .ok ()⟩ else ⟨q.1, [], .error (.outside what)⟩
  | none => ⟨q.1, q.2, .ok ()⟩

/-- `DispatchReceivedMessage`. -/
def dispatchReceivedMessage (b : Broker) :
    (msg : BrokerMessage) → (answers : OutsideAnswers := .calm) →
      BrokerResult (Option BrokerTwoWayMessage)
  | .gossip msg, answers =>
      let r := b.handleGossipMessage msg answers
      ⟨r.broker, r.sent, r.result.map fun _ => none⟩
  | .twoWay msg, _ =>
      if msg.requestNodeId = b.thisNodeId then ⟨b.handleRepliedResponse msg, [], .ok none⟩
      else if msg.responseNodeId = b.thisNodeId then b.handleIncomingRequest msg
      else ⟨b, [], .error .notAddressedToThisNode⟩

end Broker

end ExActor
