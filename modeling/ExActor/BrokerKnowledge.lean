/-
**What a broker knows about the cluster.**

Everything that a broker holds or sends about other nodes comes from what it was told: the entries
of its table, the addresses its sockets are connected to, the entries of the gossip it sends and
the addresses its two-way messages go to.  `K` is any property of node states that does not depend
on the time stamp; a broker that was told only node states with `K` passes on only such.

Main definitions:

* `Timeless` — a property of node states that does not depend on the time stamp;
* `Broker.Knows`, `Sent.Knows` — all that the broker holds, or that was sent, has the property;
* `Broker.Kept` — a method keeps this, and the identity of the broker.

Main results:

* `Broker.kept_onNodeAlive`, `Broker.kept_handleGossipMessage`, `Broker.kept_broadcastGossip` and
  their like — every method of the broker keeps what it knows;
* `Broker.handleGossipMessage_ok` — gossip that agrees with the table is not refused;
* `Broker.dispatchReceivedMessage_ok_iff` — when `DispatchReceivedMessage` returns.
-/

import ExActor.Broker

set_option relaxedAutoImplicit false
set_option autoImplicit false

namespace ExActor

/-! ### What is known -/

/-- The property does not depend on the time stamp. -/
def Timeless (K : NodeState → Prop) : Prop :=
  ∀ ns t, K ns → K { ns with lastSeenTimestampMs := t }

/-- Node states with the property that have the same id have the same address and name. -/
def Agree (K : NodeState → Prop) : Prop :=
  ∀ ns ns', K ns → K ns' → ns.nodeId = ns'.nodeId →
    ns.address = ns'.address ∧ ns.nodeName = ns'.nodeName

/-- All that was sent has the property: gossip tells nothing else, and a two-way message goes to the
address of one of its two nodes. -/
def Sent.Knows (K : NodeState → Prop) (s : Sent) : Prop :=
  match s.msg with
  | .gossip msg => ∀ ns ∈ msg.nodeStates, K ns
  | .twoWay msg => ∃ ns, K ns ∧ ns.address = s.address ∧
      (msg.requestNodeId = ns.nodeId ∨ msg.responseNodeId = ns.nodeId)

namespace Broker

/-- All that the broker holds about nodes has the property. -/
structure Knows (K : NodeState → Prop) (b : Broker) : Prop where
  table : ∀ nodeId ns, b.nodeIdToState.lookup nodeId = some ns → ns.nodeId = nodeId ∧ K ns
  sockets : ∀ nodeId address, b.nodeIdToSendSocket.lookup nodeId = some address →
    ∃ ns, K ns ∧ ns.nodeId = nodeId ∧ ns.address = address

/-- A method keeps the identity of the broker and what it knows, and sends nothing else. -/
structure Kept (K : NodeState → Prop) (b b' : Broker) (sent : List Sent) : Prop where
  thisNodeId : b'.thisNodeId = b.thisNodeId
  clusterConfig : b'.clusterConfig = b.clusterConfig
  requestHandler : b'.requestHandler = b.requestHandler
  knows : b'.Knows K
  sent : ∀ s ∈ sent, s.Knows K

variable {K : NodeState → Prop} {b b' b'' : Broker}

theorem Kept.refl (h : b.Knows K) : Kept K b b [] := ⟨rfl, rfl, rfl, h, by simp⟩

theorem Kept.trans {sent sent' : List Sent} (h : Kept K b b' sent) (h' : Kept K b' b'' sent') :
    Kept K b b'' (sent ++ sent') := by
  refine ⟨h'.thisNodeId.trans h.thisNodeId, h'.clusterConfig.trans h.clusterConfig,
    h'.requestHandler.trans h.requestHandler, h'.knows, ?_⟩
  intro s hs
  rcases List.mem_append.1 hs with hs | hs
  · exact h.sent s hs
  · exact h'.sent s hs

/-! ### The methods -/

theorem kept_sendTwoWayMessage (h : b.Knows K) (nodeId : NodeId) (data : ByteBuffer) :
    Kept K b (b.sendTwoWayMessage nodeId data).broker (b.sendTwoWayMessage nodeId data).sent := by
  unfold sendTwoWayMessage
  dsimp only
  split
  · exact ⟨rfl, rfl, rfl, ⟨h.table, h.sockets⟩, by simp⟩
  · next socket hsocket =>
      refine ⟨rfl, rfl, rfl, ⟨h.table, h.sockets⟩, fun s hs => ?_⟩
      obtain rfl := List.mem_singleton.1 hs
      obtain ⟨ns, hns, hid, haddress⟩ := h.sockets nodeId socket hsocket
      exact ⟨ns, hns, haddress, Or.inr hid.symm⟩

theorem kept_sendReply (h : b.Knows K) (reply : ReplyOperation) :
    Kept K b (b.sendReply reply).1 (b.sendReply reply).2 := by
  unfold sendReply
  split
  · exact ⟨rfl, rfl, rfl, ⟨h.table, h.sockets⟩, by simp⟩
  · next socket hsocket =>
      refine ⟨rfl, rfl, rfl, h, fun s hs => ?_⟩
      obtain rfl := List.mem_singleton.1 hs
      obtain ⟨ns, hns, hid, haddress⟩ := h.sockets reply.requestNodeId socket hsocket
      exact ⟨ns, hns, haddress, Or.inl hid.symm⟩

theorem kept_sendReplies (h : b.Knows K) (replies : List ReplyOperation) :
    Kept K b (b.sendReplies replies).1 (b.sendReplies replies).2 := by
  induction replies generalizing b with
  | nil => exact Kept.refl h
  | cons reply replies ih =>
      have hreply := kept_sendReply h reply
      exact hreply.trans (ih hreply.knows)

theorem kept_sendRequest (h : b.Knows K) (toNodeId : NodeId) (data : ByteBuffer) :
    Kept K b (b.sendRequest toNodeId data).broker (b.sendRequest toNodeId data).sent := by
  have hsend := kept_sendTwoWayMessage h toNodeId data
  unfold sendRequest
  split
  · exact Kept.refl h
  · dsimp only
    split
    · exact hsend
    · split
      · exact hsend
      · exact ⟨hsend.thisNodeId, hsend.clusterConfig, hsend.requestHandler,
          ⟨hsend.knows.table, hsend.knows.sockets⟩, hsend.sent⟩

/-- A new node gets a socket at its address. -/
theorem kept_onNodeAlive {answers : OutsideAnswers} (h : b.Knows K) (nodeId : NodeId) :
    Kept K b (b.onNodeAlive nodeId answers).broker (b.onNodeAlive nodeId answers).sent := by
  unfold onNodeAlive
  split
  · exact Kept.refl h
  · next newNode hnode =>
      have hsockets : ∀ id address,
          (b.nodeIdToSendSocket.insert newNode.nodeId newNode.address).lookup id = some address →
            ∃ ns, K ns ∧ ns.nodeId = id ∧ ns.address = address := by
        intro id address hlookup
        by_cases hid : id = newNode.nodeId
        · subst hid
          obtain rfl : newNode.address = address := by simpa using hlookup
          exact ⟨newNode, (h.table nodeId newNode hnode).2, rfl, rfl⟩
        · rw [AList.lookup_insert_ne hid] at hlookup
          exact h.sockets id address hlookup
      have hreplies := kept_sendReplies (K := K) (b := { evaluateClusterStateWaiters { b with
          contactNodeDiscovered := b.contactNodeDiscovered ||
            newNode.address == b.clusterConfig.contactNodeAddress
          nodeIdToSendSocket := b.nodeIdToSendSocket.insert newNode.nodeId newNode.address } with
        deferredReplies := b.deferredReplies.erase newNode.nodeId }) ⟨h.table, hsockets⟩
        ((b.deferredReplies.lookup newNode.nodeId).getD [])
      dsimp only
      split
      · exact ⟨rfl, rfl, rfl, ⟨h.table, h.sockets⟩, by simp⟩
      · split
        · exact ⟨rfl, rfl, rfl, ⟨h.table, hsockets⟩, by simp⟩
        · split
          · exact ⟨hreplies.thisNodeId, hreplies.clusterConfig, hreplies.requestHandler,
              hreplies.knows, fun s hs => hreplies.sent s (List.mem_of_mem_take hs)⟩
          · exact ⟨hreplies.thisNodeId, hreplies.clusterConfig, hreplies.requestHandler,
              hreplies.knows, hreplies.sent⟩

theorem kept_onNodeConnectionLost (h : b.Knows K) (nodeId : NodeId) :
    Kept K b (b.onNodeConnectionLost nodeId) [] := by
  refine ⟨rfl, rfl, rfl, ⟨fun id ns hlookup => ?_, fun id address hlookup => ?_⟩, by simp⟩
  · have hlookup : (b.nodeIdToState.erase nodeId).lookup id = some ns := hlookup
    by_cases hid : id = nodeId
    · subst hid
      simp at hlookup
    · rw [AList.lookup_erase_ne hid] at hlookup
      exact h.table id ns hlookup
  · have hlookup : (b.nodeIdToSendSocket.erase nodeId).lookup id = some address := hlookup
    by_cases hid : id = nodeId
    · subst hid
      simp at hlookup
    · rw [AList.lookup_erase_ne hid] at hlookup
      exact h.sockets id address hlookup

theorem kept_checkHeartbeatTimeout (h : b.Knows K) (now : TimeMs) :
    Kept K b (b.checkHeartbeatTimeout now) [] := by
  unfold checkHeartbeatTimeout
  generalize ((b.nodeIdToState.entries.filter fun e => b.timedOut now e.1 e.2).map Sigma.fst) = ids
  induction ids generalizing b with
  | nil => exact Kept.refl h
  | cons nodeId ids ih =>
      have hlost := kept_onNodeConnectionLost h nodeId
      exact hlost.trans (ih hlost.knows)

/-! ### Gossip -/

/-- The table after an entry was written. -/
theorem table_insert (h : b.Knows K) {nodeId : NodeId} {ns : NodeState} (hid : ns.nodeId = nodeId)
    (hns : K ns) : Knows K { b with nodeIdToState := b.nodeIdToState.insert nodeId ns } := by
  refine ⟨fun id ns' hlookup => ?_, h.sockets⟩
  by_cases heq : id = nodeId
  · subst heq
    obtain rfl : ns = ns' := by simpa using hlookup
    exact ⟨hid, hns⟩
  · have hlookup : (b.nodeIdToState.insert nodeId ns).lookup id = some ns' := hlookup
    rw [AList.lookup_insert_ne heq] at hlookup
    exact h.table id ns' hlookup

theorem kept_handleNodeState {answers : OutsideAnswers} (hK : Timeless K) (h : b.Knows K)
    {incoming : NodeState} (hin : K incoming) :
    Kept K b (b.handleNodeState incoming answers).broker
      (b.handleNodeState incoming answers).sent := by
  unfold handleNodeState
  split
  · have halive := @kept_onNodeAlive _ _ answers (table_insert h rfl hin) incoming.nodeId
    exact ⟨halive.thisNodeId, halive.clusterConfig, halive.requestHandler, halive.knows,
      halive.sent⟩
  · next cur hcur =>
      split
      · exact Kept.refl h
      · split
        · exact Kept.refl h
        · obtain ⟨hid, hns⟩ := h.table _ cur hcur
          exact ⟨rfl, rfl, rfl, table_insert h hid (hK cur _ hns), by simp⟩

theorem kept_handleNodeStates {answers : OutsideAnswers} (hK : Timeless K)
    {incoming : List NodeState} (hin : ∀ ns ∈ incoming, K ns) (h : b.Knows K) :
    Kept K b (b.handleNodeStates incoming answers).broker
      (b.handleNodeStates incoming answers).sent := by
  induction incoming generalizing b with
  | nil => exact Kept.refl h
  | cons ns rest ih =>
      have hfirst := @kept_handleNodeState _ _ answers hK h _ (hin ns List.mem_cons_self)
      unfold handleNodeStates
      dsimp only
      split
      · exact hfirst
      · exact hfirst.trans (ih (fun ns' hns' => hin ns' (List.mem_cons_of_mem ns hns'))
          hfirst.knows)

/-! ### What throws -/

@[simp] theorem predicateThrows_calm (b : Broker) (nodeId : NodeId) :
    b.predicateThrows nodeId .calm = none := by
  simp [predicateThrows]

@[simp] theorem sendThrows_calm (nodeId : NodeId) (count : ℕ) :
    sendThrows nodeId .calm count = none := by
  simp [sendThrows]

/-- When nothing throws, a new node gets a socket, the waiters are evaluated, and the deferred
replies are sent. -/
theorem onNodeAlive_calm {nodeId : NodeId} {newNode : NodeState}
    (hnode : b.nodeIdToState.lookup nodeId = some newNode) :
    let b₁ := { b with
      contactNodeDiscovered := b.contactNodeDiscovered ||
        newNode.address == b.clusterConfig.contactNodeAddress
      nodeIdToSendSocket := b.nodeIdToSendSocket.insert newNode.nodeId newNode.address }
    let b₂ := b₁.evaluateClusterStateWaiters
    let p := { b₂ with deferredReplies := b₂.deferredReplies.erase newNode.nodeId }.sendReplies
      ((b₂.deferredReplies.lookup newNode.nodeId).getD [])
    b.onNodeAlive nodeId = ⟨p.1, p.2, .ok ()⟩ := by
  intro b₁ b₂ p
  simp only [onNodeAlive, hnode, predicateThrows_calm, sendThrows_calm]
  rfl

/-- The evaluations of predicates by `EvaluateClusterStateWaiters` after a node has been found. -/
def predicateCalls (b : Broker) (nodeId : NodeId) : List OutsideCall :=
  b.clusterStateWaiters.zipIdx.filterMap fun w =>
    if w.1.conditionMet then none else some (.predicate nodeId w.2)

/-- The calls that `OnNodeAlive` makes when none throws. -/
def callsOnNodeAlive (b : Broker) (newNode : NodeState) : List OutsideCall :=
  .socket newNode.nodeId :: .connect newNode.nodeId newNode.address ::
    (b.predicateCalls newNode.nodeId ++
      (List.range ((b.deferredReplies.lookup newNode.nodeId).getD []).length).map
        (.sendDeferred newNode.nodeId))

/-- The calls that `HandleGossipMessage` makes when none throws. -/
def gossipCalls (b : Broker) : List NodeState → List OutsideCall
  | [] => []
  | incoming :: rest =>
      (if incoming.nodeId ∈ b.nodeIdToState then [] else b.callsOnNodeAlive incoming)
        ++ gossipCalls (b.handleNodeState incoming).broker rest

/-- The calls of code outside that `DispatchReceivedMessage` makes when none throws. -/
def dispatchCalls (b : Broker) : BrokerMessage → List OutsideCall
  | .gossip msg => b.gossipCalls msg.nodeStates
  | .twoWay _ => []

theorem predicateThrows_eq_none_iff {answers : OutsideAnswers} {nodeId : NodeId} :
    b.predicateThrows nodeId answers = none ↔
      ∀ call ∈ b.predicateCalls nodeId, answers call = none := by
  simp only [predicateThrows, List.findSome?_eq_none_iff, predicateCalls, List.mem_filterMap]
  constructor
  · rintro hnone call ⟨w, hw, hcall⟩
    have hthrow := hnone w hw
    split at hcall
    · simp at hcall
    · next hunmet =>
        obtain rfl := Option.some.inj hcall
        simpa [hunmet] using hthrow
  · intro hcalls w hw
    split
    · rfl
    · next hunmet => simp [hcalls _ ⟨w, hw, if_neg hunmet⟩]

theorem sendThrows_eq_none_iff {answers : OutsideAnswers} {nodeId : NodeId} {count : ℕ} :
    sendThrows nodeId answers count = none ↔
      ∀ call ∈ (List.range count).map (.sendDeferred nodeId), answers call = none := by
  simp [sendThrows, List.findSome?_eq_none_iff]

/-- **When `OnNodeAlive` returns**: none of its calls throws, and it does the same as if nothing
could throw; or one of them throws, and so does `OnNodeAlive`. -/
theorem onNodeAlive_cases {nodeId : NodeId} {newNode : NodeState}
    (hnode : b.nodeIdToState.lookup nodeId = some newNode) (answers : OutsideAnswers) :
    (∀ call ∈ b.callsOnNodeAlive newNode, answers call = none) ∧
        b.onNodeAlive nodeId answers = b.onNodeAlive nodeId ∨
      (∃ call ∈ b.callsOnNodeAlive newNode, answers call ≠ none) ∧
        ∃ what, (b.onNodeAlive nodeId answers).result = .error (.outside what) := by
  have hpredicates := @predicateThrows_eq_none_iff b answers newNode.nodeId
  have hsends := @sendThrows_eq_none_iff answers newNode.nodeId
    ((b.deferredReplies.lookup newNode.nodeId).getD []).length
  have hdeferred : (b.evaluateClusterStateWaiters).deferredReplies = b.deferredReplies := rfl
  cases hsocket : answers (.socket newNode.nodeId) with
  | some what =>
      refine Or.inr ⟨⟨_, List.mem_cons_self, by simp [hsocket]⟩, what, ?_⟩
      simp [onNodeAlive, hnode, hsocket]
  | none =>
      cases hconnect : answers (.connect newNode.nodeId newNode.address) with
      | some what =>
          refine Or.inr ⟨⟨_, List.mem_cons_of_mem _ List.mem_cons_self, by simp [hconnect]⟩,
            what, ?_⟩
          simp [onNodeAlive, hnode, hsocket, hconnect]
      | none =>
          cases hpredicate : b.predicateThrows newNode.nodeId answers with
          | some throw =>
              right
              obtain ⟨call, hcall, hthrow⟩ :
                  ∃ call ∈ b.predicateCalls newNode.nodeId, answers call ≠ none := by
                by_contra hcalls
                push Not at hcalls
                simp [hpredicates.2 hcalls] at hpredicate
              refine ⟨⟨call, by simp [callsOnNodeAlive, hcall], hthrow⟩, throw.2, ?_⟩
              simp only [predicateThrows] at hpredicate
              simp [onNodeAlive, hnode, hsocket, hconnect, predicateThrows, hpredicate]
          | none =>
              have hcalls := hpredicates.1 hpredicate
              simp only [predicateThrows] at hpredicate
              cases hsend : sendThrows newNode.nodeId answers
                  ((b.deferredReplies.lookup newNode.nodeId).getD []).length with
              | some throw =>
                  right
                  obtain ⟨call, hcall, hthrow⟩ : ∃ call ∈ (List.range
                      ((b.deferredReplies.lookup newNode.nodeId).getD []).length).map
                        (.sendDeferred newNode.nodeId), answers call ≠ none := by
                    by_contra hcalls
                    push Not at hcalls
                    simp [hsends.2 hcalls] at hsend
                  refine ⟨⟨call, ?_, hthrow⟩, throw.2, ?_⟩
                  · exact List.mem_cons_of_mem _ (List.mem_cons_of_mem _
                      (List.mem_append_right _ hcall))
                  · simp [onNodeAlive, hnode, hsocket, hconnect, predicateThrows, hpredicate,
                      evaluateClusterStateWaiters, hsend]
              | none =>
                  left
                  refine ⟨?_, ?_⟩
                  · simp only [callsOnNodeAlive, List.forall_mem_cons, List.forall_mem_append]
                    exact ⟨hsocket, hconnect, hcalls, hsends.1 hsend⟩
                  · rw [onNodeAlive_calm hnode]
                    simp [onNodeAlive, hnode, hsocket, hconnect, predicateThrows, hpredicate,
                      evaluateClusterStateWaiters, hsend]

/-- Gossip that agrees with the table is not refused, if nothing throws. -/
theorem handleNodeState_ok (hagree : Agree K) (h : b.Knows K) {incoming : NodeState}
    (hin : K incoming) : (b.handleNodeState incoming).result = .ok () := by
  unfold handleNodeState
  split
  · rw [onNodeAlive_calm (AList.lookup_insert _)]
  · next cur hcur =>
      obtain ⟨hid, hns⟩ := h.table _ cur hcur
      obtain ⟨haddress, hname⟩ := hagree cur incoming hns hin hid
      simp [haddress, hname]

/-- **When gossip that agrees with the table is handled to its end**: exactly if none of the calls
throws, whatever the length of the message. -/
theorem handleNodeStates_ok_iff {answers : OutsideAnswers} (hK : Timeless K) (hagree : Agree K)
    {incoming : List NodeState} (hin : ∀ ns ∈ incoming, K ns) (h : b.Knows K) :
    (b.handleNodeStates incoming answers).result = .ok () ↔
      ∀ call ∈ b.gossipCalls incoming, answers call = none := by
  induction incoming generalizing b with
  | nil => simp [handleNodeStates, gossipCalls]
  | cons ns rest ih =>
      have hns := hin ns List.mem_cons_self
      have hrest := ih (fun ns' hns' => hin ns' (List.mem_cons_of_mem ns hns'))
        (@kept_handleNodeState _ _ OutsideAnswers.calm hK h _ hns).knows
      have hcalm := handleNodeState_ok hagree h hns
      -- a state that is handled as if nothing could throw
      have hsame : b.handleNodeState ns answers = b.handleNodeState ns →
          ((b.handleNodeStates (ns :: rest) answers).result = .ok () ↔
            ∀ call ∈ gossipCalls (b.handleNodeState ns).broker rest, answers call = none) := by
        intro hsame
        rw [handleNodeStates, hsame, hcalm]
        exact hrest
      simp only [gossipCalls, List.forall_mem_append]
      cases hlookup : b.nodeIdToState.lookup ns.nodeId with
      | some cur =>
          have hmem : ns.nodeId ∈ b.nodeIdToState := AList.lookup_isSome.1 (by simp [hlookup])
          rw [hsame (by simp [handleNodeState, hlookup]), if_pos hmem]
          simp
      | none =>
          have hmem : ns.nodeId ∉ b.nodeIdToState := AList.lookup_eq_none.1 hlookup
          have hcases := onNodeAlive_cases (b := { b with
            nodeIdToState := b.nodeIdToState.insert ns.nodeId ns }) (AList.lookup_insert _) answers
          rw [if_neg hmem]
          rcases hcases with ⟨hcalls, heq⟩ | ⟨⟨call, hcall, hthrow⟩, what, hresult⟩
          · rw [hsame (by simpa [handleNodeState, hlookup] using heq)]
            exact ⟨fun hrest => ⟨hcalls, hrest⟩, fun hall => hall.2⟩
          · have hfirst : (b.handleNodeState ns answers).result = .error (.outside what) := by
              simpa [handleNodeState, hlookup] using hresult
            refine iff_of_false ?_ fun hall => hthrow (hall.1 call hcall)
            simp [handleNodeStates, hfirst]

theorem kept_sendGossip (h : b.Knows K) {msg : BrokerGossipMessage}
    (hmsg : ∀ ns ∈ msg.nodeStates, K ns) (nodeIds : List NodeId) :
    Kept K b (b.sendGossip (.gossip msg) nodeIds).broker
      (b.sendGossip (.gossip msg) nodeIds).sent := by
  induction nodeIds with
  | nil => exact Kept.refl h
  | cons nodeId nodeIds ih =>
      unfold sendGossip
      split
      · refine ⟨ih.thisNodeId, ih.clusterConfig, ih.requestHandler, ih.knows, fun s hs => ?_⟩
        rcases List.mem_cons.1 hs with rfl | hs
        · exact hmsg
        · exact ih.sent s hs
      · exact Kept.refl h

theorem kept_broadcastGossip {answers : OutsideAnswers} (hK : Timeless K) (h : b.Knows K)
    (now : TimeMs) (nodeIds : List NodeId) : Kept K b (b.broadcastGossip now nodeIds answers).broker
      (b.broadcastGossip now nodeIds answers).sent := by
  unfold broadcastGossip
  split
  · exact Kept.refl h
  · next state hstate =>
      obtain ⟨hid, hns⟩ := h.table _ state hstate
      have hknows := @table_insert K b h b.thisNodeId { state with lastSeenTimestampMs := now } hid
        (hK state now hns)
      have htell : ∀ ns ∈ UnorderedMap.values (b.nodeIdToState.insert b.thisNodeId
          { state with lastSeenTimestampMs := now }), K ns := by
        intro ns hmem
        obtain ⟨k, hk⟩ := UnorderedMap.mem_values.1 hmem
        exact (hknows.table k ns hk).2
      dsimp only
      split
      · exact ⟨rfl, rfl, rfl, hknows, by simp⟩
      · have hsend := @kept_sendGossip _ _ hknows ⟨b.thisNodeId, _⟩ htell nodeIds
        split
        · exact ⟨hsend.thisNodeId, hsend.clusterConfig, hsend.requestHandler, hsend.knows,
            hsend.sent⟩
        · split
          · exact ⟨rfl, rfl, rfl, hknows, hsend.sent⟩
          · unfold connectContactSendSocket
            refine ⟨?_, ?_, ?_, ?_, fun s hs => ?_⟩
            · split <;> (try split) <;> rfl
            · split <;> (try split) <;> rfl
            · split <;> (try split) <;> rfl
            · split <;> (try split) <;> exact ⟨hknows.table, hknows.sockets⟩
            · rcases List.mem_append.1 hs with hs | hs
              · exact hsend.sent s hs
              · simp only [Option.mem_toList, Option.map_eq_some_iff] at hs
                obtain ⟨socket, -, rfl⟩ := hs
                exact htell

/-! ### Receiving -/

theorem kept_resumeHandleIncomingRequest {answers : OutsideAnswers} (h : b.Knows K)
    (msg : BrokerTwoWayMessage) (data : ByteBuffer) :
    Kept K b (b.resumeHandleIncomingRequest msg data answers).broker
      (b.resumeHandleIncomingRequest msg data answers).sent := by
  have hreply := kept_sendReply h ⟨msg.requestNodeId, msg.requestId, data⟩
  unfold resumeHandleIncomingRequest
  dsimp only
  split
  · split
    all_goals exact ⟨hreply.thisNodeId, hreply.clusterConfig, hreply.requestHandler, hreply.knows,
      by simp⟩
  · exact hreply

/-- **When the reply to a request is sent or deferred**: exactly if it is deferred, or its sending
does not throw. -/
theorem resumeHandleIncomingRequest_ok_iff {answers : OutsideAnswers} {msg : BrokerTwoWayMessage}
    {data : ByteBuffer} : (b.resumeHandleIncomingRequest msg data answers).result = .ok () ↔
      (msg.requestNodeId ∈ b.nodeIdToSendSocket → answers .sendReply = none) := by
  unfold resumeHandleIncomingRequest
  cases hanswer : answers .sendReply with
  | none => simp
  | some what =>
      cases hsocket : b.nodeIdToSendSocket.lookup msg.requestNodeId with
      | none =>
          have hmem : msg.requestNodeId ∉ b.nodeIdToSendSocket := AList.lookup_eq_none.1 hsocket
          simp [sendReply, hsocket, hmem]
      | some socket =>
          have hmem : msg.requestNodeId ∈ b.nodeIdToSendSocket :=
            AList.lookup_isSome.1 (by simp [hsocket])
          simp [sendReply, hsocket, hmem]

theorem kept_dispatchReceivedMessage {answers : OutsideAnswers} (hK : Timeless K) (h : b.Knows K)
    {s : Sent} (hs : s.Knows K) : Kept K b (b.dispatchReceivedMessage s.msg answers).broker
      (b.dispatchReceivedMessage s.msg answers).sent := by
  unfold Sent.Knows at hs
  unfold dispatchReceivedMessage
  split
  · next msg hmsg =>
      rw [hmsg] at hs
      exact kept_handleNodeStates hK hs h
  · split
    · unfold handleRepliedResponse
      split
      · exact Kept.refl h
      · exact ⟨rfl, rfl, rfl, ⟨h.table, h.sockets⟩, by simp⟩
    · split
      · unfold handleIncomingRequest
        split <;> exact Kept.refl h
      · exact Kept.refl h

/-- The message is gossip, or one of its two nodes is this one. -/
def Concerns (b : Broker) : BrokerMessage → Prop
  | .gossip _ => True
  | .twoWay msg => msg.requestNodeId = b.thisNodeId ∨ msg.responseNodeId = b.thisNodeId

instance (b : Broker) (msg : BrokerMessage) : Decidable (b.Concerns msg) :=
  match msg with
  | .gossip _ => isTrue trivial
  | .twoWay _ => inferInstanceAs (Decidable (_ ∨ _))

/-- **When `DispatchReceivedMessage` returns**: exactly if the message concerns this node, and none
of the calls of code outside throws. -/
theorem dispatchReceivedMessage_ok_iff {answers : OutsideAnswers} (hK : Timeless K)
    (hagree : Agree K) (h : b.Knows K) (hhandler : b.requestHandler = true) {s : Sent}
    (hs : s.Knows K) :
    (∃ r, (b.dispatchReceivedMessage s.msg answers).result = .ok r) ↔
      b.Concerns s.msg ∧ ∀ call ∈ b.dispatchCalls s.msg, answers call = none := by
  unfold Sent.Knows at hs
  cases hmsg : s.msg with
  | gossip msg =>
      rw [hmsg] at hs
      have hiff := @handleNodeStates_ok_iff _ _ answers hK hagree _ hs h
      simp only [dispatchReceivedMessage, handleGossipMessage, Concerns, true_and, dispatchCalls]
      rw [← hiff]
      cases (b.handleNodeStates msg.nodeStates answers).result <;> simp [Except.map]
  | twoWay msg =>
      simp only [dispatchReceivedMessage, Concerns, handleIncomingRequest, hhandler, if_true,
        dispatchCalls]
      split
      · next hreq => simp [hreq]
      · next hreq =>
          split
          · next hresp => simp [hresp]
          · next hresp => simp [hreq, hresp]

end Broker

end ExActor
