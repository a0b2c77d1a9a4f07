/-
**The requests and replies that pass through a broker.**

What a step of a broker contributes to the history of the requests: the request it sends, the
request it hands to the request handler, the answer of the handler, the reply it receives, and the
request that resumes.  Everything two-way that a broker sends is one of its requests or a reply that
was completed; what it holds of requests and replies changes accordingly.

Main definitions:

* `Process.requests`, `Process.handlerRuns`, `Process.answers`, `Process.repliesReceived`,
  `Process.resumptions` — what a step contributes.

Main results:

* `Process.requests_of_react` — the request that a step sends;
* `Process.responseNodeId_of_sent` — **all else that is two-way is a reply**;
* `Process.handling_of_react` — the requests that the handler works on;
* `Process.mem_waitingFor_of_react`, `Process.reply_of_react` — where replies come from.
-/

import ExActor.BrokerReplies
import ExActor.BrokerRequests

set_option relaxedAutoImplicit false
set_option autoImplicit false

namespace ExActor

/-! ### What a step contributes -/

namespace Process

/-- The request that the action sends: `SendRequest` suspends. -/
def requests (p : Process) : BrokerAction → List BrokerTwoWayMessage
  | .process (.sendRequest toNodeId data) =>
      match (p.broker.sendRequest toNodeId data).result with
      | .ok requestId => [⟨p.broker.thisNodeId, toNodeId, requestId, data⟩]
      | .error _ => []
  | _ => []

/-- The request that the action hands to the request handler. -/
def handlerRuns (p : Process) : BrokerAction → List BrokerTwoWayMessage
  | .receive msg =>
      match (p.broker.dispatchReceivedMessage msg).result with
      | .ok request => request.toList
      | .error _ => []
  | _ => []

/-- The answer of the request handler, with the request. -/
def answers (p : Process) : BrokerAction → List (BrokerTwoWayMessage × ByteBuffer)
  | .process (.resumeHandleIncomingRequest n data) =>
      ((p.handling[n]?).map fun msg => (msg, data)).toList
  | _ => []

/-- The reply to an outstanding request that the action handles. -/
def repliesReceived (p : Process) : BrokerAction → List (RequestId × ByteBuffer)
  | .receive (.twoWay msg) =>
      if msg.requestNodeId = p.broker.thisNodeId ∧ msg.requestId ∈ p.broker.outstandingRequests then
        [(msg.requestId, msg.payload)]
      else []
  | _ => []

/-- The request that resumes, with what it returns or throws. -/
def resumptions (p : Process) : BrokerAction → List (RequestId × Outcome)
  | .process (.resumeSendRequest requestId) =>
      ((p.broker.resumeSendRequest requestId).map fun q => (requestId, q.2)).toList
  | _ => []

end Process

/-! ### The methods -/

namespace Broker

variable {b : Broker}

/-- What `SendRequest` does with the counter. -/
theorem sendRequestIdCounter_sendRequest (b : Broker) (toNodeId : NodeId) (data : ByteBuffer) :
    (b.sendRequest toNodeId data).broker.sendRequestIdCounter
      = if toNodeId = b.thisNodeId then b.sendRequestIdCounter else b.sendRequestIdCounter + 1 := by
  rcases sendRequest_cases b toNodeId data with ⟨hself, heq⟩ | ⟨hother, -, heq⟩ |
    ⟨_, hother, -, -, heq⟩ | ⟨_, hother, -, -, heq⟩
  · rw [heq, if_pos hself]
  · rw [heq, if_neg hother]
  · rw [heq, if_neg hother]
  · rw [heq, if_neg hother]

theorem sendRequestIdCounter_construct {nodeId : NodeId} {config : ClusterConfig} {now : TimeMs}
    (h : construct nodeId config now = .ok b) : b.sendRequestIdCounter = 0 := by
  unfold construct at h
  split at h
  · simp at h
  · dsimp only at h
    split at h
    · obtain rfl := Except.ok.inj h
      rfl
    · split at h
      · simp at h
      · obtain rfl := Except.ok.inj h
        rfl

theorem sendRequestIdCounter_lost (b : Broker) (nodeIds : List NodeId) :
    (nodeIds.foldl onNodeConnectionLost b).sendRequestIdCounter = b.sendRequestIdCounter := by
  induction nodeIds generalizing b with
  | nil => rfl
  | cons nodeId nodeIds ih => exact ih (b.onNodeConnectionLost nodeId)

/-- What `SendRequest` sends when the next id is not in use. -/
theorem sent_sendRequest (hfree : b.sendRequestIdCounter ∉ b.outstandingRequests)
    (toNodeId : NodeId) (data : ByteBuffer) :
    (∃ socket, toNodeId ≠ b.thisNodeId ∧ b.nodeIdToSendSocket.lookup toNodeId = some socket ∧
      (b.sendRequest toNodeId data).result = .ok b.sendRequestIdCounter ∧
      (b.sendRequest toNodeId data).sent
        = [⟨socket, .twoWay ⟨b.thisNodeId, toNodeId, b.sendRequestIdCounter, data⟩⟩]) ∨
      (∃ e, (b.sendRequest toNodeId data).result = .error e) ∧
        (b.sendRequest toNodeId data).sent = [] := by
  rcases sendRequest_cases b toNodeId data with ⟨-, heq⟩ | ⟨-, -, heq⟩ | ⟨_, -, -, hused, heq⟩ |
    ⟨socket, hother, hsocket, -, heq⟩
  · rw [heq]
    exact Or.inr ⟨⟨_, rfl⟩, rfl⟩
  · rw [heq]
    exact Or.inr ⟨⟨_, rfl⟩, rfl⟩
  · exact absurd hused hfree
  · rw [heq]
    exact Or.inl ⟨socket, hother, hsocket, rfl, rfl⟩

/-- Replies carry the id of the node that sends them. -/
theorem responseNodeId_of_mem_sendReply {reply : ReplyOperation} {s : Sent}
    (h : s ∈ (b.sendReply reply).2) {msg : BrokerTwoWayMessage} (hmsg : s.msg = .twoWay msg) :
    msg.responseNodeId = b.thisNodeId := by
  unfold sendReply at h
  split at h
  · simp at h
  · obtain rfl := List.mem_singleton.1 h
    obtain rfl := BrokerMessage.twoWay.inj hmsg
    rfl

theorem thisNodeId_sendReply (b : Broker) (reply : ReplyOperation) :
    (b.sendReply reply).1.thisNodeId = b.thisNodeId := by
  obtain ⟨deferred, heq⟩ := sendReply_eq b reply
  rw [heq]

theorem responseNodeId_of_mem_sendReplies {replies : List ReplyOperation} {s : Sent}
    (h : s ∈ (b.sendReplies replies).2) {msg : BrokerTwoWayMessage} (hmsg : s.msg = .twoWay msg) :
    msg.responseNodeId = b.thisNodeId := by
  induction replies generalizing b with
  | nil => simp [sendReplies] at h
  | cons reply replies ih =>
      rcases List.mem_append.1 h with h | h
      · exact responseNodeId_of_mem_sendReply h hmsg
      · exact (ih h).trans (thisNodeId_sendReply b reply)

theorem responseNodeId_of_mem_handleNodeStates {nss : List NodeState} {s : Sent}
    (h : s ∈ (b.handleNodeStates nss).sent) {msg : BrokerTwoWayMessage}
    (hmsg : s.msg = .twoWay msg) : msg.responseNodeId = b.thisNodeId := by
  induction nss generalizing b with
  | nil => simp [handleNodeStates] at h
  | cons ns nss ih =>
      have hfirst : s ∈ (b.handleNodeState ns).sent → msg.responseNodeId = b.thisNodeId := by
        intro h
        unfold handleNodeState at h
        split at h
        · have h : s ∈ (b.discover ns).sent := h
          rw [discover_eq] at h
          exact responseNodeId_of_mem_sendReplies h hmsg
        · split at h
          · simp at h
          · split at h <;> simp at h
      unfold handleNodeStates at h
      dsimp only at h
      split at h
      · exact hfirst h
      · rcases List.mem_append.1 h with h | h
        · exact hfirst h
        · exact (ih h).trans (changes_handleNodeState b ns).thisNodeId

end Broker

/-! ### What a step sends -/

namespace Process

variable {p p' : Process} {a : BrokerAction} {sent : List Sent}

/-- The counter goes on only for `SendRequest`. -/
theorem counter_of_react (ha : p.react a = some (p', sent)) :
    p'.broker.sendRequestIdCounter = p.broker.sendRequestIdCounter ∨
      (∃ toNodeId data, a = .process (.sendRequest toNodeId data)) ∧
        p'.broker.sendRequestIdCounter = p.broker.sendRequestIdCounter + 1 := by
  cases reaction_of_react ha with
  | replied msg hthis =>
      refine Or.inl ?_
      unfold Broker.handleRepliedResponse
      split <;> rfl
  | requested toNodeId data =>
      have hcounter := Broker.sendRequestIdCounter_sendRequest p.broker toNodeId data
      split at hcounter
      · exact Or.inl hcounter
      · exact Or.inr ⟨⟨toNodeId, data, rfl⟩, hcounter⟩
  | checked now =>
      exact Or.inl (Broker.sendRequestIdCounter_lost p.broker (p.broker.nodesToRemove now))
  | handled | refused | requestResumed => exact Or.inl rfl
  | started | gossiped | answered | broadcast | waited | waitResumed | expired =>
      exact Or.inl (sameRequests_of_react ha rfl).sendRequestIdCounter

/-- **The request that a step sends**, if the next id is not in use: it is all that the step
sends. -/
theorem requests_of_react (hfree : p.broker.sendRequestIdCounter ∉ p.broker.outstandingRequests)
    (ha : p.react a = some (p', sent)) :
    p.requests a = [] ∨ ∃ toNodeId data socket,
      p.requests a = [⟨p.broker.thisNodeId, toNodeId, p.broker.sendRequestIdCounter, data⟩] ∧
      a = .process (.sendRequest toNodeId data) ∧ toNodeId ≠ p.broker.thisNodeId ∧
      p.broker.nodeIdToSendSocket.lookup toNodeId = some socket ∧
      p'.broker.sendRequestIdCounter = p.broker.sendRequestIdCounter + 1 ∧
      sent = [⟨socket, .twoWay
        ⟨p.broker.thisNodeId, toNodeId, p.broker.sendRequestIdCounter, data⟩⟩] := by
  unfold requests
  split
  · next toNodeId data =>
      obtain ⟨rfl, rfl⟩ := Prod.mk.inj (Option.some.inj ha)
      rcases Broker.sent_sendRequest hfree toNodeId data with
        ⟨socket, hother, hsocket, hresult, hsent⟩ | ⟨⟨e, hresult⟩, -⟩
      · have hcounter := Broker.sendRequestIdCounter_sendRequest p.broker toNodeId data
        rw [if_neg hother] at hcounter
        rw [hresult]
        exact Or.inr ⟨toNodeId, data, socket, rfl, rfl, hother, hsocket, hcounter, hsent⟩
      · rw [hresult]
        exact Or.inl rfl
  · exact Or.inl rfl

/-- **All that is two-way and no request is a reply**: it carries the id of the node that sends
it. -/
theorem responseNodeId_of_sent
    (hfree : p.broker.sendRequestIdCounter ∉ p.broker.outstandingRequests)
    (ha : p.react a = some (p', sent)) (hnone : p.requests a = []) {s : Sent} (hs : s ∈ sent)
    {msg : BrokerTwoWayMessage} (hmsg : s.msg = .twoWay msg) :
    msg.responseNodeId = p.broker.thisNodeId := by
  cases reaction_of_react ha with
  | gossiped m status => exact Broker.responseNodeId_of_mem_handleNodeStates hs hmsg
  | requested toNodeId data =>
      rcases Broker.sent_sendRequest hfree toNodeId data with
        ⟨socket, -, -, hresult, -⟩ | ⟨-, hsent⟩
      · simp [requests, hresult] at hnone
      · simp [hsent] at hs
  | answered n data m hm => exact Broker.responseNodeId_of_mem_sendReply hs hmsg
  | broadcast now nodeIds status =>
      obtain ⟨m, hgossip⟩ := Broker.gossip_of_mem_broadcastGossip hs
      simp [hgossip] at hmsg
  | _ => simp at hs

/-! ### What the handler works on -/

theorem handlerRuns_gossip (p : Process) (msg : BrokerGossipMessage) :
    p.handlerRuns (.receive (.gossip msg)) = [] := by
  simp only [handlerRuns, Broker.dispatchReceivedMessage]
  cases (p.broker.handleGossipMessage msg).result with
  | error e => rfl
  | ok _ => rfl

theorem handlerRuns_of_handled {msg : BrokerTwoWayMessage}
    (hthis : msg.requestNodeId ≠ p.broker.thisNodeId)
    (hother : msg.responseNodeId = p.broker.thisNodeId) (hset : p.broker.requestHandler = true) :
    p.handlerRuns (.receive (.twoWay msg)) = [msg] := by
  simp [handlerRuns, Broker.dispatchReceivedMessage, hthis, hother, Broker.handleIncomingRequest,
    hset]

/-- **The requests that the handler works on**: each run adds one, and each answer takes it away. -/
theorem handling_of_react (ha : p.react a = some (p', sent)) :
    (p'.handling ++ (p.answers a).map Prod.fst).Perm (p.handling ++ p.handlerRuns a) := by
  cases reaction_of_react ha with
  | gossiped msg status =>
      rw [handlerRuns_gossip]
      exact List.Perm.refl _
  | replied msg hthis =>
      rw [handlerRuns, Broker.dispatchReceivedMessage, if_pos hthis]
      exact List.Perm.refl _
  | handled msg hthis hother hset =>
      have hnone : p.answers (.receive (.twoWay msg)) = [] := rfl
      rw [handlerRuns_of_handled hthis hother hset, hnone, List.map_nil, List.append_nil]
  | refused msg e hthis herror =>
      rw [handlerRuns, herror]
      exact List.Perm.refl _
  | answered n data msg hmsg =>
      obtain ⟨hlt, rfl⟩ := List.getElem?_eq_some_iff.1 hmsg
      simp only [answers, handlerRuns, hmsg, Option.map_some, Option.toList_some,
        List.map_cons, List.map_nil, List.append_nil]
      exact List.perm_append_comm.trans (List.getElem_cons_eraseIdx_perm hlt)
  | _ => exact List.Perm.refl _

/-- A request that is handed to the handler was received, and is addressed to this node. -/
theorem handlerRuns_cases {msg : BrokerTwoWayMessage} (h : msg ∈ p.handlerRuns a) :
    a = .receive (.twoWay msg) ∧ msg.requestNodeId ≠ p.broker.thisNodeId ∧
      msg.responseNodeId = p.broker.thisNodeId ∧ p.handlerRuns a = [msg] := by
  cases a with
  | start | process => simp [handlerRuns] at h
  | receive m =>
      have hreaction := p.reaction_receive m
      generalize (p.receive m).1 = p', (p.receive m).2 = sent at hreaction
      cases hreaction with
      | gossiped m status =>
          rw [handlerRuns_gossip] at h
          simp at h
      | replied m hthis => simp [handlerRuns, Broker.dispatchReceivedMessage, hthis] at h
      | handled m hthis hother hset =>
          rw [handlerRuns_of_handled hthis hother hset] at h ⊢
          obtain rfl := List.mem_singleton.1 h
          exact ⟨rfl, hthis, hother, rfl⟩
      | refused m e hthis herror => simp [handlerRuns, herror] at h

/-! ### Where replies come from -/

/-- What is received for a reply names this node as its requester. -/
theorem repliesReceived_cases {r : RequestId × ByteBuffer} (h : r ∈ p.repliesReceived a) :
    ∃ msg, a = .receive (.twoWay msg) ∧ msg.requestNodeId = p.broker.thisNodeId ∧
      r = (msg.requestId, msg.payload) := by
  unfold repliesReceived at h
  split at h
  · next msg =>
      split at h
      · next hthis => exact ⟨msg, rfl, hthis.1, List.mem_singleton.1 h⟩
      · simp at h
  · simp at h

/-- A reply that the action completes is an answer of the handler. -/
theorem exists_answer_of_completions {reply : ReplyOperation} (h : reply ∈ p.completions a) :
    ∃ msg, (msg, reply.data) ∈ p.answers a ∧ msg.requestNodeId = reply.requestNodeId ∧
      msg.requestId = reply.requestId := by
  unfold completions at h
  split at h
  · next n data =>
      simp only [Option.mem_toList, Option.map_eq_some_iff] at h
      obtain ⟨msg, hmsg, rfl⟩ := h
      exact ⟨msg, by simp [answers, hmsg], rfl, rfl⟩
  · simp at h

end Process

/-! ### The history of a broker -/

namespace Process

variable {β : Type} {tr : List (Process × BrokerAction)} {p p' : Process} {a : BrokerAction}
  {msgs : List Sent}

/-- What the steps of a run contribute, oldest first. -/
def history (f : Process → BrokerAction → List β) (tr : List (Process × BrokerAction)) : List β :=
  tr.flatMap fun s => f s.1 s.2

@[simp] theorem history_nil (f : Process → BrokerAction → List β) : history f [] = [] := rfl

@[simp] theorem history_append (f : Process → BrokerAction → List β)
    (tr tr' : List (Process × BrokerAction)) :
    history f (tr ++ tr') = history f tr ++ history f tr' := List.flatMap_append

@[simp] theorem history_singleton (f : Process → BrokerAction → List β) (p : Process)
    (a : BrokerAction) : history f [(p, a)] = f p a := List.flatMap_singleton _ _

/-- The calls of `SendRequest`. -/
def calls (_ : Process) : BrokerAction → List (NodeId × ByteBuffer)
  | .process (.sendRequest toNodeId data) => [(toNodeId, data)]
  | _ => []

/-- A request resumes when it was signalled, and is no longer outstanding. -/
theorem resumptions_cases {r : RequestId × Outcome} (h : r ∈ p.resumptions a) :
    ∃ request, p.broker.outstandingRequests.lookup r.1 = some request ∧
      request.returns = some r.2 ∧ p.resumptions a = [r] ∧ p.nextRequest a r.1 = none := by
  unfold resumptions at h
  split at h
  · next requestId =>
      obtain ⟨q, hq, rfl⟩ := Option.map_eq_some_iff.1 (Option.mem_toList.1 h)
      have hreturns := Broker.resumeSendRequest_snd p.broker requestId
      rw [hq, Option.map_some] at hreturns
      obtain ⟨request, hrequest, hreturned⟩ := Option.bind_eq_some_iff.1 hreturns.symm
      exact ⟨request, hrequest, hreturned, by simp [resumptions, hq], by simp [nextRequest]⟩
  · simp at h

/-- The requests of a run are numbered: each has an id of its own, every outstanding request is one
of them, and none is outstanding after it has resumed. -/
structure Numbered (tr : List (Process × BrokerAction)) (p : Process) : Prop where
  counter : p.broker.sendRequestIdCounter.toNat ≤ (history calls tr).length
  sent : ∀ msg ∈ history requests tr, msg.requestNodeId = p.broker.thisNodeId ∧
    msg.requestId < p.broker.sendRequestIdCounter
  sentOnce : ((history requests tr).map (·.requestId)).Nodup
  outstanding : ∀ requestId request,
    p.broker.outstandingRequests.lookup requestId = some request →
      requestId ∈ (history requests tr).map (·.requestId)
  resumed : ∀ r ∈ history resumptions tr, r.1 ∈ (history requests tr).map (·.requestId) ∧
    r.1 ∉ p.broker.outstandingRequests
  resumedOnce : ((history resumptions tr).map Prod.fst).Nodup

theorem numbered_construct {nodeId : NodeId} {config : ClusterConfig} {now : TimeMs} {b : Broker}
    (h : Broker.construct nodeId config now = .ok b) : Numbered [] ⟨b, [], .running⟩ := by
  refine ⟨?_, by simp, by simp, fun requestId request hlookup => ?_, by simp, by simp⟩
  · rw [Broker.sendRequestIdCounter_construct h]
    exact Nat.zero_le _
  · simp [(Broker.construct_pending h).1] at hlookup

/-- The next id is not in use. -/
theorem Numbered.free (h : Numbered tr p) :
    p.broker.sendRequestIdCounter ∉ p.broker.outstandingRequests := by
  intro hmem
  obtain ⟨request, hrequest⟩ := UnorderedMap.exists_lookup hmem
  obtain ⟨msg, hmsg, hid⟩ := List.mem_map.1 (h.outstanding _ request hrequest)
  have hlt := (h.sent msg hmsg).2
  rw [hid] at hlt
  exact BitVec.lt_irrefl _ hlt

/-- The counter goes on by at most the number of calls, and does not wrap. -/
theorem Numbered.counter_le (h : Numbered tr p) (ha : p.react a = some (p', msgs))
    (hcalls : (history calls (tr ++ [(p, a)])).length < 2 ^ 64) :
    p.broker.sendRequestIdCounter ≤ p'.broker.sendRequestIdCounter ∧
      p'.broker.sendRequestIdCounter.toNat ≤ (history calls (tr ++ [(p, a)])).length ∧
      (p'.broker.sendRequestIdCounter = p.broker.sendRequestIdCounter + 1 →
        p.broker.sendRequestIdCounter < p'.broker.sendRequestIdCounter) := by
  have hcounter := h.counter
  rw [history_append, history_singleton, List.length_append] at hcalls ⊢
  rcases counter_of_react ha with heq | ⟨⟨toNodeId, data, rfl⟩, heq⟩
  · rw [heq]
    refine ⟨BitVec.le_refl _, by omega, fun hwrap => absurd hwrap ?_⟩
    bv_omega
  · have hone : (p.calls (.process (.sendRequest toNodeId data))).length = 1 := rfl
    rw [hone] at hcalls ⊢
    have hnext : (p.broker.sendRequestIdCounter + 1).toNat
        = p.broker.sendRequestIdCounter.toNat + 1 := by
      rw [BitVec.toNat_add]
      exact Nat.mod_eq_of_lt (by simpa using by omega)
    rw [heq, BitVec.le_def, BitVec.lt_def, hnext]
    omega

/-- A step sends a request with the next id, or none. -/
theorem Numbered.requests_cases (h : Numbered tr p) (ha : p.react a = some (p', msgs)) :
    p.requests a = [] ∨ ∃ toNodeId data,
      p.requests a = [⟨p.broker.thisNodeId, toNodeId, p.broker.sendRequestIdCounter, data⟩] ∧
      p'.broker.sendRequestIdCounter = p.broker.sendRequestIdCounter + 1 := by
  rcases requests_of_react h.free ha with hnone | ⟨toNodeId, data, -, hone, -, -, -, hcounter, -⟩
  · exact Or.inl hnone
  · exact Or.inr ⟨toNodeId, data, hone, hcounter⟩

/-- The step lemma for the numbers of the requests. -/
theorem Numbered.step (h : Numbered tr p) (ha : p.react a = some (p', msgs))
    (hcalls : (history calls (tr ++ [(p, a)])).length < 2 ^ 64) :
    Numbered (tr ++ [(p, a)]) p' := by
  obtain ⟨hle, hcounter, hlt⟩ := h.counter_le ha hcalls
  have hthis := (changes_of_react ha).thisNodeId
  -- an id that was given away before is not the next one
  have hold : ∀ requestId ∈ (history requests tr).map (·.requestId),
      requestId < p.broker.sendRequestIdCounter := by
    intro requestId hmem
    obtain ⟨msg, hmsg, rfl⟩ := List.mem_map.1 hmem
    exact (h.sent msg hmsg).2
  -- a request that has a successor is old, or is the one that is sent
  have hrequest : ∀ requestId request,
      p'.broker.outstandingRequests.lookup requestId = some request →
        requestId ∈ p.broker.outstandingRequests ∨ requestId = p.broker.sendRequestIdCounter ∧
          requestId ∈ (p.requests a).map (·.requestId) := by
    intro requestId request hlookup
    rw [lookup_of_react ha] at hlookup
    rcases request_cases hlookup with ⟨-, toNodeId, data, rfl, hok, -⟩ | ⟨before, hbefore, -⟩
    · exact Or.inr ⟨(Broker.notMem_of_sendRequest hok).1, by simp [requests, hok]⟩
    · exact Or.inl (UnorderedMap.mem_of_lookup hbefore)
  refine ⟨hcounter, fun msg hmsg => ?_, ?_, fun requestId request hlookup => ?_, fun r hr => ?_, ?_⟩
  · rw [history_append, history_singleton] at hmsg
    rw [hthis]
    rcases List.mem_append.1 hmsg with hmsg | hmsg
    · have hid := lt_of_lt_of_le (BitVec.lt_def.1 (h.sent msg hmsg).2) (BitVec.le_def.1 hle)
      exact ⟨(h.sent msg hmsg).1, BitVec.lt_def.2 hid⟩
    · rcases h.requests_cases ha with hnone | ⟨toNodeId, data, hone, hnext⟩
      · simp [hnone] at hmsg
      · rw [hone] at hmsg
        obtain rfl := List.mem_singleton.1 hmsg
        exact ⟨rfl, hlt hnext⟩
  · rw [history_append, history_singleton, List.map_append]
    rcases h.requests_cases ha with hnone | ⟨toNodeId, data, hone, -⟩
    · simpa [hnone] using h.sentOnce
    · rw [hone]
      refine List.nodup_append'.2 ⟨h.sentOnce, List.nodup_singleton _, ?_⟩
      intro requestId hmem hnew
      obtain rfl := List.mem_singleton.1 hnew
      exact BitVec.lt_irrefl _ (hold _ hmem)
  · rw [history_append, history_singleton, List.map_append]
    rcases hrequest requestId request hlookup with hmem | ⟨-, hmem⟩
    · obtain ⟨before, hbefore⟩ := UnorderedMap.exists_lookup hmem
      exact List.mem_append_left _ (h.outstanding requestId before hbefore)
    · exact List.mem_append_right _ hmem
  · rw [history_append, history_singleton] at hr
    rw [history_append, List.map_append]
    rcases List.mem_append.1 hr with hr | hr
    · -- it has resumed before, and its id is not given away again
      obtain ⟨hsent, hgone⟩ := h.resumed r hr
      refine ⟨List.mem_append_left _ hsent, fun hmem => ?_⟩
      obtain ⟨request, hlookup⟩ := UnorderedMap.exists_lookup hmem
      rcases hrequest r.1 request hlookup with hmem | ⟨heq, -⟩
      · exact hgone hmem
      · exact BitVec.lt_irrefl _ (heq ▸ hold _ hsent)
    · obtain ⟨request, hlookup, -, -, hnone⟩ := resumptions_cases hr
      refine ⟨List.mem_append_left _ (h.outstanding r.1 request hlookup), fun hmem => ?_⟩
      obtain ⟨request', hlookup'⟩ := UnorderedMap.exists_lookup hmem
      rw [lookup_of_react ha, hnone] at hlookup'
      simp at hlookup'
  · rw [history_append, history_singleton, List.map_append]
    refine List.nodup_append'.2 ⟨h.resumedOnce, ?_, fun requestId hmem hnew => ?_⟩
    · rcases hresumed : p.resumptions a with _ | ⟨r, rest⟩
      · exact List.nodup_nil
      · have hmem : r ∈ p.resumptions a := by simp [hresumed]
        obtain ⟨-, -, -, hone, -⟩ := resumptions_cases hmem
        rw [← hresumed, hone]
        exact List.nodup_singleton _
    · obtain ⟨r, hr, rfl⟩ := List.mem_map.1 hmem
      obtain ⟨r', hr', heq⟩ := List.mem_map.1 hnew
      obtain ⟨request, hlookup, -⟩ := resumptions_cases hr'
      rw [heq] at hlookup
      exact (h.resumed r hr).2 (UnorderedMap.mem_of_lookup hlookup)

/-- **The requests of a broker are numbered**, in every run with fewer than 2⁶⁴ calls. -/
theorem numbered_of_exec (h : machine.Exec tr p) (hcalls : (history calls tr).length < 2 ^ 64) :
    Numbered tr p := by
  induction h with
  | init h0 =>
      obtain ⟨nodeId, config, now, b, hb, rfl⟩ := h0
      exact numbered_construct hb
  | @step tr p p' a _ hn ih =>
      have hbefore : (history calls tr).length < 2 ^ 64 := by
        rw [history_append, List.length_append] at hcalls
        omega
      exact (ih hbefore).step (next_eq_some hn) hcalls

/-! ### Replies that complete a request -/

/-- A request that is answered, or that has returned, received the reply that it returns. -/
structure Replied (tr : List (Process × BrokerAction)) (p : Process) : Prop where
  outstanding : ∀ requestId request,
    p.broker.outstandingRequests.lookup requestId = some request →
      request.sem.drained = true → request.exceptionPtr = none →
        (requestId, request.responseBytes) ∈ history repliesReceived tr
  resumed : ∀ requestId payload, (requestId, .ok payload) ∈ history resumptions tr →
    (requestId, payload) ∈ history repliesReceived tr

/-- The step lemma for the replies that were received. -/
theorem Replied.step (h : Replied tr p) (ha : p.react a = some (p', msgs)) :
    Replied (tr ++ [(p, a)]) p' := by
  refine ⟨fun requestId request hlookup hdrained hnone => ?_, fun requestId payload hmem => ?_⟩
  · rw [history_append, history_singleton]
    rw [lookup_of_react ha] at hlookup
    rcases request_cases hlookup with ⟨-, toNodeId, data, -, -, rfl⟩ | ⟨before, hbefore, hstep⟩
    · simp [Semaphore.drained] at hdrained
    · generalize p.outcome a requestId = outcome at hstep
      cases hstep with
      | answered msg hthis hid =>
          subst hid
          refine List.mem_append_right _ ?_
          have hmem := UnorderedMap.mem_of_lookup hbefore
          simp [repliesReceived, hthis, hmem, Broker.answer]
      -- a request whose node was lost does not return a reply
      | failed now => simp [Broker.failRequest] at hnone
      | kept =>
          exact List.mem_append_left _ (h.outstanding requestId request hbefore hdrained hnone)
  · rw [history_append, history_singleton] at hmem ⊢
    refine List.mem_append_left _ ?_
    rcases List.mem_append.1 hmem with hmem | hmem
    · exact h.resumed requestId payload hmem
    · obtain ⟨request, hlookup, hreturns, -, -⟩ := resumptions_cases hmem
      unfold OutstandingRequest.returns at hreturns
      split at hreturns
      · next hdrained =>
          cases hexception : request.exceptionPtr with
          | some e => simp [hexception] at hreturns
          | none =>
              rw [hexception] at hreturns
              obtain rfl := Except.ok.inj (Option.some.inj hreturns)
              exact h.outstanding requestId request hlookup hdrained hexception
      · simp at hreturns

/-- **What a request returns is a reply that was received**, in every run. -/
theorem replied_of_exec (h : machine.Exec tr p) : Replied tr p := by
  induction h with
  | init h0 =>
      obtain ⟨nodeId, config, now, b, hb, rfl⟩ := h0
      refine ⟨fun requestId request hlookup => ?_, by simp⟩
      simp [(Broker.construct_pending hb).1] at hlookup
  | @step tr p p' a _ hn ih => exact ih.step (next_eq_some hn)

/-! ### Replies that are sent -/

/-- The requests that the handler has got are those it works on and those it has answered. -/
theorem handling_of_exec (h : machine.Exec tr p) :
    (p.handling ++ (history answers tr).map Prod.fst).Perm (history handlerRuns tr) := by
  induction h with
  | init h0 =>
      obtain ⟨nodeId, config, now, b, -, rfl⟩ := h0
      exact List.Perm.refl _
  | @step tr p p' a _ hn ih =>
      have hstep := handling_of_react (next_eq_some hn)
      -- the answers of the step go past those before
      have hcomm : ∀ l l₁ l₂ : List BrokerTwoWayMessage, (l ++ l₁ ++ l₂).Perm (l ++ l₂ ++ l₁) := by
        intro l l₁ l₂
        rw [List.append_assoc, List.append_assoc]
        exact List.perm_append_comm.append_left l
      rw [history_append, history_append, history_singleton, history_singleton, List.map_append,
        ← List.append_assoc]
      exact (hcomm ..).trans ((hstep.append_right _).trans ((hcomm ..).trans (ih.append_right _)))

/-- **A reply that is sent is an answer of the handler**, which has waited for its requester or
not. -/
theorem answer_of_sent (h : machine.Exec tr p) (hn : machine.next p a = some p') {s : Sent}
    (hs : s ∈ p.sends a) {reply : ReplyOperation}
    (hreply : s.reply p.broker.thisNodeId = some reply) :
    ∃ msg, (msg, reply.data) ∈ history answers (tr ++ [(p, a)]) ∧
      msg.requestNodeId = reply.requestNodeId ∧ msg.requestId = reply.requestId := by
  have hthis := (changes_of_react (next_eq_some hn)).thisNodeId
  have heq := completed_eq_of_exec (h.step hn) reply.requestNodeId
  have hmem : reply ∈ forNode reply.requestNodeId (completed (tr ++ [(p, a)])) := by
    rw [heq, hthis]
    refine List.mem_append_left _ (List.mem_filter.2 ⟨?_, by simp⟩)
    exact List.mem_filterMap.2 ⟨s, List.mem_flatMap.2 ⟨(p, a), by simp, hs⟩, hreply⟩
  obtain ⟨⟨q, act⟩, hstep, hdone⟩ := List.mem_flatMap.1 (List.mem_filter.1 hmem).1
  obtain ⟨msg, hanswer, hnode, hid⟩ := exists_answer_of_completions hdone
  exact ⟨msg, List.mem_flatMap.2 ⟨(q, act), hstep, hanswer⟩, hnode, hid⟩

end Process

end ExActor
