/-
**The outcome of a request.**

`SendRequest` suspends until its semaphore is drained.  The reply drains it, and so does the loss of
the node it was sent to; but the coroutine resumes as a later message of the broker, and until then
its entry stays among the outstanding requests, where both handlers write into it.

So the first outcome of a request is not final.  A request whose node was lost first always throws;
a request that was answered first returns this answer exactly if, before it resumes, its node is not
lost and no other answer comes.

Main definitions:

* `Process.nextRequest` — what a step does to the request with an id;
* `Process.outcome`, `firstOutcome` — the outcome that a step gives a request, and the first one;
* `FirstOutcomeStands` — the step gives no other outcome to a request that was answered.

Main results:

* `Process.lookup_of_react` — **the outstanding requests after a step**;
* `first_outcome_iff` — **when the first outcome wins**, and
  `answered_request_throws`, a run in which it does not.
-/

import ExActor.BrokerMembership

set_option relaxedAutoImplicit false
set_option autoImplicit false

namespace ExActor

namespace Broker

variable {b : Broker}

/-! ### Methods that touch the requests -/

/-- `SendRequest` leaves a request exactly if it returns its id. -/
theorem lookup_sendRequest (b : Broker) (toNodeId : NodeId) (data : ByteBuffer)
    (requestId : RequestId) :
    (b.sendRequest toNodeId data).broker.outstandingRequests.lookup requestId
      = match (b.sendRequest toNodeId data).result with
        | .ok id => if requestId = id then some ⟨1, [], none, toNodeId⟩
            else b.outstandingRequests.lookup requestId
        | .error _ => b.outstandingRequests.lookup requestId := by
  rcases sendRequest_cases b toNodeId data with ⟨-, heq⟩ | ⟨-, -, heq⟩ | ⟨_, -, -, -, heq⟩ |
    ⟨_, -, -, -, heq⟩
  · rw [heq]
  · rw [heq]
  · rw [heq]
  · rw [heq]
    by_cases hid : requestId = b.sendRequestIdCounter
    · subst hid
      rw [AList.lookup_insert]
      exact (if_pos rfl).symm
    · rw [AList.lookup_insert_ne hid]
      exact (if_neg hid).symm

/-- The id of a new request is not in use. -/
theorem notMem_of_sendRequest {toNodeId : NodeId} {data : ByteBuffer} {requestId : RequestId}
    (h : (b.sendRequest toNodeId data).result = .ok requestId) :
    requestId = b.sendRequestIdCounter ∧ requestId ∉ b.outstandingRequests := by
  rcases sendRequest_cases b toNodeId data with ⟨-, heq⟩ | ⟨-, -, heq⟩ | ⟨_, -, -, -, heq⟩ |
    ⟨_, -, -, hfree, heq⟩
  · simp [heq] at h
  · simp [heq] at h
  · simp [heq] at h
  · rw [heq] at h
    obtain rfl := Except.ok.inj h
    exact ⟨rfl, hfree⟩

/-- A reply reaches the request with its id. -/
theorem lookup_handleRepliedResponse (b : Broker) (msg : BrokerTwoWayMessage)
    (requestId : RequestId) :
    (b.handleRepliedResponse msg).outstandingRequests.lookup requestId
      = if msg.requestId = requestId then
          (b.outstandingRequests.lookup requestId).map (answer msg.payload)
        else b.outstandingRequests.lookup requestId := by
  unfold handleRepliedResponse
  split
  · next hnone =>
      split
      · next hid => rw [← hid, hnone, Option.map_none]
      · rfl
  · next pending hpending =>
      by_cases hid : requestId = msg.requestId
      · subst hid
        rw [if_pos rfl, AList.lookup_insert, hpending, Option.map_some]
        rfl
      · rw [if_neg fun heq => hid heq.symm, AList.lookup_insert_ne hid]

end Broker

/-! ### Steps that leave the requests alone -/

/-- The outstanding requests and the counter stay as they are. -/
structure Broker.SameRequests (b b' : Broker) : Prop where
  outstandingRequests : b'.outstandingRequests = b.outstandingRequests
  sendRequestIdCounter : b'.sendRequestIdCounter = b.sendRequestIdCounter

/-- Gossip is not about requests. -/
theorem Broker.sameRequests_handleNodeStates (b : Broker) (nss : List NodeState) :
    SameRequests b (b.handleNodeStates nss).broker := by
  induction nss generalizing b with
  | nil => exact ⟨rfl, rfl⟩
  | cons ns nss ih =>
      have hfirst : SameRequests b (b.handleNodeState ns).broker := by
        rcases handleNodeState_spec b ns with ⟨-, heq⟩ | ⟨cur, -, heq⟩ | ⟨cur, e, -, -, heq⟩
        · obtain ⟨deferred, hdiscover⟩ := discover_broker_eq b ns
          rw [heq, hdiscover]
          exact ⟨rfl, rfl⟩
        · rw [heq]
          exact ⟨rfl, rfl⟩
        · rw [heq]
          exact ⟨rfl, rfl⟩
      unfold handleNodeStates
      dsimp only
      split
      · exact hfirst
      · have hrest := ih (b.handleNodeState ns).broker
        exact ⟨hrest.outstandingRequests.trans hfirst.outstandingRequests,
          hrest.sendRequestIdCounter.trans hfirst.sendRequestIdCounter⟩

/-- The step is about requests. -/
def BrokerAction.onRequests : BrokerAction → Bool
  | .receive (.twoWay _) | .process (.sendRequest ..) | .process (.resumeSendRequest _)
  | .process (.checkHeartbeatTimeout _) => true
  | _ => false

/-- **The other steps leave the requests alone.** -/
theorem Process.sameRequests_of_react {p p' : Process} {a : BrokerAction} {sent : List Sent}
    (ha : p.react a = some (p', sent)) (hother : a.onRequests = false) :
    p.broker.SameRequests p'.broker := by
  cases reaction_of_react ha with
  | gossiped msg status => exact Broker.sameRequests_handleNodeStates p.broker msg.nodeStates
  | answered n data msg hmsg =>
      obtain ⟨deferred, heq⟩ :=
        Broker.sendReply_eq p.broker ⟨msg.requestNodeId, msg.requestId, data⟩
      dsimp only
      rw [heq]
      exact ⟨rfl, rfl⟩
  | broadcast now nodeIds status =>
      dsimp only
      rcases p.broker.broadcastGossip_cases now nodeIds with heq | ⟨state, -, heq | ⟨-, heq⟩⟩
      all_goals
        rw [heq]
        exact ⟨rfl, rfl⟩
  | waited predicate timeoutMs now =>
      dsimp only [Broker.waitClusterState]
      split <;> exact ⟨rfl, rfl⟩
  | started | waitResumed | expired => exact ⟨rfl, rfl⟩
  | replied | handled | refused | requested | requestResumed | checked => cases hother

/-! ### The outstanding requests after a step -/

/-- The request with the id, after the step. -/
def Process.nextRequest (p : Process) (a : BrokerAction) (requestId : RequestId) :
    Option OutstandingRequest :=
  let request := p.broker.outstandingRequests.lookup requestId
  match a with
  | .receive (.twoWay msg) =>
      if msg.requestNodeId = p.broker.thisNodeId ∧ msg.requestId = requestId then
        request.map (Broker.answer msg.payload)
      else request
  | .process (.checkHeartbeatTimeout now) => request.map fun request =>
      if request.responseNodeId ∈ p.broker.nodesToRemove now then
        Broker.failRequest request.responseNodeId request
      else request
  | .process (.sendRequest toNodeId data) =>
      match (p.broker.sendRequest toNodeId data).result with
      | .ok id => if requestId = id then some ⟨1, [], none, toNodeId⟩ else request
      | .error _ => request
  | .process (.resumeSendRequest id) => if requestId = id then none else request
  | _ => request

/-- **The outstanding requests after a step.** -/
theorem Process.lookup_of_react {p p' : Process} {a : BrokerAction} {sent : List Sent}
    (ha : p.react a = some (p', sent)) (requestId : RequestId) :
    p'.broker.outstandingRequests.lookup requestId = p.nextRequest a requestId := by
  cases reaction_of_react ha with
  | replied msg hthis =>
      simp only [nextRequest, hthis, true_and]
      exact Broker.lookup_handleRepliedResponse p.broker msg requestId
  | handled msg hthis hother hset => simp [nextRequest, hthis]
  | refused msg e hthis herror => simp [nextRequest, hthis]
  | requested toNodeId data => exact Broker.lookup_sendRequest p.broker toNodeId data requestId
  | requestResumed id request hrequest hdrained =>
      by_cases hid : requestId = id
      · subst hid
        simp [nextRequest]
      · simp only [nextRequest, if_neg hid]
        exact AList.lookup_erase_ne hid
  | checked now => exact Broker.lookup_checkHeartbeatTimeout p.broker now requestId
  | started | gossiped | answered | broadcast | waited | waitResumed | expired =>
      exact congrArg (·.lookup requestId) (sameRequests_of_react ha rfl).outstandingRequests

/-! ### The first outcome -/

/-- What `SendRequest` returns or throws. -/
abbrev Outcome := Except BrokerError ByteBuffer

/-- The outcome that a step gives the request with the id: a reply to it is handled, or its node is
lost. -/
def Process.outcome (p : Process) (a : BrokerAction) (requestId : RequestId) : Option Outcome :=
  (p.broker.outstandingRequests.lookup requestId).bind fun request =>
    match a with
    | .receive (.twoWay msg) =>
        if msg.requestNodeId = p.broker.thisNodeId ∧ msg.requestId = requestId then
          some (.ok msg.payload)
        else none
    | .process (.checkHeartbeatTimeout now) =>
        if request.responseNodeId ∈ p.broker.nodesToRemove now then
          some (.error (.nodeDead request.responseNodeId))
        else none
    | _ => none

/-- The first outcome that the run has given the outstanding request with the id. -/
def firstOutcome (requestId : RequestId) (tr : List (Process × BrokerAction)) : Option Outcome :=
  tr.foldl (fun first s =>
    if requestId ∈ s.1.broker.outstandingRequests then first.or (s.1.outcome s.2 requestId)
    else none) none

theorem firstOutcome_append (requestId : RequestId) (tr : List (Process × BrokerAction))
    (p : Process) (a : BrokerAction) : firstOutcome requestId (tr ++ [(p, a)])
      = if requestId ∈ p.broker.outstandingRequests then
          (firstOutcome requestId tr).or (p.outcome a requestId)
        else none := by
  rw [firstOutcome, List.foldl_append]
  rfl

/-- The step gives no other outcome to a request that was answered and has not resumed. -/
def FirstOutcomeStands (p : Process) (a : BrokerAction) : Prop :=
  ∀ requestId request, p.broker.outstandingRequests.lookup requestId = some request →
    request.sem.drained = true → request.exceptionPtr = none →
      match a with
      | .receive (.twoWay msg) =>
          msg.requestNodeId = p.broker.thisNodeId → msg.requestId = requestId →
            msg.payload = request.responseBytes
      | .process (.checkHeartbeatTimeout now) =>
          request.responseNodeId ∉ p.broker.nodesToRemove now
      | _ => True

/-- What `SendRequest` would return or throw now. -/
def OutstandingRequest.returns (request : OutstandingRequest) : Option Outcome :=
  if request.sem.drained then
    some (match request.exceptionPtr with
      | some e => .error e
      | none => .ok request.responseBytes)
  else none

theorem Broker.resumeSendRequest_snd (b : Broker) (requestId : RequestId) :
    (b.resumeSendRequest requestId).map Prod.snd
      = (b.outstandingRequests.lookup requestId).bind OutstandingRequest.returns := by
  unfold Broker.resumeSendRequest OutstandingRequest.returns
  cases b.outstandingRequests.lookup requestId with
  | none => rfl
  | some request =>
      simp only [Option.bind_some]
      split <;> rfl

/-- The first outcome is known to the request: it is signalled as soon as there is one, and it
remembers that its node was lost. -/
structure Follows (request : OutstandingRequest) (first : Option Outcome) : Prop where
  sem : request.sem ≤ 1
  waits : first = none → request.sem.drained = false ∧ request.exceptionPtr = none
  signalled : first ≠ none → request.sem.drained = true
  lost : ∀ e, first = some (.error e) →
    request.exceptionPtr = some e ∧ e = .nodeDead request.responseNodeId

/-- The request holds the answer that was its first outcome. -/
def Answers (request : OutstandingRequest) (first : Option Outcome) : Prop :=
  ∀ bytes, first = some (.ok bytes) → request.exceptionPtr = none ∧ request.responseBytes = bytes

theorem Follows.new (toNodeId : NodeId) : Follows ⟨1, [], none, toNodeId⟩ none :=
  ⟨le_refl _, fun _ => ⟨rfl, rfl⟩, fun h => absurd rfl h, by simp⟩

variable {request : OutstandingRequest} {first : Option Outcome}

theorem Follows.answer (h : Follows request first) (payload : ByteBuffer) :
    Follows (Broker.answer payload request) (first.or (some (.ok payload))) := by
  refine ⟨Semaphore.acquire_le h.sem, by simp, fun _ => Semaphore.drained_acquire h.sem,
    fun e he => ?_⟩
  cases first with
  | none => simp at he
  | some outcome => exact h.lost e he

theorem Follows.fail (h : Follows request first) :
    Follows (Broker.failRequest request.responseNodeId request)
      (first.or (some (.error (.nodeDead request.responseNodeId)))) := by
  rw [Broker.failRequest, if_pos rfl]
  refine ⟨Semaphore.acquire_le h.sem, by simp, fun _ => Semaphore.drained_acquire h.sem,
    fun e he => ?_⟩
  cases first with
  | none =>
      obtain rfl := Except.error.inj (Option.some.inj he)
      exact ⟨rfl, rfl⟩
  | some outcome =>
      -- it was lost before, and so was the same node
      obtain ⟨-, rfl⟩ := h.lost e he
      exact ⟨rfl, rfl⟩

/-- What the request returns when the first outcome wins. -/
theorem Follows.returns_eq (h : Follows request first) (hanswers : Answers request first) :
    request.returns = first := by
  unfold OutstandingRequest.returns
  cases first with
  | none =>
      rw [(h.waits rfl).1]
      rfl
  | some outcome =>
      rw [h.signalled (by simp), if_pos rfl]
      cases outcome with
      | error e => rw [(h.lost e rfl).1]
      | ok bytes =>
          obtain ⟨hnone, hbytes⟩ := hanswers bytes rfl
          rw [hnone, hbytes]

namespace Process

variable {tr : List (Process × BrokerAction)} {p p' : Process} {a : BrokerAction}

/-- What a step does to a request that was there before, with the outcome that it gives. -/
inductive RequestStep (p : Process) (requestId : RequestId) (before : OutstandingRequest) :
    BrokerAction → OutstandingRequest → Option Outcome → Prop
  | answered (msg : BrokerTwoWayMessage) :
      msg.requestNodeId = p.broker.thisNodeId → msg.requestId = requestId →
      RequestStep p requestId before (.receive (.twoWay msg)) (Broker.answer msg.payload before)
        (some (.ok msg.payload))
  | failed (now : TimeMs) : before.responseNodeId ∈ p.broker.nodesToRemove now →
      RequestStep p requestId before (.process (.checkHeartbeatTimeout now))
        (Broker.failRequest before.responseNodeId before)
        (some (.error (.nodeDead before.responseNodeId)))
  | kept {a : BrokerAction} : RequestStep p requestId before a before none

theorem requestStep_of_kept {requestId : RequestId}
    (h : p.broker.outstandingRequests.lookup requestId = some request)
    (houtcome : p.outcome a requestId = none) :
    ∃ before, p.broker.outstandingRequests.lookup requestId = some before ∧
      RequestStep p requestId before a request (p.outcome a requestId) := by
  rw [houtcome]
  exact ⟨request, h, .kept⟩

/-- **The requests after a step**: each is new, or there is a step from the one before. -/
theorem request_cases {requestId : RequestId} (h : p.nextRequest a requestId = some request) :
    (requestId ∉ p.broker.outstandingRequests ∧ ∃ toNodeId data,
        a = .process (.sendRequest toNodeId data) ∧
        (p.broker.sendRequest toNodeId data).result = .ok requestId ∧
        request = ⟨1, [], none, toNodeId⟩) ∨
      ∃ before, p.broker.outstandingRequests.lookup requestId = some before ∧
        RequestStep p requestId before a request (p.outcome a requestId) := by
  unfold nextRequest at h
  dsimp only at h
  split at h
  · next msg =>
      split at h
      · next hmatch =>
          obtain ⟨before, hbefore, rfl⟩ := Option.map_eq_some_iff.1 h
          have houtcome : p.outcome (.receive (.twoWay msg)) requestId
              = some (.ok msg.payload) := by simp [outcome, hbefore, hmatch]
          rw [houtcome]
          exact Or.inr ⟨before, hbefore, .answered msg hmatch.1 hmatch.2⟩
      · next hmatch => exact Or.inr (requestStep_of_kept h (by simp [outcome, h, hmatch]))
  · next now =>
      obtain ⟨before, hbefore, heq⟩ := Option.map_eq_some_iff.1 h
      split at heq
      · next hlost =>
          obtain rfl := heq
          have houtcome : p.outcome (.process (.checkHeartbeatTimeout now)) requestId
              = some (.error (.nodeDead before.responseNodeId)) := by
            simp [outcome, hbefore, hlost]
          rw [houtcome]
          exact Or.inr ⟨before, hbefore, .failed now hlost⟩
      · next hlost =>
          obtain rfl := heq
          exact Or.inr (requestStep_of_kept hbefore (by simp [outcome, hbefore, hlost]))
  · next toNodeId data =>
      split at h
      · next id hok =>
          split at h
          · next hid =>
              subst hid
              obtain rfl := Option.some.inj h
              exact Or.inl ⟨(Broker.notMem_of_sendRequest hok).2, toNodeId, data, rfl, hok, rfl⟩
          · exact Or.inr (requestStep_of_kept h (by simp [outcome, h]))
      · exact Or.inr (requestStep_of_kept h (by simp [outcome, h]))
  · next id =>
      split at h
      · simp at h
      · exact Or.inr (requestStep_of_kept h (by simp [outcome, h]))
  · exact Or.inr (requestStep_of_kept h (by simp [outcome, h]))

/-- The step lemma for one request. -/
theorem RequestStep.follows {requestId : RequestId} {before : OutstandingRequest}
    {outcome : Option Outcome} (hstep : RequestStep p requestId before a request outcome)
    (h : Follows before first) : Follows request (first.or outcome) := by
  cases hstep with
  | answered msg => exact h.answer msg.payload
  | failed now => exact h.fail
  | kept =>
      rw [Option.or_none]
      exact h

theorem RequestStep.answers {requestId : RequestId} {before : OutstandingRequest}
    {outcome : Option Outcome} (hstep : RequestStep p requestId before a request outcome)
    (hbefore : p.broker.outstandingRequests.lookup requestId = some before)
    (hstands : FirstOutcomeStands p a) (h : Follows before first)
    (hanswers : Answers before first) :
    Answers request (first.or outcome) := by
  intro bytes hbytes
  cases hstep with
  | answered msg hthis hid =>
      cases first with
      | none =>
          obtain rfl := Except.ok.inj (Option.some.inj hbytes)
          exact ⟨(h.waits rfl).2, rfl⟩
      | some outcome =>
          -- the second answer is the same
          obtain ⟨hnone, hfirst⟩ := hanswers bytes hbytes
          have hsame := hstands requestId before hbefore (h.signalled (by simp)) hnone hthis hid
          exact ⟨hnone, hsame.trans hfirst⟩
  | failed now hlost =>
      cases first with
      | none => simp at hbytes
      | some outcome =>
          obtain ⟨hnone, -⟩ := hanswers bytes hbytes
          exact absurd hlost (hstands requestId before hbefore (h.signalled (by simp)) hnone)
  | kept =>
      rw [Option.or_none] at hbytes
      exact hanswers bytes hbytes

/-- The run lemma: the first outcome is known to every outstanding request. -/
theorem follows_of_exec (h : machine.Exec tr p) {requestId : RequestId}
    (hlookup : p.broker.outstandingRequests.lookup requestId = some request) :
    Follows request (firstOutcome requestId tr) := by
  induction h generalizing request with
  | init h0 =>
      obtain ⟨nodeId, config, now, b, hb, rfl⟩ := h0
      simp [(Broker.construct_pending hb).1] at hlookup
  | @step tr p p' a _ hn ih =>
      rw [lookup_of_react (next_eq_some hn)] at hlookup
      rw [firstOutcome_append]
      rcases request_cases hlookup with
        ⟨hfree, toNodeId, data, -, -, rfl⟩ | ⟨before, hbefore, hstep⟩
      · rw [if_neg hfree]
        exact Follows.new toNodeId
      · rw [if_pos (UnorderedMap.mem_of_lookup hbefore)]
        exact hstep.follows (ih hbefore)

/-- The run lemma, when the first outcomes stand. -/
theorem answers_of_exec (h : machine.Exec tr p) (hstands : Machine.Meets FirstOutcomeStands tr)
    {requestId : RequestId}
    (hlookup : p.broker.outstandingRequests.lookup requestId = some request) :
    Answers request (firstOutcome requestId tr) := by
  induction h generalizing request with
  | init h0 =>
      obtain ⟨nodeId, config, now, b, hb, rfl⟩ := h0
      simp [(Broker.construct_pending hb).1] at hlookup
  | @step tr p p' a hex hn ih =>
      rw [Machine.meets_append, Machine.meets_singleton] at hstands
      rw [lookup_of_react (next_eq_some hn)] at hlookup
      rw [firstOutcome_append]
      rcases request_cases hlookup with
        ⟨hfree, toNodeId, data, -, -, rfl⟩ | ⟨before, hbefore, hstep⟩
      · rw [if_neg hfree]
        simp [Answers]
      · rw [if_pos (UnorderedMap.mem_of_lookup hbefore)]
        exact hstep.answers hbefore hstands.2 (follows_of_exec hex hbefore)
          (ih hstands.1 hbefore)

/-- Every outstanding request would return its first outcome. -/
def FirstWins (tr : List (Process × BrokerAction)) (p : Process) : Prop :=
  ∀ requestId ∈ p.broker.outstandingRequests,
    (p.broker.resumeSendRequest requestId).map Prod.snd = firstOutcome requestId tr

theorem firstWins_of_exec (h : machine.Exec tr p)
    (hstands : Machine.Meets FirstOutcomeStands tr) : FirstWins tr p := by
  intro requestId hmem
  obtain ⟨request, hrequest⟩ := UnorderedMap.exists_lookup hmem
  rw [Broker.resumeSendRequest_snd, hrequest, Option.bind_some]
  exact (follows_of_exec h hrequest).returns_eq (answers_of_exec h hstands hrequest)

/-- If the first outcomes win before and after a step, the step lets them stand. -/
theorem stands_of_firstWins (h : machine.Exec tr p) (hn : machine.next p a = some p')
    (hwins : FirstWins tr p) (hwins' : FirstWins (tr ++ [(p, a)]) p') :
    FirstOutcomeStands p a := by
  intro requestId request hrequest hdrained hnone
  have hmem := UnorderedMap.mem_of_lookup hrequest
  have hsem := (watched_of_exec h requestId request hrequest).1
  have hfirst : firstOutcome requestId tr = some (.ok request.responseBytes) := by
    rw [← hwins requestId hmem, Broker.resumeSendRequest_snd, hrequest, Option.bind_some,
      OutstandingRequest.returns, if_pos hdrained, hnone]
  have hafter := lookup_of_react (next_eq_some hn) requestId
  have hreturns : ∀ request', p.nextRequest a requestId = some request' →
      request'.returns = some (.ok request.responseBytes) := by
    intro request' hrequest'
    rw [hrequest'] at hafter
    have hreturned := hwins' requestId (UnorderedMap.mem_of_lookup hafter)
    rw [Broker.resumeSendRequest_snd, hafter, Option.bind_some, firstOutcome_append, if_pos hmem,
      hfirst] at hreturned
    exact hreturned
  split
  · next msg =>
      intro hthis hid
      have hreturned := hreturns (Broker.answer msg.payload request)
        (by simp [nextRequest, hrequest, hthis, hid])
      simpa [OutstandingRequest.returns, Broker.answer, hnone, Semaphore.drained_acquire hsem]
        using hreturned
  · next now =>
      intro hlost
      have hreturned := hreturns (Broker.failRequest request.responseNodeId request)
        (by simp [nextRequest, hrequest, hlost])
      simp [OutstandingRequest.returns, Broker.failRequest, Semaphore.drained_acquire hsem]
        at hreturned
  · trivial

end Process

/-- **When the first outcome of a request wins.**  A request whose node was lost first throws.  In
every run, each outstanding request would return its first outcome at every moment, if and only if
no step gives another outcome to a request that was answered and has not resumed. -/
theorem first_outcome_iff {tr : List (Process × BrokerAction)} {p : Process}
    (h : Process.machine.Exec tr p) :
    (∀ requestId ∈ p.broker.outstandingRequests, ∀ e,
      firstOutcome requestId tr = some (.error e) →
        (p.broker.resumeSendRequest requestId).map Prod.snd = some (.error e)) ∧
      ((∀ tr' tr'' q, tr = tr' ++ tr'' → Process.machine.Exec tr' q → Process.FirstWins tr' q) ↔
        Machine.Meets FirstOutcomeStands tr) := by
  refine ⟨fun requestId hmem e hfirst => ?_, fun hwins => ?_, fun hstands => ?_⟩
  · obtain ⟨request, hrequest⟩ := UnorderedMap.exists_lookup hmem
    have hfollows := Process.follows_of_exec h hrequest
    rw [Broker.resumeSendRequest_snd, hrequest, Option.bind_some, OutstandingRequest.returns,
      if_pos (hfollows.signalled (by simp [hfirst])), (hfollows.lost e hfirst).1]
  · rintro ⟨q, a⟩ hmem
    obtain ⟨tr', tr'', rfl⟩ := List.append_of_mem hmem
    obtain ⟨hex, q', hn, -⟩ := h.split
    exact Process.stands_of_firstWins hex hn (hwins tr' _ q rfl hex)
      (hwins (tr' ++ [(q, a)]) tr'' q' (by simp) (hex.step hn))
  · rintro tr' tr'' q rfl hex
    exact Process.firstWins_of_exec hex ((Machine.meets_append ..).1 hstands).1

/-- Nothing was answered yet. -/
theorem firstOutcomeStands_of_waiting {p : Process} {a : BrokerAction}
    (h : ∀ request ∈ UnorderedMap.values p.broker.outstandingRequests,
      request.sem.drained = false) : FirstOutcomeStands p a := by
  intro requestId request hrequest hdrained
  rw [h request (UnorderedMap.mem_values.2 ⟨requestId, hrequest⟩)] at hdrained
  simp at hdrained

/-- Node 1 sends a request to node 2, and the reply arrives. -/
def requestToTwo : List BrokerAction :=
  [.receive (gossipOfTwo 1), .process (.sendRequest 2 [5]), .receive (.twoWay ⟨1, 2, 0, [7]⟩)]

/-- Nothing else happens, and the reply is returned. -/
theorem first_outcome_iff_answered : ∃ tr p, Process.machine.Exec tr p ∧
    (p.broker.resumeSendRequest 0).map Prod.snd = some (.ok [7]) ∧ Process.FirstWins tr p := by
  obtain ⟨p, hex, hp⟩ := Machine.exists_exec_of_replay Process.init_first requestToTwo
    (fun p => (p.broker.resumeSendRequest 0).map Prod.snd) (some (.ok [7])) (by decide)
  have hwaiting : Machine.Meets (fun p _ => ∀ request ∈ UnorderedMap.values
      p.broker.outstandingRequests, request.sem.drained = false)
        (Process.machine.replayTrace Process.first requestToTwo) := by decide
  have hstands := hwaiting.mono fun p a => @firstOutcomeStands_of_waiting p a
  exact ⟨_, p, hex, hp, (first_outcome_iff hex).2.2 hstands _ [] p (List.append_nil _).symm hex⟩

/-- Node 2 is lost before the request resumes: the request throws although it was answered first. -/
theorem answered_request_throws : ∃ tr p, Process.machine.Exec tr p ∧
    firstOutcome 0 tr = some (.ok [7]) ∧
    (p.broker.resumeSendRequest 0).map Prod.snd = some (.error (.nodeDead 2)) := by
  obtain ⟨p, hex, hp⟩ := Machine.exists_exec_of_replay Process.init_first
    (requestToTwo ++ [.process (.checkHeartbeatTimeout 20000)])
    (fun p => (p.broker.resumeSendRequest 0).map Prod.snd) (some (.error (.nodeDead 2)))
    (by decide)
  exact ⟨_, p, hex, by decide, hp⟩

end ExActor
