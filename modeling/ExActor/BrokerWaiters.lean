/-
**The waiters of the cluster state.**

`WaitClusterState` leaves a waiter when its predicate is false on the nodes that are alive.  Every
change of these nodes, between the rounds of a loop too, evaluates the waiters; a waiter whose
predicate is true is met and its coroutine becomes runnable.  It resumes as a later message of the
broker, builds the list of the nodes again, and returns this list.

So no waiter misses a set of alive nodes on which its predicate is true, even for a moment.  But
what it returns is true of the nodes it was met on, and need not be true of those it returns.

A predicate is over the set of the nodes: it does not look at the order of the list, which is that
of an `std::unordered_map`.

Main definitions:

* `OverNodes` — a predicate over the set of the alive nodes;
* `Broker.Pending` — the waiters that were not met have predicates that are false;
* `Process.memberships` — the sets of alive nodes that a step goes through;
* `MetStands` — what a waiter was met on is not undone by a later set.

Main results:

* `no_missed_condition` — **no waiter misses its condition**;
* `condition_met_iff` — **when a met condition is true of what is returned**, and
  `condition_met_of_lost_node`, a run in which it is not.
-/

import ExActor.BrokerMembership

set_option relaxedAutoImplicit false
set_option autoImplicit false

namespace ExActor

/-! ### The alive nodes -/

/-- The predicate does not look at the order of the nodes. -/
def OverNodes (predicate : ClusterState → Bool) : Prop :=
  ∀ nodes nodes' : List NodeInfo, nodes.Perm nodes' → predicate ⟨nodes⟩ = predicate ⟨nodes'⟩

namespace Broker

variable {b b' : Broker} {done : List ReplyOperation} {sent : List Sent}

/-- A new time stamp leaves the alive nodes as they are. -/
theorem alive_refresh {nodeId : NodeId} {cur : NodeState}
    (hcur : b.nodeIdToState.lookup nodeId = some cur) (t : TimeMs) :
    (b.refresh nodeId cur t).buildAliveNodeInfoList.Perm b.buildAliveNodeInfoList := by
  have hbefore := (UnorderedMap.entries_erase hcur).map
    fun e => (⟨e.1, e.2.address, e.2.nodeName⟩ : NodeInfo)
  exact hbefore.symm

/-! ### No missed condition -/

/-- A waiter that was not met has a predicate that is false. -/
def Pending (b : Broker) : Prop :=
  ∀ waiter ∈ b.clusterStateWaiters, OverNodes waiter.predicate → waiter.conditionMet = false →
    waiter.predicate ⟨b.buildAliveNodeInfoList⟩ = false

@[simp] theorem predicate_evaluate (state : ClusterState) (waiter : ClusterStateWaiter) :
    (evaluate state waiter).predicate = waiter.predicate := by
  unfold evaluate
  split <;> rfl

/-- After an evaluation a waiter is met if it was met before or its predicate is true. -/
@[simp] theorem conditionMet_evaluate (state : ClusterState) (waiter : ClusterStateWaiter) :
    (evaluate state waiter).conditionMet = (waiter.conditionMet || waiter.predicate state) := by
  unfold evaluate
  cases hmet : waiter.conditionMet <;> cases hpred : waiter.predicate state <;> simp [hmet]

/-- An evaluation leaves no waiter that has missed its condition. -/
theorem pending_evaluate (hwaiters : b'.clusterStateWaiters
      = b.clusterStateWaiters.map (evaluate ⟨b'.buildAliveNodeInfoList⟩)) : b'.Pending := by
  intro waiter hmem _ hmet
  rw [hwaiters] at hmem
  obtain ⟨before, -, rfl⟩ := List.mem_map.1 hmem
  rw [conditionMet_evaluate, Bool.or_eq_false_iff] at hmet
  rw [predicate_evaluate]
  exact hmet.2

/-- **Every change keeps the waiters pending**: those of the alive nodes end with an evaluation. -/
theorem Pending.change (hchange : Change b done sent b') (h : b.Pending) : b'.Pending := by
  cases hchange with
  | refreshed nodeId cur t hcur =>
      intro waiter hmem hover hmet
      rw [← h waiter hmem hover hmet]
      exact hover _ _ (alive_refresh hcur t)
  | discovered ns hnew =>
      obtain ⟨deferred, heq⟩ := discover_broker_eq b ns
      rw [heq]
      exact pending_evaluate (b := b) rfl
  | lost nodeId hother => exact pending_evaluate (b := b) rfl
  | waited predicate deadlineMs hfalse =>
      intro waiter hmem hover hmet
      rcases List.mem_append.1 hmem with hmem | hmem
      · exact h waiter hmem hover hmet
      · obtain rfl := List.mem_singleton.1 hmem
        exact hfalse
  | waitResumed i waiter hwaiter hdrained =>
      intro other hmem
      exact h other ((List.eraseIdx_sublist ..).subset hmem)
  | expired now =>
      intro waiter hmem hover hmet
      obtain ⟨before, hbefore, rfl⟩ := List.mem_map.1 hmem
      have hkept : ∀ w : ClusterStateWaiter,
          (if !w.conditionMet && decide (w.deadlineMs ≤ now) then
            { w with sem := w.sem.acquire 1 } else w).predicate = w.predicate ∧
          (if !w.conditionMet && decide (w.deadlineMs ≤ now) then
            { w with sem := w.sem.acquire 1 } else w).conditionMet = w.conditionMet := by
        intro w
        split <;> exact ⟨rfl, rfl⟩
      rw [(hkept before).1] at hover ⊢
      rw [(hkept before).2] at hmet
      exact h before hbefore hover hmet
  | _ => exact h

theorem pending_construct {nodeId : NodeId} {config : ClusterConfig} {now : TimeMs}
    (h : construct nodeId config now = .ok b) : b.Pending := by
  intro waiter hmem
  rw [(construct_pending h).2.2.1] at hmem
  simp at hmem

end Broker

/-- **No missed membership condition.**  In every reachable state, a waiter that is not met has a
predicate that is false on the nodes that are alive. -/
theorem no_missed_condition {tr : List (Process × BrokerAction)} {p : Process}
    (h : Process.machine.Exec tr p) : ∀ waiter ∈ p.broker.clusterStateWaiters,
      OverNodes waiter.predicate → waiter.conditionMet = false →
        waiter.predicate ⟨p.broker.buildAliveNodeInfoList⟩ = false :=
  Process.invariant (fun _ _ _ _ hb => Broker.pending_construct hb)
    (fun _ _ _ _ hchange hI => Broker.Pending.change hchange hI) h

/-- The predicate that a node is alive. -/
def nodeAlive (nodeId : NodeId) (state : ClusterState) : Bool :=
  state.nodes.any fun node => node.nodeId == nodeId

theorem overNodes_nodeAlive (nodeId : NodeId) : OverNodes (nodeAlive nodeId) :=
  fun _ _ hperm => hperm.any_eq

/-- Node 1 waits for node 3 and is told of node 2. -/
theorem no_missed_condition_other : ∃ tr p, Process.machine.Exec tr p ∧
    p.broker.clusterStateWaiters.length = 1 ∧
    ∀ waiter ∈ p.broker.clusterStateWaiters, waiter.predicate = nodeAlive 3 →
      waiter.conditionMet = false → waiter.predicate ⟨p.broker.buildAliveNodeInfoList⟩ = false := by
  obtain ⟨p, hex, hp⟩ := Machine.exists_exec_of_replay Process.init_first
    [.process (.waitClusterState (nodeAlive 3) 1000 0), .receive (gossipOfTwo 1)]
    (fun p => p.broker.clusterStateWaiters.length) 1 (by decide)
  refine ⟨_, p, hex, hp, fun waiter hmem hpredicate => ?_⟩
  exact no_missed_condition hex waiter hmem (hpredicate ▸ overNodes_nodeAlive 3)

/-! ### The sets of alive nodes that a step goes through -/

namespace Broker

variable {b b' b'' : Broker} {states states' : List ClusterState}

/-- The sets of alive nodes on which the loop of `HandleGossipMessage` evaluates the waiters. -/
def gossipStates (b : Broker) : List NodeState → List ClusterState
  | [] => []
  | incoming :: rest =>
      let r := b.handleNodeState incoming
      let states := match r.result with
        | .error _ => []
        | .ok () => gossipStates r.broker rest
      if incoming.nodeId ∈ b.nodeIdToState then states
      else ⟨r.broker.buildAliveNodeInfoList⟩ :: states

/-- The sets of alive nodes on which the loss of some nodes evaluates the waiters. -/
def lossStates (b : Broker) : List NodeId → List ClusterState
  | [] => []
  | nodeId :: nodeIds =>
      let b' := b.onNodeConnectionLost nodeId
      ⟨b'.buildAliveNodeInfoList⟩ :: lossStates b' nodeIds

/-- The waiters are evaluated on the states in their order, and the last one stays. -/
structure Evaluates (b : Broker) (states : List ClusterState) (b' : Broker) : Prop where
  waiters : b'.clusterStateWaiters
    = b.clusterStateWaiters.map fun waiter => states.foldl (fun w state => evaluate state w) waiter
  alive : b'.buildAliveNodeInfoList.Perm
    (states.getLast?.getD ⟨b.buildAliveNodeInfoList⟩).nodes

theorem Evaluates.refl (b : Broker) : Evaluates b [] b := ⟨by simp, List.Perm.refl _⟩

theorem Evaluates.single (hwaiters : b'.clusterStateWaiters
      = b.clusterStateWaiters.map (evaluate ⟨b'.buildAliveNodeInfoList⟩)) :
    Evaluates b [⟨b'.buildAliveNodeInfoList⟩] b' := ⟨hwaiters, List.Perm.refl _⟩

theorem Evaluates.trans (h : Evaluates b states b') (h' : Evaluates b' states' b'') :
    Evaluates b (states ++ states') b'' := by
  refine ⟨?_, h'.alive.trans ?_⟩
  · rw [h'.waiters, h.waiters, List.map_map]
    congr 1
    funext waiter
    rw [Function.comp_apply, List.foldl_append]
  · rw [List.getLast?_append]
    cases states'.getLast? with
    | none => exact h.alive
    | some last => exact List.Perm.refl _

theorem evaluates_handleNodeState (b : Broker) (ns : NodeState) :
    Evaluates b (if ns.nodeId ∈ b.nodeIdToState then []
      else [⟨(b.handleNodeState ns).broker.buildAliveNodeInfoList⟩])
        (b.handleNodeState ns).broker := by
  cases hlookup : b.nodeIdToState.lookup ns.nodeId with
  | none =>
      have hdiscover : b.handleNodeState ns = b.discover ns := by
        rw [handleNodeState, hlookup, discover]
      obtain ⟨deferred, heq⟩ := discover_broker_eq b ns
      rw [if_neg (AList.lookup_eq_none.1 hlookup), hdiscover, heq]
      exact Evaluates.single rfl
  | some cur =>
      rw [if_pos (UnorderedMap.mem_of_lookup hlookup), handleNodeState, hlookup]
      dsimp only
      split
      · exact Evaluates.refl b
      · split
        · exact Evaluates.refl b
        · exact ⟨(Evaluates.refl b).waiters, alive_refresh hlookup _⟩

/-- **The loop of `HandleGossipMessage` evaluates the waiters on `gossipStates`.** -/
theorem evaluates_handleNodeStates (b : Broker) (nss : List NodeState) :
    Evaluates b (b.gossipStates nss) (b.handleNodeStates nss).broker := by
  induction nss generalizing b with
  | nil => exact Evaluates.refl b
  | cons ns nss ih =>
      have hfirst := evaluates_handleNodeState b ns
      have hcons : ∀ states : List ClusterState, (if ns.nodeId ∈ b.nodeIdToState then states
          else ⟨(b.handleNodeState ns).broker.buildAliveNodeInfoList⟩ :: states)
            = (if ns.nodeId ∈ b.nodeIdToState then []
                else [⟨(b.handleNodeState ns).broker.buildAliveNodeInfoList⟩]) ++ states := by
        intro states
        split <;> rfl
      unfold handleNodeStates gossipStates
      dsimp only
      rw [hcons]
      cases (b.handleNodeState ns).result with
      | error e =>
          rw [List.append_nil]
          exact hfirst
      | ok _ => exact hfirst.trans (ih _)

/-- **The loss of some nodes evaluates the waiters on `lossStates`.** -/
theorem evaluates_lost (b : Broker) (nodeIds : List NodeId) :
    Evaluates b (b.lossStates nodeIds) (nodeIds.foldl onNodeConnectionLost b) := by
  induction nodeIds generalizing b with
  | nil => exact Evaluates.refl b
  | cons nodeId nodeIds ih =>
      have hfirst : Evaluates b [⟨(b.onNodeConnectionLost nodeId).buildAliveNodeInfoList⟩]
          (b.onNodeConnectionLost nodeId) := Evaluates.single rfl
      exact hfirst.trans (ih _)

@[simp] theorem predicate_foldl_evaluate (states : List ClusterState)
    (waiter : ClusterStateWaiter) :
    (states.foldl (fun w state => evaluate state w) waiter).predicate = waiter.predicate := by
  induction states generalizing waiter with
  | nil => rfl
  | cons state states ih => rw [List.foldl_cons, ih, predicate_evaluate]

/-- A waiter is met if it was met before or its predicate is true of one of the states. -/
theorem conditionMet_foldl_evaluate (states : List ClusterState) (waiter : ClusterStateWaiter) :
    (states.foldl (fun w state => evaluate state w) waiter).conditionMet = true ↔
      waiter.conditionMet = true ∨ ∃ state ∈ states, waiter.predicate state = true := by
  induction states generalizing waiter with
  | nil => simp
  | cons state states ih => simp [ih, or_assoc]

/-- Every waiter that is met comes from one that was met, or whose predicate is true of one of the
states; and the last state stays. -/
structure Visits (b : Broker) (states : List ClusterState) (b' : Broker) : Prop where
  waiters : ∀ waiter ∈ b'.clusterStateWaiters, waiter.conditionMet = true →
    ∃ before ∈ b.clusterStateWaiters, before.predicate = waiter.predicate ∧
      (before.conditionMet = true ∨ ∃ state ∈ states, before.predicate state = true)
  alive : b'.buildAliveNodeInfoList.Perm
    (states.getLast?.getD ⟨b.buildAliveNodeInfoList⟩).nodes

theorem Evaluates.visits (h : Evaluates b states b') : Visits b states b' := by
  refine ⟨fun waiter hmem hmet => ?_, h.alive⟩
  rw [h.waiters] at hmem
  obtain ⟨before, hbefore, rfl⟩ := List.mem_map.1 hmem
  exact ⟨before, hbefore, (predicate_foldl_evaluate states before).symm,
    (conditionMet_foldl_evaluate states before).1 hmet⟩

/-- No waiter is met when the waiters that stay are as they were. -/
theorem Visits.of_subset (hwaiters : ∀ waiter ∈ b'.clusterStateWaiters,
      waiter.conditionMet = true → ∃ before ∈ b.clusterStateWaiters,
        before.predicate = waiter.predicate ∧ before.conditionMet = true)
    (halive : b'.buildAliveNodeInfoList.Perm b.buildAliveNodeInfoList) : Visits b [] b' := by
  refine ⟨fun waiter hmem hmet => ?_, halive⟩
  obtain ⟨before, hbefore, hpredicate, hmet⟩ := hwaiters waiter hmem hmet
  exact ⟨before, hbefore, hpredicate, Or.inl hmet⟩

/-- The waiters are the same, and the alive nodes. -/
structure SameView (b b' : Broker) : Prop where
  waiters : b'.clusterStateWaiters = b.clusterStateWaiters
  alive : b'.buildAliveNodeInfoList.Perm b.buildAliveNodeInfoList

theorem SameView.visits (h : SameView b b') : Visits b [] b' := by
  refine Visits.of_subset (fun waiter hmem hmet => ?_) h.alive
  rw [h.waiters] at hmem
  exact ⟨waiter, hmem, rfl, hmet⟩

theorem visits_waitClusterState (b : Broker) (predicate : ClusterState → Bool)
    (timeoutMs now : TimeMs) : Visits b [] (b.waitClusterState predicate timeoutMs now).1 := by
  unfold waitClusterState
  dsimp only
  split
  · exact SameView.visits ⟨rfl, List.Perm.refl _⟩
  · refine Visits.of_subset (fun waiter hmem hmet => ?_) (List.Perm.refl _)
    rcases List.mem_append.1 hmem with hmem | hmem
    · exact ⟨waiter, hmem, rfl, hmet⟩
    · obtain rfl := List.mem_singleton.1 hmem
      simp at hmet

theorem visits_checkClusterStateWaiterTimeout (b : Broker) (now : TimeMs) :
    Visits b [] (b.checkClusterStateWaiterTimeout now) := by
  refine Visits.of_subset (fun waiter hmem hmet => ?_) (List.Perm.refl _)
  obtain ⟨before, hbefore, rfl⟩ := List.mem_map.1 hmem
  refine ⟨before, hbefore, ?_, ?_⟩
  · split <;> rfl
  · split at hmet <;> exact hmet

/-! ### Waiters that are met -/

/-- A waiter that is met can resume. -/
def Signalled (b : Broker) : Prop :=
  ∀ waiter ∈ b.clusterStateWaiters,
    waiter.sem ≤ 1 ∧ (waiter.conditionMet = true → waiter.sem.drained = true)

theorem signalled_evaluate {waiter : ClusterStateWaiter}
    (h : waiter.sem ≤ 1 ∧ (waiter.conditionMet = true → waiter.sem.drained = true))
    (state : ClusterState) : (evaluate state waiter).sem ≤ 1 ∧
      ((evaluate state waiter).conditionMet = true →
        (evaluate state waiter).sem.drained = true) := by
  unfold evaluate
  split
  · exact ⟨Semaphore.acquire_le h.1, fun _ => Semaphore.drained_acquire h.1⟩
  · exact h

theorem Signalled.change {done : List ReplyOperation} {sent : List Sent}
    (hchange : Change b done sent b') (h : b.Signalled) : b'.Signalled := by
  intro waiter hmem
  cases hchange with
  | discovered ns hnew =>
      obtain ⟨deferred, heq⟩ := discover_broker_eq b ns
      rw [heq] at hmem
      obtain ⟨before, hbefore, rfl⟩ := List.mem_map.1 hmem
      exact signalled_evaluate (h before hbefore) _
  | lost nodeId hother =>
      obtain ⟨before, hbefore, rfl⟩ := List.mem_map.1 hmem
      exact signalled_evaluate (h before hbefore) _
  | waited predicate deadlineMs hfalse =>
      rcases List.mem_append.1 hmem with hmem | hmem
      · exact h waiter hmem
      · obtain rfl := List.mem_singleton.1 hmem
        exact ⟨le_refl _, by simp⟩
  | waitResumed i other hother hdrained => exact h waiter ((List.eraseIdx_sublist ..).subset hmem)
  | expired now =>
      obtain ⟨before, hbefore, rfl⟩ := List.mem_map.1 hmem
      obtain ⟨hsem, hdrained⟩ := h before hbefore
      split
      · exact ⟨Semaphore.acquire_le hsem, fun _ => Semaphore.drained_acquire hsem⟩
      · exact ⟨hsem, hdrained⟩
  | _ => exact h waiter hmem

theorem signalled_construct {nodeId : NodeId} {config : ClusterConfig} {now : TimeMs}
    (h : construct nodeId config now = .ok b) : b.Signalled := by
  intro waiter hmem
  rw [(construct_pending h).2.2.1] at hmem
  simp at hmem

/-- The predicates of the waiters that are met are true. -/
def MetTrue (b : Broker) : Prop :=
  ∀ waiter ∈ b.clusterStateWaiters, OverNodes waiter.predicate → waiter.conditionMet = true →
    waiter.predicate ⟨b.buildAliveNodeInfoList⟩ = true

/-- Whichever waiter resumes now, if it is met then its predicate is true of what it returns. -/
def ResumesTrue (b : Broker) : Prop :=
  ∀ i waiter result, b.clusterStateWaiters[i]? = some waiter → OverNodes waiter.predicate →
    b.resumeWaitClusterState i = some result → result.2.conditionMet = true →
      waiter.predicate result.2.clusterState = true

/-- What a waiter returns is what it was met on, if that still holds. -/
theorem resumesTrue_iff (h : b.Signalled) : b.ResumesTrue ↔ b.MetTrue := by
  constructor
  · intro hresumes waiter hmem hover hmet
    obtain ⟨i, hi, rfl⟩ := List.mem_iff_getElem.1 hmem
    have hlookup := List.getElem?_eq_getElem hi
    have hresume : b.resumeWaitClusterState i
        = some ({ b with clusterStateWaiters := b.clusterStateWaiters.eraseIdx i },
          ⟨⟨b.buildAliveNodeInfoList⟩, b.clusterStateWaiters[i].conditionMet⟩) := by
      rw [resumeWaitClusterState, hlookup, Option.bind_some, if_pos ((h _ hmem).2 hmet)]
    exact hresumes i _ _ hlookup hover hresume hmet
  · intro hmetTrue i waiter result hlookup hover hresume hmet
    rw [resumeWaitClusterState, hlookup, Option.bind_some] at hresume
    split at hresume
    · obtain rfl := Option.some.inj hresume
      exact hmetTrue waiter (List.mem_of_getElem? hlookup) hover hmet
    · simp at hresume

end Broker

/-! ### When a met condition is true -/

/-- The sets of alive nodes that the step goes through. -/
def Process.memberships (p : Process) : BrokerAction → List ClusterState
  | .receive (.gossip msg) => p.broker.gossipStates msg.nodeStates
  | .process (.checkHeartbeatTimeout now) => p.broker.lossStates (p.broker.nodesToRemove now)
  | _ => []

/-- The step is about the alive nodes or their waiters. -/
def BrokerAction.onWaiters : BrokerAction → Bool
  | .receive (.gossip _) | .process (.checkHeartbeatTimeout _) | .process (.waitClusterState ..)
  | .process (.resumeWaitClusterState _) | .process (.checkClusterStateWaiterTimeout _) => true
  | _ => false

/-- What a waiter was met on, before the step or during it, is not undone: if a waiter was met, or
its predicate is true of one of the sets of alive nodes that the step goes through, then the
predicate is true of the last of them. -/
def MetStands (p : Process) (a : BrokerAction) : Prop :=
  ∀ waiter ∈ p.broker.clusterStateWaiters, OverNodes waiter.predicate →
    (waiter.conditionMet = true ∨ ∃ state ∈ p.memberships a, waiter.predicate state = true) →
      ∀ last ∈ (p.memberships a).getLast?, waiter.predicate last = true

namespace Process

variable {tr : List (Process × BrokerAction)} {p p' : Process} {a : BrokerAction}

/-- The other steps leave the waiters alone, and the alive nodes. -/
theorem sameView_of_react {sent : List Sent} (ha : p.react a = some (p', sent))
    (hother : a.onWaiters = false) : p.broker.SameView p'.broker := by
  cases reaction_of_react ha with
  | replied msg hthis =>
      dsimp only [Broker.handleRepliedResponse]
      split <;> exact ⟨rfl, List.Perm.refl _⟩
  | requested toNodeId data =>
      dsimp only
      rcases p.broker.sendRequest_cases toNodeId data with ⟨-, heq⟩ | ⟨-, -, heq⟩ |
        ⟨_, -, -, -, heq⟩ | ⟨_, -, -, -, heq⟩
      all_goals
        rw [heq]
        exact ⟨rfl, List.Perm.refl _⟩
  | answered n data msg hmsg =>
      obtain ⟨deferred, heq⟩ :=
        Broker.sendReply_eq p.broker ⟨msg.requestNodeId, msg.requestId, data⟩
      dsimp only
      rw [heq]
      exact ⟨rfl, List.Perm.refl _⟩
  | broadcast now nodeIds status =>
      dsimp only
      rcases p.broker.broadcastGossip_cases now nodeIds with heq | ⟨state, hstate, heq | ⟨-, heq⟩⟩
      · rw [heq]
        exact ⟨rfl, List.Perm.refl _⟩
      all_goals
        rw [heq]
        exact ⟨rfl, Broker.alive_refresh hstate now⟩
  | started | handled | refused | requestResumed => exact ⟨rfl, List.Perm.refl _⟩
  | gossiped | checked | waited | waitResumed | expired => cases hother

theorem visits_of_react {sent : List Sent} (ha : p.react a = some (p', sent)) :
    p.broker.Visits (p.memberships a) p'.broker := by
  cases reaction_of_react ha with
  | gossiped msg status => exact (Broker.evaluates_handleNodeStates p.broker msg.nodeStates).visits
  | checked now => exact (Broker.evaluates_lost p.broker (p.broker.nodesToRemove now)).visits
  | waited predicate timeoutMs now =>
      exact Broker.visits_waitClusterState p.broker predicate timeoutMs now
  | waitResumed i waiter hwaiter hdrained =>
      exact Broker.Visits.of_subset
        (fun w hw hmet => ⟨w, (List.eraseIdx_sublist ..).subset hw, rfl, hmet⟩) (List.Perm.refl _)
  | expired now => exact Broker.visits_checkClusterStateWaiterTimeout p.broker now
  | started | replied | handled | refused | requested | requestResumed | answered | broadcast =>
      exact (sameView_of_react ha rfl).visits

/-- A step that goes through some sets of alive nodes evaluates the waiters on them. -/
theorem evaluates_of_react {sent : List Sent} (ha : p.react a = some (p', sent))
    (hstates : p.memberships a ≠ []) :
    p.broker.Evaluates (p.memberships a) p'.broker := by
  cases reaction_of_react ha with
  | gossiped msg status => exact Broker.evaluates_handleNodeStates p.broker msg.nodeStates
  | checked now => exact Broker.evaluates_lost p.broker _
  | _ => exact absurd rfl hstates

theorem signalled_of_exec (h : machine.Exec tr p) : p.broker.Signalled :=
  invariant (fun _ _ _ _ hb => Broker.signalled_construct hb)
    (fun _ _ _ _ hchange hI => hI.change hchange) h

/-- The step lemma: what the waiters were met on stands. -/
theorem metTrue_of_react {sent : List Sent} (ha : p.react a = some (p', sent))
    (h : p.broker.MetTrue) (hstands : MetStands p a) : p'.broker.MetTrue := by
  obtain ⟨hwaiters, halive⟩ := visits_of_react ha
  intro waiter hmem hover hmet
  obtain ⟨before, hbefore, hpredicate, hmet⟩ := hwaiters waiter hmem hmet
  rw [← hpredicate] at hover ⊢
  rw [hover _ _ halive]
  cases hlast : (p.memberships a).getLast? with
  | none =>
      -- the alive nodes are those before the step
      have hnil := List.getLast?_eq_none_iff.1 hlast
      rw [hnil] at hmet
      rw [Option.getD_none]
      exact h before hbefore hover (by simpa using hmet)
  | some last => exact hstands before hbefore hover hmet last hlast

/-- What holds of the waiters after the step has stood during the step. -/
theorem metStands_of_metTrue {sent : List Sent} (ha : p.react a = some (p', sent))
    (h : p'.broker.MetTrue) : MetStands p a := by
  intro waiter hmem hover hmet last hlast
  have hlast : (p.memberships a).getLast? = some last := hlast
  have hstates : p.memberships a ≠ [] := by
    intro hnil
    simp [hnil] at hlast
  obtain ⟨hwaiters, halive⟩ := evaluates_of_react ha hstates
  rw [hlast, Option.getD_some] at halive
  have hafter := h _ (hwaiters ▸ List.mem_map_of_mem hmem)
    (by rwa [Broker.predicate_foldl_evaluate])
    ((Broker.conditionMet_foldl_evaluate _ waiter).2 hmet)
  rw [Broker.predicate_foldl_evaluate] at hafter
  rw [← hafter]
  exact hover _ _ halive.symm

/-- The run lemma. -/
theorem metTrue_of_exec (h : machine.Exec tr p) (hstands : Machine.Meets MetStands tr) :
    p.broker.MetTrue := by
  refine h.invariantWhere (I := fun p => p.broker.MetTrue) ?_ ?_ hstands
  · rintro p ⟨nodeId, config, now, b, hb, rfl⟩ waiter hmem
    rw [(Broker.construct_pending hb).2.2.1] at hmem
    simp at hmem
  · intro _ p a p' _ _ hI hok hn
    exact metTrue_of_react (next_eq_some hn) hI hok

end Process

/-- **When a met condition is true of what is returned.**  `WaitClusterState` that returns at once
returns a state of which its predicate is true.  In every run, each waiter that is met would return
such a state at every moment, if and only if in every step what the waiters were met on stands. -/
theorem condition_met_iff {tr : List (Process × BrokerAction)} {p : Process}
    (h : Process.machine.Exec tr p) :
    (∀ q ∈ Machine.states tr p, ∀ predicate timeoutMs now result,
      (q.broker.waitClusterState predicate timeoutMs now).2 = some result →
        predicate result.clusterState = true) ∧
      ((∀ q ∈ Machine.states tr p, q.broker.ResumesTrue) ↔ Machine.Meets MetStands tr) := by
  refine ⟨fun q _ predicate timeoutMs now result hresult => ?_, fun hresumes => ?_,
    fun hstands q hq => ?_⟩
  · unfold Broker.waitClusterState at hresult
    dsimp only at hresult
    split at hresult
    · next htrue =>
        obtain rfl := Option.some.inj hresult
        exact htrue
    · simp at hresult
  · rintro ⟨q, a⟩ hmem
    obtain ⟨q', hn, hq'⟩ := h.next_mem_states hmem
    obtain ⟨tr', -, -, hex⟩ := h.of_mem_states hq'
    have hmet := (Broker.resumesTrue_iff (Process.signalled_of_exec hex)).1 (hresumes q' hq')
    exact Process.metStands_of_metTrue (Process.next_eq_some hn) hmet
  · obtain ⟨tr', tr'', rfl, hex⟩ := h.of_mem_states hq
    have hstands := ((Machine.meets_append ..).1 hstands).1
    exact (Broker.resumesTrue_iff (Process.signalled_of_exec hex)).2
      (Process.metTrue_of_exec hex hstands)

/-- Node 1 waits for node 2 and is told of it. -/
def waitForTwo : List BrokerAction :=
  [.process (.waitClusterState (nodeAlive 2) 1000 0), .receive (gossipOfTwo 1)]

/-- The waiter is met and returns a state with node 2. -/
theorem condition_met_iff_told : ∃ tr p, Process.machine.Exec tr p ∧
    p.broker.clusterStateWaiters.map (·.conditionMet) = [true] ∧ p.broker.ResumesTrue := by
  obtain ⟨p, hex, hp⟩ := Machine.exists_exec_of_replay Process.init_first waitForTwo
    (fun p => p.broker.clusterStateWaiters.map (·.conditionMet)) [true] (by decide)
  have hstands : Machine.Meets MetStands
      (Process.machine.replayTrace Process.first waitForTwo) := by
    intro s hs
    rcases List.mem_cons.1 hs with rfl | hs
    · intro waiter hmem
      simp [Process.first] at hmem
    · obtain rfl := List.mem_singleton.1 hs
      intro waiter hmem _ _ last hlast
      obtain rfl := List.mem_singleton.1 hmem
      obtain rfl := Option.some.inj hlast
      rfl
  exact ⟨_, p, hex, hp, (condition_met_iff hex).2.2 hstands p
    (List.mem_append_right _ (List.mem_singleton_self p))⟩

/-- Node 2 is lost before the waiter resumes: what is returned as met has no node 2. -/
theorem condition_met_of_lost_node : ∃ tr p, Process.machine.Exec tr p ∧
    OverNodes (nodeAlive 2) ∧ p.broker.clusterStateWaiters.map (·.predicate) = [nodeAlive 2] ∧
    ∃ result, p.broker.resumeWaitClusterState 0 = some result ∧ result.2.conditionMet = true ∧
      nodeAlive 2 result.2.clusterState = false := by
  obtain ⟨p, hex, hp⟩ := Machine.exists_exec_of_replay Process.init_first
    (waitForTwo ++ [.process (.checkHeartbeatTimeout 20000)])
    (fun p => (p.broker.clusterStateWaiters.map (·.predicate),
      (p.broker.resumeWaitClusterState 0).map Prod.snd))
    ([nodeAlive 2], some ⟨⟨[⟨1, "tcp://a", ""⟩]⟩, true⟩) rfl
  obtain ⟨hpredicate, hresult⟩ := Prod.mk.inj hp
  obtain ⟨result, hresume, hresult⟩ := Option.map_eq_some_iff.1 hresult
  exact ⟨_, p, hex, overNodes_nodeAlive 2, hpredicate, result, hresume, by rw [hresult],
    by rw [hresult]; rfl⟩

end ExActor
