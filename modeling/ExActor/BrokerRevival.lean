/-
**Nodes that come back.**

`CheckHeartbeatTimeout` takes the entry of a silent node out of the table, and its time stamp with
it.  `HandleGossipMessage` compares the time stamps of a node that is in the table, but an entry of
a node that is not there it inserts as it comes.  A peer that has not noticed the silence, or a
message that was late, thus brings the node back with a time stamp that is no newer than the one it
was removed with.

The entries that the loop of `HandleGossipMessage` handles are those before the first that throws.
A node that is not in the table is there after the message exactly if one of them is about it.

Main definitions:

* `Broker.handledStates`, `Process.handles` — the entries that the loop handles;
* `removals` — the time stamps with which heartbeat checks have removed a node;
* `OnlyNewerRevives` — no node is put back by entries that are no newer than one of its removals;
* `NothingStale`, `NothingExpired` — conditions on the gossip that arrives.

Main results:

* `Broker.mem_handleNodeStates` — which nodes are in the table after gossip;
* `only_newer_revives_iff` — **when only newer evidence puts a node back**, and
  `stale_gossip_revives`, a run in which older evidence does.
-/

import ExActor.BrokerStep

set_option relaxedAutoImplicit false
set_option autoImplicit false

namespace ExActor

/-! ### What the loop of `HandleGossipMessage` handles -/

namespace Broker

variable {b : Broker} {nodeId : NodeId}

/-- The entries that the loop of `HandleGossipMessage` handles: those before the first that throws.
-/
def handledStates (b : Broker) : List NodeState → List NodeState
  | [] => []
  | incoming :: rest =>
      let r := b.handleNodeState incoming
      match r.result with
      | .error _ => []
      | .ok () => incoming :: handledStates r.broker rest

theorem result_discover (b : Broker) (ns : NodeState) : (b.discover ns).result = .ok () := by
  rw [discover_eq]

theorem nodeIdToState_discover (b : Broker) (ns : NodeState) :
    (b.discover ns).broker.nodeIdToState = b.nodeIdToState.insert ns.nodeId ns := by
  obtain ⟨deferred, heq⟩ := discover_broker_eq b ns
  rw [heq]

/-- **The nodes in the table after gossip**: those before, and those of the entries that the loop
handles. -/
theorem mem_handleNodeStates (nss : List NodeState) :
    nodeId ∈ (b.handleNodeStates nss).broker.nodeIdToState ↔
      nodeId ∈ b.nodeIdToState ∨ ∃ ns ∈ b.handledStates nss, ns.nodeId = nodeId := by
  induction nss generalizing b with
  | nil => simp [handleNodeStates, handledStates]
  | cons ns nss ih =>
      unfold handleNodeStates handledStates
      dsimp only
      rcases handleNodeState_spec b ns with ⟨-, heq⟩ | ⟨cur, hcur, heq⟩ | ⟨cur, e, hcur, -, heq⟩
      · rw [heq, result_discover]
        dsimp only
        rw [ih, nodeIdToState_discover, AList.mem_insert]
        simp only [List.mem_cons, exists_eq_or_imp]
        rw [or_comm (a := nodeId = ns.nodeId), or_assoc, eq_comm]
      · rw [heq]
        dsimp only
        rw [ih, refresh, AList.mem_insert]
        simp only [List.mem_cons, exists_eq_or_imp]
        rw [or_comm (a := nodeId = ns.nodeId), or_assoc, eq_comm]
      · rw [heq]
        simp

/-- A broadcast keeps the nodes in the table. -/
theorem mem_broadcastGossip (now : TimeMs) (nodeIds : List NodeId) :
    nodeId ∈ (b.broadcastGossip now nodeIds).broker.nodeIdToState ↔ nodeId ∈ b.nodeIdToState := by
  rcases b.broadcastGossip_cases now nodeIds with heq | ⟨state, hstate, heq | ⟨-, heq⟩⟩
  · rw [heq]
  all_goals
    have hself : b.thisNodeId ∈ b.nodeIdToState := UnorderedMap.mem_of_lookup hstate
    rw [heq, refresh, AList.mem_insert]
    exact ⟨fun h => h.elim (fun heq => heq ▸ hself) id, Or.inr⟩

theorem nodeIdToState_sendRequest (b : Broker) (toNodeId : NodeId) (data : ByteBuffer) :
    (b.sendRequest toNodeId data).broker.nodeIdToState = b.nodeIdToState := by
  rcases sendRequest_cases b toNodeId data with ⟨-, heq⟩ | ⟨-, -, heq⟩ | ⟨_, -, -, -, heq⟩ |
    ⟨_, -, -, -, heq⟩
  all_goals rw [heq]

theorem nodeIdToState_sendReply (b : Broker) (reply : ReplyOperation) :
    (b.sendReply reply).1.nodeIdToState = b.nodeIdToState := by
  obtain ⟨deferred, heq⟩ := sendReply_eq b reply
  rw [heq]

theorem nodeIdToState_handleRepliedResponse (b : Broker) (msg : BrokerTwoWayMessage) :
    (b.handleRepliedResponse msg).nodeIdToState = b.nodeIdToState := by
  unfold handleRepliedResponse
  split <;> rfl

theorem nodeIdToState_waitClusterState (b : Broker) (predicate : ClusterState → Bool)
    (timeoutMs now : TimeMs) :
    (b.waitClusterState predicate timeoutMs now).1.nodeIdToState = b.nodeIdToState := by
  unfold waitClusterState
  dsimp only
  split <;> rfl

end Broker

/-! ### What a step does to the nodes in the table -/

/-- The entries of gossip that an action handles. -/
def Process.handles (p : Process) : BrokerAction → List NodeState
  | .receive (.gossip msg) => p.broker.handledStates msg.nodeStates
  | _ => []

/-- **Only gossip puts a node into the table**, and it is one whose entry is handled. -/
theorem Process.mem_table_of_react {p p' : Process} {a : BrokerAction} {sent : List Sent}
    (h : p.react a = some (p', sent)) {nodeId : NodeId}
    (hnew : nodeId ∉ p.broker.nodeIdToState) :
    nodeId ∈ p'.broker.nodeIdToState ↔ ∃ ns ∈ p.handles a, ns.nodeId = nodeId := by
  have hnone : ¬ ∃ ns ∈ ([] : List NodeState), ns.nodeId = nodeId := by simp
  cases Process.reaction_of_react h with
  | gossiped msg status =>
      exact (Broker.mem_handleNodeStates msg.nodeStates).trans (or_iff_right hnew)
  | replied msg _ =>
      rw [Broker.nodeIdToState_handleRepliedResponse]
      exact iff_of_false hnew hnone
  | requested toNodeId data =>
      rw [Broker.nodeIdToState_sendRequest]
      exact iff_of_false hnew hnone
  | answered n data msg _ =>
      rw [Broker.nodeIdToState_sendReply]
      exact iff_of_false hnew hnone
  | broadcast now nodeIds status =>
      exact iff_of_false (fun hmem => hnew ((Broker.mem_broadcastGossip now nodeIds).1 hmem)) hnone
  | checked now =>
      exact iff_of_false (fun hmem => hnew (Broker.mem_nodeIdToState_lost.1 hmem).1) hnone
  | waited predicate timeoutMs now =>
      rw [Broker.nodeIdToState_waitClusterState]
      exact iff_of_false hnew hnone
  | started | handled | refused | requestResumed | waitResumed | expired =>
      exact iff_of_false hnew hnone

/-! ### The removals -/

/-- The time stamp of the entry of the node, if the action is a heartbeat check that removes it. -/
def Process.removal (nodeId : NodeId) (p : Process) : BrokerAction → Option TimeMs
  | .process (.checkHeartbeatTimeout now) =>
      ((p.broker.nodeIdToState.lookup nodeId).filter (p.broker.timedOut now nodeId)).map
        NodeState.lastSeenTimestampMs
  | _ => none

/-- The time stamps with which the heartbeat checks of a run have removed the node. -/
def removals (nodeId : NodeId) (tr : List (Process × BrokerAction)) : List TimeMs :=
  tr.filterMap fun step => step.1.removal nodeId step.2

/-- A removal is a heartbeat check that found the entry of the node timed out. -/
theorem mem_removals {nodeId : NodeId} {tr : List (Process × BrokerAction)} {s : TimeMs} :
    s ∈ removals nodeId tr ↔ ∃ q now state,
      (q, .process (.checkHeartbeatTimeout now)) ∈ tr ∧
        q.broker.nodeIdToState.lookup nodeId = some state ∧
          q.broker.timedOut now nodeId state = true ∧ state.lastSeenTimestampMs = s := by
  rw [removals, List.mem_filterMap]
  constructor
  · rintro ⟨⟨q, a⟩, hmem, hs⟩
    unfold Process.removal at hs
    split at hs
    · next now heq =>
        obtain rfl : a = _ := heq
        obtain ⟨state, hstate, rfl⟩ := Option.map_eq_some_iff.1 hs
        obtain ⟨hlookup, htimedOut⟩ := Option.filter_eq_some_iff.1 hstate
        exact ⟨q, now, state, hmem, hlookup, htimedOut, rfl⟩
    · simp at hs
  · rintro ⟨q, now, state, hmem, hlookup, htimedOut, rfl⟩
    refine ⟨_, hmem, Option.map_eq_some_iff.2 ⟨state, ?_, rfl⟩⟩
    exact Option.filter_eq_some_iff.2 ⟨hlookup, htimedOut⟩

/-! ### When only newer evidence puts a node back -/

/-- In no step is a node that is not in the table put into it, although all of its entries that are
handled are at most as new as its entry was when a heartbeat check removed it. -/
def OnlyNewerRevives (tr : List (Process × BrokerAction)) : Prop :=
  ∀ tr₁ q a tr₂, tr = tr₁ ++ (q, a) :: tr₂ → ∀ nodeId, ∀ s ∈ removals nodeId tr₁,
    nodeId ∉ q.broker.nodeIdToState →
      (∀ ns ∈ q.handles a, ns.nodeId = nodeId → ns.lastSeenTimestampMs ≤ s) →
        ∀ q', Process.machine.next q a = some q' → nodeId ∉ q'.broker.nodeIdToState

/-- Whenever an entry of gossip is handled of a node that a heartbeat check has removed and that is
not in the table, one of those handled in the message is newer than the removal. -/
def NothingStale (tr : List (Process × BrokerAction)) : Prop :=
  ∀ tr₁ q a tr₂, tr = tr₁ ++ (q, a) :: tr₂ → ∀ nodeId, ∀ s ∈ removals nodeId tr₁,
    nodeId ∉ q.broker.nodeIdToState → (∃ ns ∈ q.handles a, ns.nodeId = nodeId) →
      ∃ ns ∈ q.handles a, ns.nodeId = nodeId ∧ s < ns.lastSeenTimestampMs

/-- No entry of gossip is handled that an earlier heartbeat check would have found timed out. -/
def NothingExpired (tr : List (Process × BrokerAction)) : Prop :=
  ∀ tr₁ q a tr₂, tr = tr₁ ++ (q, a) :: tr₂ → ∀ ns ∈ q.handles a,
    ∀ q₁ now, (q₁, .process (.checkHeartbeatTimeout now)) ∈ tr₁ →
      q₁.broker.timedOut now ns.nodeId ns = false

/-- The clock reading of a heartbeat check. -/
def BrokerAction.checksAt : BrokerAction → Option TimeMs
  | .process (.checkHeartbeatTimeout now) => some now
  | _ => none

/-- It is enough to compare each step with those before it. -/
theorem nothingExpired_of_pairwise {tr : List (Process × BrokerAction)}
    (h : tr.Pairwise fun s t => ∀ ns ∈ t.1.handles t.2,
      (s.2.checksAt.all fun now => !s.1.broker.timedOut now ns.nodeId ns) = true) :
    NothingExpired tr := by
  rintro tr₁ q a tr₂ rfl ns hns q₁ now hmem
  have hpair := (List.pairwise_append.1 h).2.2 _ hmem _ List.mem_cons_self ns hns
  simpa [BrokerAction.checksAt] using hpair

/-- **When a node has timed out**, in milliseconds: its time stamp is in the past, by the heartbeat
timeout or more. -/
theorem Broker.timedOut_iff {b : Broker} {now : TimeMs} {nodeId : NodeId} {state : NodeState} :
    b.timedOut now nodeId state = true ↔ nodeId ≠ b.thisNodeId ∧
      state.lastSeenTimestampMs.toNat < now.toNat ∧ state.lastSeenTimestampMs.toNat
        + b.clusterConfig.networkConfig.heartbeatTimeoutMs.toNat ≤ now.toNat := by
  simp only [timedOut, Bool.not_eq_true', Bool.or_eq_false_iff, beq_eq_false_iff_ne, and_assoc,
    decide_eq_false_iff_not, BitVec.not_le, BitVec.not_lt, ne_eq, and_congr_right_iff]
  intro _
  constructor
  · rintro ⟨hpast, hlong⟩
    have hsub := BitVec.toNat_sub_of_le (BitVec.le_of_lt hpast)
    rw [BitVec.le_def, hsub] at hlong
    rw [BitVec.lt_def] at hpast
    exact ⟨hpast, by omega⟩
  · rintro ⟨hpast, hlong⟩
    rw [← BitVec.lt_def] at hpast
    refine ⟨hpast, ?_⟩
    rw [BitVec.le_def, BitVec.toNat_sub_of_le (BitVec.le_of_lt hpast)]
    omega

/-- What has timed out has timed out with an older time stamp as well. -/
theorem Broker.timedOut_of_le {b : Broker} {now : TimeMs} {nodeId : NodeId}
    {state state' : NodeState} (h : b.timedOut now nodeId state = true)
    (hle : state'.lastSeenTimestampMs ≤ state.lastSeenTimestampMs) :
    b.timedOut now nodeId state' = true := by
  rw [timedOut_iff] at h ⊢
  rw [BitVec.le_def] at hle
  exact ⟨h.1, by omega, by omega⟩

/-- **When only newer evidence puts a node back.**  In every run, no node is put back by entries
that are at most as new as its entry was when it was removed exactly if no such entry is handled;
and this is so in every run in which no entry is handled that an earlier heartbeat check would have
found timed out. -/
theorem only_newer_revives_iff {tr : List (Process × BrokerAction)} {p : Process}
    (h : Process.machine.Exec tr p) :
    (OnlyNewerRevives tr ↔ NothingStale tr) ∧ (NothingExpired tr → OnlyNewerRevives tr) := by
  have hiff : OnlyNewerRevives tr ↔ NothingStale tr := by
    constructor
    · intro hnewer tr₁ q a tr₂ hsplit nodeId s hs hnew hhandled
      by_contra hstale
      subst hsplit
      obtain ⟨-, q', hn, -⟩ := h.split
      -- the entry that is handled puts the node into the table
      have hmem := (Process.mem_table_of_react (Process.next_eq_some hn) hnew).2 hhandled
      refine hnewer tr₁ q a tr₂ rfl nodeId s hs hnew (fun ns hns hid => ?_) q' hn hmem
      by_contra hlt
      exact hstale ⟨ns, hns, hid, BitVec.not_le.1 hlt⟩
    · intro hstale tr₁ q a tr₂ hsplit nodeId s hs hnew hold q' hn hmem
      have hhandled := (Process.mem_table_of_react (Process.next_eq_some hn) hnew).1 hmem
      obtain ⟨ns, hns, hid, hlt⟩ := hstale tr₁ q a tr₂ hsplit nodeId s hs hnew hhandled
      exact absurd (hold ns hns hid) (BitVec.not_le.2 hlt)
  refine ⟨hiff, fun hexpired => hiff.2 ?_⟩
  rintro tr₁ q a tr₂ hsplit nodeId s hs - ⟨ns, hns, rfl⟩
  refine ⟨ns, hns, rfl, ?_⟩
  by_contra hle
  -- the check that has removed the node would have found this entry timed out
  obtain ⟨q₁, now, state, hmem, -, htimedOut, rfl⟩ := mem_removals.1 hs
  have hfresh := hexpired tr₁ q a tr₂ hsplit ns hns q₁ now hmem
  rw [Broker.timedOut_of_le htimedOut (BitVec.not_lt.1 hle)] at hfresh
  simp at hfresh

/-- Node 1 is told of node 2, hears nothing for longer than the heartbeat timeout, and loses it. -/
def lossOfTwo : List BrokerAction :=
  [.receive (gossipOfTwo 1), .process (.checkHeartbeatTimeout 20000)]

/-- Node 2 comes back with a time stamp that the heartbeat check would not have found timed out. -/
theorem only_newer_revives_iff_newer : ∃ tr p, Process.machine.Exec tr p ∧
    p.broker.nodeIdToState.lookup 2 = some ⟨15000, 2, "tcp://b", ""⟩ ∧ removals 2 tr = [1] ∧
    OnlyNewerRevives tr ∧ NothingStale tr := by
  let L : List BrokerAction := lossOfTwo ++ [.receive (gossipOfTwo 15000)]
  obtain ⟨p, hex, hp⟩ := Machine.exists_exec_of_replay Process.init_first L
    (fun p => p.broker.nodeIdToState.lookup 2) (some ⟨15000, 2, "tcp://b", ""⟩) (by decide)
  obtain ⟨hiff, hexpired⟩ := only_newer_revives_iff hex
  have hnewer := hexpired (nothingExpired_of_pairwise (by decide))
  exact ⟨_, p, hex, hp, by decide, hnewer, hiff.1 hnewer⟩

/-- A peer that has not noticed the silence gossips its copy of the entry: node 2 is put back with
the time stamp that it was removed with. -/
theorem stale_gossip_revives : ∃ tr p, Process.machine.Exec tr p ∧ ¬ OnlyNewerRevives tr := by
  let again : BrokerAction := .receive (.gossip ⟨3, [⟨1, 2, "tcp://b", ""⟩]⟩)
  obtain ⟨q, hex, hq⟩ := Machine.exists_exec_of_replay Process.init_first lossOfTwo
    (fun q => (q.broker.nodeIdToState.lookup 2, q.handles again,
      (Process.machine.next q again).map fun q' => q'.broker.nodeIdToState.lookup 2))
    (none, [⟨1, 2, "tcp://b", ""⟩], some (some ⟨1, 2, "tcp://b", ""⟩)) (by decide)
  simp only [Prod.mk.injEq] at hq
  obtain ⟨hgone, hhandles, hback⟩ := hq
  obtain ⟨q', hn, hlookup⟩ := Option.map_eq_some_iff.1 hback
  refine ⟨_, q', hex.step hn, fun hnewer => ?_⟩
  have hremoved : (1 : TimeMs) ∈ removals 2 (Process.machine.replayTrace Process.first lossOfTwo) :=
    by decide
  refine hnewer _ q again [] rfl 2 1 hremoved (AList.lookup_eq_none.1 hgone) ?_ q' hn
    (UnorderedMap.mem_of_lookup hlookup)
  rw [hhandles]
  simp

end ExActor
