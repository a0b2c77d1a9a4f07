/-
**What a heartbeat check goes by.**

`BroadcastGossip` stamps the entry of its node with the clock of that node, other nodes pass the
stamp on, and `CheckHeartbeatTimeout` compares it with the clock of the node that checks.  The check
does not go by when something was heard of a node, but by the latest of all stamps that were: a node
is removed exactly if every entry of it that was ever handled has timed out.

Main definitions:

* `Broker.Merges` — what gossip does to the time stamps of the table;
* `Recorded` — the table holds the latest of the entries that were handled;
* `Broker.Silent` — a node has not been heard of for the timeout, in exact integers.

Main results:

* `Process.recorded_of_exec` — `Recorded` holds in every run;
* `Process.mem_nodesToRemove_iff` — **which nodes a heartbeat check removes**;
* `heartbeat_check_exact` — **what a heartbeat check does to each node and to each request**.
-/

import ExActor.BrokerContact
import ExActor.BrokerMembership

set_option relaxedAutoImplicit false
set_option autoImplicit false

namespace ExActor

/-! ### The table holds the latest time stamps -/

namespace Broker

variable {b b' b'' : Broker} {done : List ReplyOperation} {sent : List Sent}
  {nss nss' : List NodeState}

/-- Nothing changes the configuration of a broker. -/
theorem Change.clusterConfig (h : Change b done sent b') : b'.clusterConfig = b.clusterConfig := by
  cases h with
  | discovered ns =>
      obtain ⟨deferred, heq⟩ := discover_broker_eq b ns
      rw [heq]
  | _ => rfl

theorem Changes.clusterConfig (h : Changes b done sent b') :
    b'.clusterConfig = b.clusterConfig := by
  induction h with
  | refl => rfl
  | tail _ hchange ih => exact hchange.clusterConfig.trans ih

/-- The entries enter the table of `b`, which keeps the later time stamp of each of the other
nodes. -/
structure Merges (b : Broker) (nss : List NodeState) (b' : Broker) : Prop where
  thisNodeId : b'.thisNodeId = b.thisNodeId
  later : ∀ nodeId cur, nodeId ≠ b.thisNodeId → b.nodeIdToState.lookup nodeId = some cur →
    ∃ cur', b'.nodeIdToState.lookup nodeId = some cur' ∧
      cur.lastSeenTimestampMs ≤ cur'.lastSeenTimestampMs
  handled : ∀ ns ∈ nss, ns.nodeId ≠ b.thisNodeId →
    ∃ cur', b'.nodeIdToState.lookup ns.nodeId = some cur' ∧
      ns.lastSeenTimestampMs ≤ cur'.lastSeenTimestampMs
  source : ∀ nodeId cur', nodeId ≠ b.thisNodeId → b'.nodeIdToState.lookup nodeId = some cur' →
    (∃ cur, b.nodeIdToState.lookup nodeId = some cur ∧
      cur.lastSeenTimestampMs = cur'.lastSeenTimestampMs) ∨
    ∃ ns ∈ nss, ns.nodeId = nodeId ∧ ns.lastSeenTimestampMs = cur'.lastSeenTimestampMs

/-- The entries of the other nodes are as they were. -/
theorem Merges.of_others (hid : b'.thisNodeId = b.thisNodeId)
    (htable : ∀ nodeId, nodeId ≠ b.thisNodeId →
      b'.nodeIdToState.lookup nodeId = b.nodeIdToState.lookup nodeId) : Merges b [] b' := by
  refine ⟨hid, fun nodeId cur hne hcur => ⟨cur, (htable nodeId hne).trans hcur, BitVec.le_refl _⟩,
    by simp, fun nodeId cur hne hcur => Or.inl ⟨cur, ?_, rfl⟩⟩
  rw [← htable nodeId hne]
  exact hcur

theorem Merges.of_eq (hid : b'.thisNodeId = b.thisNodeId)
    (htable : b'.nodeIdToState = b.nodeIdToState) : Merges b [] b' :=
  Merges.of_others hid fun nodeId _ => by rw [htable]

theorem Merges.refl (b : Broker) : Merges b [] b := Merges.of_eq rfl rfl

theorem Merges.trans (h : Merges b nss b') (h' : Merges b' nss' b'') :
    Merges b (nss ++ nss') b'' := by
  have hid : ∀ {nodeId : NodeId}, nodeId ≠ b.thisNodeId → nodeId ≠ b'.thisNodeId := by
    intro nodeId hne
    rwa [h.thisNodeId]
  refine ⟨h'.thisNodeId.trans h.thisNodeId, fun nodeId cur hne hcur => ?_, fun ns hns hne => ?_,
    fun nodeId cur hne hcur => ?_⟩
  · obtain ⟨mid, hmid, hle⟩ := h.later nodeId cur hne hcur
    obtain ⟨last, hlast, hle'⟩ := h'.later nodeId mid (hid hne) hmid
    exact ⟨last, hlast, BitVec.le_trans hle hle'⟩
  · rcases List.mem_append.1 hns with hns | hns
    · obtain ⟨mid, hmid, hle⟩ := h.handled ns hns hne
      obtain ⟨last, hlast, hle'⟩ := h'.later ns.nodeId mid (hid hne) hmid
      exact ⟨last, hlast, BitVec.le_trans hle hle'⟩
    · exact h'.handled ns hns (hid hne)
  · rcases h'.source nodeId cur (hid hne) hcur with ⟨mid, hmid, heq⟩ | ⟨ns, hns, hns', heq⟩
    · rcases h.source nodeId mid hne hmid with ⟨old, hold, heq'⟩ | ⟨ns, hns, hns', heq'⟩
      · exact Or.inl ⟨old, hold, heq'.trans heq⟩
      · exact Or.inr ⟨ns, List.mem_append_left _ hns, hns', heq'.trans heq⟩
    · exact Or.inr ⟨ns, List.mem_append_right _ hns, hns', heq⟩

/-- A new entry is inserted whole. -/
theorem merges_discover {ns : NodeState} (hnew : b.nodeIdToState.lookup ns.nodeId = none) :
    Merges b [ns] (b.discover ns).broker := by
  have htable := nodeIdToState_discover b ns
  have hid : (b.discover ns).broker.thisNodeId = b.thisNodeId :=
    (Change.discovered ns hnew).thisNodeId
  refine ⟨hid, fun nodeId cur _ hcur => ?_, fun ns' hns _ => ?_, fun nodeId cur _ hcur => ?_⟩
  · have hne : nodeId ≠ ns.nodeId := by
      rintro rfl
      rw [hnew] at hcur
      simp at hcur
    rw [htable, AList.lookup_insert_ne hne]
    exact ⟨cur, hcur, BitVec.le_refl _⟩
  · obtain rfl := List.mem_singleton.1 hns
    rw [htable]
    exact ⟨ns', AList.lookup_insert _, BitVec.le_refl _⟩
  · rw [htable] at hcur
    by_cases hne : nodeId = ns.nodeId
    · subst hne
      rw [AList.lookup_insert] at hcur
      obtain rfl := Option.some.inj hcur
      exact Or.inr ⟨ns, List.mem_singleton_self ns, rfl, rfl⟩
    · rw [AList.lookup_insert_ne hne] at hcur
      exact Or.inl ⟨cur, hcur, rfl⟩

/-- Of an entry that is there the later time stamp is kept. -/
theorem merges_refresh {ns cur : NodeState} (hcur : b.nodeIdToState.lookup ns.nodeId = some cur) :
    Merges b [ns] (b.refresh ns.nodeId cur
      (latest cur.lastSeenTimestampMs ns.lastSeenTimestampMs)) := by
  refine ⟨rfl, fun nodeId old _ hold => ?_, fun ns' hns _ => ?_, fun nodeId last _ hlast => ?_⟩
  · by_cases hne : nodeId = ns.nodeId
    · subst hne
      rw [hcur] at hold
      obtain rfl := Option.some.inj hold
      exact ⟨_, AList.lookup_insert _, le_latest_left _ _⟩
    · exact ⟨old, (AList.lookup_insert_ne hne).trans hold, BitVec.le_refl _⟩
  · obtain rfl := List.mem_singleton.1 hns
    exact ⟨_, AList.lookup_insert _, le_latest_right _ _⟩
  · by_cases hne : nodeId = ns.nodeId
    · subst hne
      rw [refresh, AList.lookup_insert] at hlast
      obtain rfl := Option.some.inj hlast
      dsimp only
      rcases latest_eq_or cur.lastSeenTimestampMs ns.lastSeenTimestampMs with heq | heq
      · exact Or.inl ⟨cur, hcur, heq.symm⟩
      · exact Or.inr ⟨ns, List.mem_singleton_self ns, rfl, heq.symm⟩
    · rw [refresh, AList.lookup_insert_ne hne] at hlast
      exact Or.inl ⟨last, hlast, rfl⟩

/-- **The loop of `HandleGossipMessage` merges the entries that it handles.** -/
theorem merges_handleNodeStates (b : Broker) (nss : List NodeState) :
    Merges b (b.handledStates nss) (b.handleNodeStates nss).broker := by
  induction nss generalizing b with
  | nil => exact Merges.refl b
  | cons ns nss ih =>
      unfold handleNodeStates handledStates
      dsimp only
      rcases handleNodeState_spec b ns with ⟨hnew, heq⟩ | ⟨cur, hcur, heq⟩ | ⟨cur, e, -, -, heq⟩
      · rw [heq, result_discover]
        exact (merges_discover hnew).trans (ih _)
      · rw [heq]
        exact (merges_refresh hcur).trans (ih _)
      · rw [heq]
        exact Merges.refl b

theorem merges_broadcastGossip (b : Broker) (now : TimeMs) (nodeIds : List NodeId) :
    Merges b [] (b.broadcastGossip now nodeIds).broker := by
  have hself (state : NodeState) : Merges b [] (b.refresh b.thisNodeId state now) :=
    Merges.of_others rfl fun nodeId hne => AList.lookup_insert_ne hne
  rcases b.broadcastGossip_cases now nodeIds with heq | ⟨state, -, heq | ⟨-, heq⟩⟩
  · rw [heq]
    exact Merges.refl b
  · rw [heq]
    exact hself state
  · rw [heq]
    exact (hself state).trans (Merges.of_eq rfl rfl)

end Broker

/-- A step other than a heartbeat check merges the entries that it handles. -/
theorem Process.merges_of_react {p p' : Process} {a : BrokerAction} {sent : List Sent}
    (h : p.react a = some (p', sent))
    (hcheck : ∀ now, a ≠ .process (.checkHeartbeatTimeout now)) :
    Broker.Merges p.broker (p.handles a) p'.broker := by
  have hid := (Process.changes_of_react h).thisNodeId
  cases Process.reaction_of_react h with
  | gossiped msg status => exact Broker.merges_handleNodeStates p.broker msg.nodeStates
  | replied msg _ => exact Broker.Merges.of_eq hid (Broker.nodeIdToState_handleRepliedResponse ..)
  | requested toNodeId data =>
      exact Broker.Merges.of_eq hid (Broker.nodeIdToState_sendRequest ..)
  | answered n data msg _ => exact Broker.Merges.of_eq hid (Broker.nodeIdToState_sendReply ..)
  | broadcast now nodeIds status => exact Broker.merges_broadcastGossip p.broker now nodeIds
  | checked now => exact absurd rfl (hcheck now)
  | waited predicate timeoutMs now =>
      exact Broker.Merges.of_eq hid (Broker.nodeIdToState_waitClusterState ..)
  | started | handled | refused | requestResumed | waitResumed | expired =>
      exact Broker.Merges.of_eq rfl rfl

/-! ### Which nodes a heartbeat check removes -/

/-- The entries that were handled in a run, in their order. -/
def handledEntries (tr : List (Process × BrokerAction)) : List NodeState :=
  tr.flatMap fun step => step.1.handles step.2

/-- Every entry that was handled of another node is in the table with its time stamp or a later one,
or a heartbeat check has found it timed out; and every entry of the table was handled. -/
structure Recorded (tr : List (Process × BrokerAction)) (b : Broker) : Prop where
  handled : ∀ ns ∈ handledEntries tr, ns.nodeId ≠ b.thisNodeId →
    (∃ cur, b.nodeIdToState.lookup ns.nodeId = some cur ∧
      ns.lastSeenTimestampMs ≤ cur.lastSeenTimestampMs) ∨
    ∃ q now, (q, .process (.checkHeartbeatTimeout now)) ∈ tr ∧
      q.broker.timedOut now ns.nodeId ns = true
  source : ∀ nodeId cur, nodeId ≠ b.thisNodeId → b.nodeIdToState.lookup nodeId = some cur →
    ∃ ns ∈ handledEntries tr, ns.nodeId = nodeId ∧
      ns.lastSeenTimestampMs = cur.lastSeenTimestampMs

namespace Process

variable {tr : List (Process × BrokerAction)} {p p' : Process}

theorem mem_handledEntries_append {q : Process} {a : BrokerAction} {ns : NodeState} :
    ns ∈ handledEntries (tr ++ [(q, a)]) ↔ ns ∈ handledEntries tr ∨ ns ∈ q.handles a := by
  simp [handledEntries]

/-- The identity and the configuration of a broker are those it was constructed with. -/
theorem constant_of_exec (h : machine.Exec tr p) : ∀ s ∈ tr,
    s.1.broker.thisNodeId = p.broker.thisNodeId ∧
      s.1.broker.clusterConfig = p.broker.clusterConfig := by
  induction h with
  | init _ => simp
  | @step tr p p' a _ hn ih =>
      have hchanges := changes_of_react (next_eq_some hn)
      intro s hs
      rw [hchanges.thisNodeId, hchanges.clusterConfig]
      rcases List.mem_append.1 hs with hs | hs
      · exact ih s hs
      · obtain rfl := List.mem_singleton.1 hs
        exact ⟨rfl, rfl⟩

/-- The entries that have not timed out stay as they are. -/
theorem lookup_checkHeartbeatTimeout_table (b : Broker) (now : TimeMs) (nodeId : NodeId) :
    (b.checkHeartbeatTimeout now).nodeIdToState.lookup nodeId
      = if nodeId ∈ b.nodesToRemove now then none else b.nodeIdToState.lookup nodeId :=
  Broker.lookup_lost (b.nodesToRemove now) b nodeId

/-- The step lemma: a heartbeat check. -/
theorem recorded_check (h : Recorded tr p.broker) (now : TimeMs) :
    Recorded (tr ++ [(p, .process (.checkHeartbeatTimeout now))])
      (p.broker.checkHeartbeatTimeout now) := by
  have hid : (p.broker.checkHeartbeatTimeout now).thisNodeId = p.broker.thisNodeId :=
    (Broker.changes_checkHeartbeatTimeout p.broker now).thisNodeId
  refine ⟨fun ns hns hne => ?_, fun nodeId cur hne hcur => ?_⟩
  · rw [hid] at hne
    have hns := (mem_handledEntries_append.1 hns).resolve_right (by simp [handles])
    rcases h.handled ns hns hne with ⟨cur, hcur, hle⟩ | ⟨q, now', hmem, htimedOut⟩
    · by_cases hremoved : ns.nodeId ∈ p.broker.nodesToRemove now
      · -- the entry of the table has timed out, and so has the older one
        obtain ⟨state, hstate, htimedOut⟩ := Broker.mem_nodesToRemove.1 hremoved
        rw [hcur] at hstate
        obtain rfl := Option.some.inj hstate
        exact Or.inr ⟨p, now, by simp, Broker.timedOut_of_le htimedOut hle⟩
      · refine Or.inl ⟨cur, ?_, hle⟩
        rw [lookup_checkHeartbeatTimeout_table, if_neg hremoved]
        exact hcur
    · exact Or.inr ⟨q, now', List.mem_append_left _ hmem, htimedOut⟩
  · rw [hid] at hne
    rw [lookup_checkHeartbeatTimeout_table] at hcur
    split at hcur
    · simp at hcur
    · obtain ⟨ns, hns, heq⟩ := h.source nodeId cur hne hcur
      exact ⟨ns, mem_handledEntries_append.2 (Or.inl hns), heq⟩

/-- The step lemma: a step that merges the entries it handles. -/
theorem recorded_merge (h : Recorded tr p.broker) {a : BrokerAction}
    (hmerges : Broker.Merges p.broker (p.handles a) p'.broker) :
    Recorded (tr ++ [(p, a)]) p'.broker := by
  refine ⟨fun ns hns hne => ?_, fun nodeId cur hne hcur => ?_⟩
  · rw [hmerges.thisNodeId] at hne
    rcases mem_handledEntries_append.1 hns with hns | hns
    · rcases h.handled ns hns hne with ⟨cur, hcur, hle⟩ | ⟨q, now, hmem, htimedOut⟩
      · obtain ⟨cur', hcur', hle'⟩ := hmerges.later ns.nodeId cur hne hcur
        exact Or.inl ⟨cur', hcur', BitVec.le_trans hle hle'⟩
      · exact Or.inr ⟨q, now, List.mem_append_left _ hmem, htimedOut⟩
    · -- an entry of this very message is merged
      exact Or.inl (hmerges.handled ns hns hne)
  · rw [hmerges.thisNodeId] at hne
    rcases hmerges.source nodeId cur hne hcur with ⟨old, hold, heq⟩ | ⟨ns, hns, hid, heq⟩
    · obtain ⟨ns, hns, hid, heq'⟩ := h.source nodeId old hne hold
      exact ⟨ns, mem_handledEntries_append.2 (Or.inl hns), hid, heq'.trans heq⟩
    · exact ⟨ns, mem_handledEntries_append.2 (Or.inr hns), hid, heq⟩

/-- **The table holds the latest of what was handled**, in every run. -/
theorem recorded_of_exec (h : machine.Exec tr p) : Recorded tr p.broker := by
  induction h with
  | @init p h0 =>
      obtain ⟨id, config, now, b, hb, rfl⟩ := h0
      obtain ⟨hid, -, htable, -⟩ := Broker.construct_eq_ok hb
      refine ⟨by simp [handledEntries], fun nodeId cur hne hcur => ?_⟩
      dsimp only at hne hcur
      rw [hid] at hne
      rw [htable, AList.lookup_insert_ne hne] at hcur
      simp at hcur
  | @step tr p p' a hex hn ih =>
      have hreact := next_eq_some hn
      by_cases hcheck : ∃ now, a = .process (.checkHeartbeatTimeout now)
      · obtain ⟨now, rfl⟩ := hcheck
        obtain ⟨rfl, -⟩ := Prod.mk.inj (Option.some.inj hreact)
        exact recorded_check ih now
      · exact recorded_merge ih (merges_of_react hreact fun now heq => hcheck ⟨now, heq⟩)

/-- **Which nodes a heartbeat check removes**, in a run whose clock has not gone back: those in the
table of which every entry that was ever handled has timed out. -/
theorem mem_nodesToRemove_iff (h : machine.Exec tr p) {now : TimeMs}
    (hclock : ∀ q now', (q, .process (.checkHeartbeatTimeout now')) ∈ tr → now' ≤ now)
    {nodeId : NodeId} (hother : nodeId ≠ p.broker.thisNodeId) :
    nodeId ∈ p.broker.nodesToRemove now ↔ nodeId ∈ p.broker.nodeIdToState ∧
      ∀ ns ∈ handledEntries tr, ns.nodeId = nodeId → p.broker.timedOut now nodeId ns = true := by
  have hrecorded := recorded_of_exec h
  rw [Broker.mem_nodesToRemove]
  constructor
  · rintro ⟨cur, hcur, htimedOut⟩
    refine ⟨UnorderedMap.mem_of_lookup hcur, ?_⟩
    rintro ns hns rfl
    rcases hrecorded.handled ns hns hother with ⟨cur', hcur', hle⟩ | ⟨q, now', hmem, hbefore⟩
    · rw [hcur] at hcur'
      obtain rfl := Option.some.inj hcur'
      exact Broker.timedOut_of_le htimedOut hle
    · -- what had timed out then has timed out now
      have hle := hclock q now' hmem
      obtain ⟨-, hconfig⟩ := constant_of_exec h _ hmem
      dsimp only at hconfig
      rw [Broker.timedOut_iff, hconfig] at hbefore
      rw [Broker.timedOut_iff]
      rw [BitVec.le_def] at hle
      exact ⟨hother, by omega, by omega⟩
  · rintro ⟨hmem, hall⟩
    obtain ⟨cur, hcur⟩ := UnorderedMap.exists_lookup hmem
    obtain ⟨ns, hns, hid, heq⟩ := hrecorded.source nodeId cur hother hcur
    refine ⟨cur, hcur, Broker.timedOut_of_le (hall ns hns hid) ?_⟩
    rw [heq]
    exact BitVec.le_refl _

end Process

/-! ### What a heartbeat check does -/

namespace Broker

/-- Another node has an entry with a time stamp of the past that is at least the timeout ago.  The
subtraction is that of the integers. -/
def Silent (b : Broker) (now : TimeMs) (nodeId : NodeId) : Prop :=
  nodeId ≠ b.thisNodeId ∧ ∃ state, b.nodeIdToState.lookup nodeId = some state ∧
    state.lastSeenTimestampMs.toNat < now.toNat ∧
    (b.clusterConfig.networkConfig.heartbeatTimeoutMs.toNat : ℤ)
      ≤ now.toNat - state.lastSeenTimestampMs.toNat

/-- **The check removes the silent nodes**: its 64-bit comparison does not wrap around. -/
theorem mem_nodesToRemove_iff_silent {b : Broker} {now : TimeMs} {nodeId : NodeId} :
    nodeId ∈ b.nodesToRemove now ↔ b.Silent now nodeId := by
  rw [mem_nodesToRemove, Silent]
  constructor
  · rintro ⟨state, hstate, htimedOut⟩
    obtain ⟨hne, hpast, hlong⟩ := timedOut_iff.1 htimedOut
    exact ⟨hne, state, hstate, hpast, by omega⟩
  · rintro ⟨hne, state, hstate, hpast, hlong⟩
    exact ⟨state, hstate, timedOut_iff.2 ⟨hne, hpast, by omega⟩⟩

/-- The sockets of the nodes that stay are as they were. -/
theorem lookup_sockets_lost (nodeIds : List NodeId) (b : Broker) (nodeId : NodeId) :
    (nodeIds.foldl onNodeConnectionLost b).nodeIdToSendSocket.lookup nodeId
      = if nodeId ∈ nodeIds then none else b.nodeIdToSendSocket.lookup nodeId := by
  induction nodeIds generalizing b with
  | nil => simp
  | cons id nodeIds ih =>
      have hfirst : (b.onNodeConnectionLost id).nodeIdToSendSocket
          = b.nodeIdToSendSocket.erase id := rfl
      rw [List.foldl_cons, ih, hfirst]
      by_cases hid : nodeId = id
      · subst hid
        simp
      · rw [AList.lookup_erase_ne hid]
        simp [hid]

/-- The loss of nodes does not touch the deferred replies. -/
theorem deferredReplies_lost (nodeIds : List NodeId) (b : Broker) :
    (nodeIds.foldl onNodeConnectionLost b).deferredReplies = b.deferredReplies := by
  induction nodeIds generalizing b with
  | nil => rfl
  | cons nodeId nodeIds ih => exact ih _

end Broker

/-- **A heartbeat check is exact.**  In every reachable state and for every reading of the clock,
each silent node had an entry and a socket and loses both, and the others keep theirs; each
outstanding request to a silent node gets the error of that node and a signal, and the others are as
they were; no request appears or disappears, and the deferred replies stay. -/
theorem heartbeat_check_exact {tr : List (Process × BrokerAction)} {p : Process}
    (h : Process.machine.Exec tr p) (now : TimeMs) :
    let b := p.broker
    let b' := b.checkHeartbeatTimeout now
    (∀ nodeId, b.Silent now nodeId →
      (nodeId ∈ b.nodeIdToState ∧ nodeId ∉ b'.nodeIdToState) ∧
        (nodeId ∈ b.nodeIdToSendSocket ∧ nodeId ∉ b'.nodeIdToSendSocket)) ∧
    (∀ nodeId, ¬ b.Silent now nodeId →
      b'.nodeIdToState.lookup nodeId = b.nodeIdToState.lookup nodeId ∧
        b'.nodeIdToSendSocket.lookup nodeId = b.nodeIdToSendSocket.lookup nodeId) ∧
    (∀ requestId request, b.outstandingRequests.lookup requestId = some request →
      (b.Silent now request.responseNodeId →
        b'.outstandingRequests.lookup requestId = some { request with
          exceptionPtr := some (.nodeDead request.responseNodeId)
          sem := request.sem.acquire 1 }) ∧
      (¬ b.Silent now request.responseNodeId →
        b'.outstandingRequests.lookup requestId = some request)) ∧
    (∀ requestId, requestId ∈ b'.outstandingRequests ↔ requestId ∈ b.outstandingRequests) ∧
    b'.deferredReplies = b.deferredReplies := by
  intro b b'
  have hstates : ∀ nodeId, b'.nodeIdToState.lookup nodeId
      = if nodeId ∈ b.nodesToRemove now then none else b.nodeIdToState.lookup nodeId :=
    Process.lookup_checkHeartbeatTimeout_table b now
  have hsockets : ∀ nodeId, b'.nodeIdToSendSocket.lookup nodeId
      = if nodeId ∈ b.nodesToRemove now then none else b.nodeIdToSendSocket.lookup nodeId :=
    Broker.lookup_sockets_lost (b.nodesToRemove now) b
  have hrequests := Broker.lookup_checkHeartbeatTimeout b now
  refine ⟨fun nodeId hsilent => ?_, fun nodeId hsilent => ?_, fun requestId request hrequest => ?_,
    fun requestId => ?_, Broker.deferredReplies_lost (b.nodesToRemove now) b⟩
  · have hremoved := Broker.mem_nodesToRemove_iff_silent.2 hsilent
    obtain ⟨hne, state, hstate, -⟩ := hsilent
    have hmem := UnorderedMap.mem_of_lookup hstate
    refine ⟨⟨hmem, ?_⟩, ((Process.connected_of_exec h).sockets nodeId).2 ⟨hmem, hne⟩, ?_⟩
    · rw [← AList.lookup_eq_none, hstates, if_pos hremoved]
    · rw [← AList.lookup_eq_none, hsockets, if_pos hremoved]
  · have hstays := fun hremoved => hsilent (Broker.mem_nodesToRemove_iff_silent.1 hremoved)
    rw [hstates, hsockets, if_neg hstays, if_neg hstays]
    exact ⟨rfl, rfl⟩
  · have hafter := hrequests requestId
    rw [hrequest, Option.map_some] at hafter
    refine ⟨fun hsilent => ?_, fun hsilent => ?_⟩
    · rw [hafter, if_pos (Broker.mem_nodesToRemove_iff_silent.2 hsilent), Broker.failRequest,
        if_pos rfl]
    · rw [hafter, if_neg fun hremoved => hsilent (Broker.mem_nodesToRemove_iff_silent.1 hremoved)]
  · rw [← AList.lookup_isSome, ← AList.lookup_isSome, hrequests, Option.isSome_map]

/-- Node 1 has heard of node 2 at time 1 and waits for its answer; at time 20000 node 2 is removed
and the request fails. -/
theorem heartbeat_check_exact_request : ∃ tr p, Process.machine.Exec tr p ∧
    2 ∉ (p.broker.checkHeartbeatTimeout 20000).nodeIdToState ∧
    ∃ request, (p.broker.checkHeartbeatTimeout 20000).outstandingRequests.lookup 0 = some request ∧
      request.exceptionPtr = some (.nodeDead 2) := by
  obtain ⟨p, hex, hp⟩ := Machine.exists_exec_of_replay Process.init_first
    [.receive (gossipOfTwo 1), .process (.sendRequest 2 [])]
    (fun p => (p.broker.thisNodeId, p.broker.clusterConfig.networkConfig.heartbeatTimeoutMs,
      p.broker.nodeIdToState.lookup 2, p.broker.outstandingRequests.lookup 0))
    (1, 10000, some ⟨1, 2, "tcp://b", ""⟩, some ⟨1, [], none, 2⟩) (by decide)
  simp only [Prod.mk.injEq] at hp
  obtain ⟨hid, htimeout, hstate, hrequest⟩ := hp
  have hsilent : p.broker.Silent 20000 2 :=
    ⟨by rw [hid]; decide, _, hstate, by decide, by rw [htimeout]; decide⟩
  obtain ⟨hnodes, -, hrequests, -⟩ := heartbeat_check_exact hex 20000
  exact ⟨_, p, hex, (hnodes 2 hsilent).1.2, _, (hrequests 0 _ hrequest).1 hsilent, rfl⟩

end ExActor
