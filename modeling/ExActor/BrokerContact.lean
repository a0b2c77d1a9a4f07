/-
**The contact node.**

A broker keeps a socket to the address of its contact node, whichever node that is, and a flag that
says whether a node at this address is in the table.  While the flag is false, `BroadcastGossip`
connects the socket anew.

The flag is kept by hand: `OnNodeAlive` sets it when a node at the address enters the table,
`OnNodeConnectionLost` clears it when one leaves.  When the contact node was restarted there may be
two of them, the old one silent and the new one not, and the loss of the old one clears the flag.

Main definitions:

* `Broker.KnowsContact`, `Broker.ContactTruthful` — a node at the address is in the table, and the
  flag says so;
* `KeepsSocket` — a broadcast connects the socket anew only while there is no such node;
* `LosesAllAtContact` — a condition on heartbeat checks.

Main results:

* `contact_truthful_iff` — **when the flag tells the truth**, and `restarted_contact_forgotten`, a
  run in which it does not.
-/

import ExActor.BrokerRevival

set_option relaxedAutoImplicit false
set_option autoImplicit false

namespace ExActor

namespace Broker

variable {b b' : Broker}

/-- A node at the address of the contact node is in the table. -/
def KnowsContact (b : Broker) : Prop :=
  ∃ nodeId ns, b.nodeIdToState.lookup nodeId = some ns ∧
    ns.address = b.clusterConfig.contactNodeAddress

/-- `contact_node_discovered_` tells the truth. -/
def ContactTruthful (b : Broker) : Prop := b.contactNodeDiscovered = true ↔ b.KnowsContact

/-! ### What the methods do to the flag -/

/-- The constructor leaves the flag false, and the node itself is not at the address. -/
theorem contactTruthful_construct {nodeId : NodeId} {config : ClusterConfig} {now : TimeMs}
    (h : construct nodeId config now = .ok b) : b.ContactTruthful := by
  have hone : ∀ address,
      (∃ id ns, ((∅ : UnorderedMap NodeId NodeState).insert nodeId
        ⟨now, nodeId, config.listenAddress, config.nodeName⟩).lookup id = some ns ∧
          ns.address = address) → config.listenAddress = address := by
    rintro address ⟨id, ns, hns, rfl⟩
    by_cases hid : id = nodeId
    · subst hid
      rw [AList.lookup_insert] at hns
      obtain rfl := Option.some.inj hns
      rfl
    · rw [AList.lookup_insert_ne hid] at hns
      simp at hns
  unfold construct at h
  split at h
  · simp at h
  · next hlisten =>
      dsimp only at h
      split at h
      · next hempty =>
          obtain rfl := Except.ok.inj h
          refine iff_of_false (by simp) fun hknows => hlisten ?_
          exact (hone _ hknows).trans hempty
      · split at h
        · simp at h
        · next hother =>
            obtain rfl := Except.ok.inj h
            exact iff_of_false (by simp [connectContactSendSocket]) fun hknows =>
              hother (hone _ hknows).symm

/-- A new time stamp changes no address. -/
theorem ContactTruthful.refresh (h : b.ContactTruthful) {nodeId : NodeId} {cur : NodeState}
    (hcur : b.nodeIdToState.lookup nodeId = some cur) (t : TimeMs) :
    (b.refresh nodeId cur t).ContactTruthful := by
  refine Iff.trans h ⟨?_, ?_⟩
  · rintro ⟨id, ns, hns, haddress⟩
    by_cases hid : id = nodeId
    · subst hid
      rw [hcur] at hns
      obtain rfl := Option.some.inj hns
      exact ⟨id, _, AList.lookup_insert _, haddress⟩
    · exact ⟨id, ns, (AList.lookup_insert_ne hid).trans hns, haddress⟩
  · rintro ⟨id, ns, hns, haddress⟩
    by_cases hid : id = nodeId
    · subst hid
      rw [Broker.refresh, AList.lookup_insert] at hns
      obtain rfl := Option.some.inj hns
      exact ⟨id, cur, hcur, haddress⟩
    · rw [Broker.refresh, AList.lookup_insert_ne hid] at hns
      exact ⟨id, ns, hns, haddress⟩

/-- A node that enters the table sets the flag if it is at the address. -/
theorem ContactTruthful.discover (h : b.ContactTruthful) {ns : NodeState}
    (hnew : b.nodeIdToState.lookup ns.nodeId = none) :
    (b.discover ns).broker.ContactTruthful := by
  obtain ⟨deferred, heq⟩ := discover_broker_eq b ns
  rw [heq]
  have hflag : (b.contactNodeDiscovered || ns.address == b.clusterConfig.contactNodeAddress) = true
      ↔ b.KnowsContact ∨ ns.address = b.clusterConfig.contactNodeAddress := by
    rw [Bool.or_eq_true, beq_iff_eq]
    exact or_congr_left h
  refine Iff.trans hflag ⟨?_, ?_⟩
  · rintro (⟨id, old, hold, haddress⟩ | haddress)
    · have hid : id ≠ ns.nodeId := by
        rintro rfl
        rw [hnew] at hold
        simp at hold
      exact ⟨id, old, (AList.lookup_insert_ne hid).trans hold, haddress⟩
    · exact ⟨ns.nodeId, ns, AList.lookup_insert _, haddress⟩
  · rintro ⟨id, found, hfound, haddress⟩
    dsimp only at hfound haddress
    by_cases hid : id = ns.nodeId
    · subst hid
      rw [AList.lookup_insert] at hfound
      obtain rfl := Option.some.inj hfound
      exact Or.inr haddress
    · rw [AList.lookup_insert_ne hid] at hfound
      exact Or.inl ⟨id, found, hfound, haddress⟩

theorem ContactTruthful.handleNodeState (h : b.ContactTruthful) (ns : NodeState) :
    (b.handleNodeState ns).broker.ContactTruthful := by
  rcases handleNodeState_spec b ns with ⟨hnew, heq⟩ | ⟨cur, hcur, heq⟩ | ⟨cur, e, -, -, heq⟩
  · rw [heq]
    exact h.discover hnew
  · rw [heq]
    exact h.refresh hcur _
  · rw [heq]
    exact h

/-- **Gossip keeps the flag true to the table.** -/
theorem ContactTruthful.handleNodeStates (h : b.ContactTruthful) (nss : List NodeState) :
    (b.handleNodeStates nss).broker.ContactTruthful := by
  induction nss generalizing b with
  | nil => exact h
  | cons ns nss ih =>
      have hfirst := h.handleNodeState ns
      unfold Broker.handleNodeStates
      dsimp only
      split
      · exact hfirst
      · exact ih hfirst

theorem ContactTruthful.broadcastGossip (h : b.ContactTruthful) (now : TimeMs)
    (nodeIds : List NodeId) : (b.broadcastGossip now nodeIds).broker.ContactTruthful := by
  rcases b.broadcastGossip_cases now nodeIds with heq | ⟨state, hstate, heq | ⟨-, heq⟩⟩
  · rw [heq]
    exact h
  all_goals
    rw [heq]
    exact h.refresh hstate now

/-- While the flag is true a broadcast leaves the contact socket as it is. -/
theorem lastBuild_broadcastGossip (hflag : b.contactNodeDiscovered = true) (now : TimeMs)
    (nodeIds : List NodeId) :
    (b.broadcastGossip now nodeIds).broker.contactNodeSendSocketLastBuildMs
      = b.contactNodeSendSocketLastBuildMs := by
  rcases b.broadcastGossip_cases now nodeIds with heq | ⟨state, -, heq | ⟨hnot, -⟩⟩
  · rw [heq]
  · rw [heq, refresh]
  · rw [hflag] at hnot
    cases hnot

/-! ### What a heartbeat check does to the flag -/

theorem clusterConfig_lost (nodeIds : List NodeId) (b : Broker) :
    (nodeIds.foldl onNodeConnectionLost b).clusterConfig = b.clusterConfig := by
  induction nodeIds generalizing b with
  | nil => rfl
  | cons nodeId nodeIds ih => exact (ih _).trans rfl

/-- The entries that stay are as they were. -/
theorem lookup_lost (nodeIds : List NodeId) (b : Broker) (nodeId : NodeId) :
    (nodeIds.foldl onNodeConnectionLost b).nodeIdToState.lookup nodeId
      = if nodeId ∈ nodeIds then none else b.nodeIdToState.lookup nodeId := by
  induction nodeIds generalizing b with
  | nil => simp
  | cons id nodeIds ih =>
      rw [List.foldl_cons, ih]
      have hfirst : (b.onNodeConnectionLost id).nodeIdToState = b.nodeIdToState.erase id := rfl
      rw [hfirst]
      by_cases hid : nodeId = id
      · subst hid
        simp
      · rw [AList.lookup_erase_ne hid]
        simp [hid]

/-- The flag stays if none of the nodes that are lost is at the address. -/
theorem contactNodeDiscovered_lost (nodeIds : List NodeId) (b : Broker) :
    (nodeIds.foldl onNodeConnectionLost b).contactNodeDiscovered = true ↔
      b.contactNodeDiscovered = true ∧ ∀ nodeId ∈ nodeIds, ∀ ns,
        b.nodeIdToState.lookup nodeId = some ns →
          ns.address ≠ b.clusterConfig.contactNodeAddress := by
  induction nodeIds generalizing b with
  | nil => simp
  | cons id nodeIds ih =>
      have hflag : (b.onNodeConnectionLost id).contactNodeDiscovered = true ↔
          b.contactNodeDiscovered = true ∧ ∀ ns, b.nodeIdToState.lookup id = some ns →
            ns.address ≠ b.clusterConfig.contactNodeAddress := by
        simp only [onNodeConnectionLost, evaluateClusterStateWaiters]
        cases b.nodeIdToState.lookup id with
        | none => simp
        | some ns => simp
      have hlookup : ∀ nodeId, (b.onNodeConnectionLost id).nodeIdToState.lookup nodeId
          = if nodeId ∈ [id] then none else b.nodeIdToState.lookup nodeId := lookup_lost [id] b
      have hconfig : (b.onNodeConnectionLost id).clusterConfig = b.clusterConfig := rfl
      rw [List.foldl_cons, ih, hflag, hconfig, and_assoc]
      refine and_congr_right fun _ => ⟨?_, ?_⟩
      · rintro ⟨hid, hrest⟩ nodeId hmem ns hns
        by_cases heq : nodeId = id
        · subst heq
          exact hid ns hns
        · have hmem := (List.mem_cons.1 hmem).resolve_left heq
          refine hrest nodeId hmem ns ?_
          rw [hlookup, if_neg (by simpa using heq)]
          exact hns
      · intro hall
        refine ⟨hall id List.mem_cons_self, fun nodeId hmem ns hns => ?_⟩
        rw [hlookup] at hns
        split at hns
        · simp at hns
        · exact hall nodeId (List.mem_cons_of_mem id hmem) ns hns

end Broker

/-! ### When the flag tells the truth -/

/-- If the step is a heartbeat check that removes a node at the address of the contact node, then
all nodes at this address have timed out. -/
def LosesAllAtContact (p : Process) : BrokerAction → Prop
  | .process (.checkHeartbeatTimeout now) => ∀ nodeId ns,
      p.broker.nodeIdToState.lookup nodeId = some ns →
        ns.address = p.broker.clusterConfig.contactNodeAddress →
          p.broker.timedOut now nodeId ns = true → ∀ nodeId' ns',
            p.broker.nodeIdToState.lookup nodeId' = some ns' →
              ns'.address = p.broker.clusterConfig.contactNodeAddress →
                p.broker.timedOut now nodeId' ns' = true
  | _ => True

instance (p : Process) (a : BrokerAction) : Decidable (LosesAllAtContact p a) :=
  match a with
  | .process (.checkHeartbeatTimeout now) => decidable_of_iff
      (∀ e ∈ p.broker.nodeIdToState.entries,
        e.2.address = p.broker.clusterConfig.contactNodeAddress →
          p.broker.timedOut now e.1 e.2 = true → ∀ e' ∈ p.broker.nodeIdToState.entries,
            e'.2.address = p.broker.clusterConfig.contactNodeAddress →
              p.broker.timedOut now e'.1 e'.2 = true)
      ⟨fun h nodeId ns hns haddress htimedOut nodeId' ns' hns' =>
          h ⟨nodeId, ns⟩ (AList.mem_lookup_iff.1 hns) haddress htimedOut ⟨nodeId', ns'⟩
            (AList.mem_lookup_iff.1 hns'),
        fun h e he haddress htimedOut e' he' =>
          h e.1 e.2 (AList.mem_lookup_iff.2 he) haddress htimedOut e'.1 e'.2
            (AList.mem_lookup_iff.2 he')⟩
  | .start | .receive _ | .process (.sendRequest ..) | .process (.resumeSendRequest _)
  | .process (.resumeHandleIncomingRequest ..) | .process (.broadcastGossip ..)
  | .process (.waitClusterState ..) | .process (.resumeWaitClusterState _)
  | .process (.checkClusterStateWaiterTimeout _) => isTrue trivial

/-- If the step is a broadcast while a node at the address of the contact node is in the table, it
leaves the contact socket as it is. -/
def KeepsSocket (p : Process) : BrokerAction → Prop
  | .process (.broadcastGossip now nodeIds) => p.broker.KnowsContact →
      (p.broker.broadcastGossip now nodeIds).broker.contactNodeSendSocketLastBuildMs
        = p.broker.contactNodeSendSocketLastBuildMs
  | _ => True

/-- **A heartbeat check keeps the flag true to the table** exactly if it does not remove one node at
the address and leave another. -/
theorem Broker.ContactTruthful.check {p : Process} (h : p.broker.ContactTruthful) (now : TimeMs) :
    (p.broker.checkHeartbeatTimeout now).ContactTruthful ↔
      LosesAllAtContact p (.process (.checkHeartbeatTimeout now)) := by
  have hlookup := Broker.lookup_lost (p.broker.nodesToRemove now) p.broker
  have hflag := Broker.contactNodeDiscovered_lost (p.broker.nodesToRemove now) p.broker
  have hconfig := Broker.clusterConfig_lost (p.broker.nodesToRemove now) p.broker
  rw [← Broker.checkHeartbeatTimeout_eq] at hlookup hflag hconfig
  constructor
  · intro htruthful nodeId ns hns haddress htimedOut nodeId' ns' hns' haddress'
    by_contra hstays
    -- the other node is still there, so the flag would have to be true
    have hnotMem : nodeId' ∉ p.broker.nodesToRemove now := by
      intro hmem
      obtain ⟨state, hstate, htimedOut'⟩ := Broker.mem_nodesToRemove.1 hmem
      rw [hns'] at hstate
      obtain rfl := Option.some.inj hstate
      exact hstays htimedOut'
    have hknows : (p.broker.checkHeartbeatTimeout now).KnowsContact := by
      refine ⟨nodeId', ns', ?_, by rw [hconfig]; exact haddress'⟩
      rw [hlookup, if_neg hnotMem]
      exact hns'
    have hmem := Broker.mem_nodesToRemove.2 ⟨ns, hns, htimedOut⟩
    exact (hflag.1 (htruthful.2 hknows)).2 nodeId hmem ns hns haddress
  · intro hall
    refine hflag.trans ⟨?_, ?_⟩
    · -- the node that set the flag is not among those that are lost
      rintro ⟨hbefore, hothers⟩
      obtain ⟨nodeId, ns, hns, haddress⟩ := h.1 hbefore
      refine ⟨nodeId, ns, ?_, by rw [hconfig]; exact haddress⟩
      rw [hlookup, if_neg fun hmem => hothers nodeId hmem ns hns haddress]
      exact hns
    · rintro ⟨nodeId, ns, hns, haddress⟩
      rw [hconfig] at haddress
      rw [hlookup] at hns
      split at hns
      · simp at hns
      · next hnotMem =>
          refine ⟨h.2 ⟨nodeId, ns, hns, haddress⟩, fun lost hmem ns' hns' haddress' => ?_⟩
          obtain ⟨state, hstate, htimedOut⟩ := Broker.mem_nodesToRemove.1 hmem
          rw [hns'] at hstate
          obtain rfl := Option.some.inj hstate
          have := hall lost ns' hns' haddress' htimedOut nodeId ns hns haddress
          exact hnotMem (Broker.mem_nodesToRemove.2 ⟨ns, hns, this⟩)

/-- **A step keeps the flag true to the table** exactly if it meets the condition. -/
theorem Process.contactTruthful_of_react {p p' : Process} {a : BrokerAction} {sent : List Sent}
    (h : p.react a = some (p', sent)) (htruthful : p.broker.ContactTruthful) :
    p'.broker.ContactTruthful ↔ LosesAllAtContact p a := by
  cases Process.reaction_of_react h with
  | gossiped msg status => exact iff_of_true (htruthful.handleNodeStates msg.nodeStates) trivial
  | replied msg _ =>
      refine iff_of_true ?_ trivial
      unfold Broker.handleRepliedResponse
      split <;> exact htruthful
  | requested toNodeId data =>
      refine iff_of_true ?_ trivial
      rcases Broker.sendRequest_cases p.broker toNodeId data with ⟨-, heq⟩ | ⟨-, -, heq⟩ |
        ⟨_, -, -, -, heq⟩ | ⟨_, -, -, -, heq⟩
      all_goals
        rw [heq]
        exact htruthful
  | answered n data msg _ =>
      obtain ⟨deferred, heq⟩ :=
        Broker.sendReply_eq p.broker ⟨msg.requestNodeId, msg.requestId, data⟩
      rw [heq]
      exact iff_of_true htruthful trivial
  | broadcast now nodeIds status =>
      exact iff_of_true (htruthful.broadcastGossip now nodeIds) trivial
  | checked now => exact htruthful.check now
  | waited predicate timeoutMs now =>
      refine iff_of_true ?_ trivial
      unfold Broker.waitClusterState
      dsimp only
      split <;> exact htruthful
  | started | handled | refused | requestResumed | waitResumed | expired =>
      exact iff_of_true htruthful trivial

/-- In a run whose heartbeat checks meet the condition, the flag tells the truth at the end. -/
theorem contactTruthful_of_exec {tr : List (Process × BrokerAction)} {p : Process}
    (h : Process.machine.Exec tr p) (hok : Machine.Meets LosesAllAtContact tr) :
    p.broker.ContactTruthful := by
  refine h.invariantWhere (I := fun p => p.broker.ContactTruthful) ?_ ?_ hok
  · rintro p ⟨nodeId, config, now, b, hb, rfl⟩
    exact Broker.contactTruthful_construct hb
  · intro _ p a p' _ _ htruthful hmeets hn
    exact (Process.contactTruthful_of_react (Process.next_eq_some hn) htruthful).2 hmeets

/-- **When the flag tells the truth.**  In every run, `contact_node_discovered_` is true exactly
while a node at the address of the contact node is in the table, and no broadcast connects the
contact socket anew while there is one, exactly if no heartbeat check removes a node at this address
while another one has not timed out. -/
theorem contact_truthful_iff {tr : List (Process × BrokerAction)} {p : Process}
    (h : Process.machine.Exec tr p) :
    ((∀ t ∈ Machine.states tr p, t.broker.ContactTruthful) ∧ Machine.Meets KeepsSocket tr) ↔
      Machine.Meets LosesAllAtContact tr := by
  constructor
  · rintro ⟨htruthful, -⟩ ⟨q, a⟩ hmem
    obtain ⟨q', hn, hq'⟩ := h.next_mem_states hmem
    have hq : q ∈ Machine.states tr p :=
      List.mem_append_left _ (List.mem_map.2 ⟨(q, a), hmem, rfl⟩)
    exact (Process.contactTruthful_of_react (Process.next_eq_some hn) (htruthful q hq)).1
      (htruthful q' hq')
  · intro hok
    have htruthful : ∀ t ∈ Machine.states tr p, t.broker.ContactTruthful := by
      intro t ht
      obtain ⟨tr₁, tr₂, rfl, hex⟩ := h.of_mem_states ht
      exact contactTruthful_of_exec hex ((Machine.meets_append ..).1 hok).1
    refine ⟨htruthful, ?_⟩
    rintro ⟨q, a⟩ hmem
    have hq : q ∈ Machine.states tr p :=
      List.mem_append_left _ (List.mem_map.2 ⟨(q, a), hmem, rfl⟩)
    unfold KeepsSocket
    split
    · exact fun hknows => Broker.lastBuild_broadcastGossip ((htruthful q hq).2 hknows) _ _
    · trivial

/-! ### Two runs -/

/-- Node 1 with the contact address of node 2, just constructed. -/
def Process.joining : Process where
  broker := { Process.first.broker with
    clusterConfig := clusterConfigOf "tcp://a" "tcp://b"
    contactNodeSendSocket := some "tcp://b" }
  handling := []
  status := .running

theorem Process.init_joining : Process.machine.init Process.joining :=
  ⟨1, clusterConfigOf "tcp://a" "tcp://b", 0, _, rfl, rfl⟩

/-- The contact node is found, and lost when it has timed out. -/
theorem contact_truthful_iff_lost : ∃ tr p, Process.machine.Exec tr p ∧
    p.broker.contactNodeDiscovered = false ∧ p.broker.nodeIdToState.lookup 2 = none ∧
    (∀ t ∈ Machine.states tr p, t.broker.ContactTruthful) ∧ Machine.Meets KeepsSocket tr := by
  obtain ⟨p, hex, hp⟩ := Machine.exists_exec_of_replay Process.init_joining lossOfTwo
    (fun p => (p.broker.contactNodeDiscovered, p.broker.nodeIdToState.lookup 2)) (false, none)
    (by decide)
  simp only [Prod.mk.injEq] at hp
  exact ⟨_, p, hex, hp.1, hp.2, (contact_truthful_iff hex).2 (by decide)⟩

/-- The contact node was restarted as node 3, which is alive; when node 2 has timed out the flag is
cleared. -/
theorem restarted_contact_forgotten : ∃ tr p, Process.machine.Exec tr p ∧
    p.broker.contactNodeDiscovered = false ∧ p.broker.KnowsContact := by
  let L : List BrokerAction := [.receive (gossipOfTwo 1),
    .receive (.gossip ⟨3, [⟨15000, 3, "tcp://b", ""⟩]⟩), .process (.checkHeartbeatTimeout 20000)]
  obtain ⟨p, hex, hp⟩ := Machine.exists_exec_of_replay Process.init_joining L
    (fun p => (p.broker.contactNodeDiscovered, p.broker.nodeIdToState.lookup 3,
      p.broker.clusterConfig.contactNodeAddress))
    (false, some ⟨15000, 3, "tcp://b", ""⟩, "tcp://b") (by decide)
  simp only [Prod.mk.injEq] at hp
  exact ⟨_, p, hex, hp.1, 3, _, hp.2.1, hp.2.2.symm⟩

end ExActor
