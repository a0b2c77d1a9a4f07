/-
**How news spreads through a cluster.**

A node broadcasts to some of the nodes it knows, and to its contact node, and hears of the others
only through those.  What a broadcast tells of a node is what its sender has heard of it; whoever
handles the broadcast has then heard the same or something later, and goes on to tell it.  So the
reading of its clock that a node has broadcast reaches every node at the end of a chain of
broadcasts, each of which was sent after the one before it had arrived.

Nothing has to be assumed of the other messages, which may be delivered in any order or lost, nor of
processes that crash, restart or are launched meanwhile.  Only at the nodes of the chain no
heartbeat check removes the node in question between its arrival and the next broadcast.

Main definitions:

* `Broker.HasHeard`, `Sent.Tells` — a node is heard of, or told of, with a time stamp or a later
  one;
* `Cluster.Spares` — a step removes no entry of a node at a process;
* `Cluster.Reports`, `Cluster.Spread` — a broadcast and its arrival, and chains of these.

Main results:

* `Process.hasHeard_of_react`, `Process.hasHeard_of_tells` — what is heard is not forgotten, and
  what is told is heard;
* `Cluster.heartbeat_spreads` — **a heartbeat reaches every node at the end of a chain**, and keeps
  the node alive there.
-/

import ExActor.BrokerHeartbeat
import ExActor.ClusterStep

set_option relaxedAutoImplicit false
set_option autoImplicit false

namespace ExActor

/-! ### What a broadcast tells -/

/-- The node is in the table, with this time stamp or a later one. -/
def Broker.HasHeard (b : Broker) (nodeId : NodeId) (t : TimeMs) : Prop :=
  ∃ cur, b.nodeIdToState.lookup nodeId = some cur ∧ t ≤ cur.lastSeenTimestampMs

/-- The message tells of the node, with this time stamp or a later one. -/
def Sent.Tells (s : Sent) (nodeId : NodeId) (t : TimeMs) : Prop :=
  ∃ msg, s.msg = .gossip msg ∧
    ∃ ns ∈ msg.nodeStates, ns.nodeId = nodeId ∧ t ≤ ns.lastSeenTimestampMs

namespace Broker

variable {b : Broker}

theorem msg_of_mem_sendGossip {msg : BrokerMessage} {nodeIds : List NodeId} {s : Sent}
    (h : s ∈ (b.sendGossip msg nodeIds).sent) : s.msg = msg := by
  induction nodeIds with
  | nil => simp [sendGossip] at h
  | cons nodeId nodeIds ih =>
      unfold sendGossip at h
      split at h
      · rcases List.mem_cons.1 h with rfl | h
        · rfl
        · exact ih h
      · simp at h

/-- Every copy of a broadcast tells the whole table, with the entry of the node itself renewed. -/
theorem msg_of_mem_broadcastGossip {now : TimeMs} {nodeIds : List NodeId} {s : Sent}
    (h : s ∈ (b.broadcastGossip now nodeIds).sent) :
    ∃ state, b.nodeIdToState.lookup b.thisNodeId = some state ∧
      s.msg = .gossip ⟨b.thisNodeId, UnorderedMap.values (b.nodeIdToState.insert b.thisNodeId
        { state with lastSeenTimestampMs := now })⟩ := by
  unfold broadcastGossip at h
  split at h
  · simp at h
  · next state hstate =>
      refine ⟨state, hstate, ?_⟩
      dsimp only at h
      split at h
      · simp at h
      · split at h
        · exact msg_of_mem_sendGossip h
        · split at h
          · exact msg_of_mem_sendGossip h
          · rcases List.mem_append.1 h with h | h
            · exact msg_of_mem_sendGossip h
            · simp only [Option.mem_toList, Option.map_eq_some_iff] at h
              obtain ⟨socket, -, rfl⟩ := h
              rfl

/-- A broadcast tells what its sender has heard of another node. -/
theorem HasHeard.tells {K : NodeState → Prop} (hknows : b.Knows K) {nodeId : NodeId} {t : TimeMs}
    (h : b.HasHeard nodeId t) (hne : nodeId ≠ b.thisNodeId) {now : TimeMs} {nodeIds : List NodeId}
    {s : Sent} (hs : s ∈ (b.broadcastGossip now nodeIds).sent) : s.Tells nodeId t := by
  obtain ⟨cur, hcur, hle⟩ := h
  obtain ⟨state, -, hmsg⟩ := msg_of_mem_broadcastGossip hs
  refine ⟨_, hmsg, cur, UnorderedMap.mem_values.2 ⟨nodeId, ?_⟩, (hknows.table nodeId cur hcur).1,
    hle⟩
  rw [AList.lookup_insert_ne hne]
  exact hcur

/-- A broadcast tells the reading of the clock of its sender. -/
theorem tells_self {K : NodeState → Prop} (hknows : b.Knows K) {now : TimeMs}
    {nodeIds : List NodeId} {s : Sent} (hs : s ∈ (b.broadcastGossip now nodeIds).sent) :
    s.Tells b.thisNodeId now := by
  obtain ⟨state, hstate, hmsg⟩ := msg_of_mem_broadcastGossip hs
  exact ⟨_, hmsg, _, UnorderedMap.mem_values.2 ⟨b.thisNodeId, AList.lookup_insert _⟩,
    (hknows.table _ state hstate).1, BitVec.le_refl _⟩

/-! ### Who has heard -/

/-- A loop that does not throw handles all entries. -/
theorem handledStates_eq {nss : List NodeState} (h : (b.handleNodeStates nss).result = .ok ()) :
    b.handledStates nss = nss := by
  induction nss generalizing b with
  | nil => rfl
  | cons ns nss ih =>
      cases hok : (b.handleNodeState ns).result with
      | error e => simp [handleNodeStates, hok] at h
      | ok u =>
          have hrest : ((b.handleNodeState ns).broker.handleNodeStates nss).result = .ok () := by
            simpa [handleNodeStates, hok] using h
          simp [handledStates, hok, ih hrest]

end Broker

namespace Process

variable {p p' : Process} {nodeId : NodeId} {t : TimeMs} {sent : List Sent}

/-- What a process has heard of another node it does not forget, unless a heartbeat check removes
the node. -/
theorem hasHeard_of_react {a : BrokerAction} (h : p.react a = some (p', sent))
    (hne : nodeId ≠ p.broker.thisNodeId)
    (hspare : ∀ now, a = .process (.checkHeartbeatTimeout now) →
      nodeId ∉ p.broker.nodesToRemove now)
    (hheard : p.broker.HasHeard nodeId t) : p'.broker.HasHeard nodeId t := by
  obtain ⟨cur, hcur, hle⟩ := hheard
  by_cases hcheck : ∃ now, a = .process (.checkHeartbeatTimeout now)
  · obtain ⟨now, rfl⟩ := hcheck
    obtain ⟨rfl, -⟩ := Prod.mk.inj (Option.some.inj h)
    refine ⟨cur, ?_, hle⟩
    rw [lookup_checkHeartbeatTimeout_table, if_neg (hspare now rfl)]
    exact hcur
  · have hmerges := merges_of_react h fun now heq => hcheck ⟨now, heq⟩
    obtain ⟨cur', hcur', hle'⟩ := hmerges.later nodeId cur hne hcur
    exact ⟨cur', hcur', BitVec.le_trans hle hle'⟩

/-- Who handles a message that tells of another node, and goes on, has heard of it. -/
theorem hasHeard_of_tells {s : Sent} (h : p.react (.receive s.msg) = some (p', sent))
    (hrunning : p'.status = .running) (hne : nodeId ≠ p.broker.thisNodeId)
    (htells : s.Tells nodeId t) : p'.broker.HasHeard nodeId t := by
  obtain ⟨msg, hmsg, ns, hns, rfl, hle⟩ := htells
  have hmerges := merges_of_react h fun now heq => by simp at heq
  have hok : (p.broker.handleNodeStates msg.nodeStates).result = .ok () := by
    have hreceive : p.receive s.msg = (p', sent) := Option.some.inj h
    rw [hmsg] at hreceive
    unfold receive Broker.dispatchReceivedMessage Broker.handleGossipMessage at hreceive
    dsimp only at hreceive
    split at hreceive
    · next hresult =>
        cases hhandled : (p.broker.handleNodeStates msg.nodeStates).result with
        | ok _ => rfl
        | error e => simp [hhandled, Except.map] at hresult
    · obtain ⟨rfl, -⟩ := Prod.mk.inj hreceive
      simp at hrunning
  obtain ⟨cur, hcur, hle'⟩ := hmerges.handled ns (by
    rw [hmsg, handles, Broker.handledStates_eq hok]
    exact hns) hne
  exact ⟨cur, hcur, BitVec.le_trans hle hle'⟩

end Process

/-! ### What a process does not forget -/

namespace Cluster

variable {c c' : Cluster} {a : ClusterAction}

/-- The step is no heartbeat check of the process that removes the node. -/
def Spares (k : ℕ) (nodeId : NodeId) (c : Cluster) : ClusterAction → Prop
  | .process i (.checkHeartbeatTimeout now) => i = k → ∀ p, c.processes[k]? = some p →
      nodeId ∉ p.broker.nodesToRemove now
  | _ => True

/-- The process, of another node, has heard of the node. -/
def HasHeard (c : Cluster) (k : ℕ) (nodeId : NodeId) (t : TimeMs) : Prop :=
  ∃ p, c.processes[k]? = some p ∧ nodeId ≠ p.broker.thisNodeId ∧ p.broker.HasHeard nodeId t

/-- What a step does to a process. -/
theorem process_of_next (hn : machine.next c a = some c') {k : ℕ} {q : Process}
    (hq : c.processes[k]? = some q) : ∃ q', c'.processes[k]? = some q' ∧
      (q' = q ∧ (∀ j, a ≠ .deliver j k) ∨ q' = { q with status := .crashed } ∨
        (∃ j s sent, a = .deliver j k ∧ c.inFlight[j]? = some s ∧ q.status = .running ∧
          q.react (.receive s.msg) = some (q', sent)) ∨
        ∃ act sent, a = .process k act ∧ q.status = .running ∧
          q.react (.process act) = some (q', sent)) := by
  have hlt := (List.getElem?_eq_some_iff.1 hq).1
  -- a process is replaced: this one or another
  have hset : ∀ (i : ℕ) (p p' : Process), c.processes[i]? = some p →
      (i = k ∧ p = q ∧ (c.processes.set i p')[k]? = some p') ∨
        (i ≠ k ∧ (c.processes.set i p')[k]? = some q) := by
    intro i p p' hp
    by_cases hik : i = k
    · subst hik
      exact Or.inl ⟨rfl, Option.some.inj (hp.symm.trans hq), List.getElem?_set_self hlt⟩
    · exact Or.inr ⟨hik, by rw [List.getElem?_set_ne hik]; exact hq⟩
  cases step_of_next hn with
  | launched nodeId config now b hfresh hb =>
      refine ⟨q, ?_, Or.inl ⟨rfl, by simp⟩⟩
      rw [List.getElem?_append_left hlt]
      exact hq
  | crashed i p hp =>
      rcases hset i p _ hp with ⟨rfl, rfl, hself⟩ | ⟨-, hother⟩
      · exact ⟨_, hself, Or.inr (Or.inl rfl)⟩
      · exact ⟨q, hother, Or.inl ⟨rfl, by simp⟩⟩
  | delivered j i s p p' sent hs hp hrunning haddress hreact =>
      rcases hset i p p' hp with ⟨rfl, rfl, hself⟩ | ⟨hik, hother⟩
      · exact ⟨p', hself, Or.inr (Or.inr (Or.inl ⟨j, s, sent, rfl, hs, hrunning, hreact⟩))⟩
      · exact ⟨q, hother, Or.inl ⟨rfl, by simp [hik]⟩⟩
  | lost j => exact ⟨q, hq, Or.inl ⟨rfl, by simp⟩⟩
  | acted i act p p' sent hp hrunning hreact =>
      rcases hset i p p' hp with ⟨rfl, rfl, hself⟩ | ⟨-, hother⟩
      · exact ⟨p', hself, Or.inr (Or.inr (Or.inr ⟨act, sent, rfl, hrunning, hreact⟩))⟩
      · exact ⟨q, hother, Or.inl ⟨rfl, by simp⟩⟩

/-- What a process has heard it does not forget in a step that spares it. -/
theorem HasHeard.next {k : ℕ} {nodeId : NodeId} {t : TimeMs} (h : c.HasHeard k nodeId t)
    (hspares : Spares k nodeId c a) (hn : machine.next c a = some c') :
    c'.HasHeard k nodeId t := by
  obtain ⟨q, hq, hne, hheard⟩ := h
  obtain ⟨q', hq',
    ⟨rfl, -⟩ | rfl | ⟨j, s, sent, rfl, -, -, hreact⟩ | ⟨act, sent, rfl, -, hreact⟩⟩ :=
      process_of_next hn hq
  · exact ⟨_, hq', hne, hheard⟩
  · exact ⟨_, hq', hne, hheard⟩
  · refine ⟨q', hq', ?_, Process.hasHeard_of_react hreact hne (by simp) hheard⟩
    rwa [(Process.changes_of_react hreact).thisNodeId]
  · refine ⟨q', hq', ?_, Process.hasHeard_of_react hreact hne (fun now hact => ?_) hheard⟩
    · rwa [(Process.changes_of_react hreact).thisNodeId]
    · obtain rfl := BrokerAction.process.inj hact
      exact hspares rfl q hq

/-! ### Chains of broadcasts -/

/-- From `c` on the process `m` broadcasts, reading `now` from its clock; after some steps one of
the messages it has sent is delivered to the process `k`, of another node than the one in question,
which goes on in `c'`. -/
def Reports (nodeId : NodeId) (c : Cluster) (m : ℕ) (now : TimeMs) (c' : Cluster) (k : ℕ) : Prop :=
  ∃ p peers s c₁ as c₂ j q, c.processes[m]? = some p ∧
    s ∈ (p.broker.broadcastGossip now peers).sent ∧
    machine.next c (.process m (.broadcastGossip now peers)) = some c₁ ∧
    machine.replay c₁ as = some c₂ ∧ c₂.inFlight[j]? = some s ∧
    machine.next c₂ (.deliver j k) = some c' ∧ c'.processes[k]? = some q ∧ q.status = .running ∧
    nodeId ≠ q.broker.thisNodeId

/-- The reading `t` that the node has broadcast has come to a process: from the node itself, from a
process it had come to, or before some steps that spare the node there. -/
inductive Spread (nodeId : NodeId) (t : TimeMs) : Cluster → ℕ → Prop
  | origin {c c' : Cluster} {m k : ℕ} {p : Process} : machine.Reachable c →
      c.processes[m]? = some p → p.broker.thisNodeId = nodeId → Reports nodeId c m t c' k →
      Spread nodeId t c' k
  | relay {c c' : Cluster} {m k : ℕ} {now : TimeMs} : Spread nodeId t c m →
      Reports nodeId c m now c' k → Spread nodeId t c' k
  | keep {c c' : Cluster} {k : ℕ} {as : List ClusterAction} : Spread nodeId t c k →
      machine.replay c as = some c' →
      Machine.Meets (Spares k nodeId) (machine.replayTrace c as) → Spread nodeId t c' k

/-- Who is delivered a message that tells of another node, and goes on, has heard of it. -/
theorem hasHeard_of_deliver {nodeId : NodeId} {t : TimeMs} {j k : ℕ} {s : Sent} {q : Process}
    (hn : machine.next c (.deliver j k) = some c') (hs : c.inFlight[j]? = some s)
    (hq : c'.processes[k]? = some q) (hrunning : q.status = .running)
    (hne : nodeId ≠ q.broker.thisNodeId) (htells : s.Tells nodeId t) :
    c'.HasHeard k nodeId t := by
  cases step_of_next hn with
  | delivered j k s' p p' sent hs' hp _ _ hreact =>
      obtain rfl := Option.some.inj (hs.symm.trans hs')
      have hlt := (List.getElem?_eq_some_iff.1 hp).1
      obtain rfl : p' = q := by simpa [List.getElem?_set_self hlt] using hq
      have hid := (Process.changes_of_react hreact).thisNodeId
      rw [hid] at hne
      exact ⟨p', hq, by rwa [hid], Process.hasHeard_of_tells hreact hrunning hne htells⟩

/-- A broadcast that tells of a node is heard where it arrives. -/
theorem Reports.hasHeard {nodeId : NodeId} {t now : TimeMs} {m k : ℕ}
    (h : Reports nodeId c m now c' k) (hreach : machine.Reachable c)
    (htells : ∀ p peers, c.processes[m]? = some p →
      ∀ s ∈ (p.broker.broadcastGossip now peers).sent, s.Tells nodeId t) :
    machine.Reachable c' ∧ c'.HasHeard k nodeId t := by
  obtain ⟨p, peers, s, c₁, as, c₂, j, q, hp, hs, hn, hr, hj, hdeliver, hq, hrunning, hne⟩ := h
  have hreach₂ : machine.Reachable c₂ := by
    obtain ⟨tr, hex⟩ := hreach
    exact Machine.Reachable.replay ⟨_, hex.step hn⟩ hr
  exact ⟨hreach₂.step hdeliver,
    hasHeard_of_deliver hdeliver hj hq hrunning hne (htells p peers hp s hs)⟩

/-- The chain lemma. -/
theorem Spread.hasHeard {nodeId : NodeId} {t : TimeMs} {k : ℕ} (h : Spread nodeId t c k) :
    machine.Reachable c ∧ c.HasHeard k nodeId t := by
  induction h with
  | @origin c c' m k p hreach hp hid hreports =>
      refine hreports.hasHeard hreach fun p' peers hp' s hs => ?_
      obtain rfl := Option.some.inj (hp.symm.trans hp')
      obtain ⟨tr, hex⟩ := hreach
      rw [← hid]
      exact Broker.tells_self ((consistent_of_exec hex).brokers p (List.mem_of_getElem? hp)) hs
  | @relay c c' m k now _ hreports ih =>
      obtain ⟨hreach, p, hp, hne, hheard⟩ := ih
      refine hreports.hasHeard hreach fun p' peers hp' s hs => ?_
      obtain rfl := Option.some.inj (hp.symm.trans hp')
      obtain ⟨tr, hex⟩ := hreach
      exact hheard.tells ((consistent_of_exec hex).brokers p (List.mem_of_getElem? hp)) hne hs
  | @keep c c' k as _ hr hspares ih =>
      exact ⟨ih.1.replay hr, Machine.replay_invariantWhere (I := fun c => c.HasHeard k nodeId t)
        (fun c a c' hI hspares hn => hI.next hspares hn) ih.2 hr hspares⟩

/-- **A heartbeat reaches every node at the end of a chain of broadcasts.**  The node that has
broadcast the reading `t` of its clock is in the table there with this time stamp or a later one,
and no heartbeat check removes it whose clock has not passed `t` by the timeout. -/
theorem heartbeat_spreads {nodeId : NodeId} {t : TimeMs} {k : ℕ} (h : Spread nodeId t c k) :
    ∃ q, c.processes[k]? = some q ∧ q.broker.HasHeard nodeId t ∧
      ∀ now, (now ≤ t ∨ now - t < q.broker.clusterConfig.networkConfig.heartbeatTimeoutMs) →
        nodeId ∉ q.broker.nodesToRemove now := by
  obtain ⟨-, q, hq, -, cur, hcur, hle⟩ := h.hasHeard
  refine ⟨q, hq, ⟨cur, hcur, hle⟩, fun now hnow hremoved => ?_⟩
  obtain ⟨state, hstate, htimedOut⟩ := Broker.mem_nodesToRemove.1 hremoved
  obtain rfl := Option.some.inj (hcur.symm.trans hstate)
  -- an entry with the time stamp `t` would have timed out as well
  have hold := Broker.timedOut_of_le htimedOut
    (show ({ cur with lastSeenTimestampMs := t } : NodeState).lastSeenTimestampMs ≤ _ from hle)
  simp only [Broker.timedOut, Bool.not_eq_true', Bool.or_eq_false_iff, decide_eq_false_iff_not,
    beq_eq_false_iff_ne] at hold
  rcases hnow with hnow | hnow
  · exact hold.1.2 hnow
  · exact hold.2 hnow

/-- A broadcast, some steps, and the delivery of a message that is in flight then, checked. -/
def report (nodeId : NodeId) (c : Cluster) (m : ℕ) (now : TimeMs) (peers : List NodeId)
    (as : List ClusterAction) (j k : ℕ) : Option Cluster :=
  (c.processes[m]?).bind fun p =>
    (c.next (.process m (.broadcastGossip now peers))).bind fun c₁ =>
      (machine.replay c₁ as).bind fun c₂ =>
        if ∃ s ∈ c₂.inFlight[j]?, s ∈ (p.broker.broadcastGossip now peers).sent then
          (c₂.next (.deliver j k)).filter fun c' => (c'.processes[k]?).any fun q =>
            decide (q.status = .running ∧ nodeId ≠ q.broker.thisNodeId)
        else none

theorem reports_of_report {nodeId : NodeId} {m : ℕ} {now : TimeMs} {peers : List NodeId}
    {as : List ClusterAction} {j k : ℕ} (h : report nodeId c m now peers as j k = some c') :
    Reports nodeId c m now c' k := by
  obtain ⟨p, hp, h⟩ := Option.bind_eq_some_iff.1 h
  obtain ⟨c₁, hn, h⟩ := Option.bind_eq_some_iff.1 h
  obtain ⟨c₂, hr, h⟩ := Option.bind_eq_some_iff.1 h
  split at h
  · next hsent =>
      obtain ⟨s, hj, hs⟩ := hsent
      obtain ⟨hdeliver, hchecked⟩ := Option.filter_eq_some_iff.1 h
      obtain ⟨q, hq, hgoes⟩ := (Option.any_eq_true ..).1 hchecked
      obtain ⟨hrunning, hne⟩ := of_decide_eq_true hgoes
      exact ⟨p, peers, s, c₁, as, c₂, j, q, hp, hs, hn, hr, hj, hdeliver, hq, hrunning, hne⟩
  · simp at h

/-- Three nodes: node 1 is the contact node of the others, and has heard of node 3.  A first
broadcast of node 2 is still in flight to it. -/
def threeNodes : List ClusterAction :=
  [.launch 1 (clusterConfigOf "tcp://a" "") 0, .launch 2 (clusterConfigOf "tcp://b" "tcp://a") 0,
    .launch 3 (clusterConfigOf "tcp://c" "tcp://a") 0, .process 2 (.broadcastGossip 0 []),
    .deliver 0 0, .process 1 (.broadcastGossip 40 [])]

/-- Node 3, which has never exchanged a message with node 2, hears of it through node 1.  Node 1
hears the broadcast of node 2 before an older one, and loses nothing by this. -/
theorem heartbeat_spreads_relayed : ∃ c q, Spread 2 50 c 2 ∧ c.processes[2]? = some q ∧
    q.broker.thisNodeId = 3 ∧ q.broker.HasHeard 2 50 ∧
    ∀ now, (now ≤ 50 ∨ now - 50 < q.broker.clusterConfig.networkConfig.heartbeatTimeoutMs) →
      (2 : NodeId) ∉ q.broker.nodesToRemove now := by
  have hrun : ((machine.replay Cluster.initial threeNodes).bind fun c₀ =>
      (report 2 c₀ 1 50 [] [] 1 0).bind fun c₁ =>
        (report 2 c₁ 0 60 [2, 3] [.deliver 0 0] 1 2).map fun c =>
          ((c₀.processes[1]?).map fun p => p.broker.thisNodeId,
            (c.processes[2]?).map fun q => q.broker.thisNodeId)) = some (some 2, some 3) := by
    decide
  obtain ⟨c₀, hc₀, hrun⟩ := Option.bind_eq_some_iff.1 hrun
  obtain ⟨c₁, horigin, hrun⟩ := Option.bind_eq_some_iff.1 hrun
  obtain ⟨c, hrelay, hids⟩ := Option.map_eq_some_iff.1 hrun
  obtain ⟨hp, hq⟩ := Prod.mk.inj hids
  obtain ⟨p, hp, hpid⟩ := Option.map_eq_some_iff.1 hp
  obtain ⟨q, hq, hqid⟩ := Option.map_eq_some_iff.1 hq
  have hreach : machine.Reachable c₀ := ⟨_, Machine.exec_of_replay rfl hc₀⟩
  have hspread : Spread 2 50 c 2 :=
    (Spread.origin hreach hp hpid (reports_of_report horigin)).relay (reports_of_report hrelay)
  obtain ⟨q', hq', hheard, hkept⟩ := heartbeat_spreads hspread
  obtain rfl := Option.some.inj (hq.symm.trans hq')
  exact ⟨c, q, hspread, hq, hqid, hheard, hkept⟩

end Cluster

end ExActor
