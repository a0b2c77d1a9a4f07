/-
**Clocks.**

The clocks of the nodes of a cluster show the common time plus an offset that is constant.  A node
reads its own clock, and the time stamps in its gossip are readings of it; `CheckHeartbeatTimeout`
of another node takes them for readings of its own.  A node whose clock is far enough behind is
removed at the next check, however recently it was heard from.

Main definitions:

* `ClockedCluster`, `ClockedCluster.machine` — a cluster whose nodes read clocks;
* `HeardNotRemoved` — no heartbeat check removes a node from which a gossip message was processed
  within the heartbeat timeout;
* `HeardInTime`, `StampsInTime` — conditions on the time stamps in the gossip.

Main results:

* `heard_not_removed_iff` — **when no node is removed that is being heard from**, and
  `skewed_node_removed`, a run in which one is.
-/

import ExActor.BrokerHeartbeat
import ExActor.ClusterStep

set_option relaxedAutoImplicit false
set_option autoImplicit false

namespace ExActor

/-! ### A cluster whose nodes read clocks -/

/-- A cluster with the common time and the offsets of the clocks, in milliseconds. -/
structure ClockedCluster where
  cluster : Cluster
  timeMs : ℕ
  offsetMs : NodeId → ℕ

inductive ClockedAction
  | elapse (ms : ℕ)
  | act (a : ClusterAction)

/-- What `GetTimeMs` returns in a method of the broker. -/
def ProcessAction.reading : ProcessAction → Option TimeMs
  | .broadcastGossip now _ => some now
  | .checkHeartbeatTimeout now => some now
  | .waitClusterState _ _ now => some now
  | .checkClusterStateWaiterTimeout now => some now
  | _ => none

/-- The node that reads its clock in a step, and what it reads. -/
def Cluster.reading (c : Cluster) : ClusterAction → Option (NodeId × TimeMs)
  | .launch nodeId _ now => some (nodeId, now)
  | .process i act => (c.processes[i]?).bind fun p =>
      act.reading.map fun now => (p.broker.thisNodeId, now)
  | _ => none

namespace ClockedCluster

/-- The clock of a node. -/
def clockMs (c : ClockedCluster) (nodeId : NodeId) : ℕ := c.timeMs + c.offsetMs nodeId

/-- At most one clock is read. -/
instance (c : ClockedCluster) (a : ClusterAction) :
    Decidable (∀ r ∈ c.cluster.reading a, r.2.toNat = c.clockMs r.1) :=
  Option.decidableForallMem _

/-- One step: time passes, or the cluster does something, and who reads a clock reads its own. -/
def next (c : ClockedCluster) : ClockedAction → Option ClockedCluster
  | .elapse ms => some { c with timeMs := c.timeMs + ms }
  | .act a =>
      if ∀ r ∈ c.cluster.reading a, r.2.toNat = c.clockMs r.1 then
        (c.cluster.next a).map fun cluster => { c with cluster := cluster }
      else none

/-- All runs of a cluster whose clocks differ by constant offsets. -/
def machine : Machine ClockedCluster ClockedAction where
  init c := ∃ offsetMs, c = ⟨Cluster.initial, 0, offsetMs⟩
  next := next

variable {tr : List (ClockedCluster × ClockedAction)} {c c' : ClockedCluster}

/-- What the cluster does in a run. -/
def untimed (tr : List (ClockedCluster × ClockedAction)) : List (Cluster × ClusterAction) :=
  tr.filterMap fun s => match s.2 with
    | .act a => some (s.1.cluster, a)
    | .elapse _ => none

theorem mem_untimed {q : Cluster} {a : ClusterAction} (h : (q, a) ∈ untimed tr) :
    ∃ c₁, (c₁, .act a) ∈ tr ∧ c₁.cluster = q := by
  obtain ⟨⟨c₁, act⟩, hmem, heq⟩ := List.mem_filterMap.1 h
  cases act with
  | elapse ms => simp at heq
  | act a₁ =>
      obtain ⟨rfl, rfl⟩ := Prod.mk.inj (Option.some.inj heq)
      exact ⟨c₁, hmem, rfl⟩

/-- A step of the cluster is one of the cluster without its clocks. -/
theorem next_act {a : ClusterAction} (hn : machine.next c (.act a) = some c') :
    (∀ r ∈ c.cluster.reading a, r.2.toNat = c.clockMs r.1) ∧
      Cluster.machine.next c.cluster a = some c'.cluster ∧ c'.timeMs = c.timeMs ∧
        c'.offsetMs = c.offsetMs := by
  have hn : c.next (.act a) = some c' := hn
  simp only [next] at hn
  split at hn
  · next hreads =>
      obtain ⟨cluster, hcluster, rfl⟩ := Option.map_eq_some_iff.1 hn
      exact ⟨hreads, hcluster, rfl, rfl⟩
  · simp at hn

/-- **Without its clocks a run is one of the cluster.** -/
theorem exec_untimed (h : machine.Exec tr c) : Cluster.machine.Exec (untimed tr) c.cluster := by
  induction h with
  | init h0 =>
      obtain ⟨offsetMs, rfl⟩ := h0
      exact .init rfl
  | @step tr c c' a hex hn ih =>
      rw [untimed, List.filterMap_append, ← untimed]
      cases a with
      | elapse ms =>
          obtain rfl := Option.some.inj hn
          simpa using ih
      | act a => exact ih.step (next_act hn).2.1

/-- Time only passes, and the offsets are constant. -/
theorem clock_le (h : machine.Exec tr c) : ∀ s ∈ tr, ∀ nodeId, s.1.clockMs nodeId ≤ c.clockMs nodeId
    := by
  induction h with
  | init _ => simp
  | @step tr c c' a _ hn ih =>
      have hle : ∀ nodeId, c.clockMs nodeId ≤ c'.clockMs nodeId := by
        intro nodeId
        cases a with
        | elapse ms =>
            obtain rfl := Option.some.inj hn
            simp only [clockMs]
            omega
        | act a =>
            obtain ⟨-, -, htime, hoffset⟩ := next_act hn
            simp only [clockMs, htime, hoffset]
            exact le_rfl
      intro s hs nodeId
      rcases List.mem_append.1 hs with hs | hs
      · exact (ih s hs nodeId).trans (hle nodeId)
      · obtain rfl := List.mem_singleton.1 hs
        exact hle nodeId

/-- What a heartbeat check reads is the clock of its node. -/
theorem reading_check (h : machine.Exec tr c) {c₁ : ClockedCluster} {i : ℕ} {now : TimeMs}
    (hmem : (c₁, .act (.process i (.checkHeartbeatTimeout now))) ∈ tr) {p : Process}
    (hp : c₁.cluster.processes[i]? = some p) : now.toNat = c₁.clockMs p.broker.thisNodeId := by
  obtain ⟨c₂, hn, -⟩ := h.next_mem_states hmem
  refine (next_act hn).1 (p.broker.thisNodeId, now) ?_
  simp [Cluster.reading, ProcessAction.reading, hp]

/-- The broker of a node has not read a later time than its clock shows. -/
theorem readings_le (h : machine.Exec tr c) {nodeId : NodeId} {q : Process} {now : TimeMs}
    (hmem : (q, .process (.checkHeartbeatTimeout now)) ∈ Cluster.steps nodeId (untimed tr)) :
    now.toNat ≤ c.clockMs nodeId := by
  obtain ⟨hacts, hid⟩ := List.mem_filter.1 hmem
  obtain ⟨⟨q₁, a⟩, huntimed, hacting⟩ := List.mem_filterMap.1 hacts
  obtain ⟨c₁, hin, rfl⟩ := mem_untimed huntimed
  cases a with
  | deliver j i =>
      obtain ⟨s, -, hp⟩ := Option.bind_eq_some_iff.1 hacting
      obtain ⟨p, -, heq⟩ := Option.map_eq_some_iff.1 hp
      simp at heq
  | process i act =>
      obtain ⟨p, hp, heq⟩ := Option.map_eq_some_iff.1 hacting
      obtain ⟨rfl, hact⟩ := Prod.mk.inj heq
      obtain rfl : act = .checkHeartbeatTimeout now := by simpa using hact
      have hid : p.broker.thisNodeId = nodeId := by simpa using hid
      rw [reading_check h hin hp, hid]
      exact clock_le h _ hin nodeId
  | launch | crash | lose => simp [Cluster.acting] at hacting

/-! ### Being heard from -/

/-- The node processes a gossip message of the peer. -/
def hears (nodeId peer : NodeId) (c : ClockedCluster) : ClockedAction → Prop
  | .elapse _ => False
  | .act a => match c.cluster.acting a with
    | some (p, .receive (.gossip msg)) => p.broker.thisNodeId = nodeId ∧ msg.fromNodeId = peer
    | _ => False

instance (nodeId peer : NodeId) (c : ClockedCluster) (a : ClockedAction) :
    Decidable (c.hears nodeId peer a) :=
  match a with
  | .elapse _ => isFalse id
  | .act a => match h : c.cluster.acting a with
    | some (p, .receive (.gossip msg)) =>
        decidable_of_iff (p.broker.thisNodeId = nodeId ∧ msg.fromNodeId = peer) (by simp [hears, h])
    | some (_, .receive (.twoWay _)) | some (_, .start) | some (_, .process _) | none =>
        isFalse (by simp [hears, h])

/-- The node has processed a gossip message of the peer in the last so many milliseconds of its own
clock. -/
def HeardWithin (tr : List (ClockedCluster × ClockedAction)) (c : ClockedCluster)
    (nodeId peer : NodeId) (ms : ℕ) : Prop :=
  ∃ s ∈ tr, s.1.hears nodeId peer s.2 ∧ c.clockMs nodeId < s.1.clockMs nodeId + ms

instance (tr : List (ClockedCluster × ClockedAction)) (c : ClockedCluster) (nodeId peer : NodeId)
    (ms : ℕ) : Decidable (HeardWithin tr c nodeId peer ms) :=
  inferInstanceAs (Decidable (∃ s ∈ tr, _))

/-- The heartbeat timeout of a process. -/
def timeoutMs (p : Process) : ℕ :=
  p.broker.clusterConfig.networkConfig.heartbeatTimeoutMs.toNat

/-- The entries of gossip that a step handles. -/
def handles (c : ClockedCluster) : ClockedAction → List NodeState
  | .elapse _ => []
  | .act a => match c.cluster.acting a with
    | some (p, act) => p.handles act
    | none => []

/-- The entries of gossip that a node has handled. -/
def handledBy (nodeId : NodeId) (tr : List (ClockedCluster × ClockedAction)) : List NodeState :=
  handledEntries (Cluster.steps nodeId (untimed tr))

/-- What a node handles when it hears from a peer is among what it has handled. -/
theorem mem_handledBy {nodeId peer : NodeId} {s : ClockedCluster × ClockedAction} (hs : s ∈ tr)
    (hears : s.1.hears nodeId peer s.2) {ns : NodeState} (hns : ns ∈ s.1.handles s.2) :
    ns ∈ handledBy nodeId tr := by
  obtain ⟨c₁, a⟩ := s
  cases a with
  | elapse ms => exact hears.elim
  | act a =>
      simp only [ClockedCluster.hears, handles] at hears hns
      cases hacting : c₁.cluster.acting a with
      | none => simp [hacting] at hns
      | some step =>
          rw [hacting] at hears hns
          have hid : step.1.broker.thisNodeId = nodeId := by
            split at hears
            · next p msg heq =>
                obtain rfl := Option.some.inj heq
                exact hears.1
            · exact hears.elim
          refine List.mem_flatMap.2 ⟨step, List.mem_filter.2 ⟨?_, by simpa using hid⟩, hns⟩
          exact List.mem_filterMap.2
            ⟨(c₁.cluster, a), List.mem_filterMap.2 ⟨(c₁, .act a), hs, rfl⟩, hacting⟩

/-! ### When no node is removed that is being heard from -/

/-- No heartbeat check removes a node from which a gossip message was processed in the last
heartbeat timeout. -/
def HeardNotRemoved (tr : List (ClockedCluster × ClockedAction)) : Prop :=
  ∀ tr₁ c i now tr₂, tr = tr₁ ++ (c, .act (.process i (.checkHeartbeatTimeout now))) :: tr₂ →
    ∀ p ∈ c.cluster.processes[i]?, ∀ peer ∈ p.broker.nodesToRemove now,
      ¬ HeardWithin tr₁ c p.broker.thisNodeId peer (timeoutMs p)

/-- Whenever a node checks its heartbeats and has processed a gossip message of a peer in the last
heartbeat timeout, some entry of the peer that it has handled has a time stamp that is less than the
heartbeat timeout behind its own clock. -/
def HeardInTime (tr : List (ClockedCluster × ClockedAction)) : Prop :=
  ∀ tr₁ c i now tr₂, tr = tr₁ ++ (c, .act (.process i (.checkHeartbeatTimeout now))) :: tr₂ →
    ∀ p ∈ c.cluster.processes[i]?, ∀ peer ∈ p.broker.nodeIdToState, peer ≠ p.broker.thisNodeId →
      HeardWithin tr₁ c p.broker.thisNodeId peer (timeoutMs p) →
        ∃ ns ∈ handledBy p.broker.thisNodeId tr₁, ns.nodeId = peer ∧
          c.clockMs p.broker.thisNodeId < ns.lastSeenTimestampMs.toNat + timeoutMs p

/-- Every gossip message that a node processes brings an entry of its sender whose time stamp is not
behind the clock of the node. -/
def StampsInTime (c : ClockedCluster) (a : ClockedAction) : Prop :=
  ∀ nodeId peer, c.hears nodeId peer a → ∃ ns ∈ c.handles a, ns.nodeId = peer ∧
    c.clockMs nodeId ≤ ns.lastSeenTimestampMs.toNat

instance (c : ClockedCluster) (a : ClockedAction) : Decidable (StampsInTime c a) :=
  match a with
  | .elapse _ => isTrue fun _ _ hears => hears.elim
  | .act a => match h : c.cluster.acting a with
    | some (p, .receive (.gossip msg)) =>
        decidable_of_iff (∃ ns ∈ c.handles (.act a), ns.nodeId = msg.fromNodeId ∧
          c.clockMs p.broker.thisNodeId ≤ ns.lastSeenTimestampMs.toNat)
          (by simp [StampsInTime, hears, h])
    | some (_, .receive (.twoWay _)) | some (_, .start) | some (_, .process _) | none =>
        isTrue (by simp [StampsInTime, hears, h])

/-- **Which nodes a heartbeat check of a cluster removes**: those in the table of which every entry
that was handled has timed out, by the clock of the node that checks. -/
theorem mem_nodesToRemove_iff (h : machine.Exec tr c) {i : ℕ} {p : Process}
    (hp : c.cluster.processes[i]? = some p) (hrunning : p.status = .running) {now : TimeMs}
    (hnow : now.toNat = c.clockMs p.broker.thisNodeId) {peer : NodeId}
    (hother : peer ≠ p.broker.thisNodeId) :
    peer ∈ p.broker.nodesToRemove now ↔ peer ∈ p.broker.nodeIdToState ∧
      ∀ ns ∈ handledBy p.broker.thisNodeId tr, ns.nodeId = peer →
        p.broker.timedOut now peer ns = true := by
  obtain ⟨p₀, q, hex, -, -, heq⟩ :=
    Cluster.runs_of_exec (exec_untimed h) p (List.mem_of_getElem? hp)
  obtain rfl := heq hrunning
  refine Process.mem_nodesToRemove_iff hex (fun q' now' hmem => ?_) hother
  rw [BitVec.le_def, hnow]
  refine readings_le h (q := q') ?_
  simpa using hmem

end ClockedCluster

open ClockedCluster in
/-- **When no node is removed that is being heard from.**  In every run of a cluster whose clocks
differ by constant offsets, no heartbeat check removes a node from which a gossip message was
processed in the last heartbeat timeout exactly if each time some entry of this node was handled
whose time stamp is less than the timeout behind the clock of the node that checks; and this is so
in every run in which no gossip message is processed later, by the clock of the receiver, than its
sender has stamped it. -/
theorem heard_not_removed_iff {tr : List (ClockedCluster × ClockedAction)} {c : ClockedCluster}
    (h : ClockedCluster.machine.Exec tr c) :
    (HeardNotRemoved tr ↔ HeardInTime tr) ∧
      (Machine.Meets StampsInTime tr → HeardNotRemoved tr) := by
  -- at one check
  have hcheck : ∀ {tr₁ : List (ClockedCluster × ClockedAction)} {c₁ : ClockedCluster} {i : ℕ}
      {now : TimeMs} {tr₂ : List (ClockedCluster × ClockedAction)} {p : Process},
      tr = tr₁ ++ (c₁, .act (.process i (.checkHeartbeatTimeout now))) :: tr₂ →
      c₁.cluster.processes[i]? = some p → ∀ {peer}, peer ≠ p.broker.thisNodeId →
      now.toNat = c₁.clockMs p.broker.thisNodeId ∧
        (peer ∈ p.broker.nodesToRemove now ↔ peer ∈ p.broker.nodeIdToState ∧
          ∀ ns ∈ handledBy p.broker.thisNodeId tr₁, ns.nodeId = peer →
            p.broker.timedOut now peer ns = true) := by
    rintro tr₁ c₁ i now tr₂ p rfl hp peer hother
    obtain ⟨hex, c₂, hn, -⟩ := h.split
    have hnow : now.toNat = c₁.clockMs p.broker.thisNodeId :=
      reading_check h (List.mem_append_right _ List.mem_cons_self) hp
    obtain ⟨p', -, -, hp', hrunning, -⟩ := Cluster.act_eq_some (next_act hn).2.1
    rw [hp] at hp'
    obtain rfl := Option.some.inj hp'
    exact ⟨hnow, mem_nodesToRemove_iff hex hp hrunning hnow hother⟩
  have hiff : HeardNotRemoved tr ↔ HeardInTime tr := by
    constructor
    · intro hkept tr₁ c₁ i now tr₂ hsplit p hp peer hmem hother hheard
      by_contra hlate
      obtain ⟨hnow, hremoved⟩ := hcheck hsplit hp hother
      refine hkept tr₁ c₁ i now tr₂ hsplit p hp peer (hremoved.2 ⟨hmem, ?_⟩) hheard
      intro ns hns hid
      rw [Broker.timedOut_iff]
      have hbehind : ¬ c₁.clockMs p.broker.thisNodeId
          < ns.lastSeenTimestampMs.toNat + timeoutMs p := fun hlt => hlate ⟨ns, hns, hid, hlt⟩
      -- the timeout is not zero, since a message was processed within it
      obtain ⟨s, hs, -, hrecent⟩ := hheard
      have hpast := clock_le (hsplit ▸ h).split.1 s hs p.broker.thisNodeId
      unfold timeoutMs at hbehind hrecent
      exact ⟨hother, by omega, by omega⟩
    · intro hintime tr₁ c₁ i now tr₂ hsplit p hp peer hmem hheard
      obtain ⟨state, -, htimedOut⟩ := Broker.mem_nodesToRemove.1 hmem
      have hother := Broker.ne_of_timedOut htimedOut
      obtain ⟨hnow, hremoved⟩ := hcheck hsplit hp hother
      obtain ⟨htable, hall⟩ := hremoved.1 hmem
      obtain ⟨ns, hns, hid, hlt⟩ := hintime tr₁ c₁ i now tr₂ hsplit p hp peer htable hother hheard
      have hlate := (Broker.timedOut_iff.1 (hall ns hns hid)).2.2
      unfold timeoutMs at hlt
      omega
  -- the entry of the sender that the message brought is recent enough
  refine ⟨hiff, fun hstamps => hiff.2 ?_⟩
  rintro tr₁ c₁ i now tr₂ rfl p hp peer - - ⟨s, hs, hears, hrecent⟩
  obtain ⟨ns, hns, hid, hle⟩ := hstamps s (List.mem_append_left _ hs) _ _ hears
  exact ⟨ns, mem_handledBy hs hears hns, hid, by omega⟩

/-! ### Two runs -/

/-- The clock of node 1 is ahead of the common time by so much, the other clocks show it. -/
def ClockedCluster.ahead (ms : ℕ) : ClockedCluster :=
  ⟨Cluster.initial, 0, fun nodeId => if nodeId = 1 then ms else 0⟩

theorem ClockedCluster.init_ahead (ms : ℕ) : ClockedCluster.machine.init (.ahead ms) := ⟨_, rfl⟩

/-- Nodes 1 and 2 find each other, with the clock of node 1 so far ahead; then time passes. -/
def clockedDiscovery (ahead : TimeMs) (ms : ℕ) : List ClockedAction :=
  [.act (.launch 1 (clusterConfigOf "tcp://a" "tcp://b") ahead),
    .act (.launch 2 (clusterConfigOf "tcp://b" "") 0),
    .act (.process 0 (.broadcastGossip ahead [])), .act (.deliver 0 1),
    .act (.process 1 (.broadcastGossip 0 [1])), .act (.deliver 0 0), .elapse ms]

/-- With equal clocks node 2 is removed when nothing was heard from it for the heartbeat timeout. -/
theorem heard_not_removed_iff_silent : ∃ tr c, ClockedCluster.machine.Exec tr c ∧
    c.cluster.processes.map (fun p => p.broker.nodeIdToState.keys) = [[1], [2, 1]] ∧
    ClockedCluster.HeardNotRemoved tr ∧ ClockedCluster.HeardInTime tr := by
  obtain ⟨c, hex, hc⟩ := Machine.exists_exec_of_replay (ClockedCluster.init_ahead 0)
    (clockedDiscovery 0 10000 ++ [.act (.process 0 (.checkHeartbeatTimeout 10000))])
    (fun c => c.cluster.processes.map fun p => p.broker.nodeIdToState.keys) [[1], [2, 1]]
    (by decide)
  obtain ⟨hiff, hstamps⟩ := heard_not_removed_iff hex
  have hkept := hstamps (by decide)
  exact ⟨_, c, hex, hc, hkept, hiff.1 hkept⟩

/-- The clock of node 2 is twenty seconds behind that of node 1, whose heartbeat timeout is ten
seconds: node 2 is removed a millisecond after it was heard from. -/
theorem skewed_node_removed : ∃ tr c, ClockedCluster.machine.Exec tr c ∧
    ¬ ClockedCluster.HeardNotRemoved tr := by
  let check : ClockedAction := .act (.process 0 (.checkHeartbeatTimeout 20001))
  obtain ⟨c, hex, hc⟩ := Machine.exists_exec_of_replay (ClockedCluster.init_ahead 20000)
    (clockedDiscovery 20000 1)
    (fun c => ((c.cluster.processes[0]?).map fun p => (p.broker.nodesToRemove 20001,
        decide (ClockedCluster.HeardWithin (ClockedCluster.machine.replayTrace (.ahead 20000)
          (clockedDiscovery 20000 1)) c p.broker.thisNodeId 2 (ClockedCluster.timeoutMs p))),
      (ClockedCluster.machine.next c check).isSome)) (some ([2], true), true) (by decide)
  simp only [Prod.mk.injEq] at hc
  obtain ⟨p, hp, hremoved⟩ := Option.map_eq_some_iff.1 hc.1
  simp only [Prod.mk.injEq, decide_eq_true_eq] at hremoved
  obtain ⟨c', hn⟩ := Option.isSome_iff_exists.1 hc.2
  have hmem : (2 : NodeId) ∈ p.broker.nodesToRemove 20001 := by
    rw [hremoved.1]
    exact List.mem_singleton_self 2
  exact ⟨_, c', hex.step hn, fun hkept => hkept _ c 0 20001 [] rfl p hp 2 hmem hremoved.2⟩

end ExActor
