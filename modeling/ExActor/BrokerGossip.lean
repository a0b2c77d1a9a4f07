/-
**Gossip merging is a join.**

A broker inserts the entry of a node it has not heard of, and of a node that it knows it raises the
time stamp.  As long as nobody disagrees on the address or the name of a node, this is a join: what
the broker has heard of each node is the latest of all time stamps, so that it does not matter in
which order gossip arrives, how often, or in which messages.  The sockets and the discovery of the
contact node follow the table.

Main definitions:

* `Broker.Agreeing` — gossip that agrees with itself and with the table;
* `Broker.heard` — the time stamps of the table, in the semilattice of the maps to `WithBot ℕ`;
* `Broker.Grown` — what the table, the sockets and the contact flag are after some gossip.

Main results:

* `Broker.joins_handleNodeState` — **an entry of gossip joins its time stamp**;
* `gossip_merging_is_join` — **the order, the repetitions and the grouping do not matter**.
-/

import ExActor.BrokerStep
import ExActor.Joins
import Mathlib

set_option relaxedAutoImplicit false
set_option autoImplicit false

namespace ExActor

/-- What identifies the node of an entry. -/
def NodeState.identity (ns : NodeState) : NodeId × String × String :=
  (ns.nodeId, ns.address, ns.nodeName)

/-- The entries of some messages, in their order. -/
def gossipEntries (msgs : List BrokerGossipMessage) : List NodeState :=
  msgs.flatMap fun msg => msg.nodeStates

namespace Broker

variable {b s : Broker} {nss : List NodeState}

/-- One gossip message after the other. -/
def handleGossipMessages (b : Broker) : List BrokerGossipMessage → BrokerResult Unit
  | [] => ⟨b, [], .ok ()⟩
  | msg :: msgs =>
      let r := b.handleGossipMessage msg
      match r.result with
      | .error e => ⟨r.broker, r.sent, .error e⟩
      | .ok () =>
          let r' := handleGossipMessages r.broker msgs
          ⟨r'.broker, r.sent ++ r'.sent, r'.result⟩

/-- The entries do not disagree on the address or the name of a node, with the table or with each
other. -/
structure Agreeing (b : Broker) (nss : List NodeState) : Prop where
  entries : ∀ ns ∈ nss, ∀ ns' ∈ nss, ns.nodeId = ns'.nodeId →
    ns.address = ns'.address ∧ ns.nodeName = ns'.nodeName
  table : ∀ ns ∈ nss, ∀ cur, b.nodeIdToState.lookup ns.nodeId = some cur →
    cur.address = ns.address ∧ cur.nodeName = ns.nodeName

/-! ### What is heard of the nodes -/

/-- The time stamp of each node in the table. -/
def heard (b : Broker) (nodeId : NodeId) : WithBot ℕ :=
  match b.nodeIdToState.lookup nodeId with
  | none => ⊥
  | some ns => WithBot.some ns.lastSeenTimestampMs.toNat

/-- What an entry tells of the nodes. -/
def told (ns : NodeState) (nodeId : NodeId) : WithBot ℕ :=
  if nodeId = ns.nodeId then WithBot.some ns.lastSeenTimestampMs.toNat else ⊥

/-- After some gossip from `b`: every entry of the table has the identity and the time stamp of one
that was there or was told, and no entry is gone; the nodes that were not there before have a socket
at their address, and one of them may be the contact node. -/
structure Grown (b : Broker) (nss : List NodeState) (s : Broker) : Prop where
  identities : ∀ nodeId cur, s.nodeIdToState.lookup nodeId = some cur →
    (∃ old, b.nodeIdToState.lookup nodeId = some old ∧ cur.identity = old.identity) ∨
      (b.nodeIdToState.lookup nodeId = none ∧
        ∃ ns ∈ nss, ns.nodeId = nodeId ∧ cur.identity = ns.identity)
  times : ∀ nodeId cur, s.nodeIdToState.lookup nodeId = some cur →
    (∃ old, b.nodeIdToState.lookup nodeId = some old ∧
      cur.lastSeenTimestampMs = old.lastSeenTimestampMs) ∨
      ∃ ns ∈ nss, ns.nodeId = nodeId ∧ cur.lastSeenTimestampMs = ns.lastSeenTimestampMs
  kept : ∀ nodeId ∈ b.nodeIdToState, nodeId ∈ s.nodeIdToState
  sockets : ∀ nodeId, s.nodeIdToSendSocket.lookup nodeId =
    if nodeId ∈ b.nodeIdToState then b.nodeIdToSendSocket.lookup nodeId
    else ((s.nodeIdToState.lookup nodeId).map NodeState.address).or
      (b.nodeIdToSendSocket.lookup nodeId)
  contact : s.contactNodeDiscovered = true ↔ b.contactNodeDiscovered = true ∨
    ∃ nodeId ns, nodeId ∉ b.nodeIdToState ∧ s.nodeIdToState.lookup nodeId = some ns ∧
      ns.address = b.clusterConfig.contactNodeAddress
  clusterConfig : s.clusterConfig = b.clusterConfig

theorem Grown.refl (b : Broker) (nss : List NodeState) : Grown b nss b := by
  refine ⟨fun nodeId cur hcur => Or.inl ⟨cur, hcur, rfl⟩, fun nodeId cur hcur =>
    Or.inl ⟨cur, hcur, rfl⟩, fun _ h => h, fun nodeId => ?_, ⟨Or.inl, ?_⟩, rfl⟩
  · split
    · rfl
    · next hnew => rw [AList.lookup_eq_none.2 hnew, Option.map_none, Option.none_or]
  · rintro (h | ⟨nodeId, ns, hnew, hns, -⟩)
    · exact h
    · exact absurd (UnorderedMap.mem_of_lookup hns) hnew

/-- An entry of gossip agrees with the table that other gossip has left. -/
theorem Grown.agree (h : Grown b nss s) (hagree : b.Agreeing nss) {ns cur : NodeState}
    (hns : ns ∈ nss) (hcur : s.nodeIdToState.lookup ns.nodeId = some cur) :
    cur.address = ns.address ∧ cur.nodeName = ns.nodeName := by
  rcases h.identities ns.nodeId cur hcur with ⟨old, hold, heq⟩ | ⟨-, ns', hns', hid, heq⟩
  · obtain ⟨-, haddress, hname⟩ := by simpa [NodeState.identity] using heq
    rw [haddress, hname]
    exact hagree.table ns hns old hold
  · obtain ⟨-, haddress, hname⟩ := by simpa [NodeState.identity] using heq
    rw [haddress, hname]
    exact hagree.entries ns' hns' ns hns hid

/-- An entry of gossip that agrees with the table enters it, or raises a time stamp. -/
theorem handleNodeState_of_agree {ns : NodeState}
    (hagree : ∀ cur, s.nodeIdToState.lookup ns.nodeId = some cur →
      cur.address = ns.address ∧ cur.nodeName = ns.nodeName) :
    (s.nodeIdToState.lookup ns.nodeId = none ∧ s.handleNodeState ns = s.discover ns) ∨
      ∃ cur, s.nodeIdToState.lookup ns.nodeId = some cur ∧
        s.handleNodeState ns = ⟨s.refresh ns.nodeId cur
          (latest cur.lastSeenTimestampMs ns.lastSeenTimestampMs), [], .ok ()⟩ := by
  rcases handleNodeState_spec s ns with hnew | hknown | ⟨cur, e, hcur, hnot, -⟩
  · exact Or.inl hnew
  · exact Or.inr hknown
  · exact absurd (hagree cur hcur) hnot

/-- The entry of a new node is inserted whole. -/
theorem Grown.discover (h : Grown b nss s) {ns : NodeState} (hns : ns ∈ nss)
    (hnew : s.nodeIdToState.lookup ns.nodeId = none) : Grown b nss (s.discover ns).broker := by
  have hold : ns.nodeId ∉ b.nodeIdToState := fun hmem =>
    AList.lookup_eq_none.1 hnew (h.kept ns.nodeId hmem)
  obtain ⟨deferred, hdiscover⟩ := discover_broker_eq s ns
  rw [hdiscover]
  refine ⟨fun nodeId cur hcur => ?_, fun nodeId cur hcur => ?_,
    fun nodeId hmem => (AList.mem_insert _).2 (Or.inr (h.kept nodeId hmem)), fun nodeId => ?_, ?_,
    h.clusterConfig⟩
  · dsimp only at hcur
    by_cases hid : nodeId = ns.nodeId
    · subst hid
      rw [AList.lookup_insert] at hcur
      obtain rfl := Option.some.inj hcur
      exact Or.inr ⟨AList.lookup_eq_none.2 hold, ns, hns, rfl, rfl⟩
    · rw [AList.lookup_insert_ne hid] at hcur
      exact h.identities nodeId cur hcur
  · dsimp only at hcur
    by_cases hid : nodeId = ns.nodeId
    · subst hid
      rw [AList.lookup_insert] at hcur
      obtain rfl := Option.some.inj hcur
      exact Or.inr ⟨ns, hns, rfl, rfl⟩
    · rw [AList.lookup_insert_ne hid] at hcur
      exact h.times nodeId cur hcur
  · dsimp only
    by_cases hid : nodeId = ns.nodeId
    · subst hid
      rw [if_neg hold, AList.lookup_insert, AList.lookup_insert, Option.map_some, Option.some_or]
    · rw [AList.lookup_insert_ne hid, AList.lookup_insert_ne hid]
      exact h.sockets nodeId
  · dsimp only
    rw [Bool.or_eq_true, h.contact, beq_iff_eq, h.clusterConfig]
    constructor
    · rintro ((hb | ⟨nodeId, ns', hnot, hns', haddress⟩) | haddress)
      · exact Or.inl hb
      · have hid : nodeId ≠ ns.nodeId := by
          rintro rfl
          rw [hnew] at hns'
          simp at hns'
        exact Or.inr ⟨nodeId, ns', hnot, by rw [AList.lookup_insert_ne hid]; exact hns', haddress⟩
      · exact Or.inr ⟨ns.nodeId, ns, hold, AList.lookup_insert _, haddress⟩
    · rintro (hb | ⟨nodeId, ns', hnot, hns', haddress⟩)
      · exact Or.inl (Or.inl hb)
      · by_cases hid : nodeId = ns.nodeId
        · subst hid
          rw [AList.lookup_insert] at hns'
          obtain rfl := Option.some.inj hns'
          exact Or.inr haddress
        · rw [AList.lookup_insert_ne hid] at hns'
          exact Or.inl (Or.inr ⟨nodeId, ns', hnot, hns', haddress⟩)

/-- Of the entry of a known node only the time stamp changes. -/
theorem Grown.refresh (h : Grown b nss s) {ns cur : NodeState} (hns : ns ∈ nss)
    (hcur : s.nodeIdToState.lookup ns.nodeId = some cur) :
    Grown b nss (s.refresh ns.nodeId cur
      (latest cur.lastSeenTimestampMs ns.lastSeenTimestampMs)) := by
  have hlookup : ∀ nodeId after, (s.refresh ns.nodeId cur
      (latest cur.lastSeenTimestampMs ns.lastSeenTimestampMs)).nodeIdToState.lookup nodeId
        = some after → ∃ before, s.nodeIdToState.lookup nodeId = some before ∧
          after.identity = before.identity ∧ after.address = before.address ∧
          (after.lastSeenTimestampMs = before.lastSeenTimestampMs ∨
            nodeId = ns.nodeId ∧ after.lastSeenTimestampMs = ns.lastSeenTimestampMs) := by
    intro nodeId after hafter
    simp only [Broker.refresh] at hafter
    by_cases hid : nodeId = ns.nodeId
    · subst hid
      rw [AList.lookup_insert] at hafter
      obtain rfl := Option.some.inj hafter
      refine ⟨cur, hcur, rfl, rfl, ?_⟩
      dsimp only
      exact (latest_eq_or _ _).imp_right fun heq => ⟨rfl, heq⟩
    · rw [AList.lookup_insert_ne hid] at hafter
      exact ⟨after, hafter, rfl, rfl, Or.inl rfl⟩
  have haddress : ∀ nodeId, ((s.refresh ns.nodeId cur
      (latest cur.lastSeenTimestampMs ns.lastSeenTimestampMs)).nodeIdToState.lookup nodeId).map
        NodeState.address = (s.nodeIdToState.lookup nodeId).map NodeState.address := by
    intro nodeId
    simp only [Broker.refresh]
    by_cases hid : nodeId = ns.nodeId
    · subst hid
      rw [AList.lookup_insert, hcur]
      rfl
    · rw [AList.lookup_insert_ne hid]
  refine ⟨fun nodeId after hafter => ?_, fun nodeId after hafter => ?_,
    fun nodeId hmem => (AList.mem_insert _).2 (Or.inr (h.kept nodeId hmem)), fun nodeId => ?_, ?_,
    h.clusterConfig⟩
  · obtain ⟨before, hbefore, hidentity, -⟩ := hlookup nodeId after hafter
    rw [hidentity]
    exact h.identities nodeId before hbefore
  · obtain ⟨before, hbefore, -, -, htime | ⟨rfl, htime⟩⟩ := hlookup nodeId after hafter
    · rw [htime]
      exact h.times nodeId before hbefore
    · exact Or.inr ⟨ns, hns, rfl, htime⟩
  · rw [haddress]
    exact h.sockets nodeId
  · have hsome : ∀ nodeId address, (∃ after, (s.refresh ns.nodeId cur
        (latest cur.lastSeenTimestampMs ns.lastSeenTimestampMs)).nodeIdToState.lookup nodeId
          = some after ∧ after.address = address) ↔
        ∃ before, s.nodeIdToState.lookup nodeId = some before ∧ before.address = address := by
      intro nodeId address
      rw [← Option.map_eq_some_iff, ← Option.map_eq_some_iff, haddress]
    have hcontact := h.contact
    simp only [exists_and_left, hsome] at hcontact ⊢
    exact hcontact

/-- **What one entry of gossip leaves.** -/
theorem Grown.handleNodeState (h : Grown b nss s) (hagree : b.Agreeing nss) {ns : NodeState}
    (hns : ns ∈ nss) : Grown b nss (s.handleNodeState ns).broker := by
  rcases handleNodeState_of_agree fun cur hcur => h.agree hagree hns hcur with
    ⟨hnew, heq⟩ | ⟨cur, hcur, heq⟩
  · rw [heq]
    exact h.discover hns hnew
  · rw [heq]
    exact h.refresh hns hcur

/-- **An entry of gossip joins its time stamp** to what is heard of the nodes. -/
theorem joins_handleNodeState (hagree : b.Agreeing nss) :
    Joins (fun s ns => (handleNodeState s ns).broker) heard told (Grown b nss) (· ∈ nss) := by
  refine ⟨fun s ns h hns => h.handleNodeState hagree hns, fun s ns h hns => ?_⟩
  funext nodeId
  rw [Pi.sup_apply]
  rcases handleNodeState_of_agree fun cur hcur => h.agree hagree hns hcur with
    ⟨hnew, heq⟩ | ⟨cur, hcur, heq⟩
  · obtain ⟨deferred, hdiscover⟩ := discover_broker_eq s ns
    simp only [heq, hdiscover, heard, told]
    by_cases hid : nodeId = ns.nodeId
    · subst hid
      rw [AList.lookup_insert, hnew, if_pos rfl, bot_sup_eq]
    · rw [AList.lookup_insert_ne hid, if_neg hid, sup_bot_eq]
  · simp only [heq, refresh, heard, told]
    by_cases hid : nodeId = ns.nodeId
    · subst hid
      rw [AList.lookup_insert, hcur, if_pos rfl]
      dsimp only
      rw [toNat_latest]
      exact WithBot.coe_max _ _
    · rw [AList.lookup_insert_ne hid, if_neg hid, sup_bot_eq]

/-! ### Messages -/

/-- A loop over entries that agree returns, and handles one after the other. -/
theorem Grown.handleNodeStates (h : Grown b nss s) (hagree : b.Agreeing nss) {l : List NodeState}
    (hl : ∀ ns ∈ l, ns ∈ nss) : (s.handleNodeStates l).result = .ok () ∧
      (s.handleNodeStates l).broker = l.foldl (fun s ns => (s.handleNodeState ns).broker) s := by
  induction l generalizing s with
  | nil => exact ⟨rfl, rfl⟩
  | cons ns l ih =>
      have hns := hl ns List.mem_cons_self
      have hok : (s.handleNodeState ns).result = .ok () := by
        rcases handleNodeState_of_agree fun cur hcur => h.agree hagree hns hcur with
          ⟨-, heq⟩ | ⟨cur, -, heq⟩
        · rw [heq, discover_eq]
        · rw [heq]
      obtain ⟨hresult, hbroker⟩ :=
        ih (h.handleNodeState hagree hns) fun ns' hns' => hl ns' (List.mem_cons_of_mem ns hns')
      unfold Broker.handleNodeStates
      dsimp only
      rw [hok]
      exact ⟨hresult, hbroker⟩

/-- Messages that agree are handled like their entries. -/
theorem Grown.handleGossipMessages (h : Grown b nss s) (hagree : b.Agreeing nss)
    {msgs : List BrokerGossipMessage} (hmsgs : ∀ ns ∈ gossipEntries msgs, ns ∈ nss) :
    (s.handleGossipMessages msgs).result = .ok () ∧ (s.handleGossipMessages msgs).broker
      = (gossipEntries msgs).foldl (fun s ns => (s.handleNodeState ns).broker) s := by
  induction msgs generalizing s with
  | nil => exact ⟨rfl, rfl⟩
  | cons msg msgs ih =>
      have hentries : gossipEntries (msg :: msgs) = msg.nodeStates ++ gossipEntries msgs := rfl
      rw [hentries] at hmsgs ⊢
      have hmsg : ∀ ns ∈ msg.nodeStates, ns ∈ nss := fun ns hns =>
        hmsgs ns (List.mem_append_left _ hns)
      obtain ⟨hok, hbroker⟩ := h.handleNodeStates hagree hmsg
      have hmid := (joins_handleNodeState hagree).invariant_foldl h hmsg
      rw [← hbroker] at hmid
      obtain ⟨hresult, hrest⟩ := ih hmid fun ns hns => hmsgs ns (List.mem_append_right _ hns)
      unfold Broker.handleGossipMessages handleGossipMessage
      dsimp only
      rw [hok, List.foldl_append, ← hbroker]
      exact ⟨hresult, hrest⟩

/-- Two brokers know the same nodes, and are connected to the same. -/
structure SameKnowledge (b b' : Broker) : Prop where
  table : ∀ nodeId, b.nodeIdToState.lookup nodeId = b'.nodeIdToState.lookup nodeId
  sockets : ∀ nodeId, b.nodeIdToSendSocket.lookup nodeId = b'.nodeIdToSendSocket.lookup nodeId
  contact : b.contactNodeDiscovered = b'.contactNodeDiscovered

theorem heard_eq_bot {nodeId : NodeId} :
    b.heard nodeId = ⊥ ↔ b.nodeIdToState.lookup nodeId = none := by
  unfold heard
  split
  · next h => simp [h]
  · next ns h => simp [h]

theorem heard_of_lookup {nodeId : NodeId} {ns : NodeState}
    (h : b.nodeIdToState.lookup nodeId = some ns) :
    b.heard nodeId = WithBot.some ns.lastSeenTimestampMs.toNat := by rw [heard, h]

/-- The identity of an entry does not depend on the gossip it came from. -/
theorem Grown.identity_eq {s' : Broker} (h : Grown b nss s) (h' : Grown b nss s')
    (hagree : b.Agreeing nss) {nodeId : NodeId} {ns ns' : NodeState}
    (hns : s.nodeIdToState.lookup nodeId = some ns)
    (hns' : s'.nodeIdToState.lookup nodeId = some ns') : ns.identity = ns'.identity := by
  rcases h.identities nodeId ns hns with ⟨old, hold, heq⟩ | ⟨hnone, e, he, hid, heq⟩
  · rcases h'.identities nodeId ns' hns' with ⟨old', hold', heq'⟩ | ⟨hnone', -⟩
    · rw [heq, heq', Option.some.inj (hold.symm.trans hold')]
    · simp [hnone'] at hold
  · rcases h'.identities nodeId ns' hns' with ⟨old', hold', heq'⟩ | ⟨-, e', he', hid', heq'⟩
    · simp [hnone] at hold'
    · obtain ⟨haddress, hname⟩ := hagree.entries e he e' he' (hid.trans hid'.symm)
      rw [heq, heq', NodeState.identity, NodeState.identity, haddress, hname, hid, hid']

/-- **What was heard of the nodes determines the rest.** -/
theorem Grown.sameKnowledge {s' : Broker} (h : Grown b nss s) (h' : Grown b nss s')
    (hagree : b.Agreeing nss) (hheard : s.heard = s'.heard) : s.SameKnowledge s' := by
  have htable : ∀ nodeId, s.nodeIdToState.lookup nodeId = s'.nodeIdToState.lookup nodeId := by
    intro nodeId
    have hnode := congrFun hheard nodeId
    cases hns : s.nodeIdToState.lookup nodeId with
    | none =>
        rw [heard_eq_bot.2 hns] at hnode
        exact (heard_eq_bot.1 hnode.symm).symm
    | some ns =>
        cases hns' : s'.nodeIdToState.lookup nodeId with
        | none =>
            rw [heard_eq_bot.2 hns'] at hnode
            rw [heard_eq_bot.1 hnode] at hns
            simp at hns
        | some ns' =>
            rw [heard_of_lookup hns, heard_of_lookup hns', WithBot.coe_inj] at hnode
            have htime := BitVec.eq_of_toNat_eq hnode
            have hidentity := h.identity_eq h' hagree hns hns'
            cases ns
            cases ns'
            simp_all [NodeState.identity]
  refine ⟨htable, fun nodeId => ?_, ?_⟩
  · rw [h.sockets, h'.sockets, htable]
  · rw [Bool.eq_iff_iff, h.contact, h'.contact]
    simp only [htable]

/-- The entries that a node may come from: that of the table, and those that are told. -/
def sources (b : Broker) (nss : List NodeState) (nodeId : NodeId) : Set NodeState :=
  {ns | b.nodeIdToState.lookup nodeId = some ns ∨ ns ∈ nss ∧ ns.nodeId = nodeId}

theorem exists_of_le_heard {nodeId : NodeId} {t : ℕ} (h : WithBot.some t ≤ s.heard nodeId) :
    ∃ cur, s.nodeIdToState.lookup nodeId = some cur ∧ t ≤ cur.lastSeenTimestampMs.toNat := by
  cases hcur : s.nodeIdToState.lookup nodeId with
  | none =>
      rw [heard_eq_bot.2 hcur] at h
      simp at h
  | some cur =>
      rw [heard_of_lookup hcur, WithBot.coe_le_coe] at h
      exact ⟨cur, rfl, h⟩

theorem told_self (ns : NodeState) :
    told ns ns.nodeId = WithBot.some ns.lastSeenTimestampMs.toNat := by rw [told, if_pos rfl]

/-- What is told is heard. -/
theorem exists_of_mem (hagree : b.Agreeing nss) {nodeId : NodeId} {ns : NodeState}
    (hns : ns ∈ b.sources nss nodeId) :
    ∃ cur, (nss.foldl (fun s ns => (s.handleNodeState ns).broker) b).nodeIdToState.lookup nodeId
      = some cur ∧ ns.lastSeenTimestampMs.toNat ≤ cur.lastSeenTimestampMs.toNat := by
  have hupper := ((joins_handleNodeState hagree).isLUB_foldl (Grown.refl b nss) fun _ h => h).1
  refine exists_of_le_heard ?_
  rcases hns with hns | ⟨hns, rfl⟩
  · rw [← heard_of_lookup hns]
    exact hupper (Set.mem_insert _ _) nodeId
  · rw [← told_self ns]
    exact hupper (Set.mem_insert_of_mem _ ⟨ns, hns, rfl⟩) ns.nodeId

/-- Gossip that tells nothing new leaves the table as it is, and sends nothing. -/
theorem handleNodeStates_known {l : List NodeState} (h : ∀ ns ∈ l, ∃ cur,
      s.nodeIdToState.lookup ns.nodeId = some cur ∧ cur.address = ns.address ∧
        cur.nodeName = ns.nodeName ∧
        ns.lastSeenTimestampMs.toNat ≤ cur.lastSeenTimestampMs.toNat) :
    ∃ table, s.handleNodeStates l = ⟨{ s with nodeIdToState := table }, [], .ok ()⟩ ∧
      ∀ nodeId, table.lookup nodeId = s.nodeIdToState.lookup nodeId := by
  induction l generalizing s with
  | nil => exact ⟨s.nodeIdToState, rfl, fun _ => rfl⟩
  | cons ns l ih =>
      obtain ⟨cur, hcur, haddress, hname, htime⟩ := h ns List.mem_cons_self
      have hlatest : latest cur.lastSeenTimestampMs ns.lastSeenTimestampMs
          = cur.lastSeenTimestampMs := if_neg fun hlt => not_lt.2 htime (BitVec.lt_def.1 hlt)
      have hfirst : s.handleNodeState ns
          = ⟨s.refresh ns.nodeId cur cur.lastSeenTimestampMs, [], .ok ()⟩ := by
        rcases @handleNodeState_of_agree s ns fun cur' hcur' => by
            obtain rfl := Option.some.inj (hcur.symm.trans hcur')
            exact ⟨haddress, hname⟩ with ⟨hnone, -⟩ | ⟨cur', hcur', heq⟩
        · simp [hnone] at hcur
        · obtain rfl := Option.some.inj (hcur.symm.trans hcur')
          rw [heq, hlatest]
      have hsame : ∀ nodeId, (s.refresh ns.nodeId cur cur.lastSeenTimestampMs).nodeIdToState.lookup
          nodeId = s.nodeIdToState.lookup nodeId := by
        intro nodeId
        simp only [Broker.refresh]
        by_cases hid : nodeId = ns.nodeId
        · subst hid
          rw [AList.lookup_insert, hcur]
        · rw [AList.lookup_insert_ne hid]
      obtain ⟨table, heq, hlookup⟩ := ih (s := s.refresh ns.nodeId cur cur.lastSeenTimestampMs)
        fun ns' hns' => by
          rw [hsame]
          exact h ns' (List.mem_cons_of_mem ns hns')
      refine ⟨table, ?_, fun nodeId => (hlookup nodeId).trans (hsame nodeId)⟩
      rw [Broker.handleNodeStates, hfirst]
      dsimp only
      rw [heq]
      rfl

end Broker

/-- **Gossip merging is a join.**  Gossip that agrees with itself and with the table is not refused;
each node then has the address and the name that it was told of, and the latest of its time stamps.
Any messages with the same entries, in another order, repeated or grouped in another way, leave the
same table, the same sockets and the same contact flag; and a message that comes again changes
nothing and sends nothing. -/
theorem gossip_merging_is_join (b : Broker) (msgs : List BrokerGossipMessage)
    (hagree : b.Agreeing (gossipEntries msgs)) :
    (b.handleGossipMessages msgs).result = .ok () ∧
      (∀ nodeId,
        ((b.handleGossipMessages msgs).broker.nodeIdToState.lookup nodeId = none ↔
          b.sources (gossipEntries msgs) nodeId = ∅) ∧
        ∀ state, (b.handleGossipMessages msgs).broker.nodeIdToState.lookup nodeId = some state →
          (∀ ns ∈ b.sources (gossipEntries msgs) nodeId, state.address = ns.address ∧
            state.nodeName = ns.nodeName ∧ ns.lastSeenTimestampMs ≤ state.lastSeenTimestampMs) ∧
          ∃ ns ∈ b.sources (gossipEntries msgs) nodeId,
            state.lastSeenTimestampMs = ns.lastSeenTimestampMs) ∧
      (∀ msgs', (∀ ns, ns ∈ gossipEntries msgs' ↔ ns ∈ gossipEntries msgs) →
        (b.handleGossipMessages msgs').result = .ok () ∧
          (b.handleGossipMessages msgs').broker.SameKnowledge
            (b.handleGossipMessages msgs).broker) ∧
      ∀ msg ∈ msgs, ∃ table, (b.handleGossipMessages msgs).broker.handleGossipMessage msg
          = ⟨{ (b.handleGossipMessages msgs).broker with nodeIdToState := table }, [], .ok ()⟩ ∧
        ∀ nodeId, table.lookup nodeId
          = (b.handleGossipMessages msgs).broker.nodeIdToState.lookup nodeId := by
  have hjoins := Broker.joins_handleNodeState hagree
  have hrefl := Broker.Grown.refl b (gossipEntries msgs)
  obtain ⟨hok, hbroker⟩ := hrefl.handleGossipMessages hagree fun _ h => h
  have hgrown := hjoins.invariant_foldl hrefl fun _ h => h
  have hheard := @Broker.exists_of_mem b (gossipEntries msgs) hagree
  rw [← hbroker] at hgrown hheard
  have hmember : ∀ nodeId cur, (b.handleGossipMessages msgs).broker.nodeIdToState.lookup nodeId
      = some cur → ∃ ns ∈ b.sources (gossipEntries msgs) nodeId,
        cur.lastSeenTimestampMs = ns.lastSeenTimestampMs := by
    intro nodeId cur hcur
    rcases hgrown.times nodeId cur hcur with ⟨old, hold, htime⟩ | ⟨ns, hns, hid, htime⟩
    · exact ⟨old, Or.inl hold, htime⟩
    · exact ⟨ns, Or.inr ⟨hns, hid⟩, htime⟩
  refine ⟨hok, fun nodeId => ⟨⟨fun hnone => ?_, fun hempty => ?_⟩, fun state hstate => ?_⟩,
    fun msgs' hsame => ?_, fun msg hmsg => ?_⟩
  · refine Set.eq_empty_iff_forall_notMem.2 fun ns hns => ?_
    obtain ⟨cur, hcur, -⟩ := hheard hns
    simp [hnone] at hcur
  · cases hcur : (b.handleGossipMessages msgs).broker.nodeIdToState.lookup nodeId with
    | none => rfl
    | some cur =>
        obtain ⟨ns, hns, -⟩ := hmember nodeId cur hcur
        simp [hempty] at hns
  · refine ⟨fun ns hns => ?_, hmember nodeId state hstate⟩
    obtain ⟨cur, hcur, htime⟩ := hheard hns
    obtain rfl := Option.some.inj (hstate.symm.trans hcur)
    rcases hns with hns | ⟨hns, rfl⟩
    · have hidentity := hgrown.identity_eq hrefl hagree hstate hns
      obtain ⟨-, haddress, hname⟩ := by simpa [NodeState.identity] using hidentity
      exact ⟨haddress, hname, BitVec.le_def.2 htime⟩
    · obtain ⟨haddress, hname⟩ := hgrown.agree hagree hns hstate
      exact ⟨haddress, hname, BitVec.le_def.2 htime⟩
  · obtain ⟨hok', hbroker'⟩ := hrefl.handleGossipMessages hagree fun ns hns => (hsame ns).1 hns
    have hgrown' := hjoins.invariant_foldl hrefl fun ns hns => (hsame ns).1 hns
    have hcongr := hjoins.foldl_congr hrefl (fun _ h => h) hsame
    rw [← hbroker'] at hgrown' hcongr
    rw [← hbroker] at hcongr
    exact ⟨hok', hgrown'.sameKnowledge hgrown hagree hcongr⟩
  · refine Broker.handleNodeStates_known fun ns hns => ?_
    have hentry : ns ∈ gossipEntries msgs := List.mem_flatMap.2 ⟨msg, hmsg, hns⟩
    obtain ⟨cur, hcur, htime⟩ := hheard (Or.inr ⟨hentry, rfl⟩)
    obtain ⟨haddress, hname⟩ := hgrown.agree hagree hentry hcur
    exact ⟨cur, hcur, haddress, hname, htime⟩

/-- Two messages about node 2, the newer one first and then twice. -/
theorem gossip_merging_is_join_swapped :
    (Process.first.broker.handleGossipMessages
        [⟨3, [⟨3, 2, "tcp://b", ""⟩]⟩, ⟨2, [⟨1, 2, "tcp://b", ""⟩]⟩,
          ⟨3, [⟨3, 2, "tcp://b", ""⟩]⟩]).broker.SameKnowledge
      (Process.first.broker.handleGossipMessages
        [⟨2, [⟨1, 2, "tcp://b", ""⟩]⟩, ⟨3, [⟨3, 2, "tcp://b", ""⟩]⟩]).broker := by
  have hnew : ∀ ns ∈ gossipEntries [⟨2, [⟨1, 2, "tcp://b", ""⟩]⟩, ⟨3, [⟨3, 2, "tcp://b", ""⟩]⟩],
      Process.first.broker.nodeIdToState.lookup ns.nodeId = none := by decide
  have hagree : Process.first.broker.Agreeing
      (gossipEntries [⟨2, [⟨1, 2, "tcp://b", ""⟩]⟩, ⟨3, [⟨3, 2, "tcp://b", ""⟩]⟩]) := by
    refine ⟨by decide, fun ns hns cur hcur => ?_⟩
    rw [hnew ns hns] at hcur
    simp at hcur
  refine ((gossip_merging_is_join _ _ hagree).2.2.1 _ fun ns => ?_).2
  simp only [gossipEntries, List.flatMap_cons, List.flatMap_nil, List.cons_append,
    List.nil_append, List.mem_cons, List.not_mem_nil]
  tauto

end ExActor
