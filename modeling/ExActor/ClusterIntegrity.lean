/-
**Requests and their replies.**

`SendRequest` takes for its reply whatever two-way message arrives with its node as the requester
and its id.  That this is the answer to the request is a matter of the whole cluster: a request is
handled by the node it names, at most once, because its message is a token that is spent when it is
handled; an answer goes back once, at once or after its requester was discovered again; and the ids
of a node are never given away twice, so the request that an answer meets is the one it answers,
whatever was lost and discovered in between.

There is one way to break this.  A two-way message is taken for a reply by the id of its requester
alone.  A node that was launched at the address of a dead one may be told of its predecessor,
connect to it, and so to itself, and send it a request; the request comes back and completes itself.

Main definitions:

* `Cluster.history` — what a node contributes to the history;
* `NotReturned` — the step does not deliver a message to the node it comes from;
* `Cluster.Flow` — the messages in flight are requests, each a token, and replies.

Main results:

* `Cluster.flow_of_exec` — `Cluster.Flow` holds in every run without returned messages;
* `Cluster.integrity_of_exec`, `request_response_integrity` — **a request that returns, returns the
  answer to it**, and
  `returned_request_completes`, a run in which one does not.
-/

import ExActor.BrokerTraffic
import ExActor.ClusterStep
import ExActor.Tokens
import Mathlib.Data.List.Flatten

set_option relaxedAutoImplicit false
set_option autoImplicit false

namespace ExActor

/-! ### The history of a node -/

/-- What identifies a request. -/
def BrokerTwoWayMessage.key (msg : BrokerTwoWayMessage) : NodeId × RequestId :=
  (msg.requestNodeId, msg.requestId)

/-- The message goes from one of the nodes to the other. -/
def BrokerMessage.Between (nodeId nodeId' : NodeId) : BrokerMessage → Prop
  | .gossip _ => False
  | .twoWay msg => msg.requestNodeId = nodeId ∧ msg.responseNodeId = nodeId' ∨
      msg.requestNodeId = nodeId' ∧ msg.responseNodeId = nodeId

instance (nodeId nodeId' : NodeId) (msg : BrokerMessage) :
    Decidable (msg.Between nodeId nodeId') :=
  match msg with
  | .gossip _ => isFalse id
  | .twoWay _ => inferInstanceAs (Decidable (_ ∨ _))

/-- If the step delivers a two-way message to one of its two nodes, the other one has another
address. -/
def NotReturned (c : Cluster) : ClusterAction → Prop
  | .deliver j i => ∀ s ∈ c.inFlight[j]?, ∀ p ∈ c.processes[i]?, ∀ q ∈ c.processes,
      q.broker.thisNodeId ≠ p.broker.thisNodeId →
        s.msg.Between p.broker.thisNodeId q.broker.thisNodeId →
          q.broker.clusterConfig.listenAddress ≠ p.broker.clusterConfig.listenAddress
  | _ => True

instance (c : Cluster) (a : ClusterAction) : Decidable (NotReturned c a) :=
  match a with
  | .deliver j i => inferInstanceAs (Decidable (∀ s ∈ c.inFlight[j]?, ∀ p ∈ c.processes[i]?, _))
  | .launch .. | .crash _ | .lose _ | .process .. => isTrue trivial

namespace Cluster

open Process (requests handlerRuns answers repliesReceived resumptions calls)

variable {β : Type} {tr : List (Cluster × ClusterAction)} {c c' : Cluster} {a : ClusterAction}
  {p p' : Process} {act : BrokerAction} {sent : List Sent}

/-- What a node contributes to the history. -/
def history (f : Process → BrokerAction → List β) (nodeId : NodeId)
    (tr : List (Cluster × ClusterAction)) : List β := Process.history f (steps nodeId tr)

/-- The history only grows. -/
theorem mem_history_append {f : Process → BrokerAction → List β} {nodeId : NodeId} {r : β}
    (h : r ∈ history f nodeId tr) (tr' : List (Cluster × ClusterAction)) :
    r ∈ history f nodeId (tr ++ tr') := by
  rw [history, steps_append, Process.history_append]
  exact List.mem_append_left _ h

theorem history_of_acting_none (h : c.acting a = none) (f : Process → BrokerAction → List β)
    (nodeId : NodeId) : history f nodeId (tr ++ [(c, a)]) = history f nodeId tr := by
  rw [history, steps_of_acting_none h, history]

theorem history_of_acting (h : c.acting a = some (p, act)) (f : Process → BrokerAction → List β) :
    history f p.broker.thisNodeId (tr ++ [(c, a)])
      = history f p.broker.thisNodeId tr ++ f p act := by
  rw [history, steps_self_of_acting h, Process.history_append, Process.history_singleton, history]

/-- The history of a node is one of a broker by itself. -/
theorem exists_run (h : machine.Exec tr c) (nodeId : NodeId) :
    ∃ tr' p, Process.machine.Exec tr' p ∧ ∀ (β : Type) (f : Process → BrokerAction → List β),
      (∀ q, f q .start = []) → Process.history f tr' = history f nodeId tr := by
  by_cases hlaunched : ∃ p ∈ c.processes, p.broker.thisNodeId = nodeId
  · obtain ⟨p, hp, rfl⟩ := hlaunched
    obtain ⟨p₀, q, hex, -⟩ := runs_of_exec h p hp
    refine ⟨_, q, hex, fun β f hf => ?_⟩
    rw [Process.history, List.flatMap_cons, hf, List.nil_append, history, Process.history]
  · -- a node that was not launched has the history of any broker that has done nothing
    refine ⟨[], _, .init Process.init_first, fun β f _ => ?_⟩
    rw [history, steps_eq_nil h fun p hp hid => hlaunched ⟨p, hp, hid⟩]

/-! ### Requests and replies in flight -/

/-- The node was launched at the address. -/
def Listens (c : Cluster) (nodeId : NodeId) (address : String) : Prop :=
  ∃ nodeName, (nodeId, address, nodeName) ∈ c.identities

/-- The message is a request that was sent to the node it names. -/
def CarriesRequest (tr : List (Cluster × ClusterAction)) (c : Cluster) (s : Sent)
    (key : NodeId × RequestId) : Prop :=
  ∃ msg, s.msg = .twoWay msg ∧ msg.key = key ∧ msg.responseNodeId ≠ msg.requestNodeId ∧
    msg ∈ history requests msg.requestNodeId tr ∧ c.Listens msg.responseNodeId s.address

/-- If the message is two-way, it is an answer that was sent to the requester. -/
def CarriesReply (tr : List (Cluster × ClusterAction)) (c : Cluster) (s : Sent) : Prop :=
  ∀ msg, s.msg = .twoWay msg →
    (∃ request, (request, msg.payload) ∈ history answers msg.responseNodeId tr ∧
      request.key = msg.key) ∧ c.Listens msg.requestNodeId s.address

/-- The requests that the run has handed to a request handler. -/
def handled (tr : List (Cluster × ClusterAction)) : List BrokerTwoWayMessage :=
  Process.history handlerRuns (acts tr)

/-- The requests in flight are tokens that are spent when they are handled; what is handled is a
request, and what is received for a reply is an answer. -/
structure Flow (tr : List (Cluster × ClusterAction)) (c : Cluster) : Prop where
  inFlight : SpentOnce (CarriesRequest tr c) (CarriesReply tr c)
    ((handled tr).map (·.key)) c.inFlight
  requested : ∀ msg ∈ handled tr, msg ∈ history requests msg.requestNodeId tr
  answered : ∀ nodeId, ∀ r ∈ history repliesReceived nodeId tr,
    ∃ toNodeId request, (request, r.2) ∈ history answers toNodeId tr ∧
      request.key = (nodeId, r.1)

theorem listens_of_socket (h : c.Consistent) (hp : p ∈ c.processes) {nodeId : NodeId}
    {socket : String} (hsocket : p.broker.nodeIdToSendSocket.lookup nodeId = some socket) :
    c.Listens nodeId socket := by
  obtain ⟨ns, hns, rfl, rfl⟩ := (h.brokers p hp).sockets nodeId socket hsocket
  exact ⟨ns.nodeName, hns⟩

/-- A node that was launched at an address is a process with this address. -/
theorem Listens.exists_process {nodeId : NodeId} {address : String} (h : c.Listens nodeId address) :
    ∃ q ∈ c.processes, q.broker.thisNodeId = nodeId ∧
      q.broker.clusterConfig.listenAddress = address := by
  obtain ⟨nodeName, hmem⟩ := h
  obtain ⟨q, hq, hidentity⟩ := List.mem_map.1 hmem
  simp only [Process.identity, Prod.mk.injEq] at hidentity
  exact ⟨q, hq, hidentity.1, hidentity.2.1⟩

theorem CarriesRequest.next (hex : machine.Exec tr c) (hn : machine.next c a = some c') {s : Sent}
    {key : NodeId × RequestId} (h : CarriesRequest tr c s key) :
    CarriesRequest (tr ++ [(c, a)]) c' s key := by
  obtain ⟨msg, hmsg, hkey, hother, hsent, nodeName, hmem⟩ := h
  exact ⟨msg, hmsg, hkey, hother, mem_history_append hsent _, nodeName,
    identities_subset hex hn hmem⟩

theorem CarriesReply.next (hex : machine.Exec tr c) (hn : machine.next c a = some c') {s : Sent}
    (h : CarriesReply tr c s) : CarriesReply (tr ++ [(c, a)]) c' s := by
  intro msg hmsg
  obtain ⟨⟨request, hanswer, hkey⟩, nodeName, hmem⟩ := h msg hmsg
  exact ⟨⟨request, mem_history_append hanswer _, hkey⟩, nodeName, identities_subset hex hn hmem⟩

/-! ### What one step preserves -/

/-- What is handled in a step is added. -/
theorem handled_of_acting (h : c.acting a = some (p, act)) :
    handled (tr ++ [(c, a)]) = handled tr ++ p.handlerRuns act := by
  rw [handled, acts_of_acting h, Process.history_append, Process.history_singleton, handled]

/-- The brokers of a run with fewer than 2⁶⁴ calls number their requests. -/
theorem Runs.numbered (h : Runs tr p) (hrunning : p.status = .running)
    (hcalls : (history calls p.broker.thisNodeId tr).length < 2 ^ 64) :
    ∃ tr', Process.machine.Exec tr' p ∧ Process.Numbered tr' p ∧
      history requests p.broker.thisNodeId tr = Process.history requests tr' ∧
      history answers p.broker.thisNodeId tr = Process.history answers tr' := by
  obtain ⟨p₀, q, hex, -, -, heq⟩ := h
  obtain rfl := heq hrunning
  exact ⟨_, hex, Process.numbered_of_exec hex hcalls, rfl, rfl⟩

/-- All that a step sends is its request, with a new id, or replies. -/
theorem spentOnce_send (hex : machine.Exec tr c) (hn : machine.next c a = some c')
    (hcalls : (history calls p.broker.thisNodeId tr).length < 2 ^ 64)
    (hacting : c.acting a = some (p, act)) (hp : p ∈ c.processes) (hp' : p' ∈ c'.processes)
    (hrunning : p.status = .running) (ha : p.react act = some (p', sent)) {msgs : List Sent}
    (hrequested : ∀ msg ∈ handled tr ++ p.handlerRuns act,
      msg ∈ history requests msg.requestNodeId tr)
    (hmsgs : SpentOnce (CarriesRequest tr c) (CarriesReply tr c)
      ((handled tr ++ p.handlerRuns act).map (·.key)) msgs) :
    SpentOnce (CarriesRequest (tr ++ [(c, a)]) c') (CarriesReply (tr ++ [(c, a)]) c')
      ((handled tr ++ p.handlerRuns act).map (·.key)) (msgs ++ sent) := by
  obtain ⟨tr', hrun, hnumbered, hrequests, hanswers⟩ :=
    (runs_of_exec hex p hp).numbered hrunning hcalls
  have hconsistent' := ((consistent_of_exec hex).next hn).1
  have hthis := (Process.changes_of_react ha).thisNodeId
  rcases Process.requests_of_react hnumbered.free ha with
    hnone | ⟨toNodeId, data, socket, hone, rfl, hother, hsocket, hcounter, rfl⟩
  · -- all that is two-way is a reply
    refine (hmsgs.mono (fun _ _ => CarriesRequest.next hex hn)
      (fun _ => CarriesReply.next hex hn)).sendPlain fun s hs msg hmsg => ?_
    have hfrom := Process.responseNodeId_of_sent hnumbered.free ha hnone hs hmsg
    have hreply : s.reply p.broker.thisNodeId
        = some ⟨msg.requestNodeId, msg.requestId, msg.payload⟩ := by
      simp [Sent.reply, hmsg, hfrom]
    have hnext : Process.machine.next p act = some p' :=
      Option.map_eq_some_iff.2 ⟨(p', sent), ha, rfl⟩
    have hsends : s ∈ p.sends act := by simpa [Process.sends, ha] using hs
    obtain ⟨request, hanswer, hnode, hid⟩ := Process.answer_of_sent hrun hnext hsends hreply
    refine ⟨⟨request, ?_, Prod.ext hnode hid⟩, ?_⟩
    · rw [hfrom, history_of_acting hacting, hanswers]
      simpa using hanswer
    · -- the reply went to the socket of the requester
      have haddressed := Process.addressed_of_react (Process.deferring_of_exec hrun) ha s hs
        ⟨msg.requestNodeId, msg.requestId, msg.payload⟩ (by rw [hthis]; exact hreply)
      exact listens_of_socket hconsistent' hp' haddressed
  · -- the id is above all that the node has given away, so nothing carries this token yet
    have hfresh : ∀ msg : BrokerTwoWayMessage, msg ∈ history requests msg.requestNodeId tr →
        msg.key ≠ (p.broker.thisNodeId, p.broker.sendRequestIdCounter) := by
      intro msg hmsg hkey
      obtain ⟨hnode, hid⟩ := Prod.mk.inj hkey
      rw [hnode, hrequests] at hmsg
      have hlt := (hnumbered.sent msg hmsg).2
      rw [hid] at hlt
      exact BitVec.lt_irrefl _ hlt
    refine (hmsgs.mono (fun _ _ h => h) (fun _ => CarriesReply.next hex hn)).send
      (fun _ _ => CarriesRequest.next hex hn) ⟨_, rfl, rfl, hother, ?_, ?_⟩ ?_ ?_
    · rw [history_of_acting hacting, hone]
      exact List.mem_append_right _ (List.mem_singleton_self _)
    · obtain ⟨nodeName, hmem⟩ := listens_of_socket (consistent_of_exec hex) hp hsocket
      exact ⟨nodeName, identities_subset hex hn hmem⟩
    · rintro s ⟨msg, -, hkey, -, hmsg, -⟩
      exact hfresh msg hmsg hkey
    · intro hspent
      obtain ⟨msg, hmsg, hkey⟩ := List.mem_map.1 hspent
      exact hfresh msg (hrequested msg hmsg) hkey

/-- **The step lemma for a broker that does something**: what it handles was requested, and what it
receives for a reply was answered. -/
theorem Flow.acted (h : Flow tr c) (hex : machine.Exec tr c) (hn : machine.next c a = some c')
    (hcalls : (history calls p.broker.thisNodeId tr).length < 2 ^ 64)
    (hacting : c.acting a = some (p, act)) (hp : p ∈ c.processes) (hp' : p' ∈ c'.processes)
    (hrunning : p.status = .running) (ha : p.react act = some (p', sent)) {msgs : List Sent}
    (hinFlight : c'.inFlight = msgs ++ sent)
    (hrequested : ∀ msg ∈ p.handlerRuns act, msg ∈ history requests msg.requestNodeId tr)
    (hanswered : ∀ r ∈ p.repliesReceived act, ∃ toNodeId request,
      (request, r.2) ∈ history answers toNodeId tr ∧
        request.key = (p.broker.thisNodeId, r.1))
    (hmsgs : SpentOnce (CarriesRequest tr c) (CarriesReply tr c)
      ((handled tr ++ p.handlerRuns act).map (·.key)) msgs) :
    Flow (tr ++ [(c, a)]) c' := by
  have hall : ∀ msg ∈ handled tr ++ p.handlerRuns act,
      msg ∈ history requests msg.requestNodeId tr := by
    intro msg hmsg
    rcases List.mem_append.1 hmsg with hmsg | hmsg
    · exact h.requested msg hmsg
    · exact hrequested msg hmsg
  refine ⟨?_, fun msg hmsg => ?_, fun nodeId r hr => ?_⟩
  · rw [hinFlight, handled_of_acting hacting]
    exact spentOnce_send hex hn hcalls hacting hp hp' hrunning ha hall hmsgs
  · rw [handled_of_acting hacting] at hmsg
    exact mem_history_append (hall msg hmsg) _
  · have hold : (∃ toNodeId request, (request, r.2) ∈ history answers toNodeId tr ∧
        request.key = (nodeId, r.1)) := by
      by_cases hnode : nodeId = p.broker.thisNodeId
      · subst hnode
        rw [history_of_acting hacting] at hr
        rcases List.mem_append.1 hr with hr | hr
        · exact h.answered _ r hr
        · exact hanswered r hr
      · rw [history, steps_of_acting_ne hacting hnode] at hr
        exact h.answered nodeId r hr
    obtain ⟨toNodeId, request, hanswer, hkey⟩ := hold
    exact ⟨toNodeId, request, mem_history_append hanswer _, hkey⟩

/-- **The step lemma for a delivery**: a message that is not returned to where it comes from is a
request that is handled, or a reply. -/
theorem Flow.delivered (h : Flow tr c) {j i : ℕ} {s : Sent}
    (hs : c.inFlight[j]? = some s) (hp : c.processes[i]? = some p)
    (haddress : p.broker.clusterConfig.listenAddress = s.address)
    (hreturned : NotReturned c (.deliver j i)) :
    (∀ msg ∈ p.handlerRuns (.receive s.msg), msg ∈ history requests msg.requestNodeId tr) ∧
      (∀ r ∈ p.repliesReceived (.receive s.msg), ∃ toNodeId request,
        (request, r.2) ∈ history answers toNodeId tr ∧
          request.key = (p.broker.thisNodeId, r.1)) ∧
      SpentOnce (CarriesRequest tr c) (CarriesReply tr c)
        ((handled tr ++ p.handlerRuns (.receive s.msg)).map (·.key)) (c.inFlight.eraseIdx j) := by
  -- the other node of the message does not listen here
  have hother : ∀ nodeId, nodeId ≠ p.broker.thisNodeId →
      s.msg.Between p.broker.thisNodeId nodeId → ¬ c.Listens nodeId s.address := by
    intro nodeId hne hbetween hlistens
    obtain ⟨q, hq, rfl, hlisten⟩ := hlistens.exists_process
    exact hreturned s hs p hp q hq hne hbetween (hlisten.trans haddress.symm)
  rcases h.inFlight.deliver hs with
    ⟨key, ⟨msg, hmsg, rfl, hne, hsent, hlistens⟩, hspent⟩ | ⟨hreply, hplain⟩
  · -- a request was sent to the other node, so this is not the requester and takes it for no reply
    have hnotMine : msg.requestNodeId ≠ p.broker.thisNodeId := by
      intro hthis
      refine hother msg.responseNodeId (hthis ▸ hne) ?_ hlistens
      rw [hmsg]
      exact Or.inl ⟨hthis, rfl⟩
    have hruns : ∀ m ∈ p.handlerRuns (.receive s.msg),
        m = msg ∧ p.handlerRuns (.receive s.msg) = [msg] := by
      intro m hm
      obtain ⟨heq, -, -, hone⟩ := Process.handlerRuns_cases hm
      rw [hmsg] at heq
      obtain rfl := BrokerMessage.twoWay.inj (BrokerAction.receive.inj heq)
      exact ⟨rfl, hone⟩
    refine ⟨fun m hm => ?_, fun r hr => ?_, ?_⟩
    · obtain ⟨rfl, -⟩ := hruns m hm
      exact hsent
    · obtain ⟨m, hm, hthis, -⟩ := Process.repliesReceived_cases hr
      obtain rfl := BrokerMessage.twoWay.inj (hmsg.symm.trans (BrokerAction.receive.inj hm))
      exact absurd hthis hnotMine
    · rcases hlist : p.handlerRuns (.receive s.msg) with _ | ⟨m, rest⟩
      · rw [List.append_nil]
        exact hspent.unspent
      · rw [← hlist, (hruns m (by simp [hlist])).2, List.map_append]
        exact hspent
  · -- a reply was sent to the requester, so this is not the other node and does not handle it
    have hruns : p.handlerRuns (.receive s.msg) = [] := by
      refine List.eq_nil_iff_forall_not_mem.2 fun msg hm => ?_
      obtain ⟨heq, hne, hthis, -⟩ := Process.handlerRuns_cases hm
      have hmsg := BrokerAction.receive.inj heq
      refine hother msg.requestNodeId hne ?_ (hreply msg hmsg).2
      rw [hmsg]
      exact Or.inr ⟨rfl, hthis⟩
    refine ⟨by simp [hruns], fun r hr => ?_, ?_⟩
    · obtain ⟨msg, hmsg, hthis, rfl⟩ := Process.repliesReceived_cases hr
      obtain ⟨⟨request, hanswer, hkey⟩, -⟩ := hreply msg (BrokerAction.receive.inj hmsg)
      refine ⟨msg.responseNodeId, request, hanswer, ?_⟩
      rw [hkey, BrokerTwoWayMessage.key, hthis]
    · rw [hruns, List.append_nil]
      exact hplain

/-- The step lemma for a step in which no broker does anything. -/
theorem Flow.idle (h : Flow tr c) (hex : machine.Exec tr c) (hn : machine.next c a = some c')
    (hacting : c.acting a = none)
    (hmsgs : SpentOnce (CarriesRequest tr c) (CarriesReply tr c) ((handled tr).map (·.key))
      c'.inFlight) : Flow (tr ++ [(c, a)]) c' := by
  have hhandled : handled (tr ++ [(c, a)]) = handled tr := by
    rw [handled, acts_of_acting_none hacting, handled]
  refine ⟨?_, fun msg hmsg => ?_, fun nodeId r hr => ?_⟩
  · rw [hhandled]
    exact hmsgs.mono (fun _ _ => CarriesRequest.next hex hn) fun _ => CarriesReply.next hex hn
  · rw [hhandled] at hmsg
    exact mem_history_append (h.requested msg hmsg) _
  · rw [history_of_acting_none hacting] at hr
    obtain ⟨toNodeId, request, hanswer, hkey⟩ := h.answered nodeId r hr
    exact ⟨toNodeId, request, mem_history_append hanswer _, hkey⟩

/-- **Every step keeps the requests and replies in their flow**, if it returns no message. -/
theorem Flow.next (h : Flow tr c) (hex : machine.Exec tr c) (hn : machine.next c a = some c')
    (hcalls : ∀ nodeId, (history calls nodeId tr).length < 2 ^ 64) (hreturned : NotReturned c a) :
    Flow (tr ++ [(c, a)]) c' := by
  cases step_of_next hn with
  | launched nodeId config now b hfresh hb => exact h.idle hex hn rfl h.inFlight
  | crashed i p hp => exact h.idle hex hn rfl h.inFlight
  | lost j => exact h.idle hex hn rfl (h.inFlight.lose j)
  | delivered j i s p p' sent hs hp hrunning haddress ha =>
      have hacting : c.acting (.deliver j i) = some (p, .receive s.msg) := by
        simp [acting, hs, hp]
      have hi := (List.getElem?_eq_some_iff.1 hp).1
      obtain ⟨hrequested, hanswered, hmsgs⟩ := h.delivered hs hp haddress hreturned
      exact h.acted hex hn (hcalls _) hacting (List.mem_of_getElem? hp)
        (List.mem_set hi p') hrunning ha rfl hrequested hanswered hmsgs
  | acted i act p p' sent hp hrunning ha =>
      have hacting : c.acting (.process i act) = some (p, .process act) := by simp [acting, hp]
      have hi := (List.getElem?_eq_some_iff.1 hp).1
      refine h.acted hex hn (hcalls _) hacting (List.mem_of_getElem? hp)
        (List.mem_set hi p') hrunning ha rfl ?_ ?_ ?_
      · simp [Process.handlerRuns]
      · simp [Process.repliesReceived]
      · simpa [Process.handlerRuns] using h.inFlight

/-- The run lemma. -/
theorem flow_of_exec (h : machine.Exec tr c) (hreturned : Machine.Meets NotReturned tr)
    (hcalls : ∀ nodeId, (history calls nodeId tr).length < 2 ^ 64) : Flow tr c := by
  induction h with
  | init h0 =>
      obtain rfl := h0
      exact ⟨.nil, by simp [handled, acts], by simp [history, steps, acts]⟩
  | @step tr c c' a hex hn ih =>
      rw [Machine.meets_append, Machine.meets_singleton] at hreturned
      have hbefore : ∀ nodeId, (history calls nodeId tr).length < 2 ^ 64 := by
        intro nodeId
        have hnow := hcalls nodeId
        rw [history, steps_append, Process.history_append, List.length_append] at hnow
        exact lt_of_le_of_lt (Nat.le_add_right ..) hnow
      exact (ih hreturned.1 hbefore).next hex hn hbefore hreturned.2

/-! ### Integrity -/

/-- The request that the resumption completes with a payload. -/
def completion (r : RequestId × Outcome) : Option (RequestId × ByteBuffer) :=
  match r.2 with
  | .ok payload => some (r.1, payload)
  | .error _ => none

theorem mem_filterMap_completion {l : List (RequestId × Outcome)} {r : RequestId × ByteBuffer} :
    r ∈ l.filterMap completion ↔ (r.1, .ok r.2) ∈ l := by
  simp only [List.mem_filterMap]
  constructor
  · rintro ⟨⟨requestId, outcome⟩, hmem, hr⟩
    cases outcome with
    | ok payload =>
        obtain rfl := Option.some.inj hr
        exact hmem
    | error e => simp [completion] at hr
  · intro hmem
    exact ⟨_, hmem, rfl⟩

theorem nodup_filterMap_completion {l : List (RequestId × Outcome)}
    (h : (l.map Prod.fst).Nodup) : (l.filterMap completion).Nodup := by
  refine (List.Nodup.of_map Prod.fst h).filterMap ?_
  rintro ⟨requestId, outcome⟩ ⟨requestId', outcome'⟩ r hr hr'
  cases outcome with
  | error e => simp [completion] at hr
  | ok payload =>
      cases outcome' with
      | error e => simp [completion] at hr'
      | ok payload' =>
          obtain rfl := Option.some.inj hr
          obtain ⟨rfl, rfl⟩ := Prod.mk.inj (Option.some.inj hr')
          rfl

/-- Requests and their replies correspond: what a request returns is what the handler of the node it
was sent to has answered to it, no reply completes two requests, every request resumes at most once,
and the handler gets it at most once and answers at most once. -/
structure Integrity (tr : List (Cluster × ClusterAction)) : Prop where
  numbered : ∀ nodeId, ((history requests nodeId tr).map (·.requestId)).Nodup
  returned : ∀ nodeId requestId payload,
    (requestId, .ok payload) ∈ history resumptions nodeId tr → ∃ toNodeId data,
      ⟨nodeId, toNodeId, requestId, data⟩ ∈ history requests nodeId tr ∧
      ⟨nodeId, toNodeId, requestId, data⟩ ∈ history handlerRuns toNodeId tr ∧
      (⟨nodeId, toNodeId, requestId, data⟩, payload) ∈ history answers toNodeId tr
  replies : ∀ nodeId, ((history resumptions nodeId tr).filterMap completion).Subperm
    (history repliesReceived nodeId tr)
  resumedOnce : ∀ nodeId, ((history resumptions nodeId tr).map Prod.fst).Nodup
  handledOnce : ((handled tr).map (·.key)).Nodup
  answeredOnce : ∀ nodeId, ((history answers nodeId tr).map (·.1.key)).Nodup

/-- What a node has handled is among all that was handled. -/
theorem handlerRuns_sublist (nodeId : NodeId) (tr : List (Cluster × ClusterAction)) :
    (history handlerRuns nodeId tr).Sublist (handled tr) :=
  List.filter_sublist.flatMap _

/-- A node answers requests that name it and that its handler got, each at most once. -/
theorem answered_of_exec (h : machine.Exec tr c) (nodeId : NodeId) :
    (((history answers nodeId tr).map Prod.fst).Subperm (history handlerRuns nodeId tr)) ∧
      ∀ msg ∈ history handlerRuns nodeId tr, msg.responseNodeId = nodeId := by
  constructor
  · obtain ⟨tr', p, hrun, hhistory⟩ := exists_run h nodeId
    rw [← hhistory _ answers fun _ => rfl, ← hhistory _ handlerRuns fun _ => rfl]
    exact (List.sublist_append_right ..).subperm.trans (Process.handling_of_exec hrun).subperm
  · intro msg hmsg
    obtain ⟨s, hs, hruns⟩ := List.mem_flatMap.1 hmsg
    obtain ⟨-, -, hthis, -⟩ := Process.handlerRuns_cases hruns
    rw [hthis]
    simpa using (List.mem_filter.1 hs).2

/-- Requests and replies correspond in every run that returns no message. -/
theorem integrity_of_exec (h : machine.Exec tr c)
    (hcalls : ∀ nodeId, (history calls nodeId tr).length < 2 ^ 64)
    (hreturned : Machine.Meets NotReturned tr) : Integrity tr := by
  have hflow := flow_of_exec h hreturned hcalls
  -- what each node knows by itself
  have hnumbered : ∀ nodeId,
      ((history requests nodeId tr).map (·.requestId)).Nodup ∧
      ((history resumptions nodeId tr).map Prod.fst).Nodup ∧
      ∀ requestId payload,
        (requestId, .ok payload) ∈ history resumptions nodeId tr →
          (requestId, payload) ∈ history repliesReceived nodeId tr := by
    intro nodeId
    obtain ⟨tr', p, hrun, hhistory⟩ := exists_run h nodeId
    have hless := hcalls nodeId
    rw [← hhistory _ calls fun _ => rfl] at hless
    have hlocal := Process.numbered_of_exec hrun hless
    rw [← hhistory _ requests fun _ => rfl, ← hhistory _ resumptions fun _ => rfl,
      ← hhistory _ repliesReceived fun _ => rfl]
    exact ⟨hlocal.sentOnce, hlocal.resumedOnce, (Process.replied_of_exec hrun).resumed⟩
  refine ⟨fun nodeId => (hnumbered nodeId).1, fun nodeId requestId payload hmem => ?_,
    fun nodeId => ?_, fun nodeId => (hnumbered nodeId).2.1, hflow.inFlight.nodup, fun nodeId => ?_⟩
  · -- from the resumption to the reply, the answer, the request that was handled, and back
    have hreceived := (hnumbered nodeId).2.2 requestId payload hmem
    obtain ⟨toNodeId, ⟨_, handler, _, data⟩, hanswer, hkey⟩ := hflow.answered nodeId _ hreceived
    obtain ⟨rfl, rfl⟩ := Prod.mk.inj hkey
    obtain ⟨hsub, hnode⟩ := answered_of_exec h toNodeId
    have hruns := hsub.subset (List.mem_map_of_mem (f := Prod.fst) hanswer)
    obtain rfl : handler = toNodeId := hnode _ hruns
    have hrequested := hflow.requested _ ((handlerRuns_sublist handler tr).subset hruns)
    exact ⟨handler, data, hrequested, hruns, hanswer⟩
  · refine List.subperm_of_subset
      (nodup_filterMap_completion (hnumbered nodeId).2.1) fun r hr => ?_
    exact (hnumbered nodeId).2.2 _ _ (mem_filterMap_completion.1 hr)
  · obtain ⟨⟨l, hperm, hsub⟩, -⟩ := answered_of_exec h nodeId
    have hsub := (hsub.trans (handlerRuns_sublist nodeId tr)).map (·.key)
    have hkeys := (hperm.map (·.key)).nodup (hflow.inFlight.nodup.sublist hsub)
    rwa [List.map_map] at hkeys

/-- A node does not call more often than all nodes together. -/
theorem calls_lt_of_acts (h : (Process.history calls (acts tr)).length < 2 ^ 64) (nodeId : NodeId) :
    (history calls nodeId tr).length < 2 ^ 64 :=
  lt_of_le_of_lt ((List.filter_sublist (l := acts tr)).flatMap _).length_le h

end Cluster

/-- While no address is used twice, the nodes of a message have different addresses. -/
theorem notReturned_of_freshAddress {tr : List (Cluster × ClusterAction)} {c : Cluster}
    (h : Cluster.machine.Exec tr c) (hF : Machine.Meets FreshAddress tr) :
    Machine.Meets NotReturned tr := by
  rintro ⟨t, a⟩ hmem
  obtain ⟨tr₁, tr₂, rfl⟩ := List.append_of_mem hmem
  have hnodup := addresses_nodup_of_exec h.split.1 ((Machine.meets_append ..).1 hF).1
  cases a with
  | deliver j i =>
      intro s _ p hp q hq hne _ haddress
      have hp := List.mem_map_of_mem (f := Process.identity) (List.mem_of_getElem? hp)
      have hq := List.mem_map_of_mem (f := Process.identity) hq
      exact hne (congrArg Prod.fst (List.inj_on_of_nodup_map hnodup hq hp haddress))
  | launch | crash | lose | process => trivial

/-- **Request and response integrity.**  In every run with fewer than 2⁶⁴ calls of `SendRequest` on
each node, requests and their replies correspond if no two-way message is delivered to one of its
two nodes while the other one has the same address; and this is so in every run in which no process
is launched at an address that another process has listened at. -/
theorem request_response_integrity {tr : List (Cluster × ClusterAction)} {c : Cluster}
    (h : Cluster.machine.Exec tr c)
    (hcalls : ∀ nodeId, (Cluster.history Process.calls nodeId tr).length < 2 ^ 64) :
    (Machine.Meets NotReturned tr → Cluster.Integrity tr) ∧
      (Machine.Meets FreshAddress tr → Machine.Meets NotReturned tr) :=
  ⟨Cluster.integrity_of_exec h hcalls, notReturned_of_freshAddress h⟩

/-- Node 1 sends a request to node 2, and returns the answer. -/
theorem request_response_integrity_answered : ∃ tr c, Cluster.machine.Exec tr c ∧
    (0, .ok [7]) ∈ Cluster.history Process.resumptions 1 tr ∧ Cluster.Integrity tr := by
  let L : List ClusterAction := discovery ++ [.process 0 (.sendRequest 2 [5]), .deliver 0 1,
    .process 1 (.resumeHandleIncomingRequest 0 [7]), .deliver 0 0,
    .process 0 (.resumeSendRequest 0)]
  obtain ⟨c, hex, -⟩ := Machine.exists_exec_of_replay (M := Cluster.machine) rfl L
    (fun c => c.inFlight.length) 0 (by decide)
  exact ⟨_, c, hex, by decide,
    (request_response_integrity hex (Cluster.calls_lt_of_acts (by decide))).1 (by decide)⟩

/-- Node 2 crashes, node 3 is launched at its address, is told of node 2 by node 1, and sends it a
request: the request returns its own data, and no handler has seen it. -/
theorem returned_request_completes : ∃ tr c, Cluster.machine.Exec tr c ∧
    (∀ nodeId, (Cluster.history Process.calls nodeId tr).length < 2 ^ 64) ∧
    (0, .ok [5]) ∈ Cluster.history Process.resumptions 3 tr ∧ Cluster.handled tr = [] ∧
    ¬ Cluster.Integrity tr := by
  let L : List ClusterAction := discovery ++ [.crash 1, .launch 3 (clusterConfigOf "tcp://b" "") 0,
    .process 0 (.broadcastGossip 0 [2]), .deliver 0 2, .process 2 (.sendRequest 2 [5]),
    .deliver 1 2, .process 2 (.resumeSendRequest 0)]
  obtain ⟨c, hex, -⟩ := Machine.exists_exec_of_replay (M := Cluster.machine) rfl L
    (fun c => c.inFlight.length) 1 (by decide)
  have hreturned : ((0 : RequestId), (.ok [5] : Outcome)) ∈ Cluster.history Process.resumptions 3
      (Cluster.machine.replayTrace Cluster.initial L) := by decide
  have hhandled : Cluster.handled (Cluster.machine.replayTrace Cluster.initial L) = [] := by decide
  refine ⟨_, c, hex, Cluster.calls_lt_of_acts (by decide), hreturned, hhandled, fun h => ?_⟩
  obtain ⟨toNodeId, data, -, hruns, -⟩ := h.returned 3 0 [5] hreturned
  have hmem := (Cluster.handlerRuns_sublist toNodeId _).subset hruns
  rw [hhandled] at hmem
  simp at hmem

end ExActor
