/-
**What the brokers of a cluster do.**

In each step of a cluster at most one broker does something.  What the broker of a node has done in
a run is therefore a run of this broker by itself: all that holds of every run of a broker holds of
every node of every cluster, and a history of the cluster can be told node by node.

Main definitions:

* `Cluster.Step` — the steps of a cluster;
* `Cluster.acting`, `Cluster.acts`, `Cluster.steps` — what the brokers do, and what that of a node
  does.

Main results:

* `Cluster.step_of_next` — a cluster makes no other steps;
* `Cluster.runs_of_exec` — **every process of a cluster is a broker by itself**.
-/

import ExActor.BrokerStep

set_option relaxedAutoImplicit false
set_option autoImplicit false

namespace ExActor

/-! ### The steps of a cluster -/

namespace Cluster

/-- What one step of a cluster does. -/
inductive Step (c : Cluster) : ClusterAction → Cluster → Prop
  | launched (nodeId : NodeId) (config : ClusterConfig) (now : TimeMs) (b : Broker) :
      (∀ p ∈ c.processes, p.broker.thisNodeId ≠ nodeId) →
      Broker.construct nodeId config now = .ok b →
      Step c (.launch nodeId config now)
        { c with processes := c.processes ++ [⟨b.start, [], .running⟩] }
  | crashed (i : ℕ) (p : Process) : c.processes[i]? = some p →
      Step c (.crash i) ⟨c.processes.set i { p with status := .crashed }, c.inFlight⟩
  | delivered (j i : ℕ) (s : Sent) (p p' : Process) (sent : List Sent) :
      c.inFlight[j]? = some s → c.processes[i]? = some p → p.status = .running →
      p.broker.clusterConfig.listenAddress = s.address →
      p.react (.receive s.msg) = some (p', sent) →
      Step c (.deliver j i) ⟨c.processes.set i p', c.inFlight.eraseIdx j ++ sent⟩
  | lost (j : ℕ) : Step c (.lose j) { c with inFlight := c.inFlight.eraseIdx j }
  | acted (i : ℕ) (act : ProcessAction) (p p' : Process) (sent : List Sent) :
      c.processes[i]? = some p → p.status = .running →
      p.react (.process act) = some (p', sent) →
      Step c (.process i act) ⟨c.processes.set i p', c.inFlight ++ sent⟩

/-- One running process does something. -/
theorem act_eq_some {c c' : Cluster} {i : ℕ} {f : Process → Option (Process × List Sent)}
    (h : c.act i f = some c') : ∃ p p' sent, c.processes[i]? = some p ∧ p.status = .running ∧
      f p = some (p', sent) ∧ c' = ⟨c.processes.set i p', c.inFlight ++ sent⟩ := by
  obtain ⟨p, hp, h⟩ := Option.bind_eq_some_iff.1 h
  split at h
  · next hrunning =>
      obtain ⟨⟨p', sent⟩, hf, rfl⟩ := Option.map_eq_some_iff.1 h
      exact ⟨p, p', sent, hp, hrunning, hf, rfl⟩
  · simp at h

/-- **The steps of a cluster.** -/
theorem step_of_next {c c' : Cluster} {a : ClusterAction} (hn : machine.next c a = some c') :
    Step c a c' := by
  have hn : c.next a = some c' := hn
  cases a with
  | launch nodeId config now =>
      simp only [next] at hn
      split at hn
      · next hfresh =>
          split at hn
          · simp at hn
          · next b hb =>
              obtain rfl := Option.some.inj hn
              exact .launched nodeId config now b hfresh.1 hb
      · simp at hn
  | crash i =>
      obtain ⟨p, p', sent, hp, -, hf, rfl⟩ := act_eq_some hn
      obtain ⟨rfl, rfl⟩ := Prod.mk.inj (Option.some.inj hf)
      rw [List.append_nil]
      exact .crashed i p hp
  | deliver j i =>
      obtain ⟨s, hs, hn⟩ := Option.bind_eq_some_iff.1 hn
      obtain ⟨p, p', sent, hp, hrunning, hf, rfl⟩ := act_eq_some hn
      split at hf
      · next haddress => exact .delivered j i s p p' sent hs hp hrunning haddress hf
      · simp at hf
  | lose j =>
      obtain rfl := Option.some.inj hn
      exact .lost j
  | process i act =>
      obtain ⟨p, p', sent, hp, hrunning, hf, rfl⟩ := act_eq_some hn
      exact .acted i act p p' sent hp hrunning hf

/-! ### What the brokers do -/

/-- The broker that a step runs, and what makes it do something. -/
def acting (c : Cluster) : ClusterAction → Option (Process × BrokerAction)
  | .deliver j i => (c.inFlight[j]?).bind fun s =>
      (c.processes[i]?).map fun p => (p, .receive s.msg)
  | .process i act => (c.processes[i]?).map fun p => (p, .process act)
  | _ => none

/-- What the brokers of a run do. -/
def acts (tr : List (Cluster × ClusterAction)) : List (Process × BrokerAction) :=
  tr.filterMap fun s => s.1.acting s.2

/-- What the broker of a node does in a run. -/
def steps (nodeId : NodeId) (tr : List (Cluster × ClusterAction)) : List (Process × BrokerAction) :=
  (acts tr).filter fun s => s.1.broker.thisNodeId = nodeId

variable {tr : List (Cluster × ClusterAction)} {c c' : Cluster} {a : ClusterAction} {p : Process}

theorem steps_append (nodeId : NodeId) (tr tr' : List (Cluster × ClusterAction)) :
    steps nodeId (tr ++ tr') = steps nodeId tr ++ steps nodeId tr' := by
  rw [steps, acts, List.filterMap_append, List.filter_append]
  rfl

theorem acts_of_acting_none (h : c.acting a = none) : acts (tr ++ [(c, a)]) = acts tr := by
  simp [acts, h]

theorem acts_of_acting {act : BrokerAction} (h : c.acting a = some (p, act)) :
    acts (tr ++ [(c, a)]) = acts tr ++ [(p, act)] := by
  simp [acts, h]

theorem steps_of_acting_none (h : c.acting a = none) (nodeId : NodeId) :
    steps nodeId (tr ++ [(c, a)]) = steps nodeId tr := by
  rw [steps, acts_of_acting_none h, steps]

theorem steps_self_of_acting {act : BrokerAction} (h : c.acting a = some (p, act)) :
    steps p.broker.thisNodeId (tr ++ [(c, a)])
      = steps p.broker.thisNodeId tr ++ [(p, act)] := by
  rw [steps, acts_of_acting h, List.filter_append, steps]
  simp

theorem steps_of_acting_ne {act : BrokerAction} (h : c.acting a = some (p, act)) {nodeId : NodeId}
    (hne : nodeId ≠ p.broker.thisNodeId) :
    steps nodeId (tr ++ [(c, a)]) = steps nodeId tr := by
  rw [steps, acts_of_acting h, List.filter_append, steps]
  simp [hne.symm]

/-- No node is forgotten. -/
theorem identities_subset (h : machine.Exec tr c) (hn : machine.next c a = some c') :
    c.identities ⊆ c'.identities := by
  rcases ((consistent_of_exec h).next hn).2 with hids | ⟨nodeId, config, now, -, hids⟩
  · rw [hids]
    exact List.Subset.refl _
  · rw [hids]
    exact List.subset_append_left ..

/-- What was done was done by nodes of the cluster. -/
theorem identity_of_mem_acts (h : machine.Exec tr c) :
    ∀ s ∈ acts tr, s.1.identity ∈ c.identities := by
  induction h with
  | init _ => simp [acts]
  | @step tr c c' a hex hn ih =>
      intro s hs
      rw [acts, List.filterMap_append] at hs
      rcases List.mem_append.1 hs with hs | hs
      · exact identities_subset hex hn (ih s hs)
      · have hacting : c.acting a = some s := by simpa using hs
        have hmem : s.1 ∈ c.processes := by
          cases a with
          | deliver j i =>
              obtain ⟨msg, -, hs⟩ := Option.bind_eq_some_iff.1 hacting
              obtain ⟨p, hp, rfl⟩ := Option.map_eq_some_iff.1 hs
              exact List.mem_of_getElem? hp
          | process i act =>
              obtain ⟨p, hp, rfl⟩ := Option.map_eq_some_iff.1 hacting
              exact List.mem_of_getElem? hp
          | launch | crash | lose => simp [acting] at hacting
        exact identities_subset hex hn (List.mem_map_of_mem hmem)

/-- A node that was not launched has done nothing. -/
theorem steps_eq_nil (h : machine.Exec tr c) {nodeId : NodeId}
    (hfresh : ∀ p ∈ c.processes, p.broker.thisNodeId ≠ nodeId) : steps nodeId tr = [] := by
  refine List.filter_eq_nil_iff.2 fun s hs => ?_
  obtain ⟨p, hp, hidentity⟩ := List.mem_map.1 (identity_of_mem_acts h s hs)
  have hid : p.broker.thisNodeId = s.1.broker.thisNodeId := congrArg Prod.fst hidentity
  simpa [← hid] using hfresh p hp

/-! ### The processes of a cluster -/

/-- The other processes have other ids. -/
theorem Consistent.mem_set (h : c.Consistent) {i : ℕ} (hp : c.processes[i]? = some p)
    {p' q : Process} (hq : q ∈ c.processes.set i p') :
    q = p' ∨ q ∈ c.processes ∧ q.broker.thisNodeId ≠ p.broker.thisNodeId := by
  obtain ⟨hi, rfl⟩ := List.getElem?_eq_some_iff.1 hp
  obtain ⟨k, hk, rfl⟩ := List.mem_iff_getElem.1 hq
  rw [List.length_set] at hk
  by_cases hki : i = k
  · subst hki
    exact Or.inl (List.getElem_set_self _)
  · rw [List.getElem_set_ne hki]
    refine Or.inr ⟨List.getElem_mem hk, fun hid => hki ?_⟩
    have hi' : i < (c.identities.map Prod.fst).length := by simpa [identities] using hi
    have hk' : k < (c.identities.map Prod.fst).length := by simpa [identities] using hk
    have hsame : (c.identities.map Prod.fst)[i] = (c.identities.map Prod.fst)[k] := by
      simpa [identities, Process.identity] using hid.symm
    exact h.ids.getElem_inj_iff.1 hsame

/-- The process runs as the broker of its node does by itself, until it crashes or terminates. -/
def Runs (tr : List (Cluster × ClusterAction)) (p : Process) : Prop :=
  ∃ p₀ q, Process.machine.Exec ((p₀, .start) :: steps p.broker.thisNodeId tr) q ∧
    q.broker = p.broker ∧ q.handling = p.handling ∧ (p.status = .running → q = p)

/-- The step lemma for the process that does something. -/
theorem Runs.act (h : Runs tr p) (hrunning : p.status = .running) {act : BrokerAction}
    (hacting : c.acting a = some (p, act)) {p' : Process} {sent : List Sent}
    (ha : p.react act = some (p', sent)) : Runs (tr ++ [(c, a)]) p' := by
  obtain ⟨p₀, q, hex, -, -, heq⟩ := h
  obtain rfl := heq hrunning
  have hthis := (Process.changes_of_react ha).thisNodeId
  have hn : Process.machine.next q act = some p' := Option.map_eq_some_iff.2 ⟨(p', sent), ha, rfl⟩
  refine ⟨p₀, p', ?_, rfl, rfl, fun _ => rfl⟩
  rw [hthis, steps_self_of_acting hacting]
  exact hex.step hn

/-- **Every process of a cluster is a broker by itself**: it has done what the steps of its node
are. -/
theorem runs_of_exec (h : machine.Exec tr c) : ∀ p ∈ c.processes, Runs tr p := by
  induction h with
  | init h0 =>
      obtain rfl := h0
      simp [initial]
  | @step tr c c' a hex hn ih =>
      have hconsistent := consistent_of_exec hex
      -- the processes that do nothing
      have hother : ∀ {p : Process} {act : BrokerAction}, c.acting a = some (p, act) →
          ∀ q ∈ c.processes, q.broker.thisNodeId ≠ p.broker.thisNodeId →
            Runs (tr ++ [(c, a)]) q := by
        intro p act hacting q hq hne
        obtain ⟨p₀, q', hrun⟩ := ih q hq
        refine ⟨p₀, q', ?_⟩
        rw [steps_of_acting_ne hacting hne]
        exact hrun
      have hidle : c.acting a = none → ∀ q ∈ c.processes, Runs (tr ++ [(c, a)]) q := by
        intro hacting q hq
        obtain ⟨p₀, q', hrun⟩ := ih q hq
        refine ⟨p₀, q', ?_⟩
        rw [steps_of_acting_none hacting]
        exact hrun
      cases step_of_next hn with
      | launched nodeId config now b hfresh hb =>
          intro p hp
          rcases List.mem_append.1 hp with hp | hp
          · exact hidle rfl p hp
          · obtain rfl := List.mem_singleton.1 hp
            have hid : b.start.thisNodeId = nodeId := (Broker.construct_eq_ok hb).1
            have hinit : Process.machine.init ⟨b, [], .running⟩ :=
              ⟨nodeId, config, now, b, hb, rfl⟩
            have hstart : Process.machine.next ⟨b, [], .running⟩ .start
                = some ⟨b.start, [], .running⟩ := rfl
            -- a node that is launched has done nothing before
            refine ⟨⟨b, [], .running⟩, _, ?_, rfl, rfl, fun _ => rfl⟩
            rw [steps_of_acting_none rfl, hid, steps_eq_nil hex hfresh]
            exact (Machine.Exec.init hinit).step hstart
      | crashed i p hp =>
          intro q hq
          rcases List.mem_or_eq_of_mem_set hq with hq | rfl
          · exact hidle rfl q hq
          · obtain ⟨p₀, q', hrun, hbroker, hhandling, -⟩ := hidle rfl p (List.mem_of_getElem? hp)
            exact ⟨p₀, q', hrun, hbroker, hhandling, fun h => by simp at h⟩
      | delivered j i s p p' sent hs hp hrunning haddress ha =>
          have hacting : c.acting (.deliver j i) = some (p, .receive s.msg) := by
            simp [acting, hs, hp]
          intro q hq
          rcases hconsistent.mem_set hp hq with rfl | ⟨hq, hne⟩
          · exact (ih p (List.mem_of_getElem? hp)).act hrunning hacting ha
          · exact hother hacting q hq hne
      | lost j => exact hidle rfl
      | acted i act p p' sent hp hrunning ha =>
          have hacting : c.acting (.process i act) = some (p, .process act) := by
            simp [acting, hp]
          intro q hq
          rcases hconsistent.mem_set hp hq with rfl | ⟨hq, hne⟩
          · exact (ih p (List.mem_of_getElem? hp)).act hrunning hacting ha
          · exact hother hacting q hq hne

end Cluster

end ExActor
