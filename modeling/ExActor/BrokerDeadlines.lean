/-
**The deadlines of the waiters.**

`WaitClusterState` adds the timeout of its caller to the time of the registration, and
`CheckClusterStateWaiterTimeout` compares the sum with the time of the check.  The sum is formed in
64 bits: a timeout that does not fit behind the time of the registration, such as the largest one,
gives a deadline in the past, and the first check signals the waiter.

A waiter keeps the deadline only, so the time and the timeout of each registration are read off the
run.

Main definitions:

* `Registration`, `registrations` — what the waiters were registered with, in a run;
* `Registration.Fits` — the sum does not wrap around;
* `NeverEarly` — no check signals the waiter before its timeout has passed.

Main results:

* `Process.deadlines_of_exec` — the deadlines are the sums;
* `timeout_never_early_iff` — **when a waiter does not time out early**, and
  `endless_timeout_expires`, a run in which one does.
-/

import ExActor.BrokerWaiters

set_option relaxedAutoImplicit false
set_option autoImplicit false

namespace ExActor

/-! ### Registrations -/

/-- The timeout of a waiter and the time at which it was registered. -/
structure Registration where
  timeoutMs : TimeMs
  registeredMs : TimeMs
deriving DecidableEq

/-- The deadline of the waiter. -/
def Registration.deadlineMs (r : Registration) : TimeMs := r.registeredMs + r.timeoutMs

/-- The deadline does not wrap around. -/
def Registration.Fits (r : Registration) : Prop :=
  r.registeredMs.toNat + r.timeoutMs.toNat < 2 ^ 64

instance (r : Registration) : Decidable r.Fits := inferInstanceAs (Decidable (_ < _))

/-- What a step does to the registrations of the waiters. -/
def Process.registers (p : Process) (rs : List Registration) : BrokerAction → List Registration
  | .process (.waitClusterState predicate timeoutMs now) =>
      if predicate ⟨p.broker.buildAliveNodeInfoList⟩ then rs else rs ++ [⟨timeoutMs, now⟩]
  | .process (.resumeWaitClusterState i) => rs.eraseIdx i
  | _ => rs

/-- The registrations of the waiters that are left after a run. -/
def registrations (tr : List (Process × BrokerAction)) : List Registration :=
  tr.foldl (fun rs step => step.1.registers rs step.2) []

/-! ### Deadlines -/

namespace Broker

variable {b b' : Broker} {states : List ClusterState}

/-- The deadlines of the waiters. -/
def deadlines (b : Broker) : List TimeMs := b.clusterStateWaiters.map (·.deadlineMs)

/-- An evaluation changes no deadline. -/
theorem deadlineMs_foldl_evaluate (states : List ClusterState) (waiter : ClusterStateWaiter) :
    (states.foldl (fun w state => evaluate state w) waiter).deadlineMs = waiter.deadlineMs := by
  induction states generalizing waiter with
  | nil => rfl
  | cons state states ih =>
      rw [List.foldl_cons, ih, evaluate]
      split <;> rfl

theorem Evaluates.deadlines (h : Evaluates b states b') : b'.deadlines = b.deadlines := by
  rw [Broker.deadlines, h.waiters, List.map_map]
  refine List.map_congr_left fun waiter _ => ?_
  exact deadlineMs_foldl_evaluate states waiter

theorem SameView.deadlines (h : SameView b b') : b'.deadlines = b.deadlines := by
  rw [Broker.deadlines, h.waiters, Broker.deadlines]

/-- Nor does a check. -/
theorem deadlines_checkClusterStateWaiterTimeout (b : Broker) (now : TimeMs) :
    (b.checkClusterStateWaiterTimeout now).deadlines = b.deadlines := by
  rw [deadlines, checkClusterStateWaiterTimeout, List.map_map]
  refine List.map_congr_left fun waiter _ => ?_
  rw [Function.comp_apply]
  split <;> rfl

end Broker

namespace Process

variable {tr : List (Process × BrokerAction)} {p p' : Process} {a : BrokerAction}

/-- **The step lemma**: the deadlines stay those of the registrations. -/
theorem deadlines_of_react {sent : List Sent} (ha : p.react a = some (p', sent))
    {rs : List Registration} (h : p.broker.deadlines = rs.map Registration.deadlineMs) :
    p'.broker.deadlines = (p.registers rs a).map Registration.deadlineMs := by
  cases reaction_of_react ha with
  | gossiped msg status =>
      exact (Broker.evaluates_handleNodeStates p.broker msg.nodeStates).deadlines.trans h
  | checked now => exact (Broker.evaluates_lost p.broker _).deadlines.trans h
  | expired now => exact (Broker.deadlines_checkClusterStateWaiterTimeout p.broker now).trans h
  | waited predicate timeoutMs now =>
      dsimp only [registers, Broker.waitClusterState]
      split
      · exact h
      · rw [List.map_append, ← h, Broker.deadlines, List.map_append]
        rfl
  | waitResumed i waiter _ _ =>
      dsimp only [registers, Broker.deadlines] at h ⊢
      rw [← List.eraseIdx_map, h, List.eraseIdx_map]
  | started | replied | handled | refused | requested | requestResumed | answered | broadcast =>
      exact (sameView_of_react ha rfl).deadlines.trans h

/-- **The deadlines are the sums**, in every run. -/
theorem deadlines_of_exec (h : machine.Exec tr p) :
    p.broker.deadlines = (registrations tr).map Registration.deadlineMs := by
  induction h with
  | init h0 =>
      obtain ⟨nodeId, config, now, b, hb, rfl⟩ := h0
      rw [Broker.deadlines, (Broker.construct_pending hb).2.2.1]
      rfl
  | @step tr p p' a _ hn ih =>
      rw [registrations, List.foldl_append]
      exact deadlines_of_react (next_eq_some hn) ih

/-- Every waiter was registered. -/
theorem exists_registration (h : machine.Exec tr p) {i : ℕ} {waiter : ClusterStateWaiter}
    (hwaiter : p.broker.clusterStateWaiters[i]? = some waiter) :
    ∃ r, (registrations tr)[i]? = some r ∧ waiter.deadlineMs = r.deadlineMs := by
  have hdeadline : ((registrations tr).map Registration.deadlineMs)[i]?
      = some waiter.deadlineMs := by
    rw [← deadlines_of_exec h, Broker.deadlines, List.getElem?_map, hwaiter]
    rfl
  rw [List.getElem?_map] at hdeadline
  obtain ⟨r, hr, heq⟩ := Option.map_eq_some_iff.1 hdeadline
  exact ⟨r, hr, heq.symm⟩

end Process

/-! ### Timeouts -/

/-- The check at `now` signals the waiter at the position, whose condition was not met. -/
def Broker.TimesOut (b : Broker) (now : TimeMs) (i : ℕ) : Prop :=
  ∃ waiter waiter', b.clusterStateWaiters[i]? = some waiter ∧ waiter.conditionMet = false ∧
    (b.checkClusterStateWaiterTimeout now).clusterStateWaiters[i]? = some waiter' ∧
    waiter'.sem ≠ waiter.sem

/-- No check after the registration signals the waiter before its timeout has passed, in exact
integers. -/
def NeverEarly (b : Broker) (i : ℕ) (r : Registration) : Prop :=
  ∀ now : TimeMs, r.registeredMs ≤ now → b.TimesOut now i →
    (r.timeoutMs.toNat : ℤ) ≤ now.toNat - r.registeredMs.toNat

/-- A check signals a waiter if its condition was not met and its deadline has come. -/
theorem Broker.timesOut_iff {b : Broker} {now : TimeMs} {i : ℕ} {waiter : ClusterStateWaiter}
    (hwaiter : b.clusterStateWaiters[i]? = some waiter) :
    b.TimesOut now i ↔ waiter.conditionMet = false ∧ waiter.deadlineMs ≤ now := by
  have hafter : (b.checkClusterStateWaiterTimeout now).clusterStateWaiters[i]?
      = some (if !waiter.conditionMet && decide (waiter.deadlineMs ≤ now) then
          { waiter with sem := waiter.sem.acquire 1 }
        else waiter) := by
    rw [checkClusterStateWaiterTimeout, List.getElem?_map, hwaiter]
    rfl
  constructor
  · rintro ⟨before, after, hbefore, hmet, hlater, hsem⟩
    obtain rfl := Option.some.inj (hwaiter.symm.trans hbefore)
    obtain rfl := Option.some.inj (hafter.symm.trans hlater)
    refine ⟨hmet, ?_⟩
    by_contra hdeadline
    simp [hdeadline] at hsem
  · rintro ⟨hmet, hdeadline⟩
    refine ⟨waiter, _, hwaiter, hmet, hafter, ?_⟩
    simp [hmet, hdeadline, Semaphore.acquire]

/-- The deadline of a registration that fits is not early, and the deadline of one that does not fit
has passed at the registration. -/
theorem Registration.fits_iff (r : Registration) :
    (∀ now : TimeMs, r.registeredMs ≤ now → r.deadlineMs ≤ now →
      (r.timeoutMs.toNat : ℤ) ≤ now.toNat - r.registeredMs.toNat) ↔ r.Fits := by
  have hsum : r.deadlineMs.toNat = (r.registeredMs.toNat + r.timeoutMs.toNat) % 2 ^ 64 :=
    BitVec.toNat_add ..
  have hregistered := r.registeredMs.isLt
  have htimeout := r.timeoutMs.isLt
  unfold Fits
  constructor
  · intro hnever
    by_contra hwraps
    have hpassed : r.deadlineMs ≤ r.registeredMs := by
      rw [BitVec.le_def, hsum]
      omega
    have hzero := hnever r.registeredMs (BitVec.le_refl _) hpassed
    omega
  · intro hfits now _ hdeadline
    rw [BitVec.le_def, hsum, Nat.mod_eq_of_lt hfits] at hdeadline
    omega

/-- The step registers no waiter whose deadline wraps around. -/
def RegistersInRange (_ : Process) : BrokerAction → Prop
  | .process (.waitClusterState _ timeoutMs now) => Registration.Fits ⟨timeoutMs, now⟩
  | _ => True

/-- In runs whose registrations fit, those that are left do. -/
theorem fits_of_registersInRange {tr : List (Process × BrokerAction)}
    (h : Machine.Meets RegistersInRange tr) : ∀ r ∈ registrations tr, r.Fits := by
  induction tr using List.reverseRecOn with
  | nil => simp [registrations]
  | append_singleton tr step ih =>
      obtain ⟨p, a⟩ := step
      rw [Machine.meets_append, Machine.meets_singleton] at h
      have hbefore := ih h.1
      have hstep := h.2
      intro r hr
      rw [registrations, List.foldl_append] at hr
      change r ∈ p.registers (registrations tr) a at hr
      unfold Process.registers at hr
      split at hr
      · split at hr
        · exact hbefore r hr
        · rcases List.mem_append.1 hr with hr | hr
          · exact hbefore r hr
          · obtain rfl := List.mem_singleton.1 hr
            exact hstep
      · exact hbefore r ((List.eraseIdx_sublist ..).subset hr)
      · exact hbefore r hr

/-- **When a waiter does not time out early.**  In every reachable state every waiter has a
registration, and as long as its condition was not met, no later check signals it early exactly if
its deadline did not wrap around; so in every run whose registrations do not wrap around no waiter
times out early. -/
theorem timeout_never_early_iff {tr : List (Process × BrokerAction)} {p : Process}
    (h : Process.machine.Exec tr p) :
    (∀ i waiter, p.broker.clusterStateWaiters[i]? = some waiter →
      ∃ r, (registrations tr)[i]? = some r ∧
        (waiter.conditionMet = false → (NeverEarly p.broker i r ↔ r.Fits))) ∧
    (Machine.Meets RegistersInRange tr →
      ∀ i r, (registrations tr)[i]? = some r → NeverEarly p.broker i r) := by
  refine ⟨fun i waiter hwaiter => ?_, fun hrange i r hr now hlater htimesOut => ?_⟩
  · obtain ⟨r, hr, hdeadline⟩ := Process.exists_registration h hwaiter
    refine ⟨r, hr, fun hmet => ?_⟩
    rw [← r.fits_iff, NeverEarly]
    simp only [Broker.timesOut_iff hwaiter, hmet, hdeadline, true_and]
  · obtain ⟨waiter, -, hwaiter, -⟩ := id htimesOut
    obtain ⟨r', hr', hdeadline⟩ := Process.exists_registration h hwaiter
    obtain rfl := Option.some.inj (hr.symm.trans hr')
    have hfits := fits_of_registersInRange hrange r (List.mem_of_getElem? hr)
    refine r.fits_iff.2 hfits now hlater ?_
    rw [← hdeadline]
    exact ((Broker.timesOut_iff hwaiter).1 htimesOut).2

/-- Node 1 waits at time 5 for node 2, for 10 ms: it does not time out early. -/
theorem timeout_never_early_iff_short : ∃ tr p, Process.machine.Exec tr p ∧
    (registrations tr)[0]? = some ⟨10, 5⟩ ∧ NeverEarly p.broker 0 ⟨10, 5⟩ := by
  obtain ⟨p, hex, -⟩ := Machine.exists_exec_of_replay Process.init_first
    [.process (.waitClusterState (nodeAlive 2) 10 5)] (fun _ => ()) () rfl
  have hr : (registrations (Process.machine.replayTrace Process.first
      [.process (.waitClusterState (nodeAlive 2) 10 5)]))[0]? = some ⟨10, 5⟩ := by decide
  refine ⟨_, p, hex, hr, (timeout_never_early_iff hex).2 (fun step hstep => ?_) 0 _ hr⟩
  obtain rfl := List.mem_singleton.1 hstep
  change Registration.Fits ⟨10, 5⟩
  decide

/-- Node 1 waits at time 5 for node 2, for ever: the check at time 6 signals the waiter. -/
theorem endless_timeout_expires : ∃ tr p, Process.machine.Exec tr p ∧
    (registrations tr)[0]? = some ⟨BitVec.allOnes 64, 5⟩ ∧ p.broker.TimesOut 6 0 ∧
    ¬ NeverEarly p.broker 0 ⟨BitVec.allOnes 64, 5⟩ := by
  obtain ⟨p, hex, hp⟩ := Machine.exists_exec_of_replay Process.init_first
    [.process (.waitClusterState (nodeAlive 2) (BitVec.allOnes 64) 5)]
    (fun p => p.broker.clusterStateWaiters.map fun w => (w.deadlineMs, w.conditionMet))
    [(4, false)] (by decide)
  obtain ⟨waiter, hwaiters, hwaiter⟩ := List.map_eq_singleton_iff.1 hp
  obtain ⟨hdeadline, hmet⟩ := Prod.mk.inj hwaiter
  have hat : p.broker.clusterStateWaiters[0]? = some waiter := by rw [hwaiters]; rfl
  have htimesOut : p.broker.TimesOut 6 0 :=
    (Broker.timesOut_iff hat).2 ⟨hmet, by rw [hdeadline]; decide⟩
  refine ⟨_, p, hex, by decide, htimesOut, fun hnever => ?_⟩
  have hearly := hnever 6 (by decide) htimesOut
  exact absurd hearly (by decide)

end ExActor
