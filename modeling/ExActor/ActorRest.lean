/-
**An actor comes to rest.**

Nothing fair has to be assumed of the scheduler.  As soon as no `PushMessage` is in progress and
none arrives, every schedule of the threads comes to an end, within a number of steps that can be
read off the state.  While a push stands between `Push` and the counter this is not so: the
activation that has executed its message has made the counter negative, and activations follow each
other until the push has counted.

Two measures are needed.  As long as nobody destroys the actor, the potential counts, for each
queued message, the most that its execution can give rise to, and for each thread how far it is from
its end.  An activation that finds every mailbox empty ends for good, since the counter is zero
then; only an activation that has executed a message, or that had passed over a mailbox before
something was pushed there, may be followed by another one.  Once `AsyncDestroy` has set
`pending_to_be_destroyed_`, no activation begins to execute messages any more, and every thread goes
straight to its end, the pushes in progress too.

Main definitions:

* `Thread.rank`, `potential` — how far the threads are from their end;
* `Thread.closing`, `closing` — how far they are in an actor that is being destroyed;
* `PushesOver` — no push is in progress, or the actor is being destroyed.

Main results:

* `potential_lt`, `closing_lt` — every step lowers the measure;
* `halts_of_exec` — **the actor comes to rest under every schedule**.
-/

import ExActor.ActorDestroy

set_option relaxedAutoImplicit false
set_option autoImplicit false

namespace ExActor

/-! ### The potential -/

/-- The activation has executed nothing and passed over empty mailboxes only. -/
def ActorState.Fresh (s : ActorState) (executed mailboxIndex : ℕ) : Prop :=
  executed = 0 ∧ ∀ j < mailboxIndex, s.mailboxSet.queueAt j = []

instance (s : ActorState) (executed mailboxIndex : ℕ) : Decidable (s.Fresh executed mailboxIndex) :=
  inferInstanceAs (Decidable (_ ∧ _))

/-- How far an activation is from its end, when the balance is zero or not. -/
def PullPc.rank (s : ActorState) (drained : Bool) : PullPc → ℕ
  | .scheduled => s.mailboxSet.mailboxCount + 9
  | .entry => s.mailboxSet.mailboxCount + 8
  | .loadPendingToBeDestroyed => s.mailboxSet.mailboxCount + 7
  | .loadLimit => s.mailboxSet.mailboxCount + 6
  | .tryPop _ executed i =>
      s.mailboxSet.mailboxCount - i
        + if s.Fresh executed i then 5 else s.mailboxSet.mailboxCount + 16
  | .execute _ _ _ _ => 2 * s.mailboxSet.mailboxCount + 17
  | .fetchSub _ executed =>
      if executed = 0 ∧ s.mailboxSet.queued = 0 then 4 else s.mailboxSet.mailboxCount + 15
  | .storeActivated => if drained then 3 else s.mailboxSet.mailboxCount + 14
  | .loadPendingMessageCount => if drained then 2 else s.mailboxSet.mailboxCount + 13
  | .tryActivate .cas => s.mailboxSet.mailboxCount + 12
  | .tryActivate .schedule => s.mailboxSet.mailboxCount + 11
  | .ret => 1
  | .loadRemaining | .reset | .storeActivatedDestroyed | .fetchSubDestroyed => 0

/-- How far a thread is from its end. -/
def Thread.rank (s : ActorState) (drained : Bool) : Thread → ℕ
  | .activation pc => pc.rank s drained
  | _ => 0

/-- Nothing is queued, and nothing executed is still counted. -/
def drained (q : ActorPool) : Bool := decide (balance q = 0)

/-- What one queued message can give rise to. -/
def ActorState.worth (s : ActorState) : ℕ := 2 * s.mailboxSet.mailboxCount + 17

/-- What all threads can give rise to. -/
def potential (q : ActorPool) : ℕ :=
  q.shared.worth * q.shared.mailboxSet.queued + q.total (Thread.rank q.shared (drained q))

/-- A thread that does not own the flag is no further from its end when the balance goes to zero. -/
theorem rank_le {s s' : ActorState} {d d' : Bool} (t : Thread)
    (hcount : s'.mailboxSet.mailboxCount = s.mailboxSet.mailboxCount) (hd : d = true → d' = true)
    (h : s'.mailboxSet = s.mailboxSet ∨ t.owns = 0) : t.rank s' d' ≤ t.rank s d := by
  have hbool : ∀ a b : ℕ, a ≤ b → (if d' = true then a else b) ≤ if d = true then a else b := by
    intro a b hab
    cases d with
    | true => simp [hd rfl]
    | false =>
        simp only [Bool.false_eq_true, if_false]
        split <;> omega
  cases t with
  | producer m i pc | destroyer k pc => exact Nat.le_refl _
  | activation pc =>
      simp only [Thread.rank]
      cases pc with
      | tryPop limit executed i =>
          rcases h with h | h
          · have hfresh : s'.Fresh executed i ↔ s.Fresh executed i := by
              simp only [ActorState.Fresh, h]
            simp only [PullPc.rank, hcount, hfresh, le_refl]
          · simp [Thread.owns] at h
      | fetchSub limit executed =>
          rcases h with h | h
          · simp [PullPc.rank, h]
          · simp [Thread.owns] at h
      | storeActivated => simpa [PullPc.rank, hcount] using hbool 3 _ (by omega)
      | loadPendingMessageCount => simpa [PullPc.rank, hcount] using hbool 2 _ (by omega)
      | tryActivate pc => cases pc <;> simp [PullPc.rank, hcount]
      | _ => simp [PullPc.rank, hcount]

/-- A step lowers the potential when it lowers what its message and its thread give rise to. -/
theorem potential_lt_of {s s' : ActorState} {l r new : List Thread} {t : Thread}
    (hcount : s'.mailboxSet.mailboxCount = s.mailboxSet.mailboxCount)
    (hd : drained ⟨s, l ++ t :: r⟩ = true → drained ⟨s', l ++ new ++ r⟩ = true)
    (h : s'.mailboxSet = s.mailboxSet ∨ ∀ u ∈ l ++ r, u.owns = 0)
    (hlt : s.worth * s'.mailboxSet.queued
        + (new.map (Thread.rank s' (drained ⟨s', l ++ new ++ r⟩))).sum
      < s.worth * s.mailboxSet.queued + t.rank s (drained ⟨s, l ++ t :: r⟩)) :
    potential ⟨s', l ++ new ++ r⟩ < potential ⟨s, l ++ t :: r⟩ := by
  have hothers : Pool.others (Thread.rank s' (drained ⟨s', l ++ new ++ r⟩)) l r
      ≤ Pool.others (Thread.rank s (drained ⟨s, l ++ t :: r⟩)) l r := by
    have hle : ∀ u ∈ l ++ r, u.rank s' (drained ⟨s', l ++ new ++ r⟩)
        ≤ u.rank s (drained ⟨s, l ++ t :: r⟩) := fun u hu =>
      rank_le u hcount hd (h.imp id fun h => h u hu)
    exact Nat.add_le_add
      (List.sum_le_sum fun u hu => hle u (List.mem_append_left r hu))
      (List.sum_le_sum fun u hu => hle u (List.mem_append_right l hu))
  have hworth : s'.worth = s.worth := by simp only [ActorState.worth, hcount]
  unfold potential
  rw [Pool.total_after, Pool.total_before, hworth]
  simp only at hlt ⊢
  omega

/-- A step that leaves the mailboxes alone and hands on what its thread still counts. -/
theorem potential_lt_of_same {s s' : ActorState} {l r new : List Thread} {t : Thread}
    (hset : s'.mailboxSet = s.mailboxSet) (hbase : s'.base = s.base)
    (hcredit : (new.map Thread.credit).sum = t.credit)
    (hlt : (new.map (Thread.rank s' (drained ⟨s, l ++ t :: r⟩))).sum
      < t.rank s (drained ⟨s, l ++ t :: r⟩)) :
    potential ⟨s', l ++ new ++ r⟩ < potential ⟨s, l ++ t :: r⟩ := by
  have hsame : drained ⟨s', l ++ new ++ r⟩ = drained ⟨s, l ++ t :: r⟩ := by
    unfold drained balance
    rw [Pool.total_after, Pool.total_before, hbase, hcredit]
  refine potential_lt_of (by rw [hset]) (fun h => hsame.trans h) (Or.inl hset) ?_
  rw [hsame, hset]
  omega

/-! ### The steps of an activation -/

theorem activation_credit_nonneg (pc : PullPc) : 0 ≤ (Thread.activation pc).credit := by
  cases pc <;> simp only [Thread.credit] <;> omega

/-- An activation that neither owns the flag nor destroys has executed nothing that is still
counted. -/
theorem activation_credit_eq_zero {pc : PullPc} (howns : (Thread.activation pc).owns = 0)
    (hdestroys : (Thread.activation pc).destroys = 0) : (Thread.activation pc).credit = 0 := by
  cases pc with
  | tryPop | execute | fetchSub => simp [Thread.owns] at howns
  | storeActivatedDestroyed | fetchSubDestroyed => simp [Thread.destroys] at hdestroys
  | _ => rfl

/-- Nobody has begun to destroy the actor, and nothing is counted but what the owner of the flag has
executed. -/
structure Settling (q : ActorPool) : Prop where
  pending : q.shared.pendingToBeDestroyed = false
  alive : q.shared.userClassInstance = true
  owned : Owned q
  tracks : Tracks q.shared.pendingMessageCount (balance q)
  credit : ∀ t ∈ q.threads, 0 ≤ t.credit ∧ (t.owns = 0 → t.credit = 0)

/-- What the other threads count is not negative. -/
theorem Settling.others_credit_nonneg {s : ActorState} {l r : List Thread} {t : Thread}
    (hI : Settling ⟨s, l ++ t :: r⟩) : 0 ≤ Pool.others Thread.credit l r := by
  have hnonneg := fun u hu => (hI.credit u (Pool.mem_of_mem_others hu)).1
  exact add_nonneg
    (List.sum_nonneg fun x hx => by
      obtain ⟨u, hu, rfl⟩ := List.mem_map.1 hx
      exact hnonneg u (List.mem_append_left r hu))
    (List.sum_nonneg fun x hx => by
      obtain ⟨u, hu, rfl⟩ := List.mem_map.1 hx
      exact hnonneg u (List.mem_append_right l hu))

/-- Beside the owner of the flag nobody owns it. -/
theorem Settling.others_owns {s : ActorState} {l r : List Thread} {t : Thread}
    (hI : Settling ⟨s, l ++ t :: r⟩) (ht : t.owns = 1) : ∀ u ∈ l ++ r, u.owns = 0 := by
  have howned := hI.owned
  have hle := flag_le_one s.activated
  unfold Owned at howned
  rw [Pool.total_before, ht] at howned
  exact Pool.others_eq_zero_iff.1 (by simp only at howned; omega)

/-- Beside the owner of the flag nobody has executed anything that is still counted. -/
theorem Settling.others_credit {s : ActorState} {l r : List Thread} {t : Thread}
    (hI : Settling ⟨s, l ++ t :: r⟩) (ht : t.owns = 1) : Pool.others Thread.credit l r = 0 := by
  have hzero : ∀ u ∈ l ++ r, u.credit = 0 := fun u hu =>
    (hI.credit u (Pool.mem_of_mem_others hu)).2 (hI.others_owns ht u hu)
  unfold Pool.others
  rw [List.sum_eq_zero fun x hx => by
      obtain ⟨u, hu, rfl⟩ := List.mem_map.1 hx
      exact hzero u (List.mem_append_left r hu),
    List.sum_eq_zero fun x hx => by
      obtain ⟨u, hu, rfl⟩ := List.mem_map.1 hx
      exact hzero u (List.mem_append_right l hu), add_zero]

/-- The head of the loop over the mailboxes, after empty mailboxes only. -/
theorem rank_walk_fresh {s : ActorState} (d : Bool) (limit : ℕ) {i : ℕ}
    (h : ∀ j < i, s.mailboxSet.queueAt j = []) :
    (walk s limit 0 i).rank s d
      = if i < s.mailboxSet.mailboxCount then s.mailboxSet.mailboxCount - i + 5 else 4 := by
  unfold walk
  split
  · rw [PullPc.rank, if_pos ⟨rfl, h⟩]
  · next hle =>
      have hzero := MailboxSet.queued_eq_zero_of_queueAt (s := s.mailboxSet)
        fun j hj => h j (by omega)
      rw [PullPc.rank, if_pos ⟨rfl, hzero⟩]

/-- The head of the loop over the mailboxes after the mailbox `i`. -/
theorem rank_walk_succ (s : ActorState) (d : Bool) (limit executed i : ℕ) :
    (walk s limit executed (i + 1)).rank s d
      < s.mailboxSet.mailboxCount - i + (s.mailboxSet.mailboxCount + 16) := by
  unfold walk
  split
  · rw [PullPc.rank]
    split <;> omega
  · rw [PullPc.rank]
    split <;> omega

theorem credit_walk (s : ActorState) (limit executed i : ℕ) :
    (Thread.activation (walk s limit executed i)).credit = executed := by
  rcases walk_cases s limit executed i with h | h <;> rw [h] <;> rfl

/-- What `TryActivate` leaves of an activation. -/
theorem tryActivate_cases {A : Actor} {env : Env} {s s' : ActorState} {new : List Thread}
    {pc : TryActivatePc}
    (h : pullMailboxAndRunStep A s env (.tryActivate pc) = some (s', new)) :
    s'.mailboxSet = s.mailboxSet ∧ s'.base = s.base ∧
      ((pc = .cas ∧ (new = [.activation .ret] ∨ new = [.activation (.tryActivate .schedule)])) ∨
        (pc = .schedule ∧
          (new = [.activation .ret] ∨ new = [.activation .ret, .activation .scheduled]))) := by
  cases pc with
  | cas =>
      cases hact : s.activated <;>
        obtain ⟨rfl, rfl⟩ := by
          simpa [pullMailboxAndRunStep, tryActivateStep, hact] using h
      · exact ⟨rfl, rfl, Or.inl ⟨rfl, Or.inr rfl⟩⟩
      · exact ⟨rfl, rfl, Or.inl ⟨rfl, Or.inl rfl⟩⟩
  | schedule =>
      obtain hconnect : env.connect = .ok () := by
        cases hconnect : env.connect with
        | ok => rfl
        | error e => simp [pullMailboxAndRunStep, tryActivateStep, hconnect] at h
      cases hsc : s.asyncScope.tryAssociate <;>
        obtain ⟨rfl, rfl⟩ := by
          simpa [pullMailboxAndRunStep, tryActivateStep, hconnect, hsc] using h
      · exact ⟨rfl, rfl, Or.inr ⟨rfl, Or.inl rfl⟩⟩
      · exact ⟨rfl, rfl, Or.inr ⟨rfl, Or.inr rfl⟩⟩

theorem rank_tryPop (s : ActorState) (d : Bool) (limit executed i : ℕ) :
    (PullPc.tryPop limit executed i).rank s d = s.mailboxSet.mailboxCount - i
      + if s.Fresh executed i then 5 else s.mailboxSet.mailboxCount + 16 := rfl

/-- **Every step of an activation lowers the potential**, when nobody destroys the actor and no push
is in progress. -/
theorem potential_lt {A : Actor} {env : Env} {s s' : ActorState} {l r new : List Thread}
    {pc : PullPc} (hI : Settling ⟨s, l ++ .activation pc :: r⟩)
    (hdestroys : (Thread.activation pc).destroys = 0)
    (hrun : A.run s (.activation pc) env = some (s', new)) :
    (∀ u ∈ new, ∃ pc', u = .activation pc') ∧
      potential ⟨s', l ++ new ++ r⟩ < potential ⟨s, l ++ .activation pc :: r⟩ := by
  have hpending : s.pendingToBeDestroyed = false := hI.pending
  have halive : s.userClassInstance = true := hI.alive
  have hbalance : balance ⟨s, l ++ .activation pc :: r⟩
      = s.mailboxSet.queued + ((Thread.activation pc).credit + Pool.others Thread.credit l r) := by
    unfold balance
    rw [Pool.total_before]
    simp [ActorState.base, hpending, halive]
  have hothers := hI.others_credit_nonneg
  simp only [Actor.run] at hrun
  cases pc with
  | loadRemaining | reset | storeActivatedDestroyed | fetchSubDestroyed =>
      simp [Thread.destroys] at hdestroys
  | scheduled =>
      obtain ⟨rfl, rfl⟩ := by simpa [pullMailboxAndRunStep] using hrun
      exact ⟨by simp, potential_lt_of_same rfl rfl rfl (by simp [Thread.rank, PullPc.rank])⟩
  | entry =>
      obtain ⟨rfl, rfl⟩ := by simpa [pullMailboxAndRunStep, halive] using hrun
      exact ⟨by simp, potential_lt_of_same rfl rfl rfl (by simp [Thread.rank, PullPc.rank])⟩
  | loadPendingToBeDestroyed =>
      obtain ⟨rfl, rfl⟩ := by simpa [pullMailboxAndRunStep, hpending] using hrun
      exact ⟨by simp, potential_lt_of_same rfl rfl rfl (by simp [Thread.rank, PullPc.rank])⟩
  | loadLimit =>
      obtain ⟨rfl, rfl⟩ := by simpa [pullMailboxAndRunStep] using hrun
      refine ⟨by simp, potential_lt_of_same rfl rfl ?_ ?_⟩
      · rw [List.map_singleton, List.sum_singleton, credit_walk]
        rfl
      have hfresh : ∀ j < 0, s.mailboxSet.queueAt j = [] := by simp
      have hrank := rank_walk_fresh (drained ⟨s, l ++ .activation .loadLimit :: r⟩)
        (min A.config.maxMessageExecutedPerActivation s.pendingMessageCount.toNat) hfresh
      simp only [List.map_cons, List.map_nil, List.sum_cons, List.sum_nil, Thread.rank, hrank]
      rw [PullPc.rank]
      split <;> omega
  | tryPop limit executed i =>
      simp only [pullMailboxAndRunStep] at hrun
      split at hrun
      · next hnone =>
          obtain ⟨rfl, rfl⟩ := by simpa using hrun
          refine ⟨by simp, potential_lt_of_same rfl rfl ?_ ?_⟩
          · rw [List.map_singleton, List.sum_singleton, credit_walk]
            rfl
          simp only [List.map_cons, List.map_nil, List.sum_cons, List.sum_nil, Thread.rank,
            rank_tryPop]
          by_cases hfresh : s.Fresh executed i
          · obtain ⟨rfl, hempty⟩ := hfresh
            have hempty' : ∀ j < i + 1, s.mailboxSet.queueAt j = [] := by
              intro j hj
              rcases Nat.lt_succ_iff_lt_or_eq.1 hj with hj | rfl
              · exact hempty j hj
              · exact MailboxSet.tryPop_eq_none_iff.1 hnone
            rw [rank_walk_fresh _ _ hempty']
            simp only [if_pos (show s.Fresh 0 i from ⟨rfl, hempty⟩)]
            split <;> omega
          · simp only [if_neg hfresh]
            exact rank_walk_succ s _ limit executed i
      · next m set hpop =>
          obtain ⟨rfl, rfl⟩ := by simpa using hrun
          have hqueued := MailboxSet.queued_tryPop hpop
          have hcount := MailboxSet.mailboxCount_tryPop hpop
          refine ⟨by simp, potential_lt_of hcount ?_ (Or.inr (hI.others_owns rfl)) ?_⟩
          · simp only [drained, hbalance, decide_eq_true_eq]
            unfold balance
            rw [Pool.total_after]
            simp [ActorState.base, Thread.credit, hpending, halive]
            omega
          · simp only [List.map_cons, List.map_nil, List.sum_cons, List.sum_nil, Thread.rank,
              PullPc.rank, ActorState.emit, hcount, ActorState.worth, ← hqueued, Nat.mul_succ]
            split <;> omega
  | execute limit executed i m =>
      simp only [pullMailboxAndRunStep] at hrun
      split at hrun
      · obtain ⟨rfl, rfl⟩ := by simpa using hrun
        refine ⟨by simp, potential_lt_of_same rfl rfl (by simp [Thread.credit]) ?_⟩
        simp [Thread.rank, PullPc.rank, ActorState.emit]
        omega
      · obtain ⟨rfl, rfl⟩ := by simpa using hrun
        refine ⟨by simp, potential_lt_of_same rfl rfl (by simp [Thread.credit]) ?_⟩
        simp [Thread.rank, PullPc.rank, ActorState.emit, ActorState.Fresh]
        omega
  | fetchSub limit executed =>
      obtain ⟨hset, hbase, rfl⟩ : s'.mailboxSet = s.mailboxSet ∧ s'.base = s.base ∧
          new = [.activation .storeActivated] := by
        obtain ⟨rfl, rfl⟩ := by simpa [pullMailboxAndRunStep] using hrun
        exact ⟨rfl, rfl, rfl⟩
      have hzero := hI.others_credit rfl
      have hafter : balance ⟨s', l ++ [.activation .storeActivated] ++ r⟩
          = s.mailboxSet.queued := by
        unfold balance
        rw [Pool.total_after, hbase, hzero]
        simp [ActorState.base, Thread.credit, hpending, halive]
      rw [hzero, show (Thread.activation (.fetchSub limit executed)).credit = executed from rfl]
        at hbalance
      refine ⟨by simp, potential_lt_of (by rw [hset]) ?_ (Or.inl hset) ?_⟩
      · simp only [drained, hbalance, hafter, decide_eq_true_eq]
        omega
      · simp only [drained, hafter, hset, List.map_cons, List.map_nil, List.sum_cons,
          List.sum_nil, Thread.rank, PullPc.rank, decide_eq_true_eq]
        split <;> split <;> omega
  | storeActivated =>
      obtain ⟨rfl, rfl⟩ := by simpa [pullMailboxAndRunStep] using hrun
      refine ⟨by simp, potential_lt_of_same rfl rfl rfl ?_⟩
      simp only [List.map_cons, List.map_nil, List.sum_cons, List.sum_nil, Thread.rank, PullPc.rank]
      split <;> omega
  | loadPendingMessageCount =>
      have hdrained : drained ⟨s, l ++ .activation .loadPendingMessageCount :: r⟩ = true →
          s.pendingMessageCount = 0 := by
        intro hd
        have htracks := hI.tracks
        rw [of_decide_eq_true hd] at htracks
        simpa [Tracks] using htracks
      simp only [pullMailboxAndRunStep] at hrun
      split at hrun
      · obtain ⟨rfl, rfl⟩ := by simpa using hrun
        refine ⟨by simp, potential_lt_of_same rfl rfl rfl ?_⟩
        simp only [List.map_cons, List.map_nil, List.sum_cons, List.sum_nil, Thread.rank,
          PullPc.rank]
        split <;> omega
      · next hpos =>
          obtain ⟨rfl, rfl⟩ := by simpa using hrun
          refine ⟨by simp, potential_lt_of_same rfl rfl rfl ?_⟩
          simp only [List.map_cons, List.map_nil, List.sum_cons, List.sum_nil, Thread.rank,
            PullPc.rank, if_neg fun hd => hpos (hdrained hd)]
          omega
  | tryActivate pc =>
      obtain ⟨hset, hbase, hnew⟩ := tryActivate_cases hrun
      rcases hnew with ⟨rfl, rfl | rfl⟩ | ⟨rfl, rfl | rfl⟩ <;>
        refine ⟨by simp, potential_lt_of_same hset hbase rfl ?_⟩ <;>
        simp only [List.map_cons, List.map_nil, List.sum_cons, List.sum_nil, Thread.rank,
          PullPc.rank, hset] <;>
        omega
  | ret =>
      obtain ⟨rfl, rfl⟩ := by simpa [pullMailboxAndRunStep] using hrun
      exact ⟨by simp, potential_lt_of_same rfl rfl rfl (by simp [Thread.rank, PullPc.rank])⟩

/-! ### An actor that is being destroyed -/

/-- How far an activation is from its end when no further messages are executed; `n` is the number
of the mailboxes. -/
def PullPc.closing (n : ℕ) : PullPc → ℕ
  | .loadLimit | .execute _ _ _ _ => n + 15
  | .tryPop _ _ i => n - i + 14
  | .fetchSub _ _ => 13
  | .storeActivated => 12
  | .loadPendingMessageCount => 11
  | .tryActivate .cas => 10
  | .tryActivate .schedule => 9
  | .scheduled => 7
  | .entry => 6
  | .loadPendingToBeDestroyed => 5
  | .reset => 4
  | .storeActivatedDestroyed => 3
  | .fetchSubDestroyed | .loadRemaining => 2
  | .ret => 1

/-- How far a thread is from its end when no further messages are executed. -/
def Thread.closing (n : ℕ) : Thread → ℕ
  | .activation pc => pc.closing n
  | .producer _ _ .push => n + 16
  | .producer _ _ .fetchAdd => 13
  | .producer _ _ .shouldActivate => 12
  | .producer _ _ (.tryActivate .cas) => 11
  | .producer _ _ (.tryActivate .schedule) => 10
  | .destroyer _ .setPendingToBeDestroyed => 13
  | .destroyer _ .fetchAdd => 12
  | .destroyer _ (.tryActivate .cas) => 11
  | .destroyer _ (.tryActivate .schedule) => 10
  | .destroyer _ .join => 2
  | .destroyer _ .awaitJoin => 1

/-- What all threads have to do, with the messages that are queued: an activation that is under way
may still take them. -/
def closing (q : ActorPool) : ℕ :=
  (q.shared.mailboxSet.mailboxCount + 2) * q.shared.mailboxSet.queued
    + q.total (Thread.closing q.shared.mailboxSet.mailboxCount)

/-- What `TryActivate` leaves to its caller and to the activation it schedules. -/
theorem closing_at (c : Caller) (n : ℕ) :
    (c.after.map (Thread.closing n)).sum + (Thread.activation .scheduled).closing n
        < (c.at .schedule).closing n ∧
      (c.at .schedule).closing n < (c.at .cas).closing n := by
  cases c <;> simp [Caller.after, Caller.at, Thread.closing, PullPc.closing]

/-- The head of the loop over the mailboxes after the mailbox `i`. -/
theorem closing_walk_succ (s : ActorState) (limit executed i : ℕ) :
    (walk s limit executed (i + 1)).closing s.mailboxSet.mailboxCount
      < s.mailboxSet.mailboxCount - i + 14 := by
  unfold walk
  split
  · simp only [PullPc.closing]
    omega
  · simp only [PullPc.closing]
    omega

/-- What a step leaves to its thread, unless an activation goes on to its messages. -/
theorem Actor.run_closing {A : Actor} {env : Env} {s s' : ActorState} {t : Thread}
    {new : List Thread} (hrun : A.run s t env = some (s', new))
    (hpending : t = .activation .loadPendingToBeDestroyed → s.pendingToBeDestroyed = true) :
    (s.mailboxSet.mailboxCount + 2) * s'.mailboxSet.queued
        + (new.map (Thread.closing s.mailboxSet.mailboxCount)).sum
      < (s.mailboxSet.mailboxCount + 2) * s.mailboxSet.queued
        + t.closing s.mailboxSet.mailboxCount := by
  have hstep := Actor.step_of_run hrun
  cases hstep with
  | push m i set hpush =>
      simp only [ActorState.emit, MailboxSet.queued_push hpush, Nat.mul_succ, Thread.closing,
        List.map_cons, List.map_nil, List.sum_cons, List.sum_nil]
      omega
  | pop limit executed i m set hpop =>
      have hqueued := MailboxSet.queued_tryPop hpop
      simp only [ActorState.emit, ← hqueued, Nat.mul_succ, Thread.closing, PullPc.closing,
        List.map_cons, List.map_nil, List.sum_cons, List.sum_nil]
      omega
  | popNone limit executed i pc hnone hpc =>
      -- the loop goes on with the next mailbox as long as there is one
      have hwalk : pc = walk s limit executed (i + 1) := by
        simp only [Actor.run, pullMailboxAndRunStep, hnone] at hrun
        simpa using hrun.symm
      have hlt := closing_walk_succ s limit executed i
      rw [← hwalk] at hlt
      simpa [Thread.closing, PullPc.closing] using hlt
  | lose c | dropped c =>
      have hat := closing_at c s.mailboxSet.mailboxCount
      omega
  | win c hact =>
      have hat := closing_at c s.mailboxSet.mailboxCount
      simp only [List.map_cons, List.map_nil, List.sum_cons, List.sum_nil]
      omega
  | schedule c =>
      have hat := closing_at c s.mailboxSet.mailboxCount
      simp only [List.map_append, List.sum_append, List.map_cons, List.map_nil, List.sum_cons,
        List.sum_nil]
      omega
  | count m i pc hpc =>
      rcases hpc with ⟨-, rfl⟩ | ⟨-, rfl⟩ <;> simp [ActorState.emit, Thread.closing]
  | execute limit executed i m pc hpc =>
      rcases hpc with ⟨-, rfl⟩ | ⟨-, rfl⟩ <;>
        simp only [ActorState.emit, Thread.closing, PullPc.closing, List.map_cons, List.map_nil,
          List.sum_cons, List.sum_nil] <;>
        omega
  | loadLimit => simp [Thread.closing, PullPc.closing]
  | notPending hp => simp [hpending rfl] at hp
  | _ => simp [ActorState.emit, Thread.closing, PullPc.closing]

/-- **Every step lowers the measure**, unless an activation goes on to its messages. -/
theorem closing_lt {A : Actor} {env : Env} {s s' : ActorState} {l r new : List Thread} {t : Thread}
    (hrun : A.run s t env = some (s', new))
    (hpending : t = .activation .loadPendingToBeDestroyed → s.pendingToBeDestroyed = true) :
    closing ⟨s', l ++ new ++ r⟩ < closing ⟨s, l ++ t :: r⟩ := by
  have hlt := Actor.run_closing hrun hpending
  have hcount := (Actor.step_of_run hrun).mailboxCount_eq
  unfold closing
  rw [Pool.total_after, Pool.total_before]
  simp only [hcount]
  omega

/-- An activation that goes on to its messages has a walk over the mailboxes before it. -/
theorem closing_le {A : Actor} {env : Env} {s s' : ActorState} {l r new : List Thread} {t : Thread}
    (hrun : A.run s t env = some (s', new)) :
    closing ⟨s', l ++ new ++ r⟩ ≤ closing ⟨s, l ++ t :: r⟩ + (s.mailboxSet.mailboxCount + 10) := by
  by_cases hpending : t = .activation .loadPendingToBeDestroyed → s.pendingToBeDestroyed = true
  · have hlt := closing_lt (l := l) (r := r) hrun hpending
    omega
  · push Not at hpending
    obtain ⟨rfl, hp⟩ := hpending
    obtain ⟨rfl, rfl⟩ := by simpa [Actor.run, pullMailboxAndRunStep, hp] using hrun
    unfold closing
    rw [Pool.total_after, Pool.total_before]
    simp only [List.map_cons, List.map_nil, List.sum_cons, List.sum_nil, Thread.closing,
      PullPc.closing]
    omega

/-! ### When an actor comes to rest -/

/-- No push can start an activation again: the actor is being destroyed, or no push is in progress
but those that wait for a mailbox that does not exist. -/
def PushesOver (p : ActorPool) : Prop :=
  p.shared.pendingToBeDestroyed = true ∨ ∀ t ∈ p.threads, ∀ m i pc, t = .producer m i pc →
    pc = .push ∧ p.shared.mailboxSet.mailboxCount ≤ i

/-- A bound on the steps that are left. -/
def stepsLeft (q : ActorPool) : ℕ :=
  (if q.shared.pendingToBeDestroyed then 0
    else (q.shared.mailboxSet.mailboxCount + 11) * potential q) + closing q

/-- Only a call of `AsyncDestroy` sets `pending_to_be_destroyed_`. -/
theorem Actor.Step.pending_eq {A : Actor} {env : Env} {s s' : ActorState} {t : Thread}
    {new : List Thread} (h : A.Step env s t s' new) (ht : t.calling = 0) :
    s'.pendingToBeDestroyed = s.pendingToBeDestroyed := by
  cases h with
  | setPending k hp => simp [Thread.calling] at ht
  | _ => rfl

/-- A destruction that is pending stays so. -/
theorem Actor.Step.pending_mono {A : Actor} {env : Env} {s s' : ActorState} {t : Thread}
    {new : List Thread} (h : A.Step env s t s' new) (hp : s'.pendingToBeDestroyed = false) :
    s.pendingToBeDestroyed = false := by
  cases h with
  | setPending k hp' => exact hp'
  | _ => exact hp

/-- As long as no destruction is pending the instance is there, and `AsyncDestroy` has at most been
called. -/
theorem destroys_of_exec {A : Actor} {tr : List (ActorPool × ActorAction)} {p : ActorPool}
    (h : A.machine.Exec tr p) (hp : p.shared.pendingToBeDestroyed = false) :
    p.shared.userClassInstance = true ∧ ∀ t ∈ p.threads, t.destroys ≤ t.calling := by
  refine Actor.invariant (I := fun p => p.shared.pendingToBeDestroyed = false →
    p.shared.userClassInstance = true ∧ ∀ t ∈ p.threads, t.destroys ≤ t.calling) ?_ ?_ ?_ h hp
  · exact fun _ => ⟨rfl, by simp⟩
  · intro _ p i s t _ hI hat hp
    cases hat with
    | pushMessage i hroom =>
        exact ⟨(hI hp).1, Pool.forall_arrive (hI hp).2 (fun _ hu => hu) (Nat.le_refl _)⟩
    | asyncDestroy =>
        exact ⟨(hI hp).1, Pool.forall_arrive (hI hp).2 (fun _ hu => hu) (Nat.le_refl _)⟩
  · intro _ s s' l t r new env _ hI hstep hp
    have hp₀ : s.pendingToBeDestroyed = false := hstep.pending_mono hp
    have halive : s.userClassInstance = true := (hI hp₀).1
    have hthreads := (hI hp₀).2
    have ht : t.destroys ≤ t.calling := hthreads t (by simp)
    have hnew (u : Thread) (hu : u ∈ new) : u.destroys ≤ u.calling := by
      cases hstep with
      | lose c | dropped c => cases c <;> simp_all [Caller.after, Caller.at, Thread.destroys,
          Thread.calling]
      | win c => cases c <;> simp_all [Caller.at, Thread.destroys, Thread.calling]
      | schedule c =>
          rcases List.mem_append.1 hu with hu | hu
          · cases c <;> simp_all [Caller.after, Caller.at, Thread.destroys, Thread.calling]
          · simp [List.mem_singleton.1 hu, Thread.destroys]
      | entryNull hnull => simp [halive] at hnull
      | pending hp' => simp [hp₀] at hp'
      | popNone limit executed i pc hnone hpc =>
          obtain rfl := List.mem_singleton.1 hu
          rcases hpc with rfl | rfl <;> simp [Thread.destroys]
      | execute limit executed i m pc hpc =>
          obtain rfl := List.mem_singleton.1 hu
          rcases hpc with ⟨-, rfl⟩ | ⟨-, rfl⟩ <;> simp [Thread.destroys]
      | _ => simp_all [Thread.destroys, Thread.calling]
    refine ⟨?_, Pool.forall_after hthreads (fun _ hu => hu) hnew⟩
    cases hstep with
    | reset => simp [Thread.destroys, Thread.calling] at ht
    | _ => exact halive

/-- What is left to do before a destruction begins, when the pushes are over. -/
theorem settling_of_exec {A : Actor} {tr : List (ActorPool × ActorAction)} {p : ActorPool}
    (h : A.machine.Exec tr p) (hp : p.shared.pendingToBeDestroyed = false) (hover : PushesOver p) :
    Settling p where
  pending := hp
  alive := (destroys_of_exec h hp).1
  owned := owned_of_exec h
  tracks := tracks_of_exec h
  credit t ht := by
    have hdestroys := (destroys_of_exec h hp).2 t ht
    cases t with
    | producer m i pc =>
        obtain ⟨rfl, -⟩ := (hover.resolve_left (by simp [hp])) _ ht m i pc rfl
        exact ⟨le_rfl, fun _ => rfl⟩
    | destroyer k pc =>
        cases pc with
        | setPendingToBeDestroyed => exact ⟨le_rfl, fun _ => rfl⟩
        | _ => simp [Thread.destroys, Thread.calling] at hdestroys
    | activation pc =>
        have hzero : (Thread.activation pc).destroys = 0 := Nat.le_zero.1 hdestroys
        exact ⟨activation_credit_nonneg pc, fun howns => activation_credit_eq_zero howns hzero⟩

/-- **Every step of a thread leaves fewer steps**, when the pushes are over. -/
theorem stepsLeft_lt {A : Actor} {tr : List (ActorPool × ActorAction)} {env : Env}
    {s s' : ActorState} {l r new : List Thread} {t : Thread}
    (h : A.machine.Exec tr ⟨s, l ++ t :: r⟩) (hover : PushesOver ⟨s, l ++ t :: r⟩)
    (hrun : A.run s t env = some (s', new)) :
    PushesOver ⟨s', l ++ new ++ r⟩ ∧
      stepsLeft ⟨s', l ++ new ++ r⟩ < stepsLeft ⟨s, l ++ t :: r⟩ := by
  have hstep := Actor.step_of_run hrun
  have hcount := hstep.mailboxCount_eq
  cases hp : s.pendingToBeDestroyed with
  | true =>
      -- an actor that is being destroyed
      have hp' : s'.pendingToBeDestroyed = true := by
        by_contra hnot
        have := hstep.pending_mono (Bool.not_eq_true _ ▸ hnot)
        simp [hp] at this
      have hlt := closing_lt (l := l) (r := r) hrun fun _ => hp
      refine ⟨Or.inl hp', ?_⟩
      simpa only [stepsLeft, hp, hp', if_true, Nat.zero_add] using hlt
  | false =>
      have hpushes := hover.resolve_left (by simp [hp])
      have hdestroys := (destroys_of_exec h hp).2 t (by simp)
      cases t with
      | producer m i pc =>
          -- the mailbox does not exist
          obtain ⟨rfl, hle⟩ := hpushes _ (by simp) m i pc rfl
          have hnone : s.mailboxSet.push i m = none := by
            by_contra hne
            exact absurd (MailboxSet.push_ne_none_iff.1 hne) (Nat.not_lt.2 hle)
          simp [Actor.run, pushMessageStep, hnone] at hrun
      | destroyer k pc =>
          -- the destruction begins
          cases pc with
          | setPendingToBeDestroyed =>
              have hlt := closing_lt (l := l) (r := r) hrun (by simp)
              obtain ⟨rfl, rfl⟩ := by simpa [Actor.run, asyncDestroyStep, hp] using hrun
              refine ⟨Or.inl rfl, ?_⟩
              simp only [stepsLeft, if_true, Nat.zero_add]
              omega
          | _ => simp [Thread.destroys, Thread.calling] at hdestroys
      | activation pc =>
          have hzero : (Thread.activation pc).destroys = 0 := Nat.le_zero.1 hdestroys
          obtain ⟨hnew, hpotential⟩ := potential_lt (settling_of_exec h hp hover) hzero hrun
          have hle := closing_le (l := l) (r := r) hrun
          have hp' : s'.pendingToBeDestroyed = false := by
            rw [hstep.pending_eq rfl, hp]
          refine ⟨Or.inr (Pool.forall_after hpushes ?_ ?_), ?_⟩
          · intro u hu m i pc' hpush
            simpa only [hcount] using hu m i pc' hpush
          · intro u hu m i pc' hpush
            obtain ⟨pc'', rfl⟩ := hnew u hu
            cases hpush
          · have hmul := Nat.mul_le_mul_left (s.mailboxSet.mailboxCount + 11) hpotential
            simp only [stepsLeft, hp, hp', hcount, Bool.false_eq_true, if_false]
            rw [Nat.mul_succ] at hmul
            omega

/-- **The actor comes to rest under every schedule.**  From every state that an actor reaches and in
which the pushes are over, the threads can take no more than a certain number of steps, in whatever
order. -/
theorem halts_of_exec {A : Actor} {tr : List (ActorPool × ActorAction)} {p : ActorPool}
    (h : A.machine.Exec tr p) (hover : PushesOver p) :
    A.machine.Halts PoolAction.IsRun p := by
  refine Machine.halts_of_potential (I := fun p => (∃ tr, A.machine.Exec tr p) ∧ PushesOver p)
    stepsLeft ?_ ⟨⟨tr, h⟩, hover⟩
  rintro ⟨s, ts⟩ a p' ⟨⟨tr, hex⟩, hI⟩ ha hn
  cases a with
  | arrive i => exact absurd ha id
  | run n env =>
      obtain ⟨l, t, r, s', new, hthreads, -, hrun, rfl⟩ := ThreadProgram.next_run_iff.1 hn
      obtain rfl : ts = l ++ t :: r := hthreads
      obtain ⟨hover', hlt⟩ := stepsLeft_lt hex hI hrun
      exact ⟨⟨⟨_, hex.step hn⟩, hover'⟩, hlt⟩

end ExActor
