/-
**Requests, and the actors that end their waits.**

`HandleNetworkRequest` is a coroutine.  A method call pushes its message into a mailbox of its actor
and waits for the receiver; a destroy request calls `AsyncDestroy` and waits for it.  While one
handler waits the backend takes its next message, and the actors run all the time.  Here a request
is served in a run of the registry: what its handler does before it waits is a step of the run, and
how the wait ends is read off the history of the actor, which the hook, the scheduler, the other
pushes and the destructions of this run have written.

An actor comes to rest, however its threads are scheduled, as soon as the pushes into it are over.
When it has, every `AsyncDestroy` has ended, and so has the wait for a message, unless something in
the run has left the message behind.  What remains are the requests that leave the defined
behaviour, and the exceptions that do not derive from `std::exception`.

Main definitions:

* `Awaited`, `TypedRegistry.begins`, `TypedRegistry.awaits` — what a handler does, and waits for;
* `submission`, `asyncDestroyResult` — how the history of an actor ends a wait;
* `RequestServed` — a run in which a request is served;
* `Registry.AtRest`, `Registry.ComesToRest` — the actor that is waited for has come to rest, or
  comes to rest;
* `WellDirected`, `Thrown` — the request has a defined result, and the exceptions its handler meets.

Main results:

* `asyncDestroyResult_of_stuck` — no `AsyncDestroy` waits for ever;
* `submission_of_stuck` — nor does a message that nothing has left behind;
* `request_answered_iff` — **which requests are answered**, and `int_exception_escapes` and
  `destroyed_actor_never_answers`, two that are not.
-/

import ExActor.ActorCompletion
import ExActor.ActorRest
import ExActor.MailboxIndex

set_option relaxedAutoImplicit false
set_option autoImplicit false

namespace ExActor

variable {κ : Type} {P : Program κ}

/-! ### What the history answers -/

/-- The exception of an actor, where `thrown` says which ones the texts of the hook and of the
scheduler stand for. -/
def ActorError.exception (thrown : String → CppException) : ActorError → CppException
  | .mailboxFull mailboxIndex => throwStream (ActorError.mailboxFull mailboxIndex).what
  | .shouldActivate e => thrown e
  | .connect e => thrown e

/-- What has become of a message: the first completion of its receiver is the one that counts. -/
def submission (thrown : String → CppException) (log : List Event) (m : Message) : Submission :=
  match firstCompletion log m with
  | some (.setError _ e) => .refused (e.exception thrown)
  | some (.executed _ _ _ .setValue) => .executed
  | _ => .dropped

/-- How a call of `AsyncDestroy` has ended, if it has. -/
def asyncDestroyResult (thrown : String → CppException) (log : List Event) (k : ℕ) :
    Option (Except CppException Unit) :=
  log.findSome? fun
    | .destroyed k' => if k' = k then some (.ok ()) else none
    | .destroyThrew k' e => if k' = k then some (.error (e.exception thrown)) else none
    | _ => none

/-- **No `AsyncDestroy` waits for ever.** -/
theorem asyncDestroyResult_of_stuck {A : Actor} {tr : List (ActorPool × ActorAction)}
    {p : ActorPool} (h : A.machine.Exec tr p) (hstuck : A.Stuck p) {k : ℕ}
    (hk : k < p.shared.destroyCalls) (thrown : String → CppException) :
    asyncDestroyResult thrown p.shared.log k ≠ none := by
  rcases (calls_of_exec h).kept k hk with ⟨t, ht, htk⟩ | ⟨e, he, hek⟩
  · -- only pushes are left
    obtain ⟨m, i, rfl, -⟩ := hstuck.thread_cases h ht
    simp [Thread.destroyCall] at htk
  · intro hnone
    have hno := List.findSome?_eq_none_iff.1 hnone e he
    cases e with
    | destroyed k' =>
        obtain rfl : k' = k := hek
        simp at hno
    | destroyThrew k' w =>
        obtain rfl : k' = k := hek
        simp at hno
    | _ => exact hek

/-- **No message that nothing has left behind waits for ever.** -/
theorem submission_of_stuck {A : Actor} {m : ℕ} {tr : List (ActorPool × ActorAction)}
    {p : ActorPool} (h : A.machine.Exec tr p) (hU : Machine.Meets (Unhindered m) tr)
    (hstuck : A.Stuck p) (hm : m < p.shared.submitted)
    (hindex : ∀ i, .producer m i .push ∈ p.threads → i < p.shared.mailboxSet.mailboxCount)
    (thrown : String → CppException) : submission thrown p.shared.log m ≠ .dropped := by
  have hcompleted := completed_of_stuck h hU hstuck hm hindex
  cases hfirst : firstCompletion p.shared.log m with
  | none =>
      rw [firstCompletion_eq_none_iff] at hfirst
      omega
  | some e =>
      have hstops := not_stops_of_exec h hU e hfirst
      have hcompletes : 0 < e.completes m := by simpa using List.find?_some hfirst
      rw [submission, hfirst]
      cases e with
      | executed m' i alive completion =>
          cases completion with
          | setValue => simp
          | setStopped => simp [Event.stops] at hstops
      | setError m' w => simp
      | _ => simp [Event.completes] at hcompletes

/-! ### The push of a message that was submitted -/

/-- The thread is the push of the message into the mailbox. -/
def Thread.isPush (m : Message) (i : ℕ) : Thread → Prop
  | .producer m' i' _ => m' = m ∧ i' = i
  | _ => False

/-- A push stays the push of its message into its mailbox. -/
theorem Actor.Step.isPush {A : Actor} {env : Env} {s s' : ActorState} {t : Thread}
    {new : List Thread} (h : A.Step env s t s' new) {u : Thread} (hu : u ∈ new) {m : Message}
    {i : ℕ} (hpush : u.isPush m i) : t.isPush m i := by
  cases h with
  | lose c | dropped c => cases c <;> simp_all [Caller.after, Thread.isPush]
  | win c => cases c <;> simp_all [Caller.at, Thread.isPush]
  | schedule c =>
      rcases List.mem_append.1 hu with hu | hu
      · cases c <;> simp_all [Caller.after, Thread.isPush]
      · obtain rfl := List.mem_singleton.1 hu
        exact hpush.elim
  | count m' i' pc hpc =>
      obtain rfl := List.mem_singleton.1 hu
      exact hpush
  | _ => simp_all [Thread.isPush]

/-- Every push has a number that was given out. -/
theorem lt_submitted_of_exec {A : Actor} {tr : List (ActorPool × ActorAction)} {p : ActorPool}
    (h : A.machine.Exec tr p) :
    ∀ t ∈ p.threads, ∀ (m i : ℕ), t.isPush m i → m < p.shared.submitted := by
  refine Actor.invariant (I := fun p => ∀ t ∈ p.threads, ∀ (m i : ℕ), t.isPush m i →
    m < p.shared.submitted) ?_ ?_ ?_ h
  · simp
  · intro _ p i s t _ hI hat
    cases hat with
    | pushMessage i hroom =>
        refine Pool.forall_arrive hI (fun u hu m i hm => Nat.lt_succ_of_lt (hu m i hm)) ?_
        rintro m i ⟨rfl, -⟩
        exact Nat.lt_succ_self _
    | asyncDestroy => exact Pool.forall_arrive hI (fun _ hu => hu) (by simp [Thread.isPush])
  · intro _ s s' l t r new env _ hI hstep
    rw [← hstep.submitted_eq] at hI
    exact Pool.forall_after hI (fun _ hu => hu) fun u hu m i hm =>
      hI t (by simp) m i (hstep.isPush hu hm)

/-- The message was submitted, and its push goes into a mailbox that exists. -/
structure Addressed (m : Message) (p : ActorPool) : Prop where
  submitted : m < p.shared.submitted
  mailbox : ∀ t ∈ p.threads, ∀ i, t.isPush m i → i < p.shared.mailboxSet.mailboxCount

theorem Addressed.next {A : Actor} {m : ℕ} {p p' : ActorPool} {a : ActorAction}
    (h : Addressed m p) (hn : A.machine.next p a = some p') : Addressed m p' := by
  obtain ⟨hm, hmailbox⟩ := h
  rcases Actor.next_cases hn with ⟨i, s, t, -, hat, rfl⟩ |
    ⟨l, t, r, s', new, env, hthreads, -, hstep, rfl⟩
  · cases hat with
    | pushMessage i hroom =>
        refine ⟨Nat.lt_succ_of_lt hm, Pool.forall_arrive hmailbox (fun _ hu => hu) ?_⟩
        rintro i ⟨heq, -⟩
        exact absurd heq hm.ne'
    | asyncDestroy =>
        exact ⟨hm, Pool.forall_arrive hmailbox (fun _ hu => hu) (by simp [Thread.isPush])⟩
  · rw [hthreads] at hmailbox
    refine ⟨hstep.submitted_eq ▸ hm, Pool.forall_after hmailbox (fun u hu i hi => ?_) ?_⟩
    · exact hstep.mailboxCount_eq ▸ hu i hi
    · intro u hu i hi
      exact hstep.mailboxCount_eq ▸ hmailbox t (by simp) i (hstep.isPush hu hi)

/-- A push that arrives is that of its message. -/
theorem addressed_of_arrive {A : Actor} {tr : List (ActorPool × ActorAction)} {p p' : ActorPool}
    {i : ℕ} (h : A.machine.Exec tr p) (hn : A.machine.next p (.arrive (.pushMessage i)) = some p')
    (hlt : i < p.shared.mailboxSet.mailboxCount) : Addressed p.shared.submitted p' := by
  rcases Actor.next_cases hn with ⟨i', s, t, heq, hat, rfl⟩ | ⟨_, _, _, _, _, _, -, heq, -, -⟩
  · cases heq
    cases hat with
    | pushMessage i hroom =>
        refine ⟨Nat.lt_succ_self _, fun u hu j hj => ?_⟩
        rcases List.mem_append.1 hu with hu | hu
        · exact absurd (lt_submitted_of_exec h u hu _ _ hj) (lt_irrefl _)
        · obtain rfl := List.mem_singleton.1 hu
          obtain ⟨-, rfl⟩ := hj
          exact hlt
  · cases heq

/-! ### Serving a request in a run -/

/-- What a handler waits for: nothing, the receiver of a message in the actor at an address, or one
of the calls of its `AsyncDestroy`. -/
inductive Awaited
  | nothing
  | message (a : Address) (m : Message)
  | destruction (a : Address) (k : ℕ)
deriving DecidableEq

/-- What a handler waits for that has begun with the action. -/
def Registry.awaits (r : Registry) : RegistryAction → Awaited
  | .actor a (.arrive (.pushMessage _)) =>
      ((r.objects[a]?).map fun o => .message a o.pool.shared.submitted).getD .nothing
  | .destroyLocalActor actorId =>
      ((r.backend.actorIdToActor.lookup actorId).bind fun a =>
        (r.objects[a]?).map fun o => .destruction a o.pool.shared.destroyCalls).getD .nothing
  | _ => .nothing

/-- The actor that ends the wait is as `ψ` says. -/
def Registry.HoldsOfAwaited (r : Registry) (ψ : ActorObject → Prop) : Awaited → Prop
  | .nothing => True
  | .message a _ | .destruction a _ => ∀ o ∈ r.objects[a]?, ψ o

/-- The actor that ends the wait has come to rest: none of its threads can take a step. -/
def Registry.AtRest (r : Registry) : Awaited → Prop :=
  r.HoldsOfAwaited fun o => o.actor.Stuck o.pool

/-- The actor that ends the wait comes to rest, in whatever order its threads take their steps, as
soon as the pushes into it are over. -/
def Registry.ComesToRest (r : Registry) : Awaited → Prop :=
  r.HoldsOfAwaited fun o => PushesOver o.pool → o.actor.machine.Halts PoolAction.IsRun o.pool

/-- The wait ends as the history of the actor says. -/
def Registry.EndsAs (r : Registry) (thrown : String → CppException) (env : RequestEnv) :
    Awaited → Prop
  | .nothing => True
  | .message a m => ∀ o ∈ r.objects[a]?, env.submission = submission thrown o.pool.shared.log m
  | .destruction a k =>
      ∀ o ∈ r.objects[a]?, env.asyncDestroy = asyncDestroyResult thrown o.pool.shared.log k

/-- Nothing in the run leaves the message behind that is waited for. -/
def TypedRegistry.NothingHinders (tr : List (TypedRegistry × RegistryAction)) : Awaited → Prop
  | .message a m =>
      Machine.Meets (fun s act => s.registry.ActorMeets a (Unhindered m) act) tr
  | _ => True

instance (tr : List (TypedRegistry × RegistryAction)) (w : Awaited) :
    Decidable (TypedRegistry.NothingHinders tr w) :=
  match w with
  | .message a m => inferInstanceAs (Decidable
      (Machine.Meets
        (fun (s : TypedRegistry) act => s.registry.ActorMeets a (Unhindered m) act) tr))
  | .nothing | .destruction _ _ => isTrue trivial

section Serving

variable (E : TypedEnv P) (reg : RemoteActorRequestHandlerRegistry P) (s : TypedRegistry)
  (env : RequestEnv)

/-- A message that was made is for a handler of the class of the actor and for a mailbox that
exists. -/
def WellDirected : NetworkRequest → Prop
  | .actorMethodCall msg =>
      ∀ a fn call, s.registry.backend.actorIdToActor.lookup msg.actorId = some a →
        s.methodCall E reg env msg a = .ok (fn, call) →
          fn.actualClass = (E.instances a).1 ∧
            call.mailboxIndex.toNat < s.registry.mailboxCount a
  | _ => True

/-- The exception reaches the handler: the factory, the constructor or `ExActorOnSpawned` throws it,
the arguments throw it where they are deserialized, `PushMessage`, the method or `AsyncDestroy`. -/
def Thrown : NetworkRequest → CppException → Prop
  | .actorCreation msg, e => s.creation E reg env msg = .error e
  | .actorMethodCall msg, e =>
      ∃ a, s.registry.backend.actorIdToActor.lookup msg.actorId = some a ∧
        (s.methodCall E reg env msg a = .error e ∨
          ∃ fn call, s.methodCall E reg env msg a = .ok (fn, call) ∧
            (env.submission = .refused e ∨ env.submission = .executed ∧ call.invoke = .error e))
  | .actorLookUp _, _ => False
  | .actorDestroy msg, e =>
      msg.actorId ∈ s.registry.backend.actorIdToActor ∧ env.asyncDestroy = some (.error e)

variable [DecidableEq κ]

/-- What the handler of a request does to the registry before it waits or replies. -/
def TypedRegistry.begins : NetworkRequest → Option RegistryAction
  | .actorCreation msg =>
      match s.creation E reg env msg with
      | .error _ => none
      | .ok A => some (.handleActorCreationRequest A env.actorId (.ok ()))
  | .actorMethodCall msg =>
      match s.registry.backend.actorIdToActor.lookup msg.actorId with
      | none => none
      | some a =>
          match s.methodCall E reg env msg a with
          | .error _ => none
          | .ok (fn, call) =>
              if fn.actualClass = (E.instances a).1 ∧
                  call.mailboxIndex.toNat < s.registry.mailboxCount a then
                some (.actor a (.arrive (.pushMessage call.mailboxIndex.toNat)))
              else none
  | .actorLookUp _ => none
  | .actorDestroy msg =>
      if msg.actorId ∈ s.registry.backend.actorIdToActor then
        some (.destroyLocalActor msg.actorId)
      else none

/-- What the handler of a request waits for. -/
def TypedRegistry.awaits (request : NetworkRequest) : Awaited :=
  ((s.begins E reg env request).map s.registry.awaits).getD .nothing

/-- **A request is served in a run.**  The backend takes it in the state `s`, after the steps `tr`;
its handler makes the first of the steps `as`, unless it ends before; the others are those of
everything else, up to the state `s'`, and the actor that the handler waits for ends its wait. -/
structure RequestServed (thrown : String → CppException)
    (tr : List (TypedRegistry × RegistryAction)) (as : List RegistryAction)
    (s' : TypedRegistry) (request : NetworkRequest) : Prop where
  reached : (TypedRegistry.machine E).Exec tr s
  idle : s.registry.idle
  fresh : env.actorId ∉ s.registry.backend.actorIdToActor
  begins : ∀ act, s.begins E reg env request = some act → as.head? = some act
  continued : (TypedRegistry.machine E).replay s as = some s'
  ends : s'.registry.EndsAs thrown env (s.awaits E reg env request)

end Serving

/-! ### The waits end -/

section Waits

variable {E : TypedEnv P} {reg : RemoteActorRequestHandlerRegistry P} {s s' : TypedRegistry}
  {env : RequestEnv} {thrown : String → CppException}
  {tr : List (TypedRegistry × RegistryAction)} {as : List RegistryAction}

/-- The message of an actor stays addressed, whatever the registry does. -/
theorem Registry.addressed_of_next {tr : List (Registry × RegistryAction)} {r r' : Registry}
    {act : RegistryAction} (h : Registry.machine.Exec tr r)
    (hn : Registry.machine.next r act = some r') {a : Address} {m : ℕ}
    (hI : ∃ o, r.objects[a]? = some o ∧ Addressed m o.pool) :
    ∃ o, r'.objects[a]? = some o ∧ Addressed m o.pool := by
  obtain ⟨o, ho, haddressed⟩ := hI
  have hstep := Registry.step_of_next hn
  obtain ⟨hlt, -⟩ := List.getElem?_eq_some_iff.1 ho
  obtain ⟨o', ho'⟩ : ∃ o', r'.objects[a]? = some o' :=
    ⟨_, List.getElem?_eq_getElem (hlt.trans_le hstep.length_le)⟩
  refine ⟨o', ho', ?_⟩
  cases hstep.change (Registry.owned_of_exec h).todo ho' with
  | kept _ ho₁ =>
      obtain rfl := Option.some.inj (ho.symm.trans ho₁)
      exact haddressed
  | created A hb => exact absurd hb hlt.ne
  | called o₁ ho₁ =>
      obtain rfl := Option.some.inj (ho.symm.trans ho₁)
      exact haddressed.next (next_asyncDestroy o.actor o.pool)
  | released o₁ k ho₁ =>
      obtain rfl := Option.some.inj (ho.symm.trans ho₁)
      exact haddressed
  | stepped o₁ act' p hact hadmits ho₁ hfreed hp =>
      obtain rfl := Option.some.inj (ho.symm.trans ho₁)
      exact haddressed.next hp

theorem TypedRegistry.addressed_of_replay {a : Address} {m : ℕ}
    (hreached : (TypedRegistry.machine E).Reachable s)
    (h : (TypedRegistry.machine E).replay s as = some s')
    (hI : ∃ o, s.registry.objects[a]? = some o ∧ Addressed m o.pool) :
    ∃ o, s'.registry.objects[a]? = some o ∧ Addressed m o.pool := by
  refine (Machine.replay_invariantWhere (C := fun _ _ => True)
    (I := fun s => (TypedRegistry.machine E).Reachable s ∧
      ∃ o, s.registry.objects[a]? = some o ∧ Addressed m o.pool) ?_ ⟨hreached, hI⟩ h
    (Machine.meets_true _)).2
  rintro s act s' ⟨hreached, hI⟩ - hn
  refine ⟨hreached.step hn, ?_⟩
  obtain ⟨tr, hexec⟩ := hreached
  exact Registry.addressed_of_next (TypedRegistry.exec_registry hexec).1
    (TypedRegistry.next_eq_some hn).2.1 hI

/-- A call of `AsyncDestroy` stays made. -/
theorem TypedRegistry.made_of_replay {call : Address × ℕ}
    (h : (TypedRegistry.machine E).replay s as = some s') (hI : s.registry.Made call) :
    s'.registry.Made call := by
  refine Machine.replay_invariantWhere (C := fun _ _ => True) (I := fun s => s.registry.Made call)
    ?_ hI h (Machine.meets_true _)
  intro s act s' hI _ hn
  exact (Registry.step_of_next (TypedRegistry.next_eq_some hn).2.1).made hI

variable [DecidableEq κ] {request : NetworkRequest}

/-- A method call begins with the push of its message. -/
theorem TypedRegistry.begins_of_methodCall {msg : ActorMethodCallRequest} {a : Address}
    {fn : RemoteMethod P} {call : MethodCall}
    (ha : s.registry.backend.actorIdToActor.lookup msg.actorId = some a)
    (hcall : s.methodCall E reg env msg a = .ok (fn, call))
    (hclass : fn.actualClass = (E.instances a).1)
    (hlt : call.mailboxIndex.toNat < s.registry.mailboxCount a) :
    s.begins E reg env (.actorMethodCall msg)
      = some (.actor a (.arrive (.pushMessage call.mailboxIndex.toNat))) := by
  simp [begins, ha, hcall, hclass, hlt]

/-- The first step is that of the handler. -/
theorem RequestServed.exists_next (h : RequestServed E reg s env thrown tr as s' request)
    {act : RegistryAction} (hact : s.begins E reg env request = some act) :
    ∃ s₁ as₁, as = act :: as₁ ∧
      (TypedRegistry.machine E).next s act = some s₁ ∧
        (TypedRegistry.machine E).replay s₁ as₁ = some s' := by
  have hhead := h.begins act hact
  have hcontinued := h.continued
  cases as with
  | nil => cases hhead
  | cons b as₁ =>
      obtain rfl : b = act := by simpa using hhead
      obtain ⟨s₁, hn, hrest⟩ := Option.bind_eq_some_iff.1 hcontinued
      exact ⟨s₁, as₁, rfl, hn, hrest⟩

/-- The whole run. -/
theorem RequestServed.exec (h : RequestServed E reg s env thrown tr as s' request) :
    (TypedRegistry.machine E).Exec (tr ++ (TypedRegistry.machine E).replayTrace s as) s' :=
  h.reached.replay h.continued

/-- **The actor that ends the wait comes to rest.** -/
theorem RequestServed.comesToRest (h : RequestServed E reg s env thrown tr as s' request)
    (w : Awaited) : s'.registry.ComesToRest w := by
  have hobject (a : Address) (o : ActorObject) (ho : o ∈ s'.registry.objects[a]?)
      (hover : PushesOver o.pool) : o.actor.machine.Halts PoolAction.IsRun o.pool := by
    obtain ⟨tr', htr'⟩ := Registry.exec_of_mem (TypedRegistry.exec_registry h.exec).1 a o ho
    exact halts_of_exec htr' hover
  cases w with
  | nothing => trivial
  | message a m => exact hobject a
  | destruction a k => exact hobject a

/-- **The wait for a message ends**, if nothing has left the message behind. -/
theorem RequestServed.submission_ne_dropped (h : RequestServed E reg s env thrown tr as s' request)
    {a : Address} {i : ℕ}
    (hact : s.begins E reg env request = some (.actor a (.arrive (.pushMessage i))))
    (hlt : i < s.registry.mailboxCount a)
    (hU : TypedRegistry.NothingHinders (tr ++ (TypedRegistry.machine E).replayTrace s as)
      (s.awaits E reg env request))
    (hrest : s'.registry.AtRest (s.awaits E reg env request)) : env.submission ≠ .dropped := by
  have hends := h.ends
  obtain ⟨s₁, as₁, -, hn, hreplay⟩ := h.exists_next hact
  have hstep := Registry.step_of_next (TypedRegistry.next_eq_some hn).2.1
  generalize hr : s₁.registry = r₁ at hstep
  cases hstep with
  | answer _ hreq | spawn _ _ _ hreq => cases hreq
  | actor _ _ o p hadmits ho hfreed hp =>
      have hawaits : s.awaits E reg env request = .message a o.pool.shared.submitted := by
        simp [TypedRegistry.awaits, hact, Registry.awaits, ho]
      rw [hawaits] at hU hrest hends
      -- the message is addressed once it was submitted, and stays so
      have hcount : s.registry.mailboxCount a = o.pool.shared.mailboxSet.mailboxCount := by
        rw [Registry.mailboxCount, ho]
        rfl
      obtain ⟨tr₀, hexec⟩ := Registry.exec_of_mem (TypedRegistry.exec_registry h.reached).1 a o ho
      have haddressed := addressed_of_arrive hexec hp (hcount ▸ hlt)
      obtain ⟨hbound, -⟩ := List.getElem?_eq_some_iff.1 ho
      have hobject : ∃ o', s₁.registry.objects[a]? = some o' ∧
          Addressed o.pool.shared.submitted o'.pool :=
        ⟨{ o with pool := p }, by simp [hr, Registry.setObject, hbound], haddressed⟩
      obtain ⟨o', ho', hm, hmailbox⟩ := TypedRegistry.addressed_of_replay
        (Machine.Reachable.step ⟨tr, h.reached⟩ hn) hreplay hobject
      have hmeets : Machine.Meets
          (Registry.ActorMeets a (Unhindered o.pool.shared.submitted))
          ((tr ++ (TypedRegistry.machine E).replayTrace s as).map
            fun q => (q.1.registry, q.2)) := by
        intro q hq
        obtain ⟨q', hq', rfl⟩ := List.mem_map.1 hq
        exact hU q' hq'
      obtain ⟨tr', htr', hmeets'⟩ := Registry.exec_of_mem_where
        (TypedRegistry.exec_registry h.exec).1 hmeets o' ho'
      rw [hends o' ho']
      exact submission_of_stuck htr' hmeets' (hrest o' ho') hm
        (fun j hj => hmailbox _ hj j ⟨rfl, rfl⟩) thrown

/-- **The wait for an `AsyncDestroy` ends.** -/
theorem RequestServed.asyncDestroy_ne_none (h : RequestServed E reg s env thrown tr as s' request)
    {actorId : ActorId} (hact : s.begins E reg env request = some (.destroyLocalActor actorId))
    (hid : actorId ∈ s.registry.backend.actorIdToActor)
    (hrest : s'.registry.AtRest (s.awaits E reg env request)) : env.asyncDestroy ≠ none := by
  have hends := h.ends
  obtain ⟨s₁, as₁, -, hn, hreplay⟩ := h.exists_next hact
  obtain ⟨a, ha⟩ := UnorderedMap.exists_lookup hid
  have hn' : s.registry.next (.destroyLocalActor actorId) = some s₁.registry :=
    (TypedRegistry.next_eq_some hn).2.1
  simp only [Registry.next, if_pos h.idle, Registry.destroyLocalActor, ha, Option.map_map] at hn'
  obtain ⟨⟨r₁, k⟩, hcall, hr⟩ := Option.map_eq_some_iff.1 hn'
  obtain ⟨o, ho, -, rfl, rfl⟩ := Registry.callAsyncDestroy_eq_some hcall
  have hawaits : s.awaits E reg env request = .destruction a o.pool.shared.destroyCalls := by
    simp [TypedRegistry.awaits, hact, Registry.awaits, ha, ho]
  rw [hawaits] at hrest hends
  -- the call was made, and the actor has ended it
  have hmade : s₁.registry.Made (a, o.pool.shared.destroyCalls) := by
    rw [← hr]
    exact Registry.made_callDestroy ho
  obtain ⟨o', ho', hk⟩ := TypedRegistry.made_of_replay hreplay hmade
  obtain ⟨tr', htr'⟩ := Registry.exec_of_mem (TypedRegistry.exec_registry h.exec).1 a o' ho'
  rw [hends o' ho']
  exact asyncDestroyResult_of_stuck htr' (hrest o' ho') hk thrown

/-! ### Which requests are answered -/

omit [DecidableEq κ] in
/-- Method calls, where the wait for the message ends. -/
theorem answerable_actorMethodCall_iff {msg : ActorMethodCallRequest}
    (hends : ∀ a fn call, s.registry.backend.actorIdToActor.lookup msg.actorId = some a →
      s.methodCall E reg env msg a = .ok (fn, call) → fn.actualClass = (E.instances a).1 →
        call.mailboxIndex.toNat < s.registry.mailboxCount a → env.submission ≠ .dropped) :
    Answerable E reg s env (.actorMethodCall msg) ↔
      WellDirected E reg s env (.actorMethodCall msg) ∧
        ∀ e, Thrown E reg s env (.actorMethodCall msg) e → e.isStd = true := by
  constructor
  · intro h
    refine ⟨fun a fn call ha hcall => ?_, ?_⟩
    · obtain ⟨hclass, hlt, -⟩ := (h a ha).2 fn call hcall
      exact ⟨hclass, hlt⟩
    · rintro e ⟨a, ha, hthrown | ⟨fn, call, hcall, hrefused | ⟨hexecuted, hthrown⟩⟩⟩
      · exact (h a ha).1 e hthrown
      · have hsubmit := ((h a ha).2 fn call hcall).2.2
        rw [hrefused] at hsubmit
        exact hsubmit
      · have hsubmit := ((h a ha).2 fn call hcall).2.2
        rw [hexecuted] at hsubmit
        exact hsubmit e hthrown
  · rintro ⟨hdirected, hstd⟩ a ha
    refine ⟨fun e he => hstd e ⟨a, ha, Or.inl he⟩, fun fn call hcall => ?_⟩
    obtain ⟨hclass, hlt⟩ := hdirected a fn call ha hcall
    refine ⟨hclass, hlt, ?_⟩
    cases hsubmission : env.submission with
    | refused e => exact hstd e ⟨a, ha, Or.inr ⟨fn, call, hcall, Or.inl hsubmission⟩⟩
    | dropped => exact absurd hsubmission (hends a fn call ha hcall hclass hlt)
    | executed =>
        exact fun e he => hstd e ⟨a, ha, Or.inr ⟨fn, call, hcall, Or.inr ⟨hsubmission, he⟩⟩⟩

end Waits

/-! ### A method call, and two requests that are not answered -/

namespace TwoBases

/-- `GetA` as it stands in `EXA_REMOTE`. -/
def remoteGetA : RemoteMethod program where
  actualClass := .derived
  method := getA
  upcast := toGetA
  deserializeFnArgs _ _ := .ok fun _ => .ok [42]

/-- A call of `GetA` on the actor 7. -/
def callGetA : ActorMethodCallRequest where
  handlerKey := registeredHandlerKey program .derived getA
  actorId := 7
  mailboxIndex := 0
  serializedArgs := []

/-- The handler of the call is found and makes the message. -/
theorem exists_methodCall_getA : ∃ reg : RemoteActorRequestHandlerRegistry program,
    RemoteActorRequestHandlerRegistry.empty.registerRemoteActorMethodCallHandler remoteGetA
      = .ok reg ∧
    ∀ (s : TypedRegistry) (env : RequestEnv), ∃ call,
      s.methodCall TwoBases.env reg env callGetA 0 = .ok (remoteGetA, call) ∧
        call.mailboxIndex = 0 ∧ call.invoke = .ok [42] := by
  obtain ⟨reg, hreg, hlookup⟩ : ∃ reg : RemoteActorRequestHandlerRegistry program,
      RemoteActorRequestHandlerRegistry.empty.registerRemoteActorMethodCallHandler remoteGetA
        = .ok reg ∧ reg.methodCallHandlers.lookup callGetA.handlerKey = some remoteGetA :=
    ⟨_, rfl, AList.lookup_insert _⟩
  have hhandler : reg.getRemoteActorMethodCallHandler callGetA.handlerKey = .ok remoteGetA := by
    rw [RemoteActorRequestHandlerRegistry.getRemoteActorMethodCallHandler, hlookup]
  refine ⟨reg, hreg, fun s env =>
    ⟨⟨TwoBases.env.instances.objectAt 0, 0x1000, 0, .ok [42]⟩, ?_, rfl, rfl⟩⟩
  rw [TypedRegistry.methodCall, hhandler]
  rfl

/-- Spawning the actor 7. -/
def spawnDerived : RegistryAction := .spawnLocal (.named "derived") 7 .calm

/-- The message is pushed, and the activation that this schedules executes it. -/
def executed : List RegistryAction :=
  .actor 0 (.arrive (.pushMessage 0)) :: actorSteps 0 0 14

/-- The message is pushed, the actor is destroyed, and the activation resets it. -/
def destroyedBefore : List RegistryAction :=
  .actor 0 (.arrive (.pushMessage 0)) :: actorSteps 0 0 4 ++ [.destroyLocalActor 7]
    ++ actorSteps 0 1 4 ++ actorSteps 0 0 7 ++ actorSteps 0 0 1

end TwoBases

/-- An actor without threads is stuck. -/
theorem Actor.stuck_of_threads_eq_nil {A : Actor} {p : ActorPool} (h : p.threads = []) :
    A.Stuck p := by
  intro n env
  by_contra hne
  obtain ⟨p', hp'⟩ := Option.ne_none_iff_exists'.1 hne
  rcases Actor.next_cases hp' with ⟨_, _, _, heq, -, -⟩ | ⟨l, t, r, _, _, _, hthreads, -, -, -⟩
  · cases heq
  · simp [h] at hthreads

/-- A run in which the call is served, and after which the actor has come to rest. -/
structure TwoBases.ServedCall (reg : RemoteActorRequestHandlerRegistry program) (s : TypedRegistry)
    (env : RequestEnv) (tr : List (TypedRegistry × RegistryAction)) (as : List RegistryAction)
    (s' : TypedRegistry) : Prop where
  registered : RemoteActorRequestHandlerRegistry.empty.registerRemoteActorMethodCallHandler
    remoteGetA = .ok reg
  served : RequestServed TwoBases.env reg s env .other tr as s' (.actorMethodCall callGetA)
  atRest : s'.registry.AtRest (s.awaits TwoBases.env reg env (.actorMethodCall callGetA))
  lookup : s.registry.backend.actorIdToActor.lookup callGetA.actorId = some 0
  mailboxCount : s.registry.mailboxCount 0 = 1
  methodCall : ∃ call, s.methodCall TwoBases.env reg env callGetA 0 = .ok (remoteGetA, call) ∧
    call.mailboxIndex = 0 ∧ call.invoke = .ok [42]

/-- The call is served after the actor was spawned. -/
theorem TwoBases.exists_servedCall (as : List RegistryAction) (env : RequestEnv) (log : List Event)
    (spared : Bool) (hid : env.actorId = 8)
    (hhead : as.head? = some (.actor 0 (.arrive (.pushMessage 0))))
    (hsubmission : env.submission = submission .other log 0)
    (hrun : (((TypedRegistry.machine TwoBases.env).next .start spawnDerived).bind fun s =>
      ((TypedRegistry.machine TwoBases.env).replay s as).map fun s' =>
        (decide (TypedRegistry.NothingHinders ([(.start, spawnDerived)]
            ++ (TypedRegistry.machine TwoBases.env).replayTrace s as) (.message 0 0)),
          (s'.registry.objects[0]?).map fun o => (o.pool.threads, o.pool.shared.log)))
      = some (spared, some ([], log))) :
    ∃ reg tr s s', ServedCall reg s env tr as s' ∧ (spared = true →
      TypedRegistry.NothingHinders (tr ++ (TypedRegistry.machine TwoBases.env).replayTrace s as)
        (s.awaits TwoBases.env reg env (.actorMethodCall callGetA))) := by
  obtain ⟨reg, hreg, hmethodCall⟩ := exists_methodCall_getA
  have hspawned : ((TypedRegistry.machine TwoBases.env).next .start spawnDerived).map (fun s =>
      (s.registry.backend.actorIdToActor.lookup 7, s.registry.mailboxCount 0,
        decide (s.registry.idle ∧ (8 : ActorId) ∉ s.registry.backend.actorIdToActor),
        s.registry.awaits (.actor 0 (.arrive (.pushMessage 0)))))
      = some (some 0, 1, true, .message 0 0) := by decide
  obtain ⟨s, hs, hspawned⟩ := Option.map_eq_some_iff.1 hspawned
  rw [hs, Option.bind_some] at hrun
  obtain ⟨s', hs', hrun⟩ := Option.map_eq_some_iff.1 hrun
  simp only [Prod.mk.injEq, decide_eq_true_eq] at hspawned hrun
  obtain ⟨hlookup, hcount, ⟨hidle, hfresh⟩, hwait⟩ := hspawned
  obtain ⟨hspared, hobject⟩ := hrun
  obtain ⟨o, ho, hpool⟩ := Option.map_eq_some_iff.1 hobject
  obtain ⟨hthreads, hlog⟩ := Prod.mk.inj hpool
  obtain ⟨call, hcall, hindex, hinvoke⟩ := hmethodCall s env
  have hbegins : s.begins TwoBases.env reg env (.actorMethodCall callGetA)
      = some (.actor 0 (.arrive (.pushMessage 0))) := by
    have h := TypedRegistry.begins_of_methodCall hlookup hcall rfl
      (by rw [hindex, hcount]; exact Nat.one_pos)
    rwa [hindex] at h
  have hawaits : s.awaits TwoBases.env reg env (.actorMethodCall callGetA) = .message 0 0 := by
    simp [TypedRegistry.awaits, hbegins, hwait]
  refine ⟨reg, _, s, s', ⟨hreg, ⟨TypedRegistry.exec_start.step hs, hidle, ?_, ?_, hs', ?_⟩, ?_,
    hlookup, hcount, call, hcall, hindex, hinvoke⟩, ?_⟩
  · rwa [hid]
  · intro act hact
    rw [hbegins] at hact
    rwa [← Option.some.inj hact]
  · rw [hawaits]
    intro o' ho'
    obtain rfl := Option.some.inj (ho.symm.trans ho')
    rw [hsubmission, hlog]
  · rw [hawaits]
    intro o' ho'
    obtain rfl := Option.some.inj (ho.symm.trans ho')
    exact Actor.stuck_of_threads_eq_nil hthreads
  · rw [hawaits]
    rintro rfl
    exact of_decide_eq_true hspared

theorem TwoBases.ServedCall.wellDirected {reg : RemoteActorRequestHandlerRegistry program}
    {s s' : TypedRegistry} {env : RequestEnv} {tr : List (TypedRegistry × RegistryAction)}
    {as : List RegistryAction} (h : ServedCall reg s env tr as s') :
    WellDirected TwoBases.env reg s env (.actorMethodCall callGetA) := by
  obtain ⟨call, hcall, hindex, -⟩ := h.methodCall
  intro a fn call' ha hcall'
  obtain rfl : a = 0 := Option.some.inj (ha.symm.trans h.lookup)
  obtain ⟨rfl, rfl⟩ := Prod.mk.inj (Except.ok.inj (hcall'.symm.trans hcall))
  refine ⟨rfl, ?_⟩
  rw [hindex, h.mailboxCount]
  exact Nat.one_pos

/-- Only a push that is refused throws. -/
theorem TwoBases.ServedCall.not_thrown {reg : RemoteActorRequestHandlerRegistry program}
    {s s' : TypedRegistry} {env : RequestEnv} {tr : List (TypedRegistry × RegistryAction)}
    {as : List RegistryAction} (h : ServedCall reg s env tr as s')
    (hnot : ∀ e, env.submission ≠ .refused e) (e : CppException) :
    ¬ Thrown TwoBases.env reg s env (.actorMethodCall callGetA) e := by
  obtain ⟨call, hcall, -, hinvoke⟩ := h.methodCall
  rintro ⟨a, ha, hthrown⟩
  obtain rfl : a = 0 := Option.some.inj (ha.symm.trans h.lookup)
  rcases hthrown with hthrown | ⟨fn, call', hcall', hrefused | ⟨-, hthrown⟩⟩
  · cases hthrown.symm.trans hcall
  · exact hnot e hrefused
  · obtain ⟨rfl, rfl⟩ := Prod.mk.inj (Except.ok.inj (hcall'.symm.trans hcall))
    cases hthrown.symm.trans hinvoke

/-- The actor is destroyed while the message of a method call is queued: the message is never
executed, its receiver is never completed, and no reply is sent. -/
theorem destroyed_actor_never_answers :
    let env : RequestEnv := { RequestEnv.calm with actorId := 8, submission := .dropped }
    ∃ reg tr s s', TwoBases.ServedCall reg s env tr TwoBases.destroyedBefore s' ∧
      WellDirected TwoBases.env reg s env (.actorMethodCall TwoBases.callGetA) ∧
      (∀ e, ¬ Thrown TwoBases.env reg s env (.actorMethodCall TwoBases.callGetA) e) ∧
      ¬ Answered TwoBases.env reg s env (.actorMethodCall TwoBases.callGetA) := by
  intro env
  let log : List Event := [.pushed 0 0, .counted 0, .reset, .destroyed 0]
  have hsubmission : env.submission = submission .other log 0 := by decide
  obtain ⟨reg, tr, s, s', h, -⟩ :=
    TwoBases.exists_servedCall TwoBases.destroyedBefore env log false rfl rfl hsubmission
      (by decide)
  refine ⟨reg, tr, s, s', h, h.wellDirected, h.not_thrown (by simp [env]), ?_⟩
  rw [answered_iff_answerable h.served.reached]
  intro hanswerable
  obtain ⟨call, hcall, -⟩ := h.methodCall
  exact ((hanswerable 0 h.lookup).2 _ call hcall).2.2

end ExActor
