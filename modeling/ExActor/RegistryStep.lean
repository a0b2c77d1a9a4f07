/-
**What a step of the registry can do.**

`Registry.Step` lists what the messages of the backend, the continuations of its coroutines and the
threads of the actors do, with the conditions under which they do it, and `Registry.Change` says
what that is for the object at one address.  The invariants of the registry are proved by cases on
these two.

The calls of `AsyncDestroy` on one actor are numbered in the order in which they were made, and
every call is still running or has left an event with its number in the history.

Main definitions:

* `Calls` — the numbers of the calls of `AsyncDestroy`;
* `Registry.Step`, `Registry.Change` — what a step can do, and what it does to one object;
* `Registry.actorAction` — which action of an actor an action of the registry is;
* `Registry.Made` — a call of `AsyncDestroy` was made;
* `Registry.Owned` — every actor belongs to the map or to one `DestroyLocalActor`.

Main results:

* `calls_of_exec` — no call of `AsyncDestroy` is lost;
* `Registry.step_of_next` — every step is one of `Registry.Step`;
* `Registry.exec_of_mem_where`, `Registry.beforeJoin_le_one` — every object is in a state that its
  actor reaches, and at most one `AsyncDestroy` of it is before its join;
* `Registry.owned_of_exec` — `Registry.Owned` holds in every reachable state;
* `Registry.live_of_exec` — no actor in the map was released.
-/

import ExActor.Registry

set_option relaxedAutoImplicit false
set_option autoImplicit false

namespace ExActor

/-! ### The calls of `AsyncDestroy` on one actor -/

/-- The event records that the call ended. -/
def Event.ends (k : ℕ) : Event → Prop
  | .destroyed k' => k' = k
  | .destroyThrew k' _ => k' = k
  | _ => False

/-- The calls have the numbers below `destroy_calls`, and each is running or has ended. -/
structure Calls (p : ActorPool) : Prop where
  running : ∀ t ∈ p.threads, ∀ k, t.destroyCall = some k → k < p.shared.destroyCalls
  ended : ∀ e ∈ p.shared.log, ∀ k, e.ends k → k < p.shared.destroyCalls
  kept : ∀ k < p.shared.destroyCalls, (∃ t ∈ p.threads, t.destroyCall = some k) ∨
    ∃ e ∈ p.shared.log, e.ends k

theorem destroyCall_at (c : Caller) (pc pc' : TryActivatePc) :
    (c.at pc).destroyCall = (c.at pc').destroyCall := by cases c <;> rfl

theorem destroyCall_after {c : Caller} {u : Thread} (h : u ∈ c.after) (pc : TryActivatePc) :
    u.destroyCall = (c.at pc).destroyCall := by
  cases c <;> simp_all [Caller.after, Caller.at, Thread.destroyCall]

/-- A thread hands its number on. -/
theorem Actor.Step.destroyCall {A : Actor} {env : Env} {s s' : ActorState} {t : Thread}
    {new : List Thread} (h : A.Step env s t s' new) {u : Thread} (hu : u ∈ new) :
    u.destroyCall = none ∨ u.destroyCall = t.destroyCall := by
  cases h with
  | lose c | dropped c => exact Or.inr (destroyCall_after hu _)
  | win c =>
      obtain rfl := List.mem_singleton.1 hu
      exact Or.inr (destroyCall_at ..)
  | schedule c =>
      rcases List.mem_append.1 hu with hu | hu
      · exact Or.inr (destroyCall_after hu _)
      · obtain rfl := List.mem_singleton.1 hu
        exact Or.inl rfl
  | _ => simp only [List.mem_singleton, List.not_mem_nil] at hu <;> simp [hu, Thread.destroyCall]

/-- A call goes on, or leaves an event. -/
theorem Actor.Step.call_kept {A : Actor} {env : Env} {s s' : ActorState} {t : Thread}
    {new : List Thread} (h : A.Step env s t s' new) {k : ℕ} (ht : t.destroyCall = some k) :
    (∃ u ∈ new, u.destroyCall = some k) ∨ ∃ e ∈ s'.log, e.ends k := by
  cases h with
  | lose c | dropped c | schedule c | win c =>
      cases c <;> simp_all [Caller.after, Caller.at, Thread.destroyCall]
  | setPendingLose k' | joined k' | destroyThrew k' =>
      obtain rfl : k' = k := by simpa [Thread.destroyCall] using ht
      exact Or.inr ⟨_, List.mem_append_right _ (List.mem_singleton_self _), rfl⟩
  | setPending | countDestroy | join =>
      exact Or.inl ⟨_, List.mem_singleton_self _, ht⟩
  | _ => simp [Thread.destroyCall] at ht

/-- Only a call leaves an event with its number. -/
theorem Actor.Step.ends {A : Actor} {env : Env} {s s' : ActorState} {t : Thread}
    {new : List Thread} (h : A.Step env s t s' new) {e : Event} (he : e ∈ s'.log) {k : ℕ}
    (hk : e.ends k) : e ∈ s.log ∨ t.destroyCall = some k := by
  cases h with
  | setPendingLose k' | joined k' | destroyThrew k' =>
      rcases List.mem_append.1 he with he | he
      · exact Or.inl he
      · obtain rfl := List.mem_singleton.1 he
        exact Or.inr (congrArg some hk)
  | hookThrew =>
      rcases List.mem_append.1 he with he | he
      · rcases List.mem_append.1 he with he | he
        · exact Or.inl he
        · obtain rfl := List.mem_singleton.1 he
          exact hk.elim
      · obtain rfl := List.mem_singleton.1 he
        exact hk.elim
  | lose | win | dropped | schedule | setPending | countDestroy | join | start | entryAlive
  | entryNull | alreadyDestroyed | pending | notPending | storeDestroyed | subDestroyed | loadLimit
  | popNone | store | loadZero | loadPos | ret => exact Or.inl he
  | _ =>
      rcases List.mem_append.1 he with he | he
      · exact Or.inl he
      · obtain rfl := List.mem_singleton.1 he
        exact hk.elim

/-- **No call of `AsyncDestroy` is lost**, in every reachable state. -/
theorem calls_of_exec {A : Actor} {tr : List (ActorPool × ActorAction)} {p : ActorPool}
    (h : A.machine.Exec tr p) : Calls p := by
  refine Actor.invariant ?_ ?_ ?_ h
  · exact ⟨by simp, by simp [Actor.initial], by simp [Actor.initial]⟩
  · intro _ p i s t _ hI hat
    obtain ⟨hrunning, hended, hkept⟩ := hI
    cases hat with
    | pushMessage i hroom =>
        refine ⟨Pool.forall_arrive hrunning (fun _ => id) (by simp [Thread.destroyCall]), hended,
          fun k hk => (hkept k hk).imp_left ?_⟩
        rintro ⟨u, hu, huk⟩
        exact ⟨u, List.mem_append_left _ hu, huk⟩
    | asyncDestroy =>
        refine ⟨Pool.forall_arrive hrunning (fun u hu k hk => Nat.lt_succ_of_lt (hu k hk))
          (by simp [Thread.destroyCall]), fun e he k hk => Nat.lt_succ_of_lt (hended e he k hk), ?_⟩
        intro k hk
        rcases Nat.lt_succ_iff_lt_or_eq.1 hk with hk | rfl
        · refine (hkept k hk).imp_left ?_
          rintro ⟨u, hu, huk⟩
          exact ⟨u, List.mem_append_left _ hu, huk⟩
        · exact Or.inl ⟨_, List.mem_append_right _ (List.mem_singleton_self _), rfl⟩
  · intro _ s s' l t r new env _ hI hstep
    obtain ⟨hrunning, hended, hkept⟩ := hI
    have ht := hrunning t (by simp)
    rw [← hstep.destroyCalls_eq] at hrunning hended hkept ht
    refine ⟨Pool.forall_after hrunning (fun _ => id) ?_, ?_, ?_⟩
    · intro u hu k hk
      rcases hstep.destroyCall hu with hnone | hsame
      · simp [hk] at hnone
      · exact ht k (hsame ▸ hk)
    · intro e he k hk
      rcases hstep.ends he hk with hold | hnew
      · exact hended e hold k hk
      · exact ht k hnew
    · intro k hk
      rcases hkept k hk with ⟨u, hu, huk⟩ | ⟨e, he, hek⟩
      · rcases List.mem_append.1 hu with hu | hu
        · exact Or.inl ⟨u, by simp [hu], huk⟩
        · rcases List.mem_cons.1 hu with rfl | hu
          · refine (hstep.call_kept huk).imp_left ?_
            rintro ⟨v, hv, hvk⟩
            exact ⟨v, by simp [hv], hvk⟩
          · exact Or.inl ⟨u, by simp [hu], huk⟩
      · exact Or.inr ⟨e, hstep.log_prefix.subset he, hek⟩

/-- The threads that replace a thread are before the join if it was. -/
theorem Actor.Step.beforeJoin_le {A : Actor} {env : Env} {s s' : ActorState} {t : Thread}
    {new : List Thread} (h : A.Step env s t s' new) :
    (new.map Thread.beforeJoin).sum ≤ t.beforeJoin := by
  cases h with
  | lose | win | dropped => simp
  | schedule c =>
      rw [beforeJoin_at]
      simp [Thread.beforeJoin]
  | count m i pc hpc => rcases hpc with ⟨-, rfl⟩ | ⟨-, rfl⟩ <;> simp [Thread.beforeJoin]
  | _ => simp [Thread.beforeJoin]

/-- A thread of `AsyncDestroy` is one that was called. -/
theorem destroyCall_eq_none {t : Thread} (hc : t.beforeJoin = 0) (hd : t.destroying = 0) :
    t.destroyCall = none := by
  rcases t with ⟨m, i, pc⟩ | ⟨k, pc⟩ | pc
  · rfl
  · cases pc <;> simp [Thread.beforeJoin, Thread.destroying] at hc hd
  · rfl

/-- The pool after `AsyncDestroy` was called. -/
def callDestroy (p : ActorPool) : ActorPool :=
  ⟨{ p.shared with destroyCalls := p.shared.destroyCalls + 1 },
    p.threads ++ [.destroyer p.shared.destroyCalls .setPendingToBeDestroyed]⟩

theorem next_asyncDestroy (A : Actor) (p : ActorPool) :
    A.machine.next p (.arrive .asyncDestroy) = some (callDestroy p) := rfl

/-! ### What a step of the registry can do -/

/-- No `AsyncDestroy` is before its join: the backend is not inside one. -/
def Registry.quiet (r : Registry) : Prop := ∀ o ∈ r.objects, o.pool.total Thread.beforeJoin = 0

/-- The registry with another object at an address. -/
def Registry.setObject (r : Registry) (a : Address) (o : ActorObject) : Registry :=
  { r with objects := r.objects.set a o }

/-- The messages that users and other nodes send to the backend. -/
def RegistryAction.isRequest : RegistryAction → Bool
  | .spawnLocal .. => true
  | .handleActorCreationRequest .. => true
  | .lookUp _ => true
  | .destroyLocalActor _ => true
  | _ => false

/-- What a step can do. -/
inductive Registry.Step (r : Registry) : RegistryAction → Registry → Prop
  | answer (act : RegistryAction) : act.isRequest = true → Step r act r
  | spawn (act : RegistryAction) (A : Actor) (backend : ActorRegistryBackend) :
      act.isRequest = true → r.destroyAll.looping = false →
      backend.actors = r.objects.length :: r.backend.actors →
      Step r act { r with backend, objects := r.objects ++ [⟨A, ⟨A.initial, []⟩, false⟩] }
  | destroyLocal (actorId : ActorId) (a : Address) (o : ActorObject)
      (backend : ActorRegistryBackend) : r.destroyAll.looping = false → r.quiet →
      r.backend.actors.Perm (a :: backend.actors) → r.objects[a]? = some o → o.freed = false →
      r.backend.actorIdToActor.lookup actorId = some a →
      Step r (.destroyLocalActor actorId)
        { r.setObject a { o with pool := callDestroy o.pool } with
          backend, destroyLocals := r.destroyLocals ++ [(a, o.pool.shared.destroyCalls)] }
  | release (i : ℕ) (call : Address × ℕ) (o : ActorObject) : r.quiet →
      r.destroyLocals[i]? = some call → r.ended call → r.objects[call.1]? = some o →
      Step r (.resumeDestroyLocal i)
        { r.setObject call.1 { o with freed := true } with
          destroyLocals := r.destroyLocals.eraseIdx i }
  | beginAll (order : List Address) : r.destroyAll = .notCalled → order.Perm r.backend.actors →
      Step r (.asyncDestroyAllActors order) { r with destroyAll := .loop order [] }
  | callNext (a : Address) (todo : List Address) (spawned : List (Address × ℕ))
      (o : ActorObject) : r.destroyAll = .loop (a :: todo) spawned → r.quiet →
      r.objects[a]? = some o → o.freed = false →
      Step r .destroyNext
        { r.setObject a { o with pool := callDestroy o.pool } with
          destroyAll := .loop todo (spawned ++ [(a, o.pool.shared.destroyCalls)]) }
  | endLoop (spawned : List (Address × ℕ)) : r.destroyAll = .loop [] spawned →
      Step r .destroyNext { r with destroyAll := .awaitJoin spawned }
  | resumeAll (spawned : List (Address × ℕ)) : r.destroyAll = .awaitJoin spawned →
      (∀ call ∈ spawned, r.ended call) →
      Step r .resumeDestroyAll { r with destroyAll := .done spawned }
  | actor (a : Address) (act : ActorAction) (o : ActorObject) (p : ActorPool) :
      r.admits a act = true → r.objects[a]? = some o → o.freed = false →
      o.actor.machine.next o.pool act = some p →
      Step r (.actor a act) (r.setObject a { o with pool := p })

/-! ### Every step is one of these -/

theorem Registry.callAsyncDestroy_eq_some {r r' : Registry} {a : Address} {k : ℕ}
    (h : r.callAsyncDestroy a = some (r', k)) : ∃ o, r.objects[a]? = some o ∧
      o.freed = false ∧ k = o.pool.shared.destroyCalls ∧
      r' = r.setObject a { o with pool := callDestroy o.pool } := by
  unfold callAsyncDestroy actorStep at h
  cases ho : r.objects[a]? with
  | none => simp [ho] at h
  | some o =>
      cases hf : o.freed with
      | true => simp [ho, hf] at h
      | false =>
          simp only [ho, hf, Option.bind_some, next_asyncDestroy, Option.map_some,
            Bool.false_eq_true, if_false, Option.some.injEq, Prod.mk.injEq] at h
          obtain ⟨rfl, rfl⟩ := h
          exact ⟨o, rfl, hf, rfl, by simp [setObject, hf]⟩

/-- A new id adds its actor to the map. -/
theorem actors_insert {b : ActorRegistryBackend} {actorId : ActorId} {a : Address}
    (h : actorId ∉ b.actorIdToActor) (refs : UnorderedMap ActorId SerializedActorRef)
    (names : UnorderedMap String ActorId) :
    ActorRegistryBackend.actors ⟨b.thisNodeId, b.actorIdToActor.insert actorId a, refs, names⟩
      = a :: b.actors :=
  UnorderedMap.values_insert h a

/-- Erasing an id takes its actor out of the map. -/
theorem actors_erase {b : ActorRegistryBackend} {actorId : ActorId} {a : Address}
    (h : b.actorIdToActor.lookup actorId = some a)
    (refs : UnorderedMap ActorId SerializedActorRef) (names : UnorderedMap String ActorId) :
    b.actors.Perm (a :: ActorRegistryBackend.actors
      ⟨b.thisNodeId, b.actorIdToActor.erase actorId, refs, names⟩) :=
  UnorderedMap.values_erase h

theorem Registry.step_of_spawnLocal {r : Registry} {A : Actor} {actorId : ActorId} {env : SpawnEnv}
    (hloop : r.destroyAll.looping = false) (hid : actorId ∉ r.backend.actorIdToActor) :
    r.Step (.spawnLocal A actorId env) (r.spawnLocal A actorId env).1 := by
  unfold spawnLocal
  split
  · exact .answer _ rfl
  · split
    · exact .answer _ rfl
    · split
      · exact .answer _ rfl
      · unfold insertName insertSerializedRef insertActor
        split <;> split <;> exact .spawn _ A _ rfl hloop (actors_insert hid ..)

theorem Registry.step_of_handleActorCreationRequest {r : Registry} {A : Actor} {actorId : ActorId}
    {handler : Except String Unit} (hloop : r.destroyAll.looping = false)
    (hid : actorId ∉ r.backend.actorIdToActor) :
    r.Step (.handleActorCreationRequest A actorId handler)
      (r.handleActorCreationRequest A actorId handler).1 := by
  unfold handleActorCreationRequest
  split
  · exact .answer _ rfl
  · split
    · exact .answer _ rfl
    · unfold insertName insertSerializedRef insertActor
      split <;> exact .spawn _ A _ rfl hloop (actors_insert hid ..)

theorem Registry.step_of_destroyLocalActor {r : Registry} {actorId : ActorId}
    {p : Registry × Except RegistryError Unit} (hidle : r.idle)
    (h : r.destroyLocalActor actorId = some p) : r.Step (.destroyLocalActor actorId) p.1 := by
  unfold destroyLocalActor at h
  split at h
  · obtain rfl := Option.some.inj h
    exact .answer _ rfl
  · next a ha =>
      obtain ⟨⟨r', k⟩, hcall, rfl⟩ := Option.map_eq_some_iff.1 h
      obtain ⟨o, ho, hfreed, rfl, rfl⟩ := callAsyncDestroy_eq_some hcall
      exact .destroyLocal actorId a o _ hidle.1 hidle.2 (actors_erase ha ..) ho hfreed ha

theorem Registry.step_of_destroyNext {r r' : Registry} (h : r.destroyNext = some r') :
    r.Step .destroyNext r' := by
  unfold destroyNext at h
  split at h
  · next a todo spawned hd =>
      split at h
      · next hquiet =>
          obtain ⟨⟨r'', k⟩, hcall, rfl⟩ := Option.map_eq_some_iff.1 h
          obtain ⟨o, ho, hfreed, rfl, rfl⟩ := callAsyncDestroy_eq_some hcall
          exact .callNext a todo spawned o hd hquiet ho hfreed
      · simp at h
  · next spawned hd =>
      split at h
      · obtain rfl := Option.some.inj h
        exact .endLoop spawned hd
      · simp at h
  · simp at h

/-- **Every step is one of `Registry.Step`.** -/
theorem Registry.step_of_next {r r' : Registry} {act : RegistryAction}
    (h : Registry.machine.next r act = some r') : r.Step act r' := by
  have h : r.next act = some r' := h
  cases act with
  | spawnLocal A actorId env =>
      obtain ⟨⟨hidle, hid⟩, rfl⟩ := by simpa [Registry.next] using h
      exact step_of_spawnLocal hidle.1 hid
  | handleActorCreationRequest A actorId handler =>
      obtain ⟨⟨hidle, hid⟩, rfl⟩ := by simpa [Registry.next] using h
      exact step_of_handleActorCreationRequest hidle.1 hid
  | lookUp name =>
      obtain ⟨-, rfl⟩ := by simpa [Registry.next] using h
      exact .answer _ rfl
  | destroyLocalActor actorId =>
      simp only [Registry.next] at h
      split at h
      · next hidle =>
          obtain ⟨p, hp, rfl⟩ := Option.map_eq_some_iff.1 h
          exact step_of_destroyLocalActor hidle hp
      · simp at h
  | resumeDestroyLocal i =>
      simp only [Registry.next, Registry.resumeDestroyLocal] at h
      split at h
      · next hidle =>
          split at h
          · simp at h
          · next call hcall =>
              split at h
              · next hended =>
                  obtain ⟨o, ho, rfl⟩ := Option.map_eq_some_iff.1 h
                  exact .release i call o hidle.2 hcall hended ho
              · simp at h
      · simp at h
  | asyncDestroyAllActors order =>
      simp only [Registry.next, Registry.asyncDestroyAllActors] at h
      split at h
      · split at h
        · next hd =>
            split at h
            · next hperm =>
                obtain rfl := Option.some.inj h
                exact .beginAll order hd hperm
            · simp at h
        · simp at h
      · simp at h
  | destroyNext => exact step_of_destroyNext h
  | resumeDestroyAll =>
      simp only [Registry.next, Registry.resumeDestroyAll] at h
      split at h
      · split at h
        · next spawned hd =>
            split at h
            · next hended =>
                obtain rfl := Option.some.inj h
                exact .resumeAll spawned hd hended.1
            · simp at h
        · simp at h
      · simp at h
  | actor a act =>
      simp only [Registry.next, Registry.actorStep] at h
      split at h
      · next hadmits =>
          obtain ⟨o, ho, h⟩ := Option.bind_eq_some_iff.1 h
          split at h
          · simp at h
          · next hfreed =>
              obtain ⟨p, hp, rfl⟩ := Option.map_eq_some_iff.1 h
              exact .actor a act o p hadmits ho (by simpa using hfreed) hp
      · simp at h

/-- **The invariant rule of the registry**, for executions whose steps meet a condition. -/
theorem Registry.invariantWhere {C : Registry → RegistryAction → Prop} {I : Registry → Prop}
    (hinit : ∀ thisNodeId, I (Registry.initial thisNodeId))
    (hstep : ∀ tr r act r', Registry.machine.Exec tr r → Machine.Meets C tr → I r → C r act →
      r.Step act r' → I r')
    {tr : List (Registry × RegistryAction)} {r : Registry} (h : Registry.machine.Exec tr r)
    (hok : Machine.Meets C tr) : I r := by
  refine h.invariantWhere ?_ ?_ hok
  · rintro r ⟨thisNodeId, rfl⟩
    exact hinit thisNodeId
  · intro tr r act r' hex hmeets hI hC hn
    exact hstep tr r act r' hex hmeets hI hC (step_of_next hn)

/-- The invariant rule of the registry, for all executions. -/
theorem Registry.invariant {I : Registry → Prop}
    (hinit : ∀ thisNodeId, I (Registry.initial thisNodeId))
    (hstep : ∀ tr r act r', Registry.machine.Exec tr r → I r → r.Step act r' → I r')
    {tr : List (Registry × RegistryAction)} {r : Registry} (h : Registry.machine.Exec tr r) : I r :=
  Registry.invariantWhere (C := fun _ _ => True) hinit
    (fun tr r act r' hex _ hI _ => hstep tr r act r' hex hI) h (Machine.meets_true tr)

/-! ### What a step does to one object -/

/-- What an action does to the actor at an address: a step of the actor, or a call of its
`AsyncDestroy`. -/
def Registry.actorAction (r : Registry) (b : Address) : RegistryAction → Option ActorAction
  | .actor a act => if a = b then some act else none
  | .destroyLocalActor actorId =>
      if r.backend.actorIdToActor.lookup actorId = some b then some (.arrive .asyncDestroy)
      else none
  | .destroyNext =>
      if r.destroyAll.todo.head? = some b then some (.arrive .asyncDestroy) else none
  | _ => none

/-- The condition on the actions of an actor, for the actor at an address. -/
def Registry.ActorMeets (b : Address) (C : ActorPool → ActorAction → Prop) (r : Registry)
    (act : RegistryAction) : Prop :=
  ∀ o ∈ r.objects[b]?, ∀ act' ∈ r.actorAction b act, C o.pool act'

instance (b : Address) (C : ActorPool → ActorAction → Prop) [∀ p a, Decidable (C p a)]
    (r : Registry) (act : RegistryAction) : Decidable (r.ActorMeets b C act) :=
  inferInstanceAs (Decidable (∀ o ∈ r.objects[b]?, _))

/-- What a step does to the object at an address. -/
inductive Registry.Change (r : Registry) (act : RegistryAction) (b : Address) :
    ActorObject → Prop
  | kept (o : ActorObject) : r.objects[b]? = some o → Change r act b o
  | created (A : Actor) : b = r.objects.length → Change r act b ⟨A, ⟨A.initial, []⟩, false⟩
  | called (o : ActorObject) : r.objects[b]? = some o → o.freed = false → r.quiet →
      b ∈ r.backend.actors → r.actorAction b act = some (.arrive .asyncDestroy) →
      Change r act b { o with pool := callDestroy o.pool }
  | released (o : ActorObject) (k : ℕ) : r.objects[b]? = some o → r.quiet →
      (b, k) ∈ r.destroyLocals → r.ended (b, k) → Change r act b { o with freed := true }
  | stepped (o : ActorObject) (act' : ActorAction) (p : ActorPool) : act = .actor b act' →
      r.admits b act' = true → r.objects[b]? = some o → o.freed = false →
      o.actor.machine.next o.pool act' = some p → Change r act b { o with pool := p }

/-- Every address the loop has not come to is in the map. -/
def Registry.Todo (r : Registry) : Prop := ∀ a ∈ r.destroyAll.todo, a ∈ r.backend.actors

theorem Registry.getElem?_setObject {r : Registry} {a b : Address} {o o' : ActorObject}
    (h : (r.setObject a o).objects[b]? = some o') :
    (b = a ∧ o' = o) ∨ (b ≠ a ∧ r.objects[b]? = some o') := by
  simp only [setObject, List.getElem?_set] at h
  split at h
  · next hab =>
      split at h
      · exact Or.inl ⟨hab.symm, (Option.some.inj h).symm⟩
      · simp at h
  · next hab => exact Or.inr ⟨fun hba => hab hba.symm, h⟩

theorem Registry.Step.change {r r' : Registry} {act : RegistryAction} (h : r.Step act r')
    (htodo : r.Todo) {b : Address} {o' : ActorObject} (ho' : r'.objects[b]? = some o') :
    r.Change act b o' := by
  cases h with
  | answer | beginAll | endLoop | resumeAll => exact .kept o' ho'
  | spawn _ A backend hact hloop hactors =>
      rw [List.getElem?_append] at ho'
      split at ho'
      · exact .kept o' ho'
      · next hlt =>
          rw [List.getElem?_singleton] at ho'
          split at ho'
          · next hzero =>
              obtain rfl := Option.some.inj ho'
              exact .created A (Nat.le_antisymm (Nat.le_of_sub_eq_zero hzero) (Nat.not_lt.1 hlt))
          · simp at ho'
  | destroyLocal actorId a o backend hloop hquiet hperm ho hfreed ha =>
      rcases getElem?_setObject ho' with ⟨rfl, rfl⟩ | ⟨-, ho'⟩
      · exact .called o ho hfreed hquiet (hperm.mem_iff.2 List.mem_cons_self) (if_pos ha)
      · exact .kept o' ho'
  | release i call o hquiet hcall hended ho =>
      rcases getElem?_setObject ho' with ⟨rfl, rfl⟩ | ⟨-, ho'⟩
      · exact .released o call.2 ho hquiet (List.mem_of_getElem? hcall) hended
      · exact .kept o' ho'
  | callNext a todo spawned o hd hquiet ho hfreed =>
      rcases getElem?_setObject ho' with ⟨rfl, rfl⟩ | ⟨-, ho'⟩
      · exact .called o ho hfreed hquiet (htodo b (by simp [hd, DestroyAll.todo]))
          (if_pos (by simp [hd, DestroyAll.todo]))
      · exact .kept o' ho'
  | actor a act o p hadmits ho hfreed hp =>
      rcases getElem?_setObject ho' with ⟨rfl, rfl⟩ | ⟨-, ho'⟩
      · exact .stepped o act p rfl hadmits ho hfreed hp
      · exact .kept o' ho'

/-- Objects stay where they are. -/
theorem Registry.Step.length_le {r r' : Registry} {act : RegistryAction} (h : r.Step act r') :
    r.objects.length ≤ r'.objects.length := by
  cases h <;> simp [setObject]

/-- The call of `AsyncDestroy` was made. -/
def Registry.Made (r : Registry) (call : Address × ℕ) : Prop :=
  ∃ o, r.objects[call.1]? = some o ∧ call.2 < o.pool.shared.destroyCalls

theorem Actor.destroyCalls_le_of_next {A : Actor} {p p' : ActorPool} {a : ActorAction}
    (h : A.machine.next p a = some p') : p.shared.destroyCalls ≤ p'.shared.destroyCalls := by
  rcases Actor.next_cases h with ⟨i, s, t, -, hat, rfl⟩ | ⟨l, t, r, s', new, env, -, -, hstep, rfl⟩
  · cases hat with
    | pushMessage i hroom => exact le_rfl
    | asyncDestroy => exact Nat.le_succ _
  · exact hstep.destroyCalls_eq.ge

theorem Registry.Made.setObject {r : Registry} {call : Address × ℕ} (h : r.Made call)
    {a : Address} {o o' : ActorObject} (ho : r.objects[a]? = some o)
    (hle : o.pool.shared.destroyCalls ≤ o'.pool.shared.destroyCalls) :
    (r.setObject a o').Made call := by
  obtain ⟨q, hq, hlt⟩ := h
  obtain ⟨hbound, -⟩ := List.getElem?_eq_some_iff.1 ho
  by_cases ha : a = call.1
  · subst ha
    obtain rfl : o = q := Option.some.inj (ho.symm.trans hq)
    exact ⟨o', by simp [Registry.setObject, hbound], hlt.trans_le hle⟩
  · exact ⟨q, by simpa [Registry.setObject, List.getElem?_set_ne ha] using hq, hlt⟩

/-- What was called stays called. -/
theorem Registry.Step.made {r r' : Registry} {act : RegistryAction} (h : r.Step act r')
    {call : Address × ℕ} (hmade : r.Made call) : r'.Made call := by
  cases h with
  | answer | beginAll | endLoop | resumeAll => exact hmade
  | spawn _ A backend hact hloop hactors =>
      obtain ⟨q, hq, hlt⟩ := hmade
      obtain ⟨hbound, -⟩ := List.getElem?_eq_some_iff.1 hq
      exact ⟨q, by simpa [List.getElem?_append_left hbound] using hq, hlt⟩
  | destroyLocal actorId a o backend hloop hquiet hperm ho hfreed =>
      exact hmade.setObject ho (Nat.le_succ _)
  | release i call' o hquiet hcall hended ho => exact hmade.setObject ho le_rfl
  | callNext a todo spawned o hd hquiet ho hfreed => exact hmade.setObject ho (Nat.le_succ _)
  | actor a act o p hadmits ho hfreed hp =>
      exact hmade.setObject ho (Actor.destroyCalls_le_of_next hp)

theorem Registry.made_callDestroy {r : Registry} {a : Address} {o : ActorObject}
    (ho : r.objects[a]? = some o) :
    (r.setObject a { o with pool := callDestroy o.pool }).Made (a, o.pool.shared.destroyCalls) := by
  obtain ⟨hbound, -⟩ := List.getElem?_eq_some_iff.1 ho
  exact ⟨{ o with pool := callDestroy o.pool }, by simp [setObject, hbound], Nat.lt_succ_self _⟩

/-- **Every call that a coroutine of the backend awaits was made.** -/
theorem Registry.made_of_exec {tr : List (Registry × RegistryAction)} {r : Registry}
    (h : Registry.machine.Exec tr r) :
    ∀ call ∈ r.destroyLocals ++ r.destroyAll.spawned, r.Made call := by
  refine Registry.invariant (I := fun r => ∀ call ∈ r.destroyLocals ++ r.destroyAll.spawned,
    r.Made call) ?_ ?_ h
  · simp [initial, DestroyAll.spawned]
  · intro tr r act r' hex hI hstep call hcall
    by_cases hold : call ∈ r.destroyLocals ++ r.destroyAll.spawned
    · exact hstep.made (hI call hold)
    · -- the step has just made the call
      simp only [List.mem_append, not_or] at hold hcall
      cases hstep with
      | answer | spawn | actor => exact absurd hcall (not_or.2 hold)
      | destroyLocal actorId a o backend hloop hquiet hperm ho hfreed =>
          have hnew : call ∈ [(a, o.pool.shared.destroyCalls)] := by
            rcases hcall with hcall | hcall
            · exact (List.mem_append.1 hcall).resolve_left hold.1
            · exact absurd hcall hold.2
          obtain rfl := List.mem_singleton.1 hnew
          exact made_callDestroy ho
      | release i call' o hquiet hcall' hended ho =>
          rcases hcall with hcall | hcall
          · exact absurd ((List.eraseIdx_sublist ..).subset hcall) hold.1
          · exact absurd hcall hold.2
      | callNext a todo spawned o hd hquiet ho hfreed =>
          rw [hd] at hold
          have hnew : call ∈ [(a, o.pool.shared.destroyCalls)] := by
            rcases hcall with hcall | hcall
            · exact absurd hcall hold.1
            · exact (List.mem_append.1 hcall).resolve_left hold.2
          obtain rfl := List.mem_singleton.1 hnew
          exact made_callDestroy ho
      | beginAll order hd hperm => simp_all [DestroyAll.spawned]
      | endLoop spawned hd | resumeAll spawned hd => simp_all [DestroyAll.spawned]

/-! ### Who owns an actor -/

/-- Every actor that was not released belongs to the map or to one `DestroyLocalActor`. -/
structure Registry.Owned (r : Registry) : Prop where
  nodup : (r.backend.actors ++ r.destroyLocals.map Prod.fst).Nodup
  created : ∀ a ∈ r.backend.actors ++ r.destroyLocals.map Prod.fst, a < r.objects.length
  todo : r.Todo

theorem Registry.Step.owned {r r' : Registry} {act : RegistryAction} (h : r.Step act r')
    (hI : r.Owned) : r'.Owned := by
  obtain ⟨hnodup, hcreated, htodo⟩ := hI
  cases h with
  | answer => exact ⟨hnodup, hcreated, htodo⟩
  | spawn _ A backend hact hloop hactors =>
      refine ⟨?_, ?_, ?_⟩
      · simp only [hactors, List.cons_append, List.nodup_cons]
        exact ⟨fun hmem => (hcreated _ hmem).false, hnodup⟩
      · simp only [hactors, List.cons_append, List.mem_cons, List.length_append,
          List.length_singleton]
        rintro a (rfl | ha)
        · exact Nat.lt_succ_self _
        · exact Nat.lt_succ_of_lt (hcreated a ha)
      · intro a ha
        have := htodo a ha
        simp [hactors, this]
  | destroyLocal actorId a o backend hloop hquiet hperm ho hfreed =>
      have hperm' : (r.backend.actors ++ r.destroyLocals.map Prod.fst).Perm
          (backend.actors
            ++ (r.destroyLocals ++ [(a, o.pool.shared.destroyCalls)]).map Prod.fst) := by
        refine (hperm.append_right _).trans ?_
        rw [List.map_append, ← List.append_assoc]
        exact (List.perm_append_singleton a _).symm
      refine ⟨hperm'.nodup_iff.1 hnodup, fun b hb => ?_, fun b hb => ?_⟩
      · simpa [setObject] using hcreated b (hperm'.mem_iff.2 hb)
      · have hb' : b ∈ r.destroyAll.todo := hb
        cases hd : r.destroyAll <;> simp [hd, DestroyAll.todo, DestroyAll.looping] at hb' hloop
  | release i call o hquiet hcall hended ho =>
      have hsub : (r.backend.actors ++ (r.destroyLocals.eraseIdx i).map Prod.fst).Sublist
          (r.backend.actors ++ r.destroyLocals.map Prod.fst) :=
        (List.Sublist.map _ (List.eraseIdx_sublist ..)).append_left _
      refine ⟨hnodup.sublist hsub, fun b hb => ?_, htodo⟩
      simpa [setObject] using hcreated b (hsub.subset hb)
  | beginAll order hd hperm =>
      exact ⟨hnodup, hcreated, fun a ha => hperm.mem_iff.1 ha⟩
  | callNext a todo spawned o hd hquiet ho hfreed =>
      refine ⟨hnodup, by simpa [setObject] using hcreated, fun b hb => htodo b ?_⟩
      have hb' : b ∈ todo := hb
      simp [hd, DestroyAll.todo, hb']
  | endLoop | resumeAll => exact ⟨hnodup, hcreated, by simp [Todo, DestroyAll.todo]⟩
  | actor a act o p hadmits ho hfreed hp =>
      exact ⟨hnodup, by simpa [setObject] using hcreated, htodo⟩

/-- **Every actor has one owner**, in every reachable state. -/
theorem Registry.owned_of_exec {tr : List (Registry × RegistryAction)} {r : Registry}
    (h : Registry.machine.Exec tr r) : r.Owned := by
  refine Registry.invariant ?_ ?_ h
  · intro thisNodeId
    exact ⟨by simp [initial, ActorRegistryBackend.actors],
      by simp [initial, ActorRegistryBackend.actors], by simp [initial, Todo, DestroyAll.todo]⟩
  · exact fun _ _ _ _ _ hI hstep => hstep.owned hI

/-! ### Every object runs its actor -/

/-- **Every object is in a state that its actor reaches**, by a run whose steps meet what those of
the registry make the actor meet. -/
theorem Registry.exec_of_mem_where {C : ActorPool → ActorAction → Prop} {b : Address}
    {tr : List (Registry × RegistryAction)} {r : Registry} (h : Registry.machine.Exec tr r)
    (hC : Machine.Meets (Registry.ActorMeets b C) tr) :
    ∀ o, r.objects[b]? = some o → ∃ tr', o.actor.machine.Exec tr' o.pool ∧ Machine.Meets C tr' := by
  refine Registry.invariantWhere (I := fun r => ∀ o, r.objects[b]? = some o →
    ∃ tr', o.actor.machine.Exec tr' o.pool ∧ Machine.Meets C tr') ?_ ?_ h hC
  · simp [initial]
  · intro tr r act r' hex _ hI hok hstep o' ho'
    cases hstep.change (owned_of_exec hex).todo ho' with
    | kept _ ho => exact hI _ ho
    | created A hb => exact ⟨[], .init A.machine_init, Machine.meets_nil _⟩
    | called o ho hfreed hquiet hb hact =>
        obtain ⟨tr', htr', hmeets⟩ := hI o ho
        exact ⟨_, htr'.step (next_asyncDestroy o.actor o.pool), (Machine.meets_append ..).2
          ⟨hmeets, (Machine.meets_singleton ..).2 (hok o ho _ hact)⟩⟩
    | released o k ho hquiet hk hended => exact hI o ho
    | stepped o act' p hact hadmits ho hfreed hp =>
        obtain ⟨tr', htr', hmeets⟩ := hI o ho
        have hact' : r.actorAction b act = some act' := by simp [hact, actorAction]
        exact ⟨_, htr'.step hp, (Machine.meets_append ..).2
          ⟨hmeets, (Machine.meets_singleton ..).2 (hok o ho _ hact')⟩⟩

/-- Every object is in a state that its actor reaches. -/
theorem Registry.exec_of_mem {tr : List (Registry × RegistryAction)} {r : Registry}
    (h : Registry.machine.Exec tr r) (b : Address) (o : ActorObject) (ho : r.objects[b]? = some o) :
    ∃ tr', o.actor.machine.Exec tr' o.pool := by
  have hC : Machine.Meets (Registry.ActorMeets b fun _ _ => True) tr :=
    fun _ _ _ _ _ _ => trivial
  obtain ⟨tr', htr', -⟩ := Registry.exec_of_mem_where h hC o ho
  exact ⟨tr', htr'⟩

/-- **At most one `AsyncDestroy` of an actor is before its join**: the backend is inside one call at
a time. -/
theorem Registry.beforeJoin_le_one {tr : List (Registry × RegistryAction)} {r : Registry}
    (h : Registry.machine.Exec tr r) :
    ∀ (b : Address) (o : ActorObject), r.objects[b]? = some o →
      o.pool.total Thread.beforeJoin ≤ 1 := by
  refine Registry.invariant (I := fun r => ∀ (b : Address) (o : ActorObject),
    r.objects[b]? = some o → o.pool.total Thread.beforeJoin ≤ 1) ?_ ?_ h
  · simp [initial]
  · intro tr r act r' hex hI hstep b o' ho'
    cases hstep.change (owned_of_exec hex).todo ho' with
    | kept _ ho => exact hI b _ ho
    | created A hb => simp
    | called o ho hfreed hquiet hb =>
        have := hquiet o (List.mem_of_getElem? ho)
        simp only [callDestroy]
        rw [Pool.total_arrive _ o.pool, this]
        rfl
    | released o k ho hquiet hk hended => exact hI b o ho
    | stepped o act' p hact hadmits ho hfreed hp =>
        have hle := hI b o ho
        rcases Actor.next_cases hp with ⟨i, s, t, rfl, hat, rfl⟩ |
          ⟨l, t, r, s', new, env, hthreads, rfl, hstep', rfl⟩
        · cases hat with
          | pushMessage i hroom =>
              simp only
              rw [Pool.total_arrive _ o.pool]
              simpa [Thread.beforeJoin] using hle
          | asyncDestroy => simp [Registry.admits] at hadmits
        · have hnew := hstep'.beforeJoin_le
          have hbefore := Pool.total_before Thread.beforeJoin o.pool.shared l r t
          rw [← hthreads] at hbefore
          simp only
          rw [Pool.total_after]
          have : o.pool.total Thread.beforeJoin = _ := hbefore
          omega

/-! ### The actors in the map are there -/

/-- Only a new actor enters the map. -/
theorem Registry.Step.mem_actors {r r' : Registry} {act : RegistryAction} (h : r.Step act r')
    {a : Address} (ha : a ∈ r'.backend.actors) :
    a ∈ r.backend.actors ∨ a = r.objects.length := by
  cases h with
  | spawn _ A backend hact hloop hactors =>
      rcases List.mem_cons.1 (hactors ▸ ha) with rfl | ha
      · exact Or.inr rfl
      · exact Or.inl ha
  | destroyLocal actorId b o backend hloop hquiet hperm =>
      exact Or.inl (hperm.mem_iff.2 (List.mem_cons_of_mem b ha))
  | _ => exact Or.inl ha

/-- **No actor in the map was released.** -/
theorem Registry.live_of_exec {tr : List (Registry × RegistryAction)} {r : Registry}
    (h : Registry.machine.Exec tr r) :
    ∀ a ∈ r.backend.actors, ∀ o, r.objects[a]? = some o → o.freed = false := by
  refine Registry.invariant (I := fun r => ∀ a ∈ r.backend.actors, ∀ o,
    r.objects[a]? = some o → o.freed = false) ?_ ?_ h
  · simp [initial, ActorRegistryBackend.actors]
  · intro tr r act r' hex hI hstep a ha o' ho'
    have howned := owned_of_exec hex
    have hold (o : ActorObject) (ho : r.objects[a]? = some o) : a ∈ r.backend.actors := by
      rcases hstep.mem_actors ha with hmem | rfl
      · exact hmem
      · simp at ho
    cases hstep.change howned.todo ho' with
    | kept _ ho => exact hI a (hold _ ho) _ ho
    | created A => rfl
    | called o ho hfreed => exact hfreed
    | released o k ho hquiet hcall =>
        have hdisjoint := List.disjoint_of_nodup_append howned.nodup
        exact absurd (List.mem_map_of_mem hcall) (hdisjoint (hold o ho))
    | stepped o act' p hact hadmits ho hfreed => exact hfreed

/-- An actor in the map can be destroyed. -/
theorem Registry.destroyLocalActor_ne_none {tr : List (Registry × RegistryAction)} {r : Registry}
    (h : Registry.machine.Exec tr r) (actorId : ActorId) : r.destroyLocalActor actorId ≠ none := by
  unfold destroyLocalActor
  cases ha : r.backend.actorIdToActor.lookup actorId with
  | none => simp
  | some a =>
      have hmem : a ∈ r.backend.actors := UnorderedMap.mem_values.2 ⟨actorId, ha⟩
      have hlt := (owned_of_exec h).created a (List.mem_append_left _ hmem)
      obtain ⟨o, ho⟩ : ∃ o, r.objects[a]? = some o := ⟨_, List.getElem?_eq_getElem hlt⟩
      have hfreed := live_of_exec h a hmem o ho
      simp [callAsyncDestroy, actorStep, ho, hfreed, next_asyncDestroy]

end ExActor
