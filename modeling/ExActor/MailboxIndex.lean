/-
**The index of a mailbox on its way to the buffer.**

`Mailbox(i).Send` and `Mailbox(i).SendLocal` take any index, `ActorMethodCallRequest` carries any
index to another node, and the handler passes it to `CallActorMethodUseTuple`, whose operation calls
`PushMessage` and `MailboxSet::Push`.  None of these compares it with the number of mailboxes, and
`operator[]` of `FixedCapacityBuffer` does not either.  A message with an index in range is queued
in the mailbox it names or refused with an exception; the others have no defined result.

Main definitions:

* `PushedOrRejected` — the first step of `PushMessage` is defined, and does one of the two.

Main results:

* `mailbox_index_iff` — on every path the index must be in range, and that is enough.
-/

import ExActor.ActorStep
import ExActor.RequestReplies

set_option relaxedAutoImplicit false
set_option autoImplicit false

namespace ExActor

/-! ### Pushing a message -/

/-- `Push` of the message `m` into the mailbox `i` has a defined result: it appends the message to
the queue it names, or throws, which the sender is told and which changes nothing else. -/
def PushedOrRejected (A : Actor) (s : ActorState) (m : Message) (i : ℕ) (env : Env) : Prop :=
  (∃ set, A.run s (.producer m i .push) env
      = some ({ s with mailboxSet := set }.emit (.pushed m i), [.producer m i .fetchAdd]) ∧
    i < s.mailboxSet.mailboxCount ∧
    ∀ j, set.queueAt j = s.mailboxSet.queueAt j ++ if i = j then [m] else []) ∨
  ∃ e, A.run s (.producer m i .push) env = some (s.emit (.setError m e), [])

/-- It has exactly when the index is in range. -/
theorem pushedOrRejected_iff {A : Actor} {s : ActorState} {m : Message} {i : ℕ} {env : Env} :
    PushedOrRejected A s m i env ↔ i < s.mailboxSet.mailboxCount := by
  rw [← MailboxSet.push_ne_none_iff]
  have hrun : A.run s (.producer m i .push) env = pushMessageStep A s m i env .push := rfl
  rw [PushedOrRejected, hrun, pushMessageStep]
  cases hpush : s.mailboxSet.push i m with
  | none => simp
  | some result =>
      refine iff_of_true ?_ (Option.some_ne_none result)
      cases result with
      | error e => exact Or.inr ⟨e, rfl⟩
      | ok set =>
          refine Or.inl ⟨set, rfl, ?_, MailboxSet.queueAt_push hpush⟩
          rw [← MailboxSet.push_ne_none_iff, hpush]
          exact Option.some_ne_none _

/-! ### The paths of the index -/

section Paths

variable {κ : Type} {P : Program κ}

/-- The index that a call carries to the actor or to its node. -/
def CallTarget.mailboxIndex : CallTarget → SizeT
  | .callActorMethod _ _ mailboxIndex => mailboxIndex
  | .sendRequest _ _ request => request.mailboxIndex

/-- `SendLocal` passes the index on. -/
theorem BasicActorRef.mailboxIndex_of_sendLocal {U : κ} {ref : BasicActorRef U}
    {method : Method κ} {c : Upcast P.classes U method.classType} {i : SizeT}
    {target : CallTarget} (h : ref.sendLocal c i = .ok target) : target.mailboxIndex = i := by
  unfold BasicActorRef.sendLocal at h
  split at h
  · simp at h
  · split at h
    · simp at h
    · obtain rfl := Except.ok.inj h
      rfl

/-- `Send` passes the index on, to the actor or in the request. -/
theorem ActorRef.mailboxIndex_of_send {U : κ} {ref : ActorRef U} {method : Method κ}
    {c : Upcast P.classes U method.classType} {i : SizeT} {serializedArgs : ByteBuffer}
    {target : CallTarget} (h : ref.send c i serializedArgs = .ok target) :
    target.mailboxIndex = i := by
  obtain ⟨-, ⟨-, actor, -, rfl⟩ | ⟨-, -, broker, -, rfl⟩⟩ := ActorRef.send_eq_ok_iff.1 h
  · rfl
  · rfl

/-- A handler passes the index of the request on. -/
theorem mailboxIndex_of_deserializeAndInvokeActorMethod {fn : RemoteMethod P}
    {ctx : RemoteActorMethodCallHandlerContext} {call : MethodCall}
    (h : deserializeAndInvokeActorMethod fn ctx = .ok call) :
    call.mailboxIndex = ctx.mailboxIndex := by
  unfold deserializeAndInvokeActorMethod at h
  split at h
  · simp at h
  · next actor _ =>
      cases hargs : fn.deserializeFnArgs ctx.serializedArgs ctx.actorRefSerdeCtx with
      | error e => simp [hargs, Except.map] at h
      | ok invoke =>
          rw [hargs, Except.map] at h
          obtain rfl := Except.ok.inj h
          rfl

/-- The index of the message of a remote method call is that of the request. -/
theorem TypedRegistry.mailboxIndex_of_methodCall {E : TypedEnv P}
    {reg : RemoteActorRequestHandlerRegistry P} {s : TypedRegistry} {env : RequestEnv}
    {msg : ActorMethodCallRequest} {a : Address} {fn : RemoteMethod P} {call : MethodCall}
    (h : s.methodCall E reg env msg a = .ok (fn, call)) : call.mailboxIndex = msg.mailboxIndex := by
  unfold methodCall at h
  cases hhandler : reg.getRemoteActorMethodCallHandler msg.handlerKey with
  | error e => simp [hhandler, bind, Except.bind] at h
  | ok handler =>
      simp only [hhandler, bind, Except.bind, pure, Except.pure] at h
      split at h
      · simp at h
      · next call' hcall =>
          obtain ⟨rfl, rfl⟩ := Prod.mk.inj (Except.ok.inj h)
          exact mailboxIndex_of_deserializeAndInvokeActorMethod hcall

/-- The number of mailboxes of an actor object. -/
theorem Registry.mailboxCount_eq {r : Registry} {tr : List (Registry × RegistryAction)}
    (h : Registry.machine.Exec tr r) {a : Address} {o : ActorObject}
    (ho : r.objects[a]? = some o) :
    r.mailboxCount a = o.pool.shared.mailboxSet.mailboxCount ∧
      r.mailboxCount a = max 1 o.actor.config.mailboxConfigs.length := by
  obtain ⟨tr', hexec⟩ := Registry.exec_of_mem h a o ho
  have hcount : r.mailboxCount a = o.pool.shared.mailboxSet.mailboxCount := by
    rw [mailboxCount, ho]
    rfl
  exact ⟨hcount, hcount.trans (mailboxCount_of_exec hexec)⟩

variable [DecidableEq κ]

/-- A message that was submitted to an actor of the right class has a defined result exactly when
its index is in range. -/
theorem TypedRegistry.submit_ne_undefined_iff {E : TypedEnv P} {s : TypedRegistry}
    {env : RequestEnv} {a : Address} {fn : RemoteMethod P} {call : MethodCall}
    (hclass : fn.actualClass = (E.instances a).1) :
    s.submit E env a fn call ≠ .undefined ↔
      call.mailboxIndex.toNat < s.registry.mailboxCount a := by
  rw [submit, if_neg (not_not.2 hclass)]
  by_cases hlt : call.mailboxIndex.toNat < s.registry.mailboxCount a
  · rw [if_neg (Nat.not_le.2 hlt)]
    refine iff_of_true ?_ hlt
    cases env.submission with
    | refused e => cases e <;> simp [catchStd]
    | dropped => simp
    | executed =>
        cases call.invoke with
        | error e => cases e <;> simp [catchStd]
        | ok serializedResult => simp
  · rw [if_pos (Nat.not_lt.1 hlt)]
    exact iff_of_false (not_not.2 rfl) hlt

/-- An exception of `PushMessage` becomes a reply. -/
theorem TypedRegistry.submit_refused {E : TypedEnv P} {s : TypedRegistry} {env : RequestEnv}
    {a : Address} {fn : RemoteMethod P} {call : MethodCall} {typeName what : String}
    (hclass : fn.actualClass = (E.instances a).1)
    (hlt : call.mailboxIndex.toNat < s.registry.mailboxCount a)
    (hrefused : env.submission = .refused (.stdException typeName what)) :
    s.submit E env a fn call
      = .replied s (.actorMethodCall false [] (errorMessage typeName what)) := by
  rw [submit, if_neg (not_not.2 hclass), if_neg (Nat.not_le.2 hlt), hrefused]
  rfl

/-- **The index of a mailbox must be in range, and that is enough**, for every actor object in every
reachable state of the registry, for a local call, for the request of a remote one, and for a
request that arrives. -/
theorem mailbox_index_iff {E : TypedEnv P} {s : TypedRegistry}
    {tr : List (TypedRegistry × RegistryAction)} (h : (TypedRegistry.machine E).Exec tr s)
    {a : Address} {o : ActorObject} (ho : s.registry.objects[a]? = some o) (i : SizeT) :
    let n := max 1 o.actor.config.mailboxConfigs.length
    (∀ (U : κ) (ref : ActorRef U) (method : Method κ) (c : Upcast P.classes U method.classType)
        (serializedArgs : ByteBuffer) (target : CallTarget),
      (ref.send c i serializedArgs = .ok target ∨
        ref.toBasicActorRef.sendLocal c i = .ok target) →
      target.mailboxIndex = i ∧
      ∀ m env, PushedOrRejected o.actor o.pool.shared m target.mailboxIndex.toNat env
        ↔ i.toNat < n) ∧
    (∀ (reg : RemoteActorRequestHandlerRegistry P) (env : RequestEnv)
        (msg : ActorMethodCallRequest) (fn : RemoteMethod P) (call : MethodCall),
      msg.mailboxIndex = i → s.registry.backend.actorIdToActor.lookup msg.actorId = some a →
      s.methodCall E reg env msg a = .ok (fn, call) → fn.actualClass = (E.instances a).1 →
      (∀ m env', PushedOrRejected o.actor o.pool.shared m call.mailboxIndex.toNat env'
        ↔ i.toNat < n) ∧
      (s.handleNetworkRequest E reg env (.ok (.actorMethodCall msg)) ≠ .undefined
        ↔ i.toNat < n) ∧
      (i.toNat < n → ∀ typeName what, env.submission = .refused (.stdException typeName what) →
        s.handleNetworkRequest E reg env (.ok (.actorMethodCall msg))
          = .replied s (.actorMethodCall false [] (errorMessage typeName what)))) := by
  obtain ⟨hexec, -⟩ := TypedRegistry.exec_registry h
  obtain ⟨hcount, hn⟩ := Registry.mailboxCount_eq hexec ho
  have hpush (m : Message) (env : Env) :
      PushedOrRejected o.actor o.pool.shared m i.toNat env
        ↔ i.toNat < max 1 o.actor.config.mailboxConfigs.length := by
    rw [pushedOrRejected_iff, ← hcount, hn]
  refine ⟨?_, ?_⟩
  · intro U ref method c serializedArgs target htarget
    have hindex : target.mailboxIndex = i := by
      rcases htarget with hsend | hsend
      · exact ActorRef.mailboxIndex_of_send hsend
      · exact BasicActorRef.mailboxIndex_of_sendLocal hsend
    refine ⟨hindex, fun m env => ?_⟩
    rw [hindex]
    exact hpush m env
  · rintro reg env msg fn call rfl ha hcall hclass
    have hindex := TypedRegistry.mailboxIndex_of_methodCall hcall
    have heq : s.handleNetworkRequest E reg env (.ok (.actorMethodCall msg)) = _ :=
      s.handleActorMethodCallRequest_eq E reg env msg
    simp only [ha, hcall] at heq
    have hrange : call.mailboxIndex.toNat < s.registry.mailboxCount a ↔
        msg.mailboxIndex.toNat < max 1 o.actor.config.mailboxConfigs.length := by
      rw [hindex, hn]
    refine ⟨fun m env' => by rw [hindex]; exact hpush m env', ?_, ?_⟩
    · rw [heq, TypedRegistry.submit_ne_undefined_iff hclass, hrange]
    · intro hlt typeName what hrefused
      rw [heq]
      exact TypedRegistry.submit_refused hclass (hrange.2 hlt) hrefused

end Paths

/-! ### One mailbox -/

/-- A method of `Derived`. -/
def TwoBases.getA : Method TwoBases := ⟨.derived, "int Derived::GetA()"⟩

def TwoBases.toGetA : Upcast program.classes .derived getA.classType := .refl _

/-- The actor with one mailbox that is spawned on node 1 is called through the mailbox 0. -/
theorem mailbox_index_iff_zero : ∃ tr s o, (TypedRegistry.machine TwoBases.env).Exec tr s ∧
    s.registry.objects[0]? = some o ∧ PushedOrRejected o.actor o.pool.shared 0 0 .calm := by
  have hinit : (TypedRegistry.machine TwoBases.env).init .start := ⟨1, rfl⟩
  obtain ⟨s, hexec, ho⟩ := Machine.exists_exec_of_replay hinit
    [.spawnLocal (.named "derived") 7 .calm] (fun s => s.registry.objects[0]?)
    (some ⟨.named "derived", ⟨(Actor.named "derived").initial, []⟩, false⟩) rfl
  have hpath := (mailbox_index_iff hexec ho 0).1 TwoBases.derived (TwoBases.actor.handle .empty)
    TwoBases.getA TwoBases.toGetA [] _ (Or.inl rfl)
  exact ⟨_, s, _, hexec, ho, (hpath.2 0 .calm).2 (by decide)⟩

/-- `Mailbox(1).Send` to an actor with one mailbox: the index arrives at `Push`, which has no
defined result. -/
theorem mailbox_index_out_of_range :
    (TwoBases.actor.handle .empty).send TwoBases.toGetA 1 []
      = .ok (.callActorMethod TwoBases.actor.object 0x1000 1) ∧
    Actor.plain.machine.Exec [] ⟨Actor.plain.initial, []⟩ ∧
    ¬ PushedOrRejected Actor.plain Actor.plain.initial 0 (1 : SizeT).toNat .calm := by
  refine ⟨rfl, .init Actor.plain.machine_init, ?_⟩
  rw [pushedOrRejected_iff]
  decide

end ExActor
