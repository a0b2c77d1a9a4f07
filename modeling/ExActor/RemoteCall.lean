/-
**A reference that goes to another node and comes back.**

A method that returns its argument is called on another node with a reference.  The reference is
written by `SendRemote`, read by the handler in the context of the called node, written again as the
result, and read by `SendRemote` in a context of its own.  That context has the id and the broker of
the calling node, but looks no actor up.  The reference that comes back is therefore equal to the
one that was sent, and works like it unless its actor lives on the calling node: then `Send` takes
the local path and finds no actor object.

Main definitions:

* `returnsActorRef` — the method, as a handler of the called node runs it;
* `ActorRef.receiveReply`, `callRemote` — `SendRemote`, and the call as a whole.

Main results:

* `Callable.callRemote_eq` — the reference that comes back;
* `actor_ref_round_trip_iff` — it works like the one that was sent exactly when its actor does not
  live on the calling node.
-/

import ExActor.MailboxIndex

set_option relaxedAutoImplicit false
set_option autoImplicit false

namespace ExActor

variable {κ : Type} {P : Program κ}

/-! ### The call -/

/-- A method that returns its argument, a reference: the arguments are read in the context of the
handler, and the result is written without one. -/
def returnsActorRef (S : Serializer ReflType) (U : κ) (bytes : ByteBuffer)
    (ctx : ActorRefSerdeContext) :
    Except CppException (Pointer → Except CppException ByteBuffer) :=
  match parserRead S U ctx bytes with
  | .ok ref => .ok fun _ => .ok (S.serialize (reflectorFrom ref))
  | .error what => .error (.stdException "St13runtime_error" what)

/-- The text of the exception for a failed call. -/
def remoteActorError (nodeId : NodeId) (error : String) : String :=
  "Got error from remote actor on node " ++ toString nodeId.toNat ++ ": " ++ error

/-- `SendRemote` from the reply on, for a method that returns a reference. -/
def ActorRef.receiveReply (S : Serializer ReflType) (U : κ) {V : κ} (ref : ActorRef V) :
    NetworkReply → Except String (ActorRef U)
  | .actorMethodCall true serializedResult _ => parserRead S U ref.replyContext serializedResult
  | .actorMethodCall false _ error => .error (remoteActorError ref.nodeId error)
  | _ => .error "std::get: wrong index for variant"

/-- A reference with its own node but without an actor object takes the local path and throws. -/
theorem send_returned_eq_error {U : κ} {argument : ActorRef U} {thisNodeId : NodeId}
    {brokerActorRef : BrokerRef} {method : Method κ} {c : Upcast P.classes U method.classType}
    {mailboxIndex : SizeT} {serializedArgs : ByteBuffer} (hargument : argument.isEmpty = false)
    (hlocal : argument.nodeId = thisNodeId) :
    ActorRef.send { argument with thisNodeId, typeErasedActor := none, brokerActorRef }
      c mailboxIndex serializedArgs = .error .instanceNotSet := by
  simp [ActorRef.send, BasicActorRef.sendLocal, hargument, hlocal]

variable [DecidableEq κ]

/-- `Send` of a method that returns a reference, called with a reference on an actor of the node
whose registry is `s`. -/
def callRemote (E : TypedEnv P) (reg : RemoteActorRequestHandlerRegistry P) (s : TypedRegistry)
    (env : RequestEnv) {U V : κ} (callee : ActorRef V) {method : Method κ}
    (c : Upcast P.classes V method.classType) (mailboxIndex : SizeT) (argument : ActorRef U) :
    Except String (ActorRef U) :=
  match callee.send c mailboxIndex (E.serializer.serialize (reflectorFrom argument)) with
  | .error e => .error e.what
  | .ok (.callActorMethod ..) => .ok argument
  | .ok (.sendRequest _ _ request) =>
      match s.handleNetworkRequest E reg env (.ok (.actorMethodCall request)) with
      | .replied _ reply => callee.receiveReply E.serializer U reply
      | _ => .error "no reply"

/-- What a remote call of a method that returns its argument needs: a reference to a live actor of
the called node and to the broker of the calling one, the method registered for the class of the
actor, a mailbox that exists, and that the message is executed. -/
structure Callable (E : TypedEnv P) (reg : RemoteActorRequestHandlerRegistry P)
    (s : TypedRegistry) (env : RequestEnv) (U : κ) {V : κ} (callee : ActorRef V)
    (method : Method κ) (mailboxIndex : SizeT) (a : Address) (fn : RemoteMethod P) : Prop where
  isEmpty : callee.isEmpty = false
  nodeId : callee.nodeId = s.registry.backend.thisNodeId
  remote : callee.nodeId ≠ callee.thisNodeId
  broker : callee.brokerActorRef.isEmpty = false ∧
    ∃ broker, callee.brokerActorRef.typeErasedActor = some broker
  actorTypeHash : callee.actorTypeHash = P.actorTypeHash (E.instances a).1
  lookup : s.registry.backend.actorIdToActor.lookup callee.actorId = some a
  registered : reg.methodCallHandlers.lookup
    (registeredHandlerKey P (E.instances a).1 method) = some fn
  actualClass : fn.actualClass = (E.instances a).1
  returns : fn.deserializeFnArgs = returnsActorRef E.serializer U
  mailbox : mailboxIndex.toNat < s.registry.mailboxCount a
  executed : env.submission = .executed

section Call

variable {E : TypedEnv P} {reg : RemoteActorRequestHandlerRegistry P} {s : TypedRegistry}
  {env : RequestEnv} {U V : κ} {callee : ActorRef V} {method : Method κ}
  {c : Upcast P.classes V method.classType} {mailboxIndex : SizeT} {a : Address}
  {fn : RemoteMethod P} {argument : ActorRef U}

/-- The argument as the method gets it. -/
def received (E : TypedEnv P) (s : TypedRegistry) (env : RequestEnv) (argument : ActorRef U) :
    ActorRef U :=
  { argument with
    thisNodeId := s.registry.backend.thisNodeId
    typeErasedActor := (s.context E env.brokerActorRef).actorLookUpFn argument.actorId
    brokerActorRef := env.brokerActorRef }

/-- The request that the call sends. -/
def methodCallRequest (E : TypedEnv P) (callee : ActorRef V) (method : Method κ)
    (mailboxIndex : SizeT) (argument : ActorRef U) : ActorMethodCallRequest where
  handlerKey := computeRemoteMethodHandlerKey method callee.actorTypeHash
  actorId := callee.actorId
  mailboxIndex := mailboxIndex
  serializedArgs := E.serializer.serialize (reflectorFrom argument)

omit [DecidableEq κ] in
/-- The handler finds the method and reads the argument. -/
theorem Callable.methodCall_eq (h : Callable E reg s env U callee method mailboxIndex a fn)
    (hargument : argument.isEmpty = false) :
    ∃ thisPtr, s.methodCall E reg env (methodCallRequest E callee method mailboxIndex argument) a
      = .ok (fn, ⟨E.instances.objectAt a, thisPtr, mailboxIndex,
          .ok (E.serializer.serialize (reflectorFrom (received E s env argument)))⟩) := by
  have hkey : computeRemoteMethodHandlerKey method callee.actorTypeHash
      = registeredHandlerKey P (E.instances a).1 method := by
    rw [h.actorTypeHash, registeredHandlerKey]
  have hread : parserRead E.serializer U (s.context E env.brokerActorRef)
      (E.serializer.serialize (reflectorFrom argument)) = .ok (received E s env argument) :=
    parserRead_serialize _ _ hargument
  have hget : reg.getRemoteActorMethodCallHandler
      (computeRemoteMethodHandlerKey method callee.actorTypeHash) = .ok fn := by
    rw [hkey, RemoteActorRequestHandlerRegistry.getRemoteActorMethodCallHandler, h.registered]
  have hargs : fn.deserializeFnArgs (E.serializer.serialize (reflectorFrom argument))
      (s.context E env.brokerActorRef)
        = .ok fun _ =>
          .ok (E.serializer.serialize (reflectorFrom (received E s env argument))) := by
    rw [h.returns, returnsActorRef, hread]
  refine ⟨fn.upcast.subobject.cast (E.instances.objectAt a).userClassInstanceAddress, ?_⟩
  simp only [TypedRegistry.methodCall, methodCallRequest, hget, deserializeAndInvokeActorMethod,
    hargs, bind, Except.bind, Except.map, pure, Except.pure]

/-- The reply of the called node carries what the method has received. -/
theorem Callable.handleNetworkRequest_eq
    (h : Callable E reg s env U callee method mailboxIndex a fn)
    (hargument : argument.isEmpty = false) :
    s.handleNetworkRequest E reg env
        (.ok (.actorMethodCall (methodCallRequest E callee method mailboxIndex argument)))
      = .replied s (.actorMethodCall true
          (E.serializer.serialize (reflectorFrom (received E s env argument))) "") := by
  have heq : s.handleNetworkRequest E reg env
      (.ok (.actorMethodCall (methodCallRequest E callee method mailboxIndex argument))) = _ :=
    s.handleActorMethodCallRequest_eq E reg env _
  obtain ⟨thisPtr, hcall⟩ := h.methodCall_eq hargument
  have hlookup : s.registry.backend.actorIdToActor.lookup
      (methodCallRequest E callee method mailboxIndex argument).actorId = some a := h.lookup
  rw [heq]
  simp only [hlookup, hcall]
  rw [TypedRegistry.submit, if_neg (not_not.2 h.actualClass), if_neg (Nat.not_le.2 h.mailbox),
    h.executed]

/-- **The reference that comes back**: node, id, hash and pointer are those of the argument, the
context is that of the calling node, and there is no actor object. -/
theorem Callable.callRemote_eq (h : Callable E reg s env U callee method mailboxIndex a fn)
    (hargument : argument.isEmpty = false) :
    callRemote E reg s env callee c mailboxIndex argument
      = .ok { argument with
          thisNodeId := callee.thisNodeId
          typeErasedActor := none
          brokerActorRef := callee.brokerActorRef } := by
  obtain ⟨hempty, broker, hbroker⟩ := h.broker
  have hsend : callee.send c mailboxIndex (E.serializer.serialize (reflectorFrom argument))
      = .ok (.sendRequest broker callee.nodeId
          (methodCallRequest E callee method mailboxIndex argument)) :=
    ActorRef.send_eq_ok_iff.2 ⟨h.isEmpty, Or.inr ⟨h.remote, hempty, broker, hbroker, rfl⟩⟩
  simp only [callRemote, hsend, h.handleNetworkRequest_eq hargument, ActorRef.receiveReply]
  exact parserRead_serialize _ _ hargument

/-- **A reference survives the round trip exactly when its actor does not live on the calling
node.**  The argument is any reference held on the calling node on which `Send` works; `broker` is
the reference to the broker of that node, which all references on it carry if they carry any.  What
comes back is always equal to the argument. -/
theorem actor_ref_round_trip_iff
    (h : Callable E reg s env U callee method mailboxIndex a fn)
    (hthis : argument.thisNodeId = callee.thisNodeId)
    (hbroker : argument.brokerActorRef.isEmpty = false →
      argument.brokerActorRef = callee.brokerActorRef)
    {method' : Method κ} {c' : Upcast P.classes U method'.classType} {target : CallTarget}
    (hsend : argument.send c' 0 [] = .ok target) :
    ∃ ref, callRemote E reg s env callee c mailboxIndex argument = .ok ref ∧
      ref.equal argument = true ∧
      ((∀ (method : Method κ) (c : Upcast P.classes U method.classType) (mailboxIndex : SizeT)
          (serializedArgs : ByteBuffer),
        ref.send c mailboxIndex serializedArgs = argument.send c mailboxIndex serializedArgs) ↔
        argument.nodeId ≠ callee.thisNodeId) := by
  obtain ⟨hargument, hpath⟩ := ActorRef.send_eq_ok_iff.1 hsend
  refine ⟨_, h.callRemote_eq hargument, ?_, ?_⟩
  · refine (ActorRef.equal_iff ?_ hargument).2 ⟨rfl, rfl, rfl⟩
    exact hargument
  constructor
  · -- on the calling node the argument takes the local path, and what comes back throws there
    intro hsame hlocal
    have herror := hsame method' c' 0 []
    rw [send_returned_eq_error hargument hlocal, hsend] at herror
    simp at herror
  · intro hremote method c mailboxIndex serializedArgs
    rcases hpath with ⟨hlocal, -⟩ | ⟨-, hempty, -⟩
    · exact absurd (hlocal.trans hthis) hremote
    · have hnode : argument.nodeId ≠ argument.thisNodeId := by rwa [hthis]
      simp only [ActorRef.send, hargument, hremote, hnode, if_false, ActorRef.sendRemote,
        hbroker hempty]

end Call

/-! ### A call from node 2 to node 1 -/

namespace TwoBases

/-- A method of `Derived` that returns its argument. -/
def returnRef : Method TwoBases :=
  ⟨.derived, "ActorRef<Derived> Derived::ReturnRef(ActorRef<Derived>)"⟩

def toReturnRef : Upcast program.classes .derived returnRef.classType := .refl _

/-- The method as it stands in `EXA_REMOTE`. -/
def remoteReturnRef : RemoteMethod program where
  actualClass := .derived
  method := returnRef
  upcast := toReturnRef
  deserializeFnArgs := returnsActorRef ReflType.serializer TwoBases.derived

/-- The table with this method alone. -/
theorem exists_registered : ∃ reg : RemoteActorRequestHandlerRegistry program,
    RemoteActorRequestHandlerRegistry.empty.registerRemoteActorMethodCallHandler remoteReturnRef
      = .ok reg ∧
    reg.methodCallHandlers.lookup (registeredHandlerKey program .derived returnRef)
      = some remoteReturnRef :=
  ⟨_, rfl, AList.lookup_insert _⟩

/-- The reference that node 2 has to the actor of node 1. -/
def remoteRef : ActorRef TwoBases.derived :=
  { actor.handle .empty with
    thisNodeId := 2
    typeErasedActor := none
    brokerActorRef := client.brokerActorRef }

/-- A reference that node 2 has to an actor of its own. -/
def localRef : ActorRef TwoBases.derived :=
  .ofActor program 2 2 9 (some ⟨0, 0x3000, 0⟩) client.brokerActorRef

/-- Node 1, with the actor spawned, serves the call. -/
theorem exists_callable : ∃ reg tr s, (TypedRegistry.machine env).Exec tr s ∧
    Callable env reg s .calm .derived remoteRef returnRef 0 0 remoteReturnRef := by
  obtain ⟨reg, -, hregistered⟩ := exists_registered
  have hinit : (TypedRegistry.machine env).init .start := ⟨1, rfl⟩
  obtain ⟨s, hexec, hs⟩ := Machine.exists_exec_of_replay hinit
    [.spawnLocal (.named "derived") 7 .calm]
    (fun s => (s.registry.backend.thisNodeId, s.registry.backend.actorIdToActor.lookup 7,
      s.registry.mailboxCount 0)) (1, some 0, 1) rfl
  obtain ⟨hnode, hs⟩ := Prod.mk.inj hs
  obtain ⟨hlookup, hcount⟩ := Prod.mk.inj hs
  exact ⟨reg, _, s, hexec,
    { isEmpty := rfl
      nodeId := hnode.symm
      remote := by decide
      broker := ⟨rfl, _, rfl⟩
      actorTypeHash := rfl
      lookup := hlookup
      registered := hregistered
      actualClass := rfl
      returns := rfl
      mailbox := by rw [hcount]; decide
      executed := rfl }⟩

end TwoBases

/-- A reference to the actor of node 1 is sent to node 1 and back. -/
theorem actor_ref_round_trip_iff_remote : ∃ reg tr s,
    (TypedRegistry.machine TwoBases.env).Exec tr s ∧
    ∃ ref, callRemote TwoBases.env reg s .calm TwoBases.remoteRef TwoBases.toReturnRef 0
        TwoBases.remoteRef = .ok ref ∧
      ref.send TwoBases.toGetA 0 [] = TwoBases.remoteRef.send TwoBases.toGetA 0 [] := by
  obtain ⟨reg, tr, s, hexec, h⟩ := TwoBases.exists_callable
  have hsend : TwoBases.remoteRef.send TwoBases.toGetA 0 [] = .ok _ := rfl
  obtain ⟨ref, href, -, hsame⟩ :=
    actor_ref_round_trip_iff (c := TwoBases.toReturnRef) h rfl (fun _ => rfl) hsend
  exact ⟨reg, tr, s, hexec, ref, href, hsame.2 (by decide) _ _ _ _⟩

/-- A reference to an actor of node 2 is sent to node 1 and back: it is equal to the one that was
sent, and `Send` throws. -/
theorem returned_actor_ref_throws : ∃ reg tr s, (TypedRegistry.machine TwoBases.env).Exec tr s ∧
    Callable TwoBases.env reg s .calm .derived TwoBases.remoteRef TwoBases.returnRef 0 0
      TwoBases.remoteReturnRef ∧
    TwoBases.localRef.send TwoBases.toGetA 0 []
      = .ok (.callActorMethod ⟨0, 0x3000, 0⟩ 0x3000 0) ∧
    ∃ ref, callRemote TwoBases.env reg s .calm TwoBases.remoteRef TwoBases.toReturnRef 0
        TwoBases.localRef = .ok ref ∧
      ref.equal TwoBases.localRef = true ∧
      ref.send TwoBases.toGetA 0 [] = .error .instanceNotSet := by
  obtain ⟨reg, tr, s, hexec, h⟩ := TwoBases.exists_callable
  exact ⟨reg, tr, s, hexec, h, rfl, _, h.callRemote_eq rfl, rfl, send_returned_eq_error rfl rfl⟩

end ExActor
