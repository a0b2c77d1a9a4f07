/-
**Requests of other nodes.**

`HandleNetworkRequest` of `actor_registry.cc` serves the four kinds of requests that the nodes of a
cluster send to each other: it creates an actor, calls a method, looks a name up or destroys an
actor, and answers with the reply of the same kind.  The functions that create actors and call
methods are found in a table that `EXA_REMOTE` fills.

A handler runs user code, which may throw anything.  `CppException` tells the exceptions that a
`catch (std::exception&)` catches from those that it does not.  Where a handler waits, for a message
it has submitted or for an `AsyncDestroy`, it is given here how the wait ends; the actors of the
registry decide that, in `ExActor/RequestServer.lean`.  The id that is drawn for a new actor and the
behaviour of the user code come from outside.

Main definitions:

* `NetworkRequest`, `NetworkReply` — the messages;
* `RemoteActorRequestHandlerRegistry` — the table of the handlers;
* `deserializeAndCreateActor`, `deserializeAndInvokeActorMethod` — what a handler does;
* `handleNetworkRequest` — how a request is served.
-/

import ExActor.RegistryLookUp

set_option relaxedAutoImplicit false
set_option autoImplicit false

namespace ExActor

variable {κ : Type} {P : Program κ}

/-! ### Exceptions -/

/-- A C++ exception: one that derives from `std::exception`, with its `typeid(..).name()` and its
`what()`, or any other. -/
inductive CppException
  | stdException (typeName what : String)
  | other (typeName : String)
deriving DecidableEq

/-- A `catch (std::exception&)` catches it. -/
def CppException.isStd : CppException → Bool
  | .stdException .. => true
  | .other _ => false

/-- What the throwing macros throw. -/
def throwStream (what : String) : CppException :=
  .stdException "N8ex_actor8internal11ThrowStreamE" what

/-- The text that the handlers make of an exception they have caught. -/
def errorMessage (typeName what : String) : String :=
  "Exception type: " ++ typeName ++ ", what(): " ++ what

/-! ### Messages -/

/-- `ActorCreationRequest` of `message.h`. -/
structure ActorCreationRequest where
  handlerKey : String
  serializedArgs : ByteBuffer
deriving DecidableEq

/-- `ActorLookUpRequest` of `message.h`. -/
structure ActorLookUpRequest where
  actorName : String
deriving DecidableEq

/-- `ActorDestroyRequest` of `message.h`. -/
structure ActorDestroyRequest where
  actorId : ActorId
deriving DecidableEq

/-- `NetworkRequest` of `message.h`. -/
inductive NetworkRequest
  | actorCreation (msg : ActorCreationRequest)
  | actorMethodCall (msg : ActorMethodCallRequest)
  | actorLookUp (msg : ActorLookUpRequest)
  | actorDestroy (msg : ActorDestroyRequest)
deriving DecidableEq

/-- `NetworkReply` of `message.h`. -/
inductive NetworkReply
  | actorCreation (success : Bool) (serializedActorRef : ByteBuffer) (error : String)
  | actorMethodCall (success : Bool) (serializedResult : ByteBuffer) (error : String)
  | actorLookUp (success : Bool) (serializedActorRef : ByteBuffer)
  | actorDestroy (success : Bool) (error : String)
deriving DecidableEq

/-- The field `success`. -/
def NetworkReply.success : NetworkReply → Bool
  | .actorCreation success _ _ => success
  | .actorMethodCall success _ _ => success
  | .actorLookUp success _ => success
  | .actorDestroy success _ => success

/-- The reply is the alternative of the variant that belongs to the request. -/
def NetworkReply.answers : NetworkReply → NetworkRequest → Bool
  | .actorCreation .., .actorCreation _ => true
  | .actorMethodCall .., .actorMethodCall _ => true
  | .actorLookUp .., .actorLookUp _ => true
  | .actorDestroy .., .actorDestroy _ => true
  | _, _ => false

/-! ### Handlers -/

/-- A create function in `EXA_REMOTE`, with what the user code does in one call. -/
structure RemoteCreateFn where
  uniqueName : String
  /-- `DeserializeFnArgs`: the configuration, and the create function on these arguments. -/
  deserializeFnArgs : ByteBuffer → ActorRefSerdeContext →
    Except CppException (ActorConfig × Except CppException Unit)
  notifyExActorOnSpawned : Except CppException Unit
  hasShouldActivateHook : Bool

/-- A method in `EXA_REMOTE`, for the class that the create function returns, with what the user
code does in one call. -/
structure RemoteMethod (P : Program κ) where
  actualClass : κ
  method : Method κ
  upcast : Upcast P.classes actualClass method.classType
  /-- `DeserializeFnArgs`: the method on these arguments, for its `this`, with `Serialize` of what
  it returns. -/
  deserializeFnArgs : ByteBuffer → ActorRefSerdeContext →
    Except CppException (Pointer → Except CppException ByteBuffer)

/-- `RemoteActorCreationHandlerContext`. -/
structure RemoteActorCreationHandlerContext where
  serializedArgs : ByteBuffer
  actorRefSerdeCtx : ActorRefSerdeContext

/-- `RemoteActorMethodCallHandlerContext`. -/
structure RemoteActorMethodCallHandlerContext where
  actor : Option TypeErasedActor
  serializedArgs : ByteBuffer
  actorRefSerdeCtx : ActorRefSerdeContext
  mailboxIndex : SizeT

/-- `RemoteActorRequestHandlerRegistry`: the registrar puts every function under its own key. -/
structure RemoteActorRequestHandlerRegistry (P : Program κ) where
  creationHandlers : UnorderedMap String RemoteCreateFn
  methodCallHandlers : UnorderedMap (BitVec 64) (RemoteMethod P)
  creationKeys : ∀ key fn, creationHandlers.lookup key = some fn → key = fn.uniqueName
  methodCallKeys : ∀ key fn, methodCallHandlers.lookup key = some fn →
    key = registeredHandlerKey P fn.actualClass fn.method

namespace RemoteActorRequestHandlerRegistry

/-- No handlers. -/
def empty : RemoteActorRequestHandlerRegistry P := ⟨∅, ∅, by simp, by simp⟩

/-- `RegisterRemoteActorCreationHandler`, as `RemoteFuncHandlerRegistrar` calls it. -/
def registerRemoteActorCreationHandler (reg : RemoteActorRequestHandlerRegistry P)
    (fn : RemoteCreateFn) : Except CppException (RemoteActorRequestHandlerRegistry P) :=
  if fn.uniqueName ∈ reg.creationHandlers then
    .error (throwStream ("Check failed, expected `!remote_actor_creation_handler_.contains(key)` "
      ++ "is true, got false. Duplicate remote actor creation handler: " ++ fn.uniqueName
      ++ ", maybe you have duplicated functions in EXA_REMOTE."))
  else .ok
    { reg with
      creationHandlers := reg.creationHandlers.insert fn.uniqueName fn
      creationKeys := by
        intro key fn' h
        by_cases hkey : key = fn.uniqueName
        · subst hkey
          rw [AList.lookup_insert] at h
          exact congrArg _ (Option.some.inj h)
        · rw [AList.lookup_insert_ne hkey] at h
          exact reg.creationKeys key fn' h }

/-- `RegisterRemoteActorMethodCallHandler`, as `RemoteFuncHandlerRegistrar` calls it. -/
def registerRemoteActorMethodCallHandler (reg : RemoteActorRequestHandlerRegistry P)
    (fn : RemoteMethod P) : Except CppException (RemoteActorRequestHandlerRegistry P) :=
  let handlerKey := registeredHandlerKey P fn.actualClass fn.method
  if handlerKey ∈ reg.methodCallHandlers then
    .error (throwStream ("Check failed, expected "
      ++ "`!remote_actor_method_call_handler_.contains(handler_key)` is true, got false. "
      ++ "Duplicate remote actor method call handler for key " ++ toString handlerKey.toNat
      ++ ", maybe you have duplicated functions in EXA_REMOTE."))
  else .ok
    { reg with
      methodCallHandlers := reg.methodCallHandlers.insert handlerKey fn
      methodCallKeys := by
        intro key fn' h
        by_cases hkey : key = handlerKey
        · subst hkey
          rw [AList.lookup_insert] at h
          rw [← Option.some.inj h]
        · rw [AList.lookup_insert_ne hkey] at h
          exact reg.methodCallKeys key fn' h }

/-- `GetRemoteActorCreationHandler`. -/
def getRemoteActorCreationHandler (reg : RemoteActorRequestHandlerRegistry P) (key : String) :
    Except CppException RemoteCreateFn :=
  match reg.creationHandlers.lookup key with
  | some fn => .ok fn
  | none =>
      .error (throwStream ("Check failed, expected `remote_actor_creation_handler_.contains(key)` "
        ++ "is true, got false. Remote actor creation handler not found: " ++ key
        ++ ", maybe you forgot to register it with EXA_REMOTE."))

/-- `GetRemoteActorMethodCallHandler`. -/
def getRemoteActorMethodCallHandler (reg : RemoteActorRequestHandlerRegistry P)
    (handlerKey : BitVec 64) : Except CppException (RemoteMethod P) :=
  match reg.methodCallHandlers.lookup handlerKey with
  | some fn => .ok fn
  | none =>
      .error (throwStream ("Check failed, expected "
        ++ "`remote_actor_method_call_handler_.contains(handler_key)` is true, got false. "
        ++ "Remote actor method call handler not found for key " ++ toString handlerKey.toNat
        ++ ", maybe you forgot to register it with EXA_REMOTE."))

end RemoteActorRequestHandlerRegistry

/-- `DeserializeAndCreateActor`, up to the reference, which is made of the new object. -/
def deserializeAndCreateActor (fn : RemoteCreateFn) (ctx : RemoteActorCreationHandlerContext) :
    Except CppException Actor := do
  let (actorConfig, create) ← fn.deserializeFnArgs ctx.serializedArgs ctx.actorRefSerdeCtx
  create
  fn.notifyExActorOnSpawned
  return ⟨actorConfig, fn.hasShouldActivateHook⟩

/-- A message that `CallActorMethodUseTuple` submits: the actor it is for, the mailbox, and the
method on its pointer, which runs when the message is executed. -/
structure MethodCall where
  actor : TypeErasedActor
  thisPtr : Pointer
  mailboxIndex : SizeT
  invoke : Except CppException ByteBuffer

/-- `DeserializeAndInvokeActorMethod`, up to the submission. -/
def deserializeAndInvokeActorMethod (fn : RemoteMethod P)
    (ctx : RemoteActorMethodCallHandlerContext) : Except CppException MethodCall :=
  match ctx.actor with
  | none =>
      .error (throwStream "Check failed, expected `context.actor != nullptr` is true, got false. ")
  | some actor =>
      (fn.deserializeFnArgs ctx.serializedArgs ctx.actorRefSerdeCtx).map fun invoke =>
        let adjustedPtr := fn.upcast.subobject.cast actor.userClassInstanceAddress
        ⟨actor, adjustedPtr, ctx.mailboxIndex, invoke adjustedPtr⟩

/-! ### Serving a request -/

/-- What becomes of a message that was submitted. -/
inductive Submission
  /-- `PushMessage` threw. -/
  | refused (e : CppException)
  /-- An activation executes it. -/
  | executed
  /-- Its method is not run: it was left behind in its mailbox, or its receiver was stopped. -/
  | dropped
deriving DecidableEq

/-- What the handler of a request meets while it is served: what comes from outside, and how the
actors of the registry end its waits. -/
structure RequestEnv where
  /-- The id that `GenerateRandomActorId` returns. -/
  actorId : ActorId
  /-- What becomes of the message of a method call. -/
  submission : Submission
  /-- How the `AsyncDestroy` that is awaited ends, if it does. -/
  asyncDestroy : Option (Except CppException Unit)
  /-- `broker_actor_ref_`. -/
  brokerActorRef : BrokerRef

/-- How `HandleNetworkRequest` ends. -/
inductive Handled
  /-- It completes with a reply.  The registry is the one after what it did before it waited. -/
  | replied (s : TypedRegistry) (reply : NetworkReply)
  /-- It completes with an exception. -/
  | escaped (e : CppException)
  /-- It waits for ever. -/
  | unanswered
  /-- The behaviour is undefined. -/
  | undefined

/-- A `catch (std::exception& error)` whose block replies. -/
def catchStd (s : TypedRegistry) (reply : String → NetworkReply) (e : CppException) : Handled :=
  match e with
  | .stdException typeName what => .replied s (reply (errorMessage typeName what))
  | .other _ => .escaped e

/-- How many mailboxes the actor object at an address has. -/
def Registry.mailboxCount (r : Registry) (a : Address) : ℕ :=
  ((r.objects[a]?).map (·.pool.shared.mailboxSet.mailboxCount)).getD 0

namespace TypedRegistry

variable (E : TypedEnv P) (reg : RemoteActorRequestHandlerRegistry P) (s : TypedRegistry)
  (env : RequestEnv)

/-- The text for a name that is taken. -/
def creationNameExists (name : String) : String :=
  "Check failed, expected `!actor_name_to_id_.contains(result.actor_name.value())` is true, "
    ++ "got false. An actor with the same name already exists, name=" ++ name

/-- `HandleActorCreationRequest`.  All of it stands in one `try` block. -/
def handleActorCreationRequest (msg : ActorCreationRequest) : Handled :=
  let failed := catchStd s (.actorCreation false [])
  match reg.getRemoteActorCreationHandler msg.handlerKey with
  | .error e => failed e
  | .ok handler =>
      match deserializeAndCreateActor handler
          ⟨msg.serializedArgs, s.context E env.brokerActorRef⟩ with
      | .error e => failed e
      | .ok A =>
          let result := s.registry.handleActorCreationRequest A env.actorId (.ok ())
          match result.2 with
          | .error _ => failed (throwStream (creationNameExists (A.config.actorName.getD "")))
          | .ok id =>
              .replied ⟨result.1, s.insertHandle E id result.2⟩
                (.actorCreation true (handleBytes E s.registry.backend.thisNodeId id
                  s.registry.objects.length) "")

/-- The text for an actor that is not there. -/
def cantFindActor (msg : ActorMethodCallRequest) : String :=
  "Can't find actor at remote node, actor_id=" ++ toString msg.actorId.toNat ++ ", node_id="
    ++ toString s.registry.backend.thisNodeId.toNat ++ ", maybe it's already destroyed."

variable [DecidableEq κ]

/-- `HandleActorMethodCallRequest`.  The look-up of the handler and the call stand in `try` blocks
of their own.  A handler for another class casts the pointer to the wrong class, and an index
without a mailbox leaves the buffer of the mailboxes. -/
def handleActorMethodCallRequest (msg : ActorMethodCallRequest) : Handled :=
  let failed := catchStd s (.actorMethodCall false [])
  match s.registry.backend.actorIdToActor.lookup msg.actorId with
  | none => .replied s (.actorMethodCall false [] (s.cantFindActor msg))
  | some a =>
      match reg.getRemoteActorMethodCallHandler msg.handlerKey with
      | .error e => failed e
      | .ok handler =>
          match deserializeAndInvokeActorMethod handler
              ⟨some (E.instances.objectAt a), msg.serializedArgs, s.context E env.brokerActorRef,
                msg.mailboxIndex⟩ with
          | .error e => failed e
          | .ok call =>
              if handler.actualClass ≠ (E.instances a).1 then .undefined
              else if s.registry.mailboxCount a ≤ call.mailboxIndex.toNat then .undefined
              else
                match env.submission with
                | .refused e => failed e
                | .dropped => .unanswered
                | .executed =>
                    match call.invoke with
                    | .ok serializedResult => .replied s (.actorMethodCall true serializedResult "")
                    | .error e => failed e

/-- The `ActorLookUpRequest` branch.  It stands in no `try` block. -/
def handleActorLookUp (msg : ActorLookUpRequest) : Handled :=
  match handleActorLookUpRequest s.registry.backend.actorNameToId s.actorIdToSerializedRef
      msg.actorName with
  | .error what => .escaped (.stdException "St12out_of_range" what)
  | .ok (some serializedActorRef) => .replied s (.actorLookUp true serializedActorRef)
  | .ok none => .replied s (.actorLookUp false [])

/-- `HandleActorDestroyRequest`. -/
def handleActorDestroyRequest (msg : ActorDestroyRequest) : Handled :=
  match s.registry.destroyLocalActor msg.actorId with
  | none => .undefined
  | some (_, .error e) => catchStd s (.actorDestroy false) (throwStream e.what)
  | some (registry, .ok ()) =>
      let s' : TypedRegistry := ⟨registry, s.actorIdToSerializedRef.erase msg.actorId⟩
      match env.asyncDestroy with
      | none => .unanswered
      | some (.ok ()) => .replied s' (.actorDestroy true "")
      | some (.error e) => catchStd s' (.actorDestroy false) e

/-- `HandleNetworkRequest`, on what `Deserialize<NetworkRequest>` makes of the buffer. -/
def handleNetworkRequest (request : Except CppException NetworkRequest) : Handled :=
  match request with
  | .error e => .escaped e
  | .ok (.actorCreation msg) => s.handleActorCreationRequest E reg env msg
  | .ok (.actorMethodCall msg) => s.handleActorMethodCallRequest E reg env msg
  | .ok (.actorLookUp msg) => s.handleActorLookUp msg
  | .ok (.actorDestroy msg) => s.handleActorDestroyRequest env msg

end TypedRegistry

end ExActor
