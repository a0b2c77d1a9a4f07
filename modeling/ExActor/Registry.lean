/-
**The actor registry.**

`ActorRegistryBackend` of `actor_registry.h` is itself an actor: it handles one message at a time,
but a handler that suspends lets the next message run.  `AsyncDestroyAllActors` calls
`AsyncDestroy` on every actor in `actor_id_to_actor_` and then suspends until all of them have
completed; `DestroyLocalActor` moves one actor out of the map, awaits its `AsyncDestroy` and
releases the actor when it resumes.

An actor object is named by its address, the position in `Registry.objects`, and the model keeps
the pool of threads of every object, so the threads of the actors run between and during the
messages of the backend.  The part of an `AsyncDestroy` before it waits for its scope runs on the
thread of the backend, which takes its next message only after that; the rest of a coroutine is a
later message of the backend.  The address of an object that was released is not used again and
its threads take no more steps: whatever they would do is a use after free.

Main definitions:

* `ActorRegistryBackend`, `Registry` — the maps of the backend, and the backend with the actors;
* `spawnLocal`, `handleActorCreationRequest` — how an actor enters the maps;
* `destroyLocalActor`, `asyncDestroyAllActors`, `destroyNext`, `resumeDestroyLocal`,
  `resumeDestroyAll` — the two coroutines, cut where they suspend;
* `Registry.machine` — the interleavings.
-/

import ExActor.ActorDestroy

set_option relaxedAutoImplicit false
set_option autoImplicit false

namespace ExActor

/-! ### The maps of the backend -/

/-- The `uint64_t` of an actor. -/
abbrev ActorId := BitVec 64

/-- A `TypeErasedActor*`: the position of the object among all that were ever created. -/
abbrev Address := ℕ

/-- What `actor_id_to_serialized_ref_` holds: an `ActorRef` as it was when the actor was created. -/
structure SerializedActorRef where
  nodeId : NodeId
  actorId : ActorId
deriving DecidableEq

/-- The members of `ActorRegistryBackend`. -/
structure ActorRegistryBackend where
  thisNodeId : NodeId
  actorIdToActor : UnorderedMap ActorId Address
  actorIdToSerializedRef : UnorderedMap ActorId SerializedActorRef
  actorNameToId : UnorderedMap String ActorId

/-- The addresses in `actor_id_to_actor_`. -/
def ActorRegistryBackend.actors (b : ActorRegistryBackend) : List Address :=
  UnorderedMap.values b.actorIdToActor

/-- An actor object on the heap, with the threads that run its code. -/
structure ActorObject where
  actor : Actor
  pool : ActorPool
  freed : Bool

/-- Where `AsyncDestroyAllActors` stands.  `spawned` are the calls of `AsyncDestroy` it has put into
its scope, each with the actor and the number of the call. -/
inductive DestroyAll
  | notCalled
  | loop (todo : List Address) (spawned : List (Address × ℕ))
  | awaitJoin (spawned : List (Address × ℕ))
  | done (spawned : List (Address × ℕ))
deriving DecidableEq

/-- The calls of `AsyncDestroy` made by `AsyncDestroyAllActors`. -/
def DestroyAll.spawned : DestroyAll → List (Address × ℕ)
  | .notCalled => []
  | .loop _ spawned => spawned
  | .awaitJoin spawned => spawned
  | .done spawned => spawned

/-- The actors the loop has not come to. -/
def DestroyAll.todo : DestroyAll → List Address
  | .loop todo _ => todo
  | _ => []

/-- The loop is running. -/
def DestroyAll.looping : DestroyAll → Bool
  | .loop _ _ => true
  | _ => false

/-- The backend, every actor object, and the coroutines of the backend: `destroyLocals` are the
`DestroyLocalActor`s that have not released their actor, each with the call it awaits. -/
structure Registry where
  backend : ActorRegistryBackend
  objects : List ActorObject
  destroyAll : DestroyAll
  destroyLocals : List (Address × ℕ)

/-- The registry after its constructor. -/
def Registry.initial (thisNodeId : NodeId) : Registry where
  backend := ⟨thisNodeId, ∅, ∅, ∅⟩
  objects := []
  destroyAll := .notCalled
  destroyLocals := []

/-! ### Errors -/

/-- The exceptions that leave the functions of the backend. -/
inductive RegistryError
  | nameExists (name : String)
  | notFound (actorId : ActorId)
  /-- What user code or the serializer throws. -/
  | thrown (what : String)
deriving DecidableEq

/-- The text of an exception, without the file and line that the throwing macros put first. -/
def RegistryError.what : RegistryError → String
  | .nameExists name =>
      "Check failed, expected `!actor_name_to_id_.contains(name)` is true, got false. "
        ++ "An actor with the same name already exists, name=" ++ name
  | .notFound actorId =>
      "Check failed, expected `actor_id_to_actor_.contains(actor_id)` is true, got false. "
        ++ "Actor with id " ++ toString actorId.toNat ++ " not found"
  | .thrown what => what

/-! ### Spawning -/

/-- What the code outside the registry does during a spawn. -/
structure SpawnEnv where
  /-- The constructor of the user class, or its create function. -/
  construct : Except String Unit
  /-- `NotifyExActorOnSpawned`. -/
  notifyExActorOnSpawned : Except String Unit
  /-- `Serialize` of the reference. -/
  serialize : Except String Unit

/-- A new actor enters `actor_id_to_actor_`. -/
def Registry.insertActor (r : Registry) (A : Actor) (actorId : ActorId) : Registry :=
  { r with
    backend := { r.backend with
      actorIdToActor := r.backend.actorIdToActor.insert actorId r.objects.length }
    objects := r.objects ++ [⟨A, ⟨A.initial, []⟩, false⟩] }

/-- The name of a new actor enters `actor_name_to_id_`. -/
def Registry.insertName (r : Registry) (A : Actor) (actorId : ActorId) : Registry :=
  match A.config.actorName with
  | none => r
  | some name => { r with backend := { r.backend with
      actorNameToId := r.backend.actorNameToId.insert name actorId } }

/-- The reference of a new actor enters `actor_id_to_serialized_ref_`. -/
def Registry.insertSerializedRef (r : Registry) (actorId : ActorId) : Registry :=
  { r with backend := { r.backend with
    actorIdToSerializedRef := r.backend.actorIdToSerializedRef.insert actorId
      ⟨r.backend.thisNodeId, actorId⟩ } }

/-- The name of the actor is taken. -/
def Registry.nameTaken (r : Registry) (A : Actor) : Bool :=
  match A.config.actorName with
  | none => false
  | some name => (r.backend.actorNameToId.lookup name).isSome

/-- `SpawnLocal`, with the id that `GenerateRandomActorId` has drawn. -/
def Registry.spawnLocal (r : Registry) (A : Actor) (actorId : ActorId) (env : SpawnEnv) :
    Registry × Except RegistryError ActorId :=
  match env.construct with
  | .error e => (r, .error (.thrown e))
  | .ok () =>
      match env.notifyExActorOnSpawned with
      | .error e => (r, .error (.thrown e))
      | .ok () =>
          if r.nameTaken A then (r, .error (.nameExists (A.config.actorName.getD "")))
          else
            let r' := (r.insertName A actorId).insertActor A actorId
            match env.serialize with
            | .error e => (r', .error (.thrown e))
            | .ok () => (r'.insertSerializedRef actorId, .ok actorId)

/-- `HandleActorCreationRequest`, with the id that was drawn and the outcome of the handler, which
creates the actor and serializes its reference. -/
def Registry.handleActorCreationRequest (r : Registry) (A : Actor) (actorId : ActorId)
    (handler : Except String Unit) : Registry × Except RegistryError ActorId :=
  match handler with
  | .error e => (r, .error (.thrown e))
  | .ok () =>
      if r.nameTaken A then (r, .error (.nameExists (A.config.actorName.getD "")))
      else (((r.insertName A actorId).insertActor A actorId).insertSerializedRef actorId,
        .ok actorId)

/-! ### The actors -/

/-- An action of one actor object, if it was not released. -/
def Registry.actorStep (r : Registry) (a : Address) (act : ActorAction) : Option Registry :=
  (r.objects[a]?).bind fun o =>
    if o.freed then none
    else (o.actor.machine.next o.pool act).map fun p =>
      { r with objects := r.objects.set a { o with pool := p } }

/-- `AsyncDestroy` is called on an actor; the result is the number of the call. -/
def Registry.callAsyncDestroy (r : Registry) (a : Address) : Option (Registry × ℕ) :=
  (r.objects[a]?).bind fun o =>
    (r.actorStep a (.arrive .asyncDestroy)).map fun r' => (r', o.pool.shared.destroyCalls)

/-- The number of the `AsyncDestroy` that the thread runs. -/
def Thread.destroyCall : Thread → Option ℕ
  | .destroyer k _ => some k
  | _ => none

/-- A call of `AsyncDestroy` has completed, or thrown. -/
def Registry.ended (r : Registry) (call : Address × ℕ) : Prop :=
  ∀ o ∈ r.objects[call.1]?, ∀ t ∈ o.pool.threads, t.destroyCall ≠ some call.2

instance (r : Registry) (call : Address × ℕ) : Decidable (r.ended call) :=
  inferInstanceAs (Decidable (∀ o ∈ r.objects[call.1]?, _))

/-- The thread of the backend is free: the loop is over and every `AsyncDestroy` waits for its
scope. -/
def Registry.idle (r : Registry) : Prop :=
  r.destroyAll.looping = false ∧ ∀ o ∈ r.objects, o.pool.total Thread.beforeJoin = 0

instance (r : Registry) : Decidable r.idle := inferInstanceAs (Decidable (_ ∧ _))

/-- Whether an action of an actor object is one that comes about outside the backend, or in an
`AsyncDestroy` the backend has called.  An exception in an `AsyncDestroy` that
`AsyncDestroyAllActors` has spawned reaches a fatal `DiscardResult`: the process terminates. -/
def Registry.admits (r : Registry) (a : Address) : ActorAction → Bool
  | .arrive (.pushMessage _) => true
  | .arrive .asyncDestroy => false
  | .run n env =>
      match (r.objects[a]?).bind (·.pool.threads[n]?) with
      | some (.destroyer k (.tryActivate .schedule)) =>
          env.connect.isOk || decide ((a, k) ∉ r.destroyAll.spawned)
      | _ => true

/-! ### The coroutines of the backend -/

/-- `DestroyLocalActor`, up to its suspension.  The map entries go before `AsyncDestroy` is called;
an actor that is not there is an exception and changes nothing. -/
def Registry.destroyLocalActor (r : Registry) (actorId : ActorId) :
    Option (Registry × Except RegistryError Unit) :=
  match r.backend.actorIdToActor.lookup actorId with
  | none => some (r, .error (.notFound actorId))
  | some a =>
      let name := (r.objects[a]?).bind (·.actor.config.actorName)
      let backend := { r.backend with
        actorIdToActor := r.backend.actorIdToActor.erase actorId
        actorIdToSerializedRef := r.backend.actorIdToSerializedRef.erase actorId
        actorNameToId := match name with
          | none => r.backend.actorNameToId
          | some name => r.backend.actorNameToId.erase name }
      (r.callAsyncDestroy a).map fun rk =>
        ({ rk.1 with
          backend := backend
          destroyLocals := rk.1.destroyLocals ++ [(a, rk.2)] }, .ok ())

/-- `DestroyLocalActor` resumes and releases its actor. -/
def Registry.resumeDestroyLocal (r : Registry) (i : ℕ) : Option Registry :=
  match r.destroyLocals[i]? with
  | none => none
  | some call =>
      if r.ended call then
        (r.objects[call.1]?).map fun o =>
          { r with
            objects := r.objects.set call.1 { o with freed := true }
            destroyLocals := r.destroyLocals.eraseIdx i }
      else none

/-- `AsyncDestroyAllActors` begins its loop.  Only `~ActorRegistry` sends this message, and the
order of an unordered map is unspecified. -/
def Registry.asyncDestroyAllActors (r : Registry) (order : List Address) : Option Registry :=
  match r.destroyAll with
  | .notCalled =>
      if order.Perm r.backend.actors then some { r with destroyAll := .loop order [] } else none
  | _ => none

/-- One round of the loop, or its end. -/
def Registry.destroyNext (r : Registry) : Option Registry :=
  match r.destroyAll with
  | .loop (a :: todo) spawned =>
      if ∀ o ∈ r.objects, o.pool.total Thread.beforeJoin = 0 then
        (r.callAsyncDestroy a).map fun rk =>
          { rk.1 with destroyAll := .loop todo (spawned ++ [(a, rk.2)]) }
      else none
  | .loop [] spawned =>
      if ∀ o ∈ r.objects, o.pool.total Thread.beforeJoin = 0 then
        some { r with destroyAll := .awaitJoin spawned }
      else none
  | _ => none

/-- `AsyncDestroyAllActors` resumes when every call in its scope has completed. -/
def Registry.resumeDestroyAll (r : Registry) : Option Registry :=
  match r.destroyAll with
  | .awaitJoin spawned =>
      if (∀ call ∈ spawned, r.ended call) ∧ ∀ call ∈ spawned, ∀ o ∈ r.objects[call.1]?,
          o.freed = false then
        some { r with destroyAll := .done spawned }
      else none
  | _ => none

/-! ### The interleavings -/

/-- The messages of the backend, the continuations of its coroutines, and what the actors do. -/
inductive RegistryAction
  | spawnLocal (A : Actor) (actorId : ActorId) (env : SpawnEnv)
  | handleActorCreationRequest (A : Actor) (actorId : ActorId) (handler : Except String Unit)
  | lookUp (name : String)
  | destroyLocalActor (actorId : ActorId)
  | resumeDestroyLocal (i : ℕ)
  | asyncDestroyAllActors (order : List Address)
  | destroyNext
  | resumeDestroyAll
  | actor (a : Address) (act : ActorAction)

/-- One step.  `GenerateRandomActorId` draws until the id is not in the map. -/
def Registry.next (r : Registry) : RegistryAction → Option Registry
  | .spawnLocal A actorId env =>
      if r.idle ∧ actorId ∉ r.backend.actorIdToActor then some (r.spawnLocal A actorId env).1
      else none
  | .handleActorCreationRequest A actorId handler =>
      if r.idle ∧ actorId ∉ r.backend.actorIdToActor then
        some (r.handleActorCreationRequest A actorId handler).1
      else none
  | .lookUp _ => if r.idle then some r else none
  | .destroyLocalActor actorId =>
      if r.idle then (r.destroyLocalActor actorId).map Prod.fst else none
  | .resumeDestroyLocal i => if r.idle then r.resumeDestroyLocal i else none
  | .asyncDestroyAllActors order => if r.idle then r.asyncDestroyAllActors order else none
  | .destroyNext => r.destroyNext
  | .resumeDestroyAll => if r.idle then r.resumeDestroyAll else none
  | .actor a act => if r.admits a act then r.actorStep a act else none

/-- All interleavings of the backend and the actors. -/
def Registry.machine : Machine Registry RegistryAction where
  init r := ∃ thisNodeId, r = Registry.initial thisNodeId
  next := Registry.next

/-- The empty registry is one the machine starts from. -/
theorem Registry.machine_init (thisNodeId : NodeId) :
    Registry.machine.init (Registry.initial thisNodeId) := ⟨thisNodeId, rfl⟩

/-- A thread of an actor takes several steps in which nothing is refused. -/
def actorSteps (a : Address) (n count : ℕ) : List RegistryAction :=
  (threadSteps n count Env.calm).map (.actor a)

/-- Nothing throws. -/
def SpawnEnv.calm : SpawnEnv := ⟨.ok (), .ok (), .ok ()⟩

end ExActor
