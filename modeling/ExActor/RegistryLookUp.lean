/-
**Looking up an actor by its name.**

A named actor can be reached in three ways: by the reference its spawn returned, by
`GetActorRefByName` on its own node, and by `GetActorRefByName` on another node, whose reply carries
the bytes of the reference that was serialized when the actor was created.  Both lookups name the
class of the reference themselves.  The local one makes the reference from the `void*` of the actor
object, the remote one reads the bytes of an `ActorRef<K>` as those of an `ActorRef<U>`; neither
converts a pointer to `K` into one to `U`.

`TypedRegistry` is the registry with the classes: the class and the instance of the actor object at
each address, and the bytes in `actor_id_to_serialized_ref_`.

Main definitions:

* `TypedRegistry`, `TypedRegistry.machine` — the registry with the serialized references;
* `getRemoteActorRefByName`, `TypedRegistry.passBack` — the lookup from another node, and the way
  of its result to the node of the actor.

Main results:

* `TypedRegistry.lookup_serializedRef` — the bytes are those of the reference of the spawn;
* `lookup_by_name_iff` — the lookups agree with the conversion exactly at offset zero.
-/

import ExActor.ActorRefCasts
import ExActor.RegistryConsistency

set_option relaxedAutoImplicit false
set_option autoImplicit false

namespace ExActor

variable {κ : Type} {P : Program κ}

/-! ### The registry with the classes of its actors -/

/-- The classes of the actor objects, with their instances. -/
abbrev Instances (P : Program κ) := Address → (K : κ) × Instance P.classes 64 K

/-- The actor object at an address. -/
def Instances.objectAt (instances : Instances P) (a : Address) : TypeErasedActor :=
  .ofInstance P a (instances a).2

/-- The actor at an address, as a reference sees it. -/
def Instances.actor (instances : Instances P) (nodeId : NodeId) (id : ActorId) (a : Address) :
    SpawnedActor P (instances a).1 :=
  ⟨nodeId, id, a, (instances a).2⟩

/-- The registry, with the bytes that `actor_id_to_serialized_ref_` holds. -/
structure TypedRegistry where
  registry : Registry
  actorIdToSerializedRef : UnorderedMap ActorId ByteBuffer

/-- What a `TypedRegistry` takes from its surroundings: the classes and the serializer. -/
structure TypedEnv (P : Program κ) where
  instances : Instances P
  serializer : Serializer ReflType
  brokerActorRef : BrokerRef

namespace TypedRegistry

variable (E : TypedEnv P)

/-- The bytes of the reference that a spawn makes. -/
def handleBytes (nodeId : NodeId) (id : ActorId) (a : Address) : ByteBuffer :=
  E.serializer.serialize
    (reflectorFrom ((E.instances.actor nodeId id a).handle E.brokerActorRef))

/-- A new actor enters `actor_id_to_serialized_ref_` when its spawn succeeds. -/
def insertHandle (s : TypedRegistry) (id : ActorId) :
    Except RegistryError ActorId → UnorderedMap ActorId ByteBuffer
  | .ok _ => s.actorIdToSerializedRef.insert id
      (handleBytes E s.registry.backend.thisNodeId id s.registry.objects.length)
  | .error _ => s.actorIdToSerializedRef

/-- `actor_id_to_serialized_ref_` after an action. -/
def serializedRefs (s : TypedRegistry) : RegistryAction → UnorderedMap ActorId ByteBuffer
  | .spawnLocal A id env => s.insertHandle E id (s.registry.spawnLocal A id env).2
  | .handleActorCreationRequest A id handler =>
      s.insertHandle E id (s.registry.handleActorCreationRequest A id handler).2
  | .destroyLocalActor id =>
      if id ∈ s.registry.backend.actorIdToActor then s.actorIdToSerializedRef.erase id
      else s.actorIdToSerializedRef
  | _ => s.actorIdToSerializedRef

/-- One step of the registry; `Serialize` succeeds. -/
def next (s : TypedRegistry) (act : RegistryAction) : Option TypedRegistry :=
  if SerializeTotal s.registry act then
    (s.registry.next act).map fun registry => ⟨registry, s.serializedRefs E act⟩
  else none

/-- All interleavings. -/
def machine : Machine TypedRegistry RegistryAction where
  init s := ∃ thisNodeId, s = ⟨.initial thisNodeId, ∅⟩
  next := next E

variable {E} {s s' : TypedRegistry} {tr : List (TypedRegistry × RegistryAction)}

theorem next_eq_some {act : RegistryAction} (h : (machine E).next s act = some s') :
    SerializeTotal s.registry act ∧ Registry.machine.next s.registry act = some s'.registry ∧
      s'.actorIdToSerializedRef = s.serializedRefs E act := by
  have h : s.next E act = some s' := h
  unfold next at h
  split at h
  · next hser =>
      obtain ⟨r', hr', rfl⟩ := Option.map_eq_some_iff.1 h
      exact ⟨hser, hr', rfl⟩
  · simp at h

/-- A run of the registry with the classes is a run of the registry. -/
theorem exec_registry (h : (machine E).Exec tr s) :
    Registry.machine.Exec (tr.map fun p => (p.1.registry, p.2)) s.registry ∧
      Machine.Meets SerializeTotal (tr.map fun p => (p.1.registry, p.2)) := by
  induction h with
  | init h0 =>
      obtain ⟨thisNodeId, rfl⟩ := h0
      exact ⟨.init (Registry.machine_init thisNodeId), Machine.meets_nil _⟩
  | step _ hn ih =>
      obtain ⟨hser, hnext, -⟩ := next_eq_some hn
      rw [List.map_append]
      exact ⟨ih.1.step hnext,
        (Machine.meets_append ..).2 ⟨ih.2, (Machine.meets_singleton ..).2 hser⟩⟩

/-- The bytes that are stored are those of the references of the spawns. -/
def RefsStored (E : TypedEnv P) (s : TypedRegistry) : Prop :=
  ∀ id, s.actorIdToSerializedRef.lookup id
    = (s.registry.backend.actorIdToActor.lookup id).map
        (handleBytes E s.registry.backend.thisNodeId id)

/-- A spawn that succeeds stores the bytes of its reference. -/
theorem RefsStored.add (h : RefsStored E s) {A : Actor} {id : ActorId}
    (hrefs : s'.actorIdToSerializedRef = s.insertHandle E id (.ok id))
    (hb : s'.registry.backend
      = s.registry.backend.added id s.registry.objects.length A.config.actorName) :
    RefsStored E s' := by
  intro id'
  rw [hrefs, hb]
  simp only [insertHandle, ActorRegistryBackend.added]
  by_cases hid : id' = id
  · subst hid
    rw [AList.lookup_insert, AList.lookup_insert]
    rfl
  · rw [AList.lookup_insert_ne hid, AList.lookup_insert_ne hid]
    exact h id'

/-- A step that leaves both sides alone. -/
theorem RefsStored.same (h : RefsStored E s)
    (hrefs : s'.actorIdToSerializedRef = s.actorIdToSerializedRef)
    (hb : s'.registry.backend = s.registry.backend) : RefsStored E s' := by
  intro id
  rw [hrefs, hb]
  exact h id

/-- Destroying an actor takes its bytes away. -/
theorem RefsStored.remove (h : RefsStored E s) {id : ActorId} {name : Option String}
    (hrefs : s'.actorIdToSerializedRef = s.actorIdToSerializedRef.erase id)
    (hb : s'.registry.backend = s.registry.backend.removed id name) : RefsStored E s' := by
  intro id'
  rw [hrefs, hb]
  simp only [ActorRegistryBackend.removed]
  by_cases hid : id' = id
  · subst hid
    rw [AList.lookup_erase, AList.lookup_erase]
    rfl
  · rw [AList.lookup_erase_ne hid, AList.lookup_erase_ne hid]
    exact h id'

/-- **The bytes in `actor_id_to_serialized_ref_` are those of the references of the spawns**, in
every reachable state. -/
theorem lookup_serializedRef (h : (machine E).Exec tr s) : RefsStored E s := by
  refine h.invariantWhere (I := RefsStored E) ?_ ?_ (Machine.meets_true tr)
  · rintro _ ⟨thisNodeId, rfl⟩ id
    simp [Registry.initial]
  · intro _ s act s' _ _ hI _ hn
    obtain ⟨hser, hnext, hrefs⟩ := next_eq_some hn
    have hnext' : s.registry.next act = some s'.registry := hnext
    cases act with
    | spawnLocal A id env =>
        obtain ⟨-, heq⟩ := by simpa [Registry.next] using hnext'
        rcases s.registry.spawnLocal_spec A id hser with ⟨e, hspec⟩ | ⟨-, hspec⟩
        · -- a spawn that fails writes nothing
          rw [serializedRefs, hspec] at hrefs
          rw [hspec] at heq
          exact hI.same hrefs (congrArg _ heq.symm)
        · rw [serializedRefs, hspec] at hrefs
          rw [hspec] at heq
          exact hI.add hrefs (congrArg Registry.backend heq.symm)
    | handleActorCreationRequest A id handler =>
        obtain ⟨-, heq⟩ := by simpa [Registry.next] using hnext'
        rcases s.registry.handleActorCreationRequest_spec A id handler with
          ⟨e, hspec⟩ | ⟨-, hspec⟩
        · rw [serializedRefs, hspec] at hrefs
          rw [hspec] at heq
          exact hI.same hrefs (congrArg _ heq.symm)
        · rw [serializedRefs, hspec] at hrefs
          rw [hspec] at heq
          exact hI.add hrefs (congrArg Registry.backend heq.symm)
    | destroyLocalActor id =>
        simp only [Registry.next] at hnext'
        split at hnext'
        · obtain ⟨p, hp, heq⟩ := Option.map_eq_some_iff.1 hnext'
          -- an unknown id is refused before anything is erased
          cases ha : s.registry.backend.actorIdToActor.lookup id with
          | none =>
              have hid := AList.lookup_eq_none.1 ha
              rw [Registry.destroyLocalActor_unknown hid] at hp
              obtain rfl := Option.some.inj hp
              rw [serializedRefs, if_neg hid] at hrefs
              exact hI.same hrefs (congrArg _ heq.symm)
          | some a =>
              obtain ⟨-, hb, -⟩ := Registry.destroyLocalActor_known ha hp
              rw [serializedRefs, if_pos (UnorderedMap.mem_of_lookup ha)] at hrefs
              exact hI.remove hrefs ((congrArg _ heq.symm).trans hb)
        · simp at hnext'
    | lookUp name =>
        obtain ⟨-, heq⟩ := by simpa [Registry.next] using hnext'
        exact hI.same hrefs (congrArg _ heq.symm)
    | _ => exact hI.same hrefs ((Registry.step_of_next hnext).maps_eq rfl).1

end TypedRegistry

/-! ### The lookups -/

/-- The members of an `ActorRegistryBackend` from which it makes references. -/
structure RefBackend where
  thisNodeId : NodeId
  brokerActorRef : BrokerRef
  actorIdToActor : UnorderedMap ActorId TypeErasedActor

/-- The text of the exception when the broker is missing, without the file and line. -/
def brokerNotSet : String :=
  "Check failed, expected `!broker_actor_ref_.IsEmpty()` is true, got false. Broker actor not set"

/-- `GetActorRefByName` on another node, with what the lookup on the node of the actor found. -/
def getRemoteActorRefByName (S : Serializer ReflType) (U : κ) (client : RefBackend)
    (found : Except String (Option ByteBuffer)) : Except String (Option (ActorRef U)) :=
  if client.brokerActorRef.isEmpty then .error brokerNotSet
  else do
    match ← found with
    | some serializedActorRef =>
        let ref ← deserializeActorRef S U client.thisNodeId client.actorIdToActor
          client.brokerActorRef serializedActorRef
        return some ref
    | none => return none

namespace TypedRegistry

variable (E : TypedEnv P) (s : TypedRegistry)

/-- `GetActorRefByName<U>(name)` on the node of the actor. -/
def getActorRefByName (U : κ) (brokerActorRef : BrokerRef) (name : String) :
    Except String (Option (ActorRef U)) :=
  s.registry.backend.getActorRefByName P U E.instances.objectAt brokerActorRef name

/-- The context in which the node of the actor reads a reference. -/
def context (brokerActorRef : BrokerRef) : ActorRefSerdeContext where
  thisNodeId := s.registry.backend.thisNodeId
  actorLookUpFn id := (s.registry.backend.actorIdToActor.lookup id).map E.instances.objectAt
  brokerActorRef := brokerActorRef

/-- A reference that is passed to the node of the actor. -/
def passBack {U : κ} (brokerActorRef : BrokerRef) (ref : ActorRef U) :
    Except String (ActorRef U) :=
  parserRead E.serializer U (s.context E brokerActorRef)
    (E.serializer.serialize (reflectorFrom ref))

/-- `GetActorRefByName<U>(node, name)` on another node, whose result comes back to the node of the
actor. -/
def getActorRefByNameAndPassBack (U : κ) (client : RefBackend) (brokerActorRef : BrokerRef)
    (name : String) : Except String (Option (ActorRef U)) := do
  match ← getRemoteActorRefByName E.serializer U client
    (handleActorLookUpRequest s.registry.backend.actorNameToId s.actorIdToSerializedRef name) with
  | some ref =>
      let ref' ← s.passBack E brokerActorRef ref
      return some ref'
  | none => return none

end TypedRegistry

/-! ### What they find -/

namespace SpawnedActor

variable {K U : κ} (A : SpawnedActor P K)

/-- A reference whose pointer is the `void*` of the actor object. -/
def uncast (U : κ) (brokerActorRef : BrokerRef) : ActorRef U :=
  .ofActor P A.nodeId A.nodeId A.actorId (some A.object) brokerActorRef

/-- The pointer of such a reference is right exactly at offset zero. -/
theorem adjustedPtr_uncast_iff (brokerActorRef : BrokerRef) (p : Subobject P.classes K U) :
    (A.uncast U brokerActorRef).adjustedPtr = A.userClassInstance.addressOf p ↔ p.offset = 0 := by
  have hself : (A.uncast U brokerActorRef).adjustedPtr
      = A.userClassInstance.addressOf (.self K) := (Instance.addressOf_self _).symm
  rw [hself, Instance.addressOf_inj, Subobject.offset_self]
  exact eq_comm

/-- And exactly then it is the reference of the spawn, converted. -/
theorem uncast_eq_convert_iff (brokerActorRef : BrokerRef) (c : Upcast P.classes K U) :
    A.uncast U brokerActorRef = (A.handle brokerActorRef).convert c
      ↔ c.subobject.offset = 0 := by
  have hcast : ((A.handle brokerActorRef).convert c).adjustedPtr
      = A.userClassInstance.addressOf c.subobject := by
    have h := Instance.cast_addressOf A.userClassInstance (.self K) c.subobject
    rwa [Instance.addressOf_self, Subobject.self_comp] at h
  constructor
  · intro h
    rw [← A.adjustedPtr_uncast_iff brokerActorRef, h, hcast]
  · intro h
    have hptr := ((A.adjustedPtr_uncast_iff brokerActorRef c.subobject).2 h).trans hcast.symm
    have hptr : A.userClassInstance.address
        = c.subobject.cast A.userClassInstance.address := hptr
    simp only [uncast, ActorRef.ofActor, ActorRef.convert, BasicActorRef.convert, handle,
      BasicActorRef.ofActor, object, TypeErasedActor.ofInstance, Option.map_some,
      Option.getD_some, ← hptr]

end SpawnedActor

namespace TypedRegistry

variable {E : TypedEnv P} {s : TypedRegistry} {tr : List (TypedRegistry × RegistryAction)}
  {name : String} {id : ActorId} {a : Address}

/-- What the lookup on the node of the actor finds. -/
theorem getActorRefByName_eq (h : (machine E).Exec tr s) (U : κ) (brokerActorRef : BrokerRef)
    (hname : s.registry.backend.actorNameToId.lookup name = some id)
    (ha : s.registry.backend.actorIdToActor.lookup id = some a) :
    s.getActorRefByName E U brokerActorRef name
      = .ok (some ((E.instances.actor s.registry.backend.thisNodeId id a).uncast U
          brokerActorRef)) := by
  obtain ⟨hexec, hser⟩ := exec_registry h
  rw [getActorRefByName, (Registry.consistent_of_exec hexec hser).getActorRefByName_eq, hname,
    Option.bind_some, ha]
  rfl

/-- What the lookup on another node finds, after it has come back. -/
theorem getActorRefByNameAndPassBack_eq (h : (machine E).Exec tr s) (U : κ)
    {client : RefBackend} (hclient : client.brokerActorRef.isEmpty = false)
    (brokerActorRef : BrokerRef)
    (hname : s.registry.backend.actorNameToId.lookup name = some id)
    (ha : s.registry.backend.actorIdToActor.lookup id = some a) :
    s.getActorRefByNameAndPassBack E U client brokerActorRef name
      = .ok (some ((E.instances.actor s.registry.backend.thisNodeId id a).uncast U
          brokerActorRef)) := by
  let A := E.instances.actor s.registry.backend.thisNodeId id a
  have hrefs : s.actorIdToSerializedRef.lookup id
      = some (E.serializer.serialize (reflectorFrom (A.uncast U E.brokerActorRef))) := by
    rw [lookup_serializedRef h id, ha]
    rfl
  have hfound : handleActorLookUpRequest s.registry.backend.actorNameToId
      s.actorIdToSerializedRef name
        = .ok (some (E.serializer.serialize (reflectorFrom (A.uncast U E.brokerActorRef)))) := by
    rw [handleActorLookUpRequest, if_pos (UnorderedMap.mem_of_lookup hname),
      UnorderedMap.at_of_lookup hname]
    simp only [bind, Except.bind, mapAt_of_lookup hrefs, pure, Except.pure]
  simp only [getActorRefByNameAndPassBack, getRemoteActorRefByName, hclient, hfound, bind,
    Except.bind, pure, Except.pure, Bool.false_eq_true, if_false]
  rw [deserializeActorRef_serialize _ _ _ _ rfl]
  simp only [passBack]
  rw [parserRead_serialize _ _ rfl]
  have hctx : (s.context E brokerActorRef).actorLookUpFn id = some A.object :=
    congrArg (Option.map E.instances.objectAt) ha
  exact congrArg (fun actor => Except.ok (some
    ({ A.uncast U brokerActorRef with typeErasedActor := actor } : ActorRef U))) hctx

end TypedRegistry

/-- A lookup finds a reference whose pointer is that of the subobject. -/
def FindsSubobject {K U : κ} (A : SpawnedActor P K) (p : Subobject P.classes K U)
    (found : Except String (Option (ActorRef U))) : Prop :=
  ∃ ref, found = .ok (some ref) ∧ ref.adjustedPtr = A.userClassInstance.addressOf p

/-- A lookup that takes the `void*` for a pointer to the subobject. -/
theorem findsSubobject_uncast_iff {K U : κ} {A : SpawnedActor P K} {p : Subobject P.classes K U}
    {found : Except String (Option (ActorRef U))} {brokerActorRef : BrokerRef}
    (h : found = .ok (some (A.uncast U brokerActorRef))) :
    FindsSubobject A p found ↔ p.offset = 0 := by
  rw [← A.adjustedPtr_uncast_iff brokerActorRef]
  constructor
  · rintro ⟨ref, hfound, hptr⟩
    obtain rfl := Option.some.inj (Except.ok.inj (h.symm.trans hfound))
    exact hptr
  · exact fun hptr => ⟨_, h, hptr⟩

/-- **The lookups by name agree with the conversion exactly at offset zero.**  In every reachable
state and for every name in the map, both lookups find a reference to the subobject, and the same
reference as the conversion of the one that the spawn returned, if and only if the subobject lies
at offset zero. -/
theorem lookup_by_name_iff {E : TypedEnv P} {s : TypedRegistry}
    {tr : List (TypedRegistry × RegistryAction)} (h : (TypedRegistry.machine E).Exec tr s)
    {name : String} {id : ActorId}
    (hname : s.registry.backend.actorNameToId.lookup name = some id) :
    ∃ a, s.registry.backend.actorIdToActor.lookup id = some a ∧
      ∀ (U : κ) (c : Upcast P.classes (E.instances a).1 U) (client : RefBackend)
        (brokerActorRef : BrokerRef), client.brokerActorRef.isEmpty = false →
        let A := E.instances.actor s.registry.backend.thisNodeId id a
        let found := s.getActorRefByName E U brokerActorRef name
        let foundAndBack := s.getActorRefByNameAndPassBack E U client brokerActorRef name
        let converted := (A.handle brokerActorRef).convert c
        (FindsSubobject A c.subobject found ↔ c.subobject.offset = 0) ∧
        (FindsSubobject A c.subobject foundAndBack ↔ c.subobject.offset = 0) ∧
        (found = .ok (some converted) ↔ c.subobject.offset = 0) ∧
        (foundAndBack = .ok (some converted) ↔ c.subobject.offset = 0) := by
  obtain ⟨hexec, hser⟩ := TypedRegistry.exec_registry h
  obtain ⟨a, -, ha, -, -⟩ := (Registry.consistent_of_exec hexec hser).exists_of_name hname
  refine ⟨a, ha, ?_⟩
  intro U c client brokerActorRef hclient A found foundAndBack converted
  have hfound : found = .ok (some (A.uncast U brokerActorRef)) :=
    TypedRegistry.getActorRefByName_eq h U brokerActorRef hname ha
  have hback : foundAndBack = .ok (some (A.uncast U brokerActorRef)) :=
    TypedRegistry.getActorRefByNameAndPassBack_eq h U hclient brokerActorRef hname ha
  refine ⟨findsSubobject_uncast_iff hfound, findsSubobject_uncast_iff hback, ?_, ?_⟩
  · rw [hfound, Except.ok.injEq, Option.some.injEq, A.uncast_eq_convert_iff]
  · rw [hback, Except.ok.injEq, Option.some.injEq, A.uncast_eq_convert_iff]

/-! ### Two bases -/

/-- Every actor is a `Derived`. -/
def TwoBases.env : TypedEnv TwoBases.program where
  instances := fun _ => ⟨.derived, TwoBases.actor.userClassInstance⟩
  serializer := ReflType.serializer
  brokerActorRef := .empty

/-- Another node, in distributed mode. -/
def TwoBases.client : RefBackend where
  thisNodeId := 2
  brokerActorRef := .ofActorTypeHash 0 (some ⟨0, 0x2000, 0⟩) 0
  actorIdToActor := ∅

/-- A named actor is spawned on node 1. -/
theorem TwoBases.exists_exec_named : ∃ tr s, (TypedRegistry.machine TwoBases.env).Exec tr s ∧
    s.registry.backend.actorNameToId.lookup "derived" = some 7 ∧
      s.registry.backend.actorIdToActor.lookup 7 = some 0 := by
  have hinit : (TypedRegistry.machine TwoBases.env).init ⟨.initial 1, ∅⟩ := ⟨1, rfl⟩
  obtain ⟨s, hexec, hmaps⟩ := Machine.exists_exec_of_replay hinit
    [.spawnLocal (.named "derived") 7 .calm]
    (fun s => (s.registry.backend.actorNameToId.lookup "derived",
      s.registry.backend.actorIdToActor.lookup 7)) (some 7, some 0) rfl
  obtain ⟨hname, ha⟩ := Prod.mk.inj hmaps
  exact ⟨_, s, hexec, hname, ha⟩

/-- Looked up as a `Derived`, it is found. -/
theorem lookup_by_name_iff_derived : ∃ tr s, (TypedRegistry.machine TwoBases.env).Exec tr s ∧
    FindsSubobject (TwoBases.env.instances.actor s.registry.backend.thisNodeId 7 0)
      (.self TwoBases.derived) (s.getActorRefByName TwoBases.env .derived .empty "derived") := by
  obtain ⟨tr, s, hexec, hname, ha⟩ := TwoBases.exists_exec_named
  obtain ⟨a, ha', h⟩ := lookup_by_name_iff hexec hname
  obtain rfl : a = 0 := Option.some.inj (ha'.symm.trans ha)
  exact ⟨tr, s, hexec, (h TwoBases.derived (.refl _) TwoBases.client .empty rfl).1.2 rfl⟩

/-- Looked up as a `BaseB`, neither lookup finds the subobject. -/
theorem lookup_by_name_second_base : ∃ tr s, (TypedRegistry.machine TwoBases.env).Exec tr s ∧
    s.registry.backend.actorNameToId.lookup "derived" = some 7 ∧
    ¬ FindsSubobject (TwoBases.env.instances.actor s.registry.backend.thisNodeId 7 0)
      TwoBases.toBaseB.subobject (s.getActorRefByName TwoBases.env .baseB .empty "derived") ∧
    ¬ FindsSubobject (TwoBases.env.instances.actor s.registry.backend.thisNodeId 7 0)
      TwoBases.toBaseB.subobject (s.getActorRefByNameAndPassBack TwoBases.env .baseB
        TwoBases.client .empty "derived") := by
  obtain ⟨tr, s, hexec, hname, ha⟩ := TwoBases.exists_exec_named
  have hoffset : TwoBases.toBaseB.subobject.offset ≠ 0 := by decide
  have hclient : TwoBases.client.brokerActorRef.isEmpty = false := rfl
  refine ⟨tr, s, hexec, hname, ?_, ?_⟩
  · intro hfinds
    exact hoffset ((findsSubobject_uncast_iff
      (TypedRegistry.getActorRefByName_eq hexec TwoBases.baseB .empty hname ha)).1 hfinds)
  · intro hfinds
    exact hoffset ((findsSubobject_uncast_iff
      (TypedRegistry.getActorRefByNameAndPassBack_eq hexec TwoBases.baseB hclient .empty hname
        ha)).1 hfinds)

end ExActor
