/-
**References to actors.**

`BasicActorRef<UserClass>` of `basic_actor_ref.h` holds an actor id, a pointer to the actor object,
a pointer to the `UserClass` inside the user's instance and the hash of the name of the class the
actor was created with; `ActorRef<UserClass>` of `actor_ref.h` adds the node of the actor, the node
the reference is used on and a reference to the broker.  The class of a reference is a static type,
so here it is an index of the type, and the conversions between the types take the conversion of
the underlying pointers, an `Upcast`, as an argument.

A reference travels as its `ReflType`.  The bytes are reflect-cpp's and Cap'n Proto's business: a
`Serializer` is any way to write a value that can be read back.

Main definitions:

* `BasicActorRef`, `ActorRef` — the references, their constructors, conversions and comparison;
* `BasicActorRef.sendLocal`, `ActorRef.send`, `ActorRef.sendRemote` — where a call goes;
* `ReflType`, `reflectorTo`, `reflectorFrom`, `parserRead` — a reference on the wire.
-/

import ExActor.Broker
import ExActor.ClassLayout
import ExActor.Registry

set_option relaxedAutoImplicit false
set_option autoImplicit false

namespace ExActor

/-! ### Classes, methods and their hashes -/

/-- A pointer of the 64-bit machine. -/
abbrev Pointer := BitVec 64

/-- `FnvHash` of `reflect.h`. -/
def fnvHash (s : String) : BitVec 64 :=
  s.toUTF8.toList.foldl (fun hash c => (hash ^^^ BitVec.ofNat 64 c.toNat) * 1099511628211#64)
    14695981039346656037#64

/-- `HashCombine` of `reflect.h`. -/
def hashCombine (seed value : BitVec 64) : BitVec 64 :=
  seed ^^^ (value + 0x9e3779b97f4a7c15#64 + (seed <<< 6) + (seed >>> 2))

/-- The classes of the program, with the string that `GetTypeName` returns for each. -/
structure Program (κ : Type) where
  classes : Hierarchy κ
  getTypeName : κ → String

/-- A member function pointer, with the string that `GetUniqueNameForFunction` returns for it. -/
structure Method (κ : Type) where
  classType : κ
  uniqueName : String

variable {κ : Type}

/-- The hash that `GetActorTypeHash` returns for an actor of the class. -/
def Program.actorTypeHash (P : Program κ) (K : κ) : BitVec 64 := fnvHash (P.getTypeName K)

/-- `ComputeRemoteMethodHandlerKey` of `reflect.h`. -/
def computeRemoteMethodHandlerKey (method : Method κ) (actorTypeHash : BitVec 64) : BitVec 64 :=
  hashCombine actorTypeHash (fnvHash method.uniqueName)

/-- The key under which `RemoteFuncHandlerRegistrar` registers a method for an actor class. -/
def registeredHandlerKey (P : Program κ) (ActorClass : κ) (method : Method κ) : BitVec 64 :=
  computeRemoteMethodHandlerKey method (P.actorTypeHash ActorClass)

/-- A `TypeErasedActor*` that is not null: the actor object, and what it answers. -/
structure TypeErasedActor where
  address : Address
  /-- `GetUserClassInstanceAddress`, a `void*`. -/
  userClassInstanceAddress : Pointer
  /-- `GetActorTypeHash`. -/
  actorTypeHash : BitVec 64
deriving DecidableEq

/-- The actor object at an address whose user class instance is `I`. -/
def TypeErasedActor.ofInstance (P : Program κ) {K : κ} (address : Address)
    (I : Instance P.classes 64 K) : TypeErasedActor :=
  ⟨address, I.address, P.actorTypeHash K⟩

/-! ### `BasicActorRef` -/

/-- The members of `BasicActorRef<UserClass>`. -/
structure BasicActorRef (UserClass : κ) where
  isEmpty : Bool
  actorId : ActorId
  typeErasedActor : Option TypeErasedActor
  adjustedPtr : Pointer
  actorTypeHash : BitVec 64
deriving DecidableEq

namespace BasicActorRef

variable {U Other : κ}

/-- The default constructor. -/
def empty : BasicActorRef U := ⟨true, 0, none, 0, 0⟩

/-- The constructor that takes the hash from the actor.  The `static_cast` is one from `void*`. -/
def ofActor (P : Program κ) (actorId : ActorId) (actor : Option TypeErasedActor) :
    BasicActorRef U where
  isEmpty := false
  actorId := actorId
  typeErasedActor := actor
  adjustedPtr := (actor.map (·.userClassInstanceAddress)).getD 0
  actorTypeHash := (actor.map (·.actorTypeHash)).getD (P.actorTypeHash U)

/-- The constructor that is given the hash. -/
def ofActorTypeHash (actorId : ActorId) (actor : Option TypeErasedActor)
    (actorTypeHash : BitVec 64) : BasicActorRef U where
  isEmpty := false
  actorId := actorId
  typeErasedActor := actor
  adjustedPtr := (actor.map (·.userClassInstanceAddress)).getD 0
  actorTypeHash := actorTypeHash

/-- The converting constructor. -/
def convert {P : Program κ} (c : Upcast P.classes Other U) (other : BasicActorRef Other) :
    BasicActorRef U where
  isEmpty := other.isEmpty
  actorId := other.actorId
  typeErasedActor := other.typeErasedActor
  adjustedPtr := c.subobject.cast other.adjustedPtr
  actorTypeHash := other.actorTypeHash

/-- The converting assignment operator. -/
def assign {P : Program κ} (c : Upcast P.classes Other U) (self : BasicActorRef U)
    (other : BasicActorRef Other) : BasicActorRef U :=
  { self with
    isEmpty := other.isEmpty
    actorId := other.actorId
    typeErasedActor := other.typeErasedActor
    adjustedPtr := c.subobject.cast other.adjustedPtr
    actorTypeHash := other.actorTypeHash }

end BasicActorRef

/-! ### `ActorRef` -/

/-- The classes of the actors that the framework itself consists of. -/
inductive FrameworkActor
  | messageBroker
deriving DecidableEq

/-- A `BasicActorRef<MessageBroker>`. -/
abbrev BrokerRef := BasicActorRef FrameworkActor.messageBroker

/-- The members of `ActorRef<UserClass>`. -/
structure ActorRef (UserClass : κ) extends BasicActorRef UserClass where
  thisNodeId : NodeId
  nodeId : NodeId
  brokerActorRef : BrokerRef
deriving DecidableEq

namespace ActorRef

variable {U Other : κ}

/-- The default constructor. -/
def empty : ActorRef U := ⟨BasicActorRef.empty, 0, 0, BasicActorRef.empty⟩

/-- The constructor that takes the hash from the actor. -/
def ofActor (P : Program κ) (thisNodeId nodeId : NodeId) (actorId : ActorId)
    (actor : Option TypeErasedActor) (brokerActorRef : BrokerRef) : ActorRef U :=
  ⟨BasicActorRef.ofActor P actorId actor, thisNodeId, nodeId, brokerActorRef⟩

/-- The constructor that is given the hash. -/
def ofActorTypeHash (thisNodeId nodeId : NodeId) (actorId : ActorId) (actorTypeHash : BitVec 64)
    (actor : Option TypeErasedActor) (brokerActorRef : BrokerRef) : ActorRef U :=
  ⟨BasicActorRef.ofActorTypeHash actorId actor actorTypeHash, thisNodeId, nodeId, brokerActorRef⟩

/-- The converting constructor. -/
def convert {P : Program κ} (c : Upcast P.classes Other U) (other : ActorRef Other) : ActorRef U :=
  ⟨other.toBasicActorRef.convert c, other.thisNodeId, other.nodeId, other.brokerActorRef⟩

/-- The converting assignment operator: `*this = ActorRef<UserClass>(other)`. -/
def assign {P : Program κ} (c : Upcast P.classes Other U) (_self : ActorRef U)
    (other : ActorRef Other) : ActorRef U :=
  other.convert c

/-- `SetLocalRuntimeInfo`. -/
def setLocalRuntimeInfo (ref : ActorRef U) (thisNodeId : NodeId) (actor : Option TypeErasedActor)
    (brokerActorRef : BrokerRef) : ActorRef U :=
  { ref with thisNodeId, typeErasedActor := actor, brokerActorRef }

/-- The overload of `SetLocalRuntimeInfo` that is given the hash too. -/
def setLocalRuntimeInfoTypeHash (ref : ActorRef U) (thisNodeId : NodeId)
    (actorTypeHash : BitVec 64) (actor : Option TypeErasedActor) (brokerActorRef : BrokerRef) :
    ActorRef U :=
  { ref with thisNodeId, actorTypeHash, typeErasedActor := actor, brokerActorRef }

/-- `operator==` of two `ActorRef`s. -/
def equal (lhs rhs : ActorRef U) : Bool :=
  if lhs.isEmpty != rhs.isEmpty then false
  else if lhs.isEmpty then true
  else lhs.nodeId == rhs.nodeId && lhs.actorId == rhs.actorId &&
    lhs.actorTypeHash == rhs.actorTypeHash

/-- Two references that are not empty are equal when node, id and hash are. -/
theorem equal_iff {lhs rhs : ActorRef U} (hl : lhs.isEmpty = false) (hr : rhs.isEmpty = false) :
    lhs.equal rhs = true ↔ lhs.nodeId = rhs.nodeId ∧ lhs.actorId = rhs.actorId ∧
      lhs.actorTypeHash = rhs.actorTypeHash := by
  simp [equal, hl, hr, and_assoc]

end ActorRef

/-! ### Sending -/

/-- The exceptions that leave `Send` and `SendLocal`. -/
inductive ActorRefError
  | emptyRef
  | instanceNotSet
  | brokerNotSet
  | remoteSendLocal (nodeId thisNodeId : NodeId)
deriving DecidableEq

/-- The text of an exception, without the file and line that the throwing macros put first. -/
def ActorRefError.what : ActorRefError → String
  | .emptyRef =>
      "Check failed, expected `!IsEmpty()` is true, got false. "
        ++ "Cannot call method on an empty actor ref."
  | .instanceNotSet =>
      "Check failed, expected `type_erased_actor_ != nullptr` is true, got false. "
        ++ "Underlying actor instance not set, it's typically because you "
        ++ "sliced a remote ActorRef to BasicActorRef."
  | .brokerNotSet =>
      "Check failed, expected `!broker_actor_ref_.IsEmpty()` is true, got false. "
        ++ "Broker actor not set"
  | .remoteSendLocal nodeId thisNodeId =>
      "Check failed, expected `node_id_ == this_node_id_`, got " ++ toString nodeId.toNat
        ++ " vs " ++ toString thisNodeId.toNat ++ ". "
        ++ "Cannot call remote actor using SendLocal, use Send instead."

/-- `ActorMethodCallRequest` of `message.h`. -/
structure ActorMethodCallRequest where
  handlerKey : BitVec 64
  actorId : ActorId
  mailboxIndex : SizeT
  serializedArgs : ByteBuffer
deriving DecidableEq

/-- Where a call goes. -/
inductive CallTarget
  /-- `CallActorMethodUseTuple`: a message for this actor, whose method runs on this pointer. -/
  | callActorMethod (actor : TypeErasedActor) (thisPtr : Pointer) (mailboxIndex : SizeT)
  /-- `SendRequest` of this broker, to this node. -/
  | sendRequest (broker : TypeErasedActor) (nodeId : NodeId) (request : ActorMethodCallRequest)
deriving DecidableEq

/-- `SendBuilder::SendLocal` of a `BasicActorRef`, for a method of `UserClass` or of a base. -/
def BasicActorRef.sendLocal {P : Program κ} {U : κ} (ref : BasicActorRef U) {method : Method κ}
    (c : Upcast P.classes U method.classType) (mailboxIndex : SizeT) :
    Except ActorRefError CallTarget :=
  if ref.isEmpty then .error .emptyRef
  else
    match ref.typeErasedActor with
    | none => .error .instanceNotSet
    | some actor =>
        .ok (.callActorMethod actor (c.subobject.cast ref.adjustedPtr) mailboxIndex)

namespace ActorRef

variable {P : Program κ} {U : κ}

/-- `SendLocal` of an `ActorRef`. -/
def sendLocal (ref : ActorRef U) {method : Method κ} (c : Upcast P.classes U method.classType) :
    Except ActorRefError CallTarget :=
  if ref.nodeId ≠ ref.thisNodeId then .error (.remoteSendLocal ref.nodeId ref.thisNodeId)
  else ref.toBasicActorRef.sendLocal c 0

/-- `SendRemote`, up to the request. -/
def sendRemote (ref : ActorRef U) (method : Method κ) (mailboxIndex : SizeT)
    (serializedArgs : ByteBuffer) : Except ActorRefError CallTarget :=
  if ref.brokerActorRef.isEmpty then .error .brokerNotSet
  else
    match ref.brokerActorRef.typeErasedActor with
    | none => .error .instanceNotSet
    | some broker =>
        .ok (.sendRequest broker ref.nodeId
          { handlerKey := computeRemoteMethodHandlerKey method ref.actorTypeHash
            actorId := ref.actorId
            mailboxIndex := mailboxIndex
            serializedArgs := serializedArgs })

/-- `SendBuilder::Send`. -/
def send (ref : ActorRef U) {method : Method κ} (c : Upcast P.classes U method.classType)
    (mailboxIndex : SizeT) (serializedArgs : ByteBuffer) : Except ActorRefError CallTarget :=
  if ref.isEmpty then .error .emptyRef
  else if ref.nodeId = ref.thisNodeId then ref.toBasicActorRef.sendLocal c mailboxIndex
  else ref.sendRemote method mailboxIndex serializedArgs

/-- Where `SendRemote` sends a call when it does not throw. -/
theorem sendRemote_eq_ok_iff {ref : ActorRef U} {method : Method κ} {mailboxIndex : SizeT}
    {serializedArgs : ByteBuffer} {target : CallTarget} :
    ref.sendRemote method mailboxIndex serializedArgs = .ok target ↔
      ref.brokerActorRef.isEmpty = false ∧
        ∃ broker, ref.brokerActorRef.typeErasedActor = some broker ∧
          target = .sendRequest broker ref.nodeId
            ⟨computeRemoteMethodHandlerKey method ref.actorTypeHash, ref.actorId, mailboxIndex,
              serializedArgs⟩ := by
  unfold sendRemote
  cases hempty : ref.brokerActorRef.isEmpty with
  | true => simp
  | false =>
      cases hbroker : ref.brokerActorRef.typeErasedActor with
      | none => simp
      | some broker => simp [eq_comm]

/-- **Where `Send` sends a call when it does not throw**: to the actor object of the reference on
the node of the actor, and through the broker elsewhere. -/
theorem send_eq_ok_iff {ref : ActorRef U} {method : Method κ}
    {c : Upcast P.classes U method.classType} {mailboxIndex : SizeT}
    {serializedArgs : ByteBuffer} {target : CallTarget} :
    ref.send c mailboxIndex serializedArgs = .ok target ↔
      ref.isEmpty = false ∧
        ((ref.nodeId = ref.thisNodeId ∧ ∃ actor, ref.typeErasedActor = some actor ∧
            target = .callActorMethod actor (c.subobject.cast ref.adjustedPtr) mailboxIndex) ∨
          (ref.nodeId ≠ ref.thisNodeId ∧ ref.brokerActorRef.isEmpty = false ∧
            ∃ broker, ref.brokerActorRef.typeErasedActor = some broker ∧
              target = .sendRequest broker ref.nodeId
                ⟨computeRemoteMethodHandlerKey method ref.actorTypeHash, ref.actorId, mailboxIndex,
                  serializedArgs⟩)) := by
  unfold send
  cases hempty : ref.isEmpty with
  | true => simp
  | false =>
      by_cases hnode : ref.nodeId = ref.thisNodeId
      · rw [if_neg (by decide), if_pos hnode, BasicActorRef.sendLocal, hempty]
        cases hactor : ref.typeErasedActor with
        | none => simp [hnode]
        | some actor =>
            simp only [hnode, Bool.false_eq_true, if_false, Except.ok.injEq, true_and,
              Option.some.injEq, exists_eq_left', ne_eq, not_true_eq_false, false_and, or_false]
            exact eq_comm
      · simp [hnode, sendRemote_eq_ok_iff]

end ActorRef

/-! ### References on the wire -/

/-- `rfl::Reflector<ActorRef<U>>::ReflType`. -/
structure ReflType where
  isEmpty : Bool
  nodeId : NodeId
  actorId : ActorId
  actorTypeHash : BitVec 64
  adjustedPtrAddr : BitVec 64
deriving DecidableEq

/-- A way to write values of a type that can be read back. -/
structure Serializer (α : Type) where
  serialize : α → ByteBuffer
  deserialize : ByteBuffer → Except String α
  deserialize_serialize : ∀ a, deserialize (serialize a) = .ok a

/-- The bytes of a word, the lowest first. -/
def wordBytes (x : BitVec 64) : ByteBuffer :=
  (List.range 8).map fun i => BitVec.ofNat 8 (x.toNat / 256 ^ i)

/-- The word that some bytes are. -/
def bytesWord (bytes : ByteBuffer) : BitVec 64 :=
  BitVec.ofNat 64 (bytes.foldr (fun b n => b.toNat + 256 * n) 0)

theorem length_wordBytes (x : BitVec 64) : (wordBytes x).length = 8 := by simp [wordBytes]

theorem drop_wordBytes (x : BitVec 64) {n : ℕ} (h : 8 ≤ n) : (wordBytes x).drop n = [] :=
  List.drop_eq_nil_of_le (by rw [length_wordBytes]; exact h)

theorem bytesWord_wordBytes (x : BitVec 64) : bytesWord (wordBytes x) = x := by
  have hx := x.isLt
  apply BitVec.eq_of_toNat_eq
  simp only [bytesWord, wordBytes, List.range_succ, List.range_zero, List.nil_append,
    List.cons_append, List.map_cons, List.map_nil, List.foldr_cons, List.foldr_nil,
    BitVec.toNat_ofNat]
  omega

/-- A serializer: one byte for the flag, eight for each of the other fields. -/
def ReflType.serializer : Serializer ReflType where
  serialize r :=
    (if r.isEmpty then 1 else 0) :: (wordBytes r.nodeId ++ (wordBytes r.actorId ++
      (wordBytes r.actorTypeHash ++ wordBytes r.adjustedPtrAddr)))
  deserialize
    | [] => .error "premature end of file"
    | b :: bytes =>
        if bytes.length = 32 then
          .ok ⟨b ≠ 0, bytesWord (bytes.take 8), bytesWord ((bytes.drop 8).take 8),
            bytesWord ((bytes.drop 16).take 8), bytesWord (bytes.drop 24)⟩
        else .error "premature end of file"
  deserialize_serialize r := by
    obtain ⟨isEmpty, nodeId, actorId, actorTypeHash, adjustedPtrAddr⟩ := r
    cases isEmpty <;>
      simp [length_wordBytes, List.drop_append, bytesWord_wordBytes,
        drop_wordBytes]

/-- `ActorRefSerdeContext`. -/
structure ActorRefSerdeContext where
  thisNodeId : NodeId
  actorLookUpFn : ActorId → Option TypeErasedActor
  brokerActorRef : BrokerRef

variable {U : κ}

/-- `Reflector::to`. -/
def reflectorTo (U : κ) (r : ReflType) : ActorRef U :=
  if r.isEmpty then .empty
  else
    let ref : ActorRef U :=
      .ofActorTypeHash 0 r.nodeId r.actorId r.actorTypeHash none .empty
    { ref with adjustedPtr := r.adjustedPtrAddr }

/-- `Reflector::from`. -/
def reflectorFrom (ref : ActorRef U) : ReflType where
  isEmpty := ref.isEmpty
  nodeId := ref.nodeId
  actorId := ref.actorId
  actorTypeHash := ref.actorTypeHash
  adjustedPtrAddr := ref.adjustedPtr

/-- `Parser::read`. -/
def parserRead (S : Serializer ReflType) (U : κ) (ctx : ActorRefSerdeContext)
    (bytes : ByteBuffer) : Except String (ActorRef U) :=
  (S.deserialize bytes).map fun r =>
    let ref := reflectorTo U r
    ref.setLocalRuntimeInfoTypeHash ctx.thisNodeId ref.actorTypeHash
      (ctx.actorLookUpFn ref.actorId) ctx.brokerActorRef

/-- `DeserializeActorRef`, in a backend with these members. -/
def deserializeActorRef (S : Serializer ReflType) (U : κ) (thisNodeId : NodeId)
    (actorIdToActor : UnorderedMap ActorId TypeErasedActor) (brokerActorRef : BrokerRef)
    (bytes : ByteBuffer) : Except String (ActorRef U) :=
  (S.deserialize bytes).map fun r =>
    let ref := reflectorTo U r
    if ref.isEmpty then ref
    else ref.setLocalRuntimeInfo thisNodeId (actorIdToActor.lookup ref.actorId) brokerActorRef

/-- The context with which `SendRemote` reads the reply: nothing is looked up. -/
def ActorRef.replyContext (ref : ActorRef U) : ActorRefSerdeContext where
  thisNodeId := ref.thisNodeId
  actorLookUpFn := fun _ => none
  brokerActorRef := ref.brokerActorRef

/-- What is left of a reference that was written and read as a reference of the same class. -/
theorem reflectorTo_reflectorFrom {ref : ActorRef U} (h : ref.isEmpty = false) :
    reflectorTo U (reflectorFrom ref)
      = { ref with thisNodeId := 0, typeErasedActor := none, brokerActorRef := .empty } := by
  simp [reflectorTo, reflectorFrom, h, ActorRef.ofActorTypeHash, BasicActorRef.ofActorTypeHash]

/-- **A reference that was written and read keeps its node, id, hash and pointer**; the rest comes
from the context it is read in. -/
theorem parserRead_serialize (S : Serializer ReflType) (ctx : ActorRefSerdeContext)
    {ref : ActorRef U} (h : ref.isEmpty = false) :
    parserRead S U ctx (S.serialize (reflectorFrom ref))
      = .ok { ref with
          thisNodeId := ctx.thisNodeId
          typeErasedActor := ctx.actorLookUpFn ref.actorId
          brokerActorRef := ctx.brokerActorRef } := by
  rw [parserRead, S.deserialize_serialize, Except.map, reflectorTo_reflectorFrom h]
  rfl

/-- The same of `DeserializeActorRef`. -/
theorem deserializeActorRef_serialize (S : Serializer ReflType) (thisNodeId : NodeId)
    (actorIdToActor : UnorderedMap ActorId TypeErasedActor) (brokerActorRef : BrokerRef)
    {ref : ActorRef U} (h : ref.isEmpty = false) :
    deserializeActorRef S U thisNodeId actorIdToActor brokerActorRef
        (S.serialize (reflectorFrom ref))
      = .ok { ref with
          thisNodeId
          typeErasedActor := actorIdToActor.lookup ref.actorId
          brokerActorRef } := by
  rw [deserializeActorRef, S.deserialize_serialize, Except.map, reflectorTo_reflectorFrom h]
  simp [h, ActorRef.setLocalRuntimeInfo]

end ExActor
