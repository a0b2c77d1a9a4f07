/-
**References under conversions and over the wire.**

A reference to an actor of class `K` is made when the actor is spawned.  From there it is converted
and assigned to references to bases, written on one node and read on another, through
`Parser::read`, `DeserializeActorRef` or the bare `Reflector::to`, in any order and any number of
times; a reference is read as the class it was written as.  `Obtained` derives the references that
come about this way, each with the node that holds it and the subobject of `K` that its conversions
select.

The context in which a reference is read decides which actor object it is given and which node it
takes for its own.  Node, id, hash and pointer do not depend on the context, which is why the
derivation leaves the contexts open, up to a condition that only the last part of the theorem uses.

Main definitions:

* `SpawnedActor`, `Obtained` — an actor and the references to it;
* `RefersTo` — what is right about a reference;
* `TruthfulContext` — a context of the node that reads.

Main results:

* `Obtained.refersTo` — the invariant of the references;
* `cast_and_wire_invariant` — the invariant, and what it means for `Send`.
-/

import ExActor.ActorRef

set_option relaxedAutoImplicit false
set_option autoImplicit false

namespace ExActor

variable {κ : Type} {P : Program κ} {K : κ}

/-- An actor of class `K`: its node, its id, its object and the instance of the user's class. -/
structure SpawnedActor (P : Program κ) (K : κ) where
  nodeId : NodeId
  actorId : ActorId
  address : Address
  userClassInstance : Instance P.classes 64 K

/-- The actor object, as the owner node sees it. -/
def SpawnedActor.object (A : SpawnedActor P K) : TypeErasedActor :=
  .ofInstance P A.address A.userClassInstance

/-- The `handle` of `SpawnLocal` and of the handlers of creation requests. -/
def SpawnedActor.handle (A : SpawnedActor P K) (brokerActorRef : BrokerRef) : ActorRef K :=
  .ofActor P A.nodeId A.nodeId A.actorId (some A.object) brokerActorRef

/-- `Obtained S A admits node p ref`: `node` holds the reference `ref` to the actor `A`, and the
conversions that led to it select the subobject `p`. -/
inductive Obtained (S : Serializer ReflType) (A : SpawnedActor P K)
    (admits : NodeId → ActorRefSerdeContext → Prop) :
    NodeId → {U : κ} → Subobject P.classes K U → ActorRef U → Prop
  | spawn (brokerActorRef : BrokerRef) :
      Obtained S A admits A.nodeId (.self K) (A.handle brokerActorRef)
  | convert {node : NodeId} {U V : κ} {p : Subobject P.classes K U} {ref : ActorRef U}
      (c : Upcast P.classes U V) :
      Obtained S A admits node p ref →
      Obtained S A admits node (p.comp c.subobject) (ref.convert c)
  | assign {node : NodeId} {U V : κ} {p : Subobject P.classes K U} {ref : ActorRef U}
      (c : Upcast P.classes U V) (self : ActorRef V) :
      Obtained S A admits node p ref →
      Obtained S A admits node (p.comp c.subobject) (self.assign c ref)
  | parserRead {node : NodeId} {U : κ} {p : Subobject P.classes K U} {ref ref' : ActorRef U}
      (node' : NodeId) (ctx : ActorRefSerdeContext) :
      Obtained S A admits node p ref → admits node' ctx →
      parserRead S U ctx (S.serialize (reflectorFrom ref)) = .ok ref' →
      Obtained S A admits node' p ref'
  | deserializeActorRef {node : NodeId} {U : κ} {p : Subobject P.classes K U}
      {ref ref' : ActorRef U} (node' thisNodeId : NodeId)
      (actorIdToActor : UnorderedMap ActorId TypeErasedActor) (brokerActorRef : BrokerRef) :
      Obtained S A admits node p ref →
      admits node' ⟨thisNodeId, actorIdToActor.lookup, brokerActorRef⟩ →
      deserializeActorRef S U thisNodeId actorIdToActor brokerActorRef
        (S.serialize (reflectorFrom ref)) = .ok ref' →
      Obtained S A admits node' p ref'
  | reflectorTo {node : NodeId} {U : κ} {p : Subobject P.classes K U} {ref : ActorRef U}
      (node' : NodeId) :
      Obtained S A admits node p ref →
      Obtained S A admits node' p (reflectorTo U (reflectorFrom ref))

/-- What is right about a reference to an actor, wherever it is held. -/
structure RefersTo (A : SpawnedActor P K) {U : κ} (p : Subobject P.classes K U)
    (ref : ActorRef U) : Prop where
  isEmpty : ref.isEmpty = false
  nodeId : ref.nodeId = A.nodeId
  actorId : ref.actorId = A.actorId
  actorTypeHash : ref.actorTypeHash = P.actorTypeHash K
  adjustedPtr : ref.adjustedPtr = A.userClassInstance.addressOf p

/-- The context of a node: it knows its own id, and on the node of the actor it finds the actor. -/
structure TruthfulContext (A : SpawnedActor P K) (node : NodeId) (ctx : ActorRefSerdeContext) :
    Prop where
  thisNodeId : ctx.thisNodeId = node
  lookUp : node = A.nodeId → ∀ actor ∈ ctx.actorLookUpFn A.actorId, actor = A.object

/-- The actor object of a reference, if it has one, belongs to the node that holds it. -/
def LocalTo (A : SpawnedActor P K) (node : NodeId) {U : κ} (ref : ActorRef U) : Prop :=
  ∀ actor ∈ ref.typeErasedActor, ref.thisNodeId = node ∧ (node = A.nodeId → actor = A.object)

namespace Obtained

variable {S : Serializer ReflType} {A : SpawnedActor P K}
  {admits : NodeId → ActorRefSerdeContext → Prop} {node : NodeId} {U : κ}
  {p : Subobject P.classes K U} {ref : ActorRef U}

/-- A conversion moves the pointer to the subobject inside. -/
theorem refersTo_convert {V : κ} (c : Upcast P.classes U V) (h : RefersTo A p ref) :
    RefersTo A (p.comp c.subobject) (ref.convert c) where
  isEmpty := h.isEmpty
  nodeId := h.nodeId
  actorId := h.actorId
  actorTypeHash := h.actorTypeHash
  adjustedPtr := by
    have hcast : c.subobject.cast ref.adjustedPtr
        = A.userClassInstance.addressOf (p.comp c.subobject) := by
      rw [h.adjustedPtr, Instance.cast_addressOf]
    exact hcast

/-- **Every reference to an actor has its node, its id, the hash of its class and the address of the
subobject that the conversions select.** -/
theorem refersTo (h : Obtained S A admits node p ref) : RefersTo A p ref := by
  induction h with
  | spawn brokerActorRef =>
      exact ⟨rfl, rfl, rfl, rfl, (Instance.addressOf_self A.userClassInstance).symm⟩
  | convert c _ ih => exact refersTo_convert c ih
  | assign c self _ ih => exact refersTo_convert c ih
  | parserRead node' ctx _ _ hread ih =>
      rw [parserRead_serialize S ctx ih.isEmpty] at hread
      obtain rfl := Except.ok.inj hread
      exact ⟨ih.isEmpty, ih.nodeId, ih.actorId, ih.actorTypeHash, ih.adjustedPtr⟩
  | deserializeActorRef node' thisNodeId actorIdToActor brokerActorRef _ _ hread ih =>
      rw [deserializeActorRef_serialize S _ _ _ ih.isEmpty] at hread
      obtain rfl := Except.ok.inj hread
      exact ⟨ih.isEmpty, ih.nodeId, ih.actorId, ih.actorTypeHash, ih.adjustedPtr⟩
  | reflectorTo node' _ ih =>
      rw [reflectorTo_reflectorFrom ih.isEmpty]
      exact ⟨ih.isEmpty, ih.nodeId, ih.actorId, ih.actorTypeHash, ih.adjustedPtr⟩

/-- With truthful contexts the actor object belongs to the node that holds the reference. -/
theorem localTo (h : Obtained S A admits node p ref)
    (htruthful : ∀ node ctx, admits node ctx → TruthfulContext A node ctx) :
    LocalTo A node ref := by
  induction h with
  | spawn brokerActorRef =>
      intro actor hactor
      exact ⟨rfl, fun _ => (Option.some.inj hactor).symm⟩
  | convert c _ ih => exact ih
  | assign c self _ ih => exact ih
  | parserRead node' ctx hobtained hadmits hread _ =>
      rw [parserRead_serialize S ctx hobtained.refersTo.isEmpty] at hread
      obtain rfl := Except.ok.inj hread
      have hctx := htruthful node' ctx hadmits
      intro actor hactor
      refine ⟨hctx.thisNodeId, fun hnode => hctx.lookUp hnode actor ?_⟩
      rw [← hobtained.refersTo.actorId]
      exact hactor
  | deserializeActorRef node' thisNodeId actorIdToActor brokerActorRef hobtained hadmits hread _ =>
      rw [deserializeActorRef_serialize S _ _ _ hobtained.refersTo.isEmpty] at hread
      obtain rfl := Except.ok.inj hread
      have hctx := htruthful node' _ hadmits
      intro actor hactor
      refine ⟨hctx.thisNodeId, fun hnode => hctx.lookUp hnode actor ?_⟩
      rw [← hobtained.refersTo.actorId]
      exact hactor
  | reflectorTo node' hobtained _ =>
      rw [reflectorTo_reflectorFrom hobtained.refersTo.isEmpty]
      intro actor hactor
      exact absurd hactor (Option.not_mem_none actor)

end Obtained

/-! ### What a call does -/

/-- **References stay right under conversions and over the wire.**  A local call that does not throw
runs on the subobject that the conversions of the reference and the class of the method select, and
reaches the actor on its own node when the contexts are truthful; a remote call goes to the node
and the id of the actor, with the key under which the method is registered for its class. -/
theorem cast_and_wire_invariant {S : Serializer ReflType} {A : SpawnedActor P K}
    {admits : NodeId → ActorRefSerdeContext → Prop} {node : NodeId} {U : κ}
    {p : Subobject P.classes K U} {ref : ActorRef U} (h : Obtained S A admits node p ref) :
    RefersTo A p ref ∧
    (∀ c : Upcast P.classes K U, ref.adjustedPtr = A.userClassInstance.addressOf c.subobject) ∧
    (∀ (method : Method κ) (c : Upcast P.classes U method.classType) (mailboxIndex : SizeT)
        (serializedArgs : ByteBuffer) (target : CallTarget),
      ref.send c mailboxIndex serializedArgs = .ok target →
      match target with
      | .callActorMethod actor thisPtr mailboxIndex' =>
          thisPtr = A.userClassInstance.addressOf (p.comp c.subobject) ∧
          mailboxIndex' = mailboxIndex ∧
          ((∀ node ctx, admits node ctx → TruthfulContext A node ctx) →
            node = A.nodeId ∧ actor = A.object)
      | .sendRequest _ nodeId request =>
          nodeId = A.nodeId ∧
          request
            = ⟨registeredHandlerKey P K method, A.actorId, mailboxIndex, serializedArgs⟩) := by
  have hrefers := h.refersTo
  refine ⟨hrefers, fun c => by rw [hrefers.adjustedPtr, c.unique p], ?_⟩
  intro method c mailboxIndex serializedArgs target hsend
  obtain ⟨-, ⟨hnode, actor, hactor, rfl⟩ | ⟨-, -, broker, -, rfl⟩⟩ :=
    ActorRef.send_eq_ok_iff.1 hsend
  · -- the local path: the offset of `U` in `K` and that of the class of the method in `U` add up
    refine ⟨by rw [hrefers.adjustedPtr, Instance.cast_addressOf], rfl, fun htruthful => ?_⟩
    obtain ⟨hthis, hobject⟩ := h.localTo htruthful actor hactor
    have hown : node = A.nodeId := by rw [← hthis, ← hnode, hrefers.nodeId]
    exact ⟨hown, hobject hown⟩
  · refine ⟨hrefers.nodeId, ?_⟩
    rw [hrefers.actorId, hrefers.actorTypeHash, registeredHandlerKey]

/-! ### Two bases -/

/-- The classes of a class with two bases. -/
inductive TwoBases
  | baseA
  | baseB
  | derived
deriving DecidableEq

/-- `Derived : public BaseA, public BaseB`, each base with one pointer to a virtual table. -/
def TwoBases.program : Program TwoBases where
  classes :=
    { bases := fun
        | .derived => [⟨.baseA, 0, true⟩, ⟨.baseB, 8, true⟩]
        | _ => []
      size := fun
        | .derived => 16
        | _ => 8
      definedAt := fun
        | .derived => 1
        | _ => 0
      size_pos := by intro K; cases K <;> decide
      base_fits := by intro K; cases K <;> decide
      base_before := by intro K; cases K <;> decide }
  getTypeName := fun
    | .baseA => "BaseA"
    | .baseB => "BaseB"
    | .derived => "Derived"

/-- A base has no bases of its own. -/
theorem TwoBases.subobject_base {U : TwoBases} {K : TwoBases} (hK : K ≠ .derived)
    (p : Subobject program.classes K U) : U = K := by
  cases p with
  | self => rfl
  | base b hb p => cases K <;> simp_all [program]

/-- `Derived*` converts to `BaseB*`. -/
def TwoBases.toBaseB : Upcast program.classes .derived .baseB where
  subobject := .base ⟨TwoBases.baseB, 8, true⟩ (by decide) (.self TwoBases.baseB)
  isPublic := rfl
  unique p := by
    cases p with
    | base b hb p =>
        have hb' : b = ⟨.baseA, 0, true⟩ ∨ b = ⟨.baseB, 8, true⟩ := by
          simpa [program] using hb
        rcases hb' with rfl | rfl
        · exact absurd (subobject_base (by decide) p) (by decide)
        · rw [p.eq_self]

/-- An actor of class `Derived` on node 1. -/
def TwoBases.actor : SpawnedActor program .derived where
  nodeId := 1
  actorId := 7
  address := 0
  userClassInstance := ⟨0x1000, by decide, by decide⟩

/-- The context of a node: node 1 finds its actor. -/
def TwoBases.context (node : NodeId) : ActorRefSerdeContext where
  thisNodeId := node
  actorLookUpFn := fun _ => if node = 1 then some TwoBases.actor.object else none
  brokerActorRef := .empty

theorem TwoBases.truthful_context (node : NodeId) :
    TruthfulContext TwoBases.actor node (TwoBases.context node) where
  thisNodeId := rfl
  lookUp := by
    rintro rfl actor hactor
    exact (Option.some.inj hactor).symm

/-- A reference to the second base goes to node 2 and comes back. -/
theorem cast_and_wire_invariant_second_base :
    ∃ ref, Obtained ReflType.serializer TwoBases.actor (TruthfulContext TwoBases.actor) 1
      TwoBases.toBaseB.subobject ref ∧ ref.adjustedPtr = 0x1008 := by
  have h : Obtained ReflType.serializer TwoBases.actor (TruthfulContext TwoBases.actor) 1
      (.self TwoBases.derived) (TwoBases.actor.handle .empty) := .spawn .empty
  have h₁ := h.convert TwoBases.toBaseB
  have h₂ := h₁.parserRead 2 _ (TwoBases.truthful_context 2)
    (parserRead_serialize _ _ h₁.refersTo.isEmpty)
  have h₃ := h₂.parserRead 1 _ (TwoBases.truthful_context 1)
    (parserRead_serialize _ _ h₂.refersTo.isEmpty)
  exact ⟨_, h₃, (cast_and_wire_invariant h₃).2.1 TwoBases.toBaseB⟩

end ExActor
