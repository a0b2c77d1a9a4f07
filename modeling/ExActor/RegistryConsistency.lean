/-
**The three maps of the registry stay consistent.**

`ActorRegistryBackend` keeps the actors, their serialized references and the names in three maps.
`SpawnLocal` and `HandleActorCreationRequest` fill them, `DestroyLocalActor` empties them, and each
of these can fail in between.  The invariant is that the actors and the serialized references have
the same keys and that the names are exactly those of the actors in the map; every step either
leaves the maps alone, adds one actor to all of them, or takes one actor out of all of them.

`Serialize` is taken to succeed: in `SpawnLocal` it is called after the actor has entered the map.

Main definitions:

* `generateRandomActorId`, `getActorRefByName`, `handleActorLookUpRequest` — the rest of the backend
  that reads the maps;
* `Registry.Consistent` — the invariant;
* `BackendChange` — what a step does to the maps.

Main results:

* `Registry.backendChange_of_next` — every step is such a change;
* `Registry.consistent_of_exec` — the invariant;
* `registry_consistent` — the invariant, with what it means for failures and lookups.
-/

import ExActor.ActorRef
import ExActor.RegistryStep

set_option relaxedAutoImplicit false
set_option autoImplicit false

namespace ExActor

/-! ### Reading the maps -/

/-- `std::unordered_map::at`, with the text of the exception it throws. -/
def UnorderedMap.at {K V : Type} [DecidableEq K] (m : UnorderedMap K V) (k : K) :
    Except String V :=
  match m.lookup k with
  | some v => .ok v
  | none => .error "unordered_map::at: key not found"

/-- `MapAt` of `util.h`, with the text of its exception without the location. -/
def mapAt {V : Type} (m : UnorderedMap ActorId V) (key : ActorId) : Except String V :=
  match m.lookup key with
  | some v => .ok v
  | none => .error ("map key '" ++ toString key.toNat ++ "' not found")

/-- `GenerateRandomActorId`, on the numbers that the generator draws. -/
def ActorRegistryBackend.generateRandomActorId (b : ActorRegistryBackend) :
    List ActorId → Option ActorId
  | [] => none
  | id :: draws => if id ∈ b.actorIdToActor then b.generateRandomActorId draws else some id

/-- `GetActorRefByName` on the own node. -/
def ActorRegistryBackend.getActorRefByName {κ : Type} (P : Program κ) (U : κ)
    (b : ActorRegistryBackend) (objectAt : Address → TypeErasedActor)
    (brokerActorRef : BrokerRef) (name : String) : Except String (Option (ActorRef U)) :=
  if name ∈ b.actorNameToId then do
    let actorId ← UnorderedMap.at b.actorNameToId name
    let actor ← UnorderedMap.at b.actorIdToActor actorId
    return some (.ofActor P b.thisNodeId b.thisNodeId actorId (some (objectAt actor))
      brokerActorRef)
  else return none

/-- The `ActorLookUpRequest` branch of `HandleNetworkRequest`: what `actor_id_to_serialized_ref_`
holds for the name. -/
def handleActorLookUpRequest {R : Type} (actorNameToId : UnorderedMap String ActorId)
    (actorIdToSerializedRef : UnorderedMap ActorId R) (actorName : String) :
    Except String (Option R) :=
  if actorName ∈ actorNameToId then do
    let actorId ← UnorderedMap.at actorNameToId actorName
    let serializedActorRef ← mapAt actorIdToSerializedRef actorId
    return some serializedActorRef
  else return none

theorem UnorderedMap.at_of_lookup {K V : Type} [DecidableEq K] {m : UnorderedMap K V} {k : K}
    {v : V} (h : m.lookup k = some v) : UnorderedMap.at m k = .ok v := by
  rw [UnorderedMap.at, h]

theorem mapAt_of_lookup {V : Type} {m : UnorderedMap ActorId V} {key : ActorId} {v : V}
    (h : m.lookup key = some v) : mapAt m key = .ok v := by
  rw [mapAt, h]

/-- The generator returns an id exactly when one of its draws is not in use, and such an id is not
in use. -/
theorem ActorRegistryBackend.exists_generateRandomActorId_iff {b : ActorRegistryBackend}
    {id : ActorId} :
    (∃ draws, b.generateRandomActorId draws = some id) ↔ id ∉ b.actorIdToActor := by
  constructor
  · rintro ⟨draws, h⟩
    induction draws with
    | nil => simp [generateRandomActorId] at h
    | cons d draws ih =>
        rw [generateRandomActorId] at h
        split at h
        · exact ih h
        · next hd =>
            obtain rfl := Option.some.inj h
            exact hd
  · intro h
    exact ⟨[id], by rw [generateRandomActorId, if_neg h]⟩

/-! ### The invariant -/

/-- The name in the configuration of the actor object at an address. -/
def Registry.nameAt (r : Registry) (a : Address) : Option String :=
  (r.objects[a]?).bind (·.actor.config.actorName)

/-- The name of the live actor with an id, if there is one and it has one. -/
def Registry.liveName (r : Registry) (id : ActorId) : Option String :=
  (r.backend.actorIdToActor.lookup id).bind r.nameAt

/-- The three maps agree. -/
structure Registry.Consistent (r : Registry) : Prop where
  keys : ∀ id, id ∈ r.backend.actorIdToActor ↔ id ∈ r.backend.actorIdToSerializedRef
  names : ∀ name id, r.backend.actorNameToId.lookup name = some id ↔ r.liveName id = some name

/-- `Serialize` succeeds. -/
def SerializeTotal (_ : Registry) : RegistryAction → Prop
  | .spawnLocal _ _ env => env.serialize.isOk = true
  | _ => True

instance (r : Registry) (act : RegistryAction) : Decidable (SerializeTotal r act) :=
  match act with
  | .spawnLocal _ _ env => inferInstanceAs (Decidable (env.serialize.isOk = true))
  | .handleActorCreationRequest .. | .lookUp _ | .destroyLocalActor _ | .resumeDestroyLocal _
  | .asyncDestroyAllActors _ | .destroyNext | .resumeDestroyAll | .actor .. => .isTrue trivial

/-- Two names of one id are equal: the map of the names is injective. -/
theorem Registry.Consistent.injective {r : Registry} (h : r.Consistent) {name name' : String}
    {id : ActorId} (hname : r.backend.actorNameToId.lookup name = some id)
    (hname' : r.backend.actorNameToId.lookup name' = some id) : name = name' := by
  rw [h.names] at hname hname'
  exact Option.some.inj (hname.symm.trans hname')

/-! ### A map that inverts the names -/

/-- The map finds the id that has a name. -/
def Inverts (m : UnorderedMap String ActorId) (live : ActorId → Option String) : Prop :=
  ∀ name id, m.lookup name = some id ↔ live id = some name

namespace Inverts

variable {m : UnorderedMap String ActorId} {live live' : ActorId → Option String} {id : ActorId}
  {n : String}

theorem congr (h : Inverts m live) (hsame : ∀ id, live' id = live id) : Inverts m live' := by
  intro name id
  rw [h, hsame]

/-- An id gets a name that nobody has. -/
theorem insert (h : Inverts m live) (hfree : m.lookup n = none) (hgone : live id = none)
    (hid : live' id = some n) (hother : ∀ id' ≠ id, live' id' = live id') :
    Inverts (m.insert n id) live' := by
  intro name id'
  by_cases hn : name = n
  · subst hn
    rw [AList.lookup_insert]
    constructor
    · intro heq
      rw [← Option.some.inj heq]
      exact hid
    · intro hname
      by_contra hne
      rw [hother id' fun heq => hne (congrArg some heq.symm), ← h, hfree] at hname
      simp at hname
  · rw [AList.lookup_insert_ne hn, h]
    by_cases hne : id' = id
    · subst hne
      rw [hgone, hid]
      simp [Ne.symm hn]
    · rw [hother id' hne]

/-- An id loses its name. -/
theorem erase (h : Inverts m live) (hlive : live id = some n) (hid : live' id = none)
    (hother : ∀ id' ≠ id, live' id' = live id') : Inverts (m.erase n) live' := by
  intro name id'
  by_cases hn : name = n
  · subst hn
    rw [AList.lookup_erase]
    refine iff_of_false (by simp) ?_
    intro hname
    by_cases hne : id' = id
    · subst hne
      simp [hid] at hname
    · rw [hother id' hne, ← h, (h name id).2 hlive] at hname
      exact hne (Option.some.inj hname).symm
  · rw [AList.lookup_erase_ne hn, h]
    by_cases hne : id' = id
    · subst hne
      rw [hlive, hid]
      simp [Ne.symm hn]
    · rw [hother id' hne]

end Inverts

/-! ### What a step does to the maps -/

/-- The backend after an actor with this name has entered all maps. -/
def ActorRegistryBackend.added (b : ActorRegistryBackend) (id : ActorId) (a : Address)
    (name : Option String) : ActorRegistryBackend where
  thisNodeId := b.thisNodeId
  actorIdToActor := b.actorIdToActor.insert id a
  actorIdToSerializedRef := b.actorIdToSerializedRef.insert id ⟨b.thisNodeId, id⟩
  actorNameToId :=
    match name with
    | none => b.actorNameToId
    | some name => b.actorNameToId.insert name id

/-- The backend after an actor with this name has left all maps. -/
def ActorRegistryBackend.removed (b : ActorRegistryBackend) (id : ActorId)
    (name : Option String) : ActorRegistryBackend where
  thisNodeId := b.thisNodeId
  actorIdToActor := b.actorIdToActor.erase id
  actorIdToSerializedRef := b.actorIdToSerializedRef.erase id
  actorNameToId :=
    match name with
    | none => b.actorNameToId
    | some name => b.actorNameToId.erase name

/-- What a step does to the maps and to the list of the actor objects. -/
inductive BackendChange (r r' : Registry) : Prop
  | same : r'.backend = r.backend → r'.objects.map (·.actor) = r.objects.map (·.actor) →
      BackendChange r r'
  | add (A : Actor) (id : ActorId) : id ∉ r.backend.actorIdToActor → r.nameTaken A = false →
      r'.backend = r.backend.added id r.objects.length A.config.actorName →
      r'.objects.map (·.actor) = r.objects.map (·.actor) ++ [A] → BackendChange r r'
  | remove (id : ActorId) (a : Address) : r.backend.actorIdToActor.lookup id = some a →
      r'.backend = r.backend.removed id (r.nameAt a) →
      r'.objects.map (·.actor) = r.objects.map (·.actor) → BackendChange r r'

/-- Replacing an object by one of the same actor. -/
theorem Registry.map_actor_setObject {r : Registry} {a : Address} {o o' : ActorObject}
    (ho : r.objects[a]? = some o) (h : o'.actor = o.actor) :
    (r.setObject a o').objects.map (·.actor) = r.objects.map (·.actor) := by
  obtain ⟨ha, rfl⟩ := List.getElem?_eq_some_iff.1 ho
  apply List.ext_getElem (by simp [setObject])
  intro i hi hi'
  by_cases hai : a = i
  · subst hai
    simp [setObject, h]
  · simp [setObject, hai]

/-- A spawn that succeeds adds its actor; one that fails changes nothing. -/
theorem Registry.spawnLocal_spec (r : Registry) (A : Actor) (id : ActorId) {env : SpawnEnv}
    (hser : env.serialize.isOk = true) :
    (∃ e, r.spawnLocal A id env = (r, .error e)) ∨
      (r.nameTaken A = false ∧ r.spawnLocal A id env
        = ({ r with
            backend := r.backend.added id r.objects.length A.config.actorName
            objects := r.objects ++ [⟨A, ⟨A.initial, []⟩, false⟩] }, .ok id)) := by
  unfold spawnLocal
  cases hc : env.construct with
  | error e => exact Or.inl ⟨_, rfl⟩
  | ok _ =>
      cases hn : env.notifyExActorOnSpawned with
      | error e => exact Or.inl ⟨_, rfl⟩
      | ok _ =>
          cases htaken : r.nameTaken A with
          | true => exact Or.inl ⟨_, rfl⟩
          | false =>
              cases hs : env.serialize with
              | error e => simp [hs, Except.isOk, Except.toBool] at hser
              | ok _ =>
                  refine Or.inr ⟨rfl, ?_⟩
                  simp only [insertName, insertActor, insertSerializedRef,
                    ActorRegistryBackend.added]
                  cases A.config.actorName <;> rfl

/-- The same of a creation request. -/
theorem Registry.handleActorCreationRequest_spec (r : Registry) (A : Actor) (id : ActorId)
    (handler : Except String Unit) :
    (∃ e, r.handleActorCreationRequest A id handler = (r, .error e)) ∨
      (r.nameTaken A = false ∧ r.handleActorCreationRequest A id handler
        = ({ r with
            backend := r.backend.added id r.objects.length A.config.actorName
            objects := r.objects ++ [⟨A, ⟨A.initial, []⟩, false⟩] }, .ok id)) := by
  unfold handleActorCreationRequest
  cases handler with
  | error e => exact Or.inl ⟨_, rfl⟩
  | ok _ =>
      cases htaken : r.nameTaken A with
      | true => exact Or.inl ⟨_, rfl⟩
      | false =>
          refine Or.inr ⟨rfl, ?_⟩
          simp only [insertName, insertActor, insertSerializedRef, ActorRegistryBackend.added]
          cases A.config.actorName <;> rfl

/-- Destroying an id that is not there throws and changes nothing. -/
theorem Registry.destroyLocalActor_unknown {r : Registry} {id : ActorId}
    (h : id ∉ r.backend.actorIdToActor) :
    r.destroyLocalActor id = some (r, .error (.notFound id)) := by
  rw [destroyLocalActor, AList.lookup_eq_none.2 h]

/-- Destroying an id that is there takes its actor out of all maps. -/
theorem Registry.destroyLocalActor_known {r : Registry} {id : ActorId} {a : Address}
    (ha : r.backend.actorIdToActor.lookup id = some a)
    {p : Registry × Except RegistryError Unit} (h : r.destroyLocalActor id = some p) :
    p.2 = .ok () ∧ p.1.backend = r.backend.removed id (r.nameAt a) ∧
      p.1.objects.map (·.actor) = r.objects.map (·.actor) := by
  simp only [destroyLocalActor, ha] at h
  obtain ⟨⟨r', k⟩, hcall, rfl⟩ := Option.map_eq_some_iff.1 h
  obtain ⟨o, ho, hfreed, rfl, rfl⟩ := callAsyncDestroy_eq_some hcall
  exact ⟨rfl, rfl, map_actor_setObject ho rfl⟩

/-- Only the requests touch the maps. -/
theorem Registry.Step.maps_eq {r r' : Registry} {act : RegistryAction} (h : r.Step act r')
    (hact : act.isRequest = false) : r'.backend = r.backend ∧
      r'.objects.map (·.actor) = r.objects.map (·.actor) := by
  cases h with
  | answer _ hrequest | spawn _ _ _ hrequest => simp [hact] at hrequest
  | destroyLocal => simp [RegistryAction.isRequest] at hact
  | beginAll | endLoop | resumeAll => exact ⟨rfl, rfl⟩
  | release i call o _ _ _ ho => exact ⟨rfl, map_actor_setObject ho rfl⟩
  | callNext a todo spawned o _ _ ho => exact ⟨rfl, map_actor_setObject ho rfl⟩
  | actor a act o p _ ho => exact ⟨rfl, map_actor_setObject ho rfl⟩

/-- **What a step does to the maps.** -/
theorem Registry.backendChange_of_next {r r' : Registry} {act : RegistryAction}
    (h : Registry.machine.next r act = some r') (hser : SerializeTotal r act) :
    BackendChange r r' := by
  have hnext : r.next act = some r' := h
  cases act with
  | spawnLocal A id env =>
      obtain ⟨⟨-, hid⟩, rfl⟩ := by simpa [Registry.next] using hnext
      rcases r.spawnLocal_spec A id hser with ⟨e, heq⟩ | ⟨htaken, heq⟩
      · rw [heq]
        exact .same rfl rfl
      · rw [heq]
        exact .add A id hid htaken rfl (by simp)
  | handleActorCreationRequest A id handler =>
      obtain ⟨⟨-, hid⟩, rfl⟩ := by simpa [Registry.next] using hnext
      rcases r.handleActorCreationRequest_spec A id handler with ⟨e, heq⟩ | ⟨htaken, heq⟩
      · rw [heq]
        exact .same rfl rfl
      · rw [heq]
        exact .add A id hid htaken rfl (by simp)
  | destroyLocalActor id =>
      simp only [Registry.next] at hnext
      split at hnext
      · obtain ⟨p, hp, rfl⟩ := Option.map_eq_some_iff.1 hnext
        cases ha : r.backend.actorIdToActor.lookup id with
        | none =>
            rw [destroyLocalActor_unknown (AList.lookup_eq_none.1 ha)] at hp
            obtain rfl := Option.some.inj hp
            exact .same rfl rfl
        | some a =>
            obtain ⟨-, hb, ho⟩ := destroyLocalActor_known ha hp
            exact .remove id a ha hb ho
      · simp at hnext
  | lookUp name =>
      obtain ⟨-, rfl⟩ := by simpa [Registry.next] using hnext
      exact .same rfl rfl
  | _ =>
      obtain ⟨hb, ho⟩ := (step_of_next h).maps_eq rfl
      exact .same hb ho

/-! ### The invariant is kept -/

/-- Only the list of the actor objects decides which name an address has. -/
theorem Registry.nameAt_eq (r : Registry) (a : Address) :
    r.nameAt a = ((r.objects.map (·.actor))[a]?).bind (·.config.actorName) := by
  rw [nameAt, List.getElem?_map, Option.bind_map]
  rfl

theorem Registry.length_objects_eq (r : Registry) :
    r.objects.length = (r.objects.map (·.actor)).length := (List.length_map ..).symm

namespace Registry.Consistent

variable {r r' : Registry}

theorem inverts (h : r.Consistent) : Inverts r.backend.actorNameToId r.liveName := h.names

/-- Steps that leave the maps alone. -/
theorem same (h : r.Consistent) (hb : r'.backend = r.backend)
    (ho : r'.objects.map (·.actor) = r.objects.map (·.actor)) : r'.Consistent := by
  have hname (a : Address) : r'.nameAt a = r.nameAt a := by rw [nameAt_eq, nameAt_eq, ho]
  refine ⟨?_, ?_⟩
  · intro id
    rw [hb]
    exact h.keys id
  · intro name id
    rw [hb, h.names, liveName, liveName, hb, funext hname]

/-- An actor enters all maps. -/
theorem add (h : r.Consistent) (hobjects : ∀ a ∈ r.backend.actors, a < r.objects.length)
    {A : Actor} {id : ActorId}
    (hid : id ∉ r.backend.actorIdToActor) (htaken : r.nameTaken A = false)
    (hb : r'.backend = r.backend.added id r.objects.length A.config.actorName)
    (ho : r'.objects.map (·.actor) = r.objects.map (·.actor) ++ [A]) : r'.Consistent := by
  have hactors : r'.backend.actorIdToActor = r.backend.actorIdToActor.insert id _ :=
    congrArg _ hb
  have hnew : r'.nameAt r.objects.length = A.config.actorName := by
    rw [nameAt_eq, ho, length_objects_eq, List.getElem?_concat_length]
    rfl
  have hold (a : Address) (ha : a < r.objects.length) : r'.nameAt a = r.nameAt a := by
    rw [nameAt_eq, nameAt_eq, ho, List.getElem?_append_left (by simpa using ha)]
  have hlive : r'.liveName id = A.config.actorName := by
    rw [liveName, hactors, AList.lookup_insert]
    exact hnew
  have hother (id' : ActorId) (hne : id' ≠ id) : r'.liveName id' = r.liveName id' := by
    rw [liveName, liveName, hactors, AList.lookup_insert_ne hne]
    cases ha : r.backend.actorIdToActor.lookup id' with
    | none => rfl
    | some a => exact hold a (hobjects a (UnorderedMap.mem_values.2 ⟨id', ha⟩))
  have hgone : r.liveName id = none := by rw [liveName, AList.lookup_eq_none.2 hid]; rfl
  refine ⟨?_, ?_⟩
  · intro id'
    rw [hb]
    simp only [ActorRegistryBackend.added, AList.mem_insert, h.keys]
  · change Inverts _ _
    rw [hb]
    cases hA : A.config.actorName with
    | none =>
        refine h.inverts.congr fun id' => ?_
        by_cases hne : id' = id
        · rw [hne, hlive, hA, hgone]
        · exact hother id' hne
    | some n =>
        have hfree : r.backend.actorNameToId.lookup n = none := by
          simpa [nameTaken, hA] using htaken
        exact h.inverts.insert hfree hgone (hlive.trans hA) hother

/-- An actor leaves all maps. -/
theorem remove (h : r.Consistent) {id : ActorId} {a : Address}
    (ha : r.backend.actorIdToActor.lookup id = some a)
    (hb : r'.backend = r.backend.removed id (r.nameAt a))
    (ho : r'.objects.map (·.actor) = r.objects.map (·.actor)) : r'.Consistent := by
  have hactors : r'.backend.actorIdToActor = r.backend.actorIdToActor.erase id := congrArg _ hb
  have hname (a : Address) : r'.nameAt a = r.nameAt a := by rw [nameAt_eq, nameAt_eq, ho]
  have hlive : r.liveName id = r.nameAt a := by rw [liveName, ha]; rfl
  have hgone : r'.liveName id = none := by
    rw [liveName, hactors, AList.lookup_erase]
    rfl
  have hother (id' : ActorId) (hne : id' ≠ id) : r'.liveName id' = r.liveName id' := by
    rw [liveName, liveName, hactors, AList.lookup_erase_ne hne, funext hname]
  refine ⟨?_, ?_⟩
  · intro id'
    rw [hb]
    simp only [ActorRegistryBackend.removed, AList.mem_erase, h.keys]
  · change Inverts _ _
    rw [hb]
    cases hn : r.nameAt a with
    | none =>
        refine h.inverts.congr fun id' => ?_
        by_cases hne : id' = id
        · rw [hne, hgone, hlive, hn]
        · exact hother id' hne
    | some n => exact h.inverts.erase (hlive.trans hn) hgone hother

end Registry.Consistent

/-- **The maps agree in every reachable state.** -/
theorem Registry.consistent_of_exec {tr : List (Registry × RegistryAction)} {r : Registry}
    (h : Registry.machine.Exec tr r) (hser : Machine.Meets SerializeTotal tr) : r.Consistent := by
  refine h.invariantWhere (I := Registry.Consistent) ?_ ?_ hser
  · rintro _ ⟨thisNodeId, rfl⟩
    exact ⟨by simp [initial], by simp [initial, liveName]⟩
  · intro _ r act r' hexec _ hI hser hnext
    have hobjects (a : Address) (ha : a ∈ r.backend.actors) : a < r.objects.length :=
      (owned_of_exec hexec).created a (List.mem_append_left _ ha)
    cases backendChange_of_next hnext hser with
    | same hb ho => exact hI.same hb ho
    | add A id hid htaken hb ho => exact hI.add hobjects hid htaken hb ho
    | remove id a ha hb ho => exact hI.remove ha hb ho

/-! ### Lookups -/

namespace Registry.Consistent

variable {r : Registry}

/-- The actor of a name is in both other maps. -/
theorem exists_of_name (h : r.Consistent) {name : String} {id : ActorId}
    (hname : r.backend.actorNameToId.lookup name = some id) :
    ∃ a ref, r.backend.actorIdToActor.lookup id = some a ∧ r.nameAt a = some name ∧
      r.backend.actorIdToSerializedRef.lookup id = some ref := by
  obtain ⟨a, ha, hat⟩ := Option.bind_eq_some_iff.1 ((h.names name id).1 hname)
  obtain ⟨ref, href⟩ :=
    UnorderedMap.exists_lookup ((h.keys id).1 (UnorderedMap.mem_of_lookup ha))
  exact ⟨a, ref, ha, hat, href⟩

/-- What `GetActorRefByName` returns. -/
theorem getActorRefByName_eq {κ : Type} (P : Program κ) (U : κ) (h : r.Consistent)
    (objectAt : Address → TypeErasedActor) (brokerActorRef : BrokerRef) (name : String) :
    r.backend.getActorRefByName P U objectAt brokerActorRef name
      = .ok ((r.backend.actorNameToId.lookup name).bind fun id =>
          (r.backend.actorIdToActor.lookup id).map fun a =>
            .ofActor P r.backend.thisNodeId r.backend.thisNodeId id (some (objectAt a))
              brokerActorRef) := by
  unfold ActorRegistryBackend.getActorRefByName
  cases hname : r.backend.actorNameToId.lookup name with
  | none =>
      rw [if_neg (AList.lookup_eq_none.1 hname)]
      rfl
  | some id =>
      obtain ⟨a, ref, ha, -, -⟩ := h.exists_of_name hname
      rw [if_pos (UnorderedMap.mem_of_lookup hname), UnorderedMap.at_of_lookup hname,
        Option.bind_some, ha]
      simp only [bind, Except.bind, UnorderedMap.at_of_lookup ha, pure, Except.pure,
        Option.map_some]

/-- What the `ActorLookUpRequest` branch finds. -/
theorem handleActorLookUpRequest_eq (h : r.Consistent) (actorName : String) :
    handleActorLookUpRequest r.backend.actorNameToId r.backend.actorIdToSerializedRef actorName
      = .ok ((r.backend.actorNameToId.lookup actorName).bind
          r.backend.actorIdToSerializedRef.lookup) := by
  unfold handleActorLookUpRequest
  cases hname : r.backend.actorNameToId.lookup actorName with
  | none =>
      rw [if_neg (AList.lookup_eq_none.1 hname)]
      rfl
  | some id =>
      obtain ⟨a, ref, -, -, href⟩ := h.exists_of_name hname
      rw [if_pos (UnorderedMap.mem_of_lookup hname), UnorderedMap.at_of_lookup hname,
        Option.bind_some, href]
      simp only [bind, Except.bind, mapAt_of_lookup href, pure, Except.pure]

end Registry.Consistent

/-- **The registry is consistent** in every reachable state: the actors and the serialized
references have the same keys, the map of the names is injective and holds exactly the names of the
live actors; a spawn or creation request that fails and a destroy of an unknown id leave the maps as
they were; and no lookup by name throws. -/
theorem registry_consistent {tr : List (Registry × RegistryAction)} {r : Registry}
    (h : Registry.machine.Exec tr r) (hser : Machine.Meets SerializeTotal tr) :
    (∀ id, id ∈ r.backend.actorIdToActor ↔ id ∈ r.backend.actorIdToSerializedRef) ∧
    (∀ name id, r.backend.actorNameToId.lookup name = some id ↔ r.liveName id = some name) ∧
    (∀ name name' id, r.backend.actorNameToId.lookup name = some id →
      r.backend.actorNameToId.lookup name' = some id → name = name') ∧
    (∀ A id env e, env.serialize.isOk = true → (r.spawnLocal A id env).2 = .error e →
      (r.spawnLocal A id env).1.backend = r.backend) ∧
    (∀ A id handler e, (r.handleActorCreationRequest A id handler).2 = .error e →
      (r.handleActorCreationRequest A id handler).1.backend = r.backend) ∧
    (∀ id, id ∉ r.backend.actorIdToActor →
      ∃ e, r.destroyLocalActor id = some (r, .error e)) ∧
    (∀ {κ : Type} (P : Program κ) (U : κ) (objectAt : Address → TypeErasedActor)
        (brokerActorRef : BrokerRef) (name : String),
      ∃ ref, r.backend.getActorRefByName P U objectAt brokerActorRef name = .ok ref) ∧
    (∀ actorName, ∃ ref, handleActorLookUpRequest r.backend.actorNameToId
      r.backend.actorIdToSerializedRef actorName = .ok ref) := by
  have hI := Registry.consistent_of_exec h hser
  refine ⟨hI.keys, hI.names, fun _ _ _ => hI.injective, ?_, ?_, ?_, ?_, ?_⟩
  · intro A id env e hserialize herror
    rcases r.spawnLocal_spec A id hserialize with ⟨e', heq⟩ | ⟨-, heq⟩
    · rw [heq]
    · simp [heq] at herror
  · intro A id handler e herror
    rcases r.handleActorCreationRequest_spec A id handler with ⟨e', heq⟩ | ⟨-, heq⟩
    · rw [heq]
    · simp [heq] at herror
  · exact fun id hid => ⟨_, Registry.destroyLocalActor_unknown hid⟩
  · exact fun P U objectAt brokerActorRef name => ⟨_, hI.getActorRefByName_eq P U ..⟩
  · exact fun actorName => ⟨_, hI.handleActorLookUpRequest_eq actorName⟩

/-- An actor with a name. -/
def Actor.named (name : String) : Actor :=
  ⟨{ ActorConfig.default with actorName := some name }, false⟩

/-- A name is taken, its actor is destroyed and the name is used again while the destruction waits.
-/
theorem registry_consistent_name_reused : ∃ tr r, Registry.machine.Exec tr r ∧
    r.backend.actorNameToId.lookup "a" = some 2 ∧ r.liveName 2 = some "a" := by
  obtain ⟨r, hexec, hname⟩ := Machine.exists_exec_of_replay (Registry.machine_init 1)
    ([.spawnLocal (.named "a") 1 .calm, .spawnLocal (.named "a") 3 .calm, .destroyLocalActor 1]
      ++ actorSteps 0 0 5 ++
      [.destroyLocalActor 5, .handleActorCreationRequest (.named "a") 2 (.ok ())])
    (fun r => r.backend.actorNameToId.lookup "a") (some 2) rfl
  have hconsistent := registry_consistent hexec (by decide)
  exact ⟨_, r, hexec, hname, (hconsistent.2.1 "a" 2).1 hname⟩

end ExActor
