/-
**Which requests are answered.**

Every handler catches `std::exception` and replies with its text.  What is left are the exceptions
that do not derive from it, which a factory, a constructor, `ExActorOnSpawned`, a method or the
scheduler may throw: they leave `HandleNetworkRequest` and end in the fatal `DiscardResult` of the
broker.  A method call also goes unanswered when its message is never executed, and it leaves the
defined behaviour when its handler is one for another class or its mailbox does not exist.

`Answerable` says of a request, the state and the surroundings that none of this happens.  Here it
is given how the waits of a handler end; `ExActor/RequestServer.lean` says it of the actors.

Main definitions:

* `TypedRegistry.creation`, `TypedRegistry.methodCall` — what the `try` blocks run;
* `Failed` — the operation that was requested fails;
* `Answered` — the request gets its reply;
* `Answerable` — the condition.

Main results:

* `TypedRegistry.handleNetworkRequest_step` — what a request leaves behind is a step of the machine;
* `answered_iff_answerable` — a request is answered exactly under the condition.
-/

import ExActor.NetworkRequest

set_option relaxedAutoImplicit false
set_option autoImplicit false

namespace ExActor

variable {κ : Type} {P : Program κ}

namespace TypedRegistry

variable (E : TypedEnv P) (reg : RemoteActorRequestHandlerRegistry P) (s : TypedRegistry)
  (env : RequestEnv)

/-! ### What the `try` blocks run -/

/-- The handler of a creation request, found and run. -/
def creation (msg : ActorCreationRequest) : Except CppException Actor := do
  let handler ← reg.getRemoteActorCreationHandler msg.handlerKey
  deserializeAndCreateActor handler ⟨msg.serializedArgs, s.context E env.brokerActorRef⟩

/-- The handler of a method call on the actor at an address, found and run up to the submission. -/
def methodCall (msg : ActorMethodCallRequest) (a : Address) :
    Except CppException (RemoteMethod P × MethodCall) := do
  let handler ← reg.getRemoteActorMethodCallHandler msg.handlerKey
  let call ← deserializeAndInvokeActorMethod handler
    ⟨some (E.instances.objectAt a), msg.serializedArgs, s.context E env.brokerActorRef,
      msg.mailboxIndex⟩
  return (handler, call)

theorem handleActorCreationRequest_eq (msg : ActorCreationRequest) :
    s.handleActorCreationRequest E reg env msg
      = match s.creation E reg env msg with
        | .error e => catchStd s (.actorCreation false []) e
        | .ok A =>
            let result := s.registry.handleActorCreationRequest A env.actorId (.ok ())
            match result.2 with
            | .error _ => catchStd s (.actorCreation false [])
                (throwStream (creationNameExists (A.config.actorName.getD "")))
            | .ok id =>
                .replied ⟨result.1, s.insertHandle E id result.2⟩
                  (.actorCreation true (handleBytes E s.registry.backend.thisNodeId id
                    s.registry.objects.length) "") := by
  unfold handleActorCreationRequest creation
  cases reg.getRemoteActorCreationHandler msg.handlerKey with
  | error e => rfl
  | ok handler => rfl

variable [DecidableEq κ]

/-- How a method call goes on once its message was made. -/
def submit (a : Address) (fn : RemoteMethod P) (call : MethodCall) : Handled :=
  if fn.actualClass ≠ (E.instances a).1 then .undefined
  else if s.registry.mailboxCount a ≤ call.mailboxIndex.toNat then .undefined
  else
    match env.submission with
    | .refused e => catchStd s (.actorMethodCall false []) e
    | .dropped => .unanswered
    | .executed =>
        match call.invoke with
        | .ok serializedResult => .replied s (.actorMethodCall true serializedResult "")
        | .error e => catchStd s (.actorMethodCall false []) e

theorem handleActorMethodCallRequest_eq (msg : ActorMethodCallRequest) :
    s.handleActorMethodCallRequest E reg env msg
      = match s.registry.backend.actorIdToActor.lookup msg.actorId with
        | none => .replied s (.actorMethodCall false [] (s.cantFindActor msg))
        | some a =>
            match s.methodCall E reg env msg a with
            | .error e => catchStd s (.actorMethodCall false []) e
            | .ok (fn, call) => s.submit E env a fn call := by
  unfold handleActorMethodCallRequest methodCall
  cases s.registry.backend.actorIdToActor.lookup msg.actorId with
  | none => rfl
  | some a =>
      cases reg.getRemoteActorMethodCallHandler msg.handlerKey with
      | error e => rfl
      | ok handler =>
          simp only [bind, Except.bind, pure, Except.pure]
          cases deserializeAndInvokeActorMethod handler ⟨some (E.instances.objectAt a),
            msg.serializedArgs, s.context E env.brokerActorRef, msg.mailboxIndex⟩ with
          | error e => rfl
          | ok call => rfl

end TypedRegistry

/-! ### Requests that are answered -/

section Answered

variable (E : TypedEnv P) (reg : RemoteActorRequestHandlerRegistry P) (s : TypedRegistry)
  (env : RequestEnv)

/-- An exception that a `catch (std::exception&)` catches, if there is one. -/
def OnlyStd {α : Type} (result : Except CppException α) : Prop :=
  ∀ e, result = .error e → e.isStd = true

/-- The operation that a request asks for fails. -/
def Failed : NetworkRequest → Prop
  | .actorCreation msg =>
      (∃ e, s.creation E reg env msg = .error e) ∨
        ∃ A, s.creation E reg env msg = .ok A ∧ s.registry.nameTaken A = true
  | .actorMethodCall msg =>
      msg.actorId ∉ s.registry.backend.actorIdToActor ∨
        ∃ a, s.registry.backend.actorIdToActor.lookup msg.actorId = some a ∧
          ((∃ e, s.methodCall E reg env msg a = .error e) ∨
            ∃ fn call, s.methodCall E reg env msg a = .ok (fn, call) ∧
              ((∃ e, env.submission = .refused e) ∨ ∃ e, call.invoke = .error e))
  | .actorLookUp msg => msg.actorName ∉ s.registry.backend.actorNameToId
  | .actorDestroy msg =>
      msg.actorId ∉ s.registry.backend.actorIdToActor ∨ ∃ e, env.asyncDestroy = some (.error e)

/-- What a submitted message needs for an answer: a handler of the actor's class, a mailbox that
exists, and to be refused or executed without an exception that is not caught. -/
def Submittable (a : Address) (fn : RemoteMethod P) (call : MethodCall) : Prop :=
  fn.actualClass = (E.instances a).1 ∧
    call.mailboxIndex.toNat < s.registry.mailboxCount a ∧
    match env.submission with
    | .refused e => e.isStd = true
    | .dropped => False
    | .executed => OnlyStd call.invoke

/-- The request can be answered. -/
def Answerable : NetworkRequest → Prop
  | .actorCreation msg => OnlyStd (s.creation E reg env msg)
  | .actorMethodCall msg =>
      ∀ a, s.registry.backend.actorIdToActor.lookup msg.actorId = some a →
        OnlyStd (s.methodCall E reg env msg a) ∧
          ∀ fn call, s.methodCall E reg env msg a = .ok (fn, call) →
            Submittable E s env a fn call
  | .actorLookUp _ => True
  | .actorDestroy msg =>
      msg.actorId ∈ s.registry.backend.actorIdToActor →
        ∃ result, env.asyncDestroy = some result ∧ OnlyStd result

variable [DecidableEq κ]

/-- The request gets a reply of its kind, which says whether the operation has failed. -/
def Answered (request : NetworkRequest) : Prop :=
  ∃ s' reply, s.handleNetworkRequest E reg env (.ok request) = .replied s' reply ∧
    reply.answers request = true ∧ (reply.success = false ↔ Failed E reg s env request)

end Answered

/-! ### The `catch` blocks -/

section Catch

variable {s s' : TypedRegistry} {reply : String → NetworkReply} {e : CppException}

/-- A `catch` block replies to what it catches. -/
theorem exists_catchStd_eq (s : TypedRegistry) (reply : String → NetworkReply)
    (h : e.isStd = true) : ∃ text, catchStd s reply e = .replied s (reply text) := by
  cases e with
  | stdException typeName what => exact ⟨_, rfl⟩
  | other typeName => simp [CppException.isStd] at h

/-- What it does not catch escapes. -/
theorem isStd_of_catchStd_eq {r : NetworkReply} (h : catchStd s reply e = .replied s' r) :
    e.isStd = true := by
  cases e with
  | stdException typeName what => rfl
  | other typeName => simp [catchStd] at h

theorem onlyStd_error_iff {α : Type} : OnlyStd (.error e : Except CppException α) ↔
    e.isStd = true := by
  simp [OnlyStd]

theorem onlyStd_ok {α : Type} (a : α) : OnlyStd (.ok a : Except CppException α) := by
  simp [OnlyStd]

end Catch

/-! ### The four kinds of requests -/

section Kinds

variable {E : TypedEnv P} {reg : RemoteActorRequestHandlerRegistry P} {s : TypedRegistry}
  {env : RequestEnv} [DecidableEq κ]

/-- Where a request ends in a `catch` block because its operation has failed. -/
theorem answered_iff_of_catchStd {request : NetworkRequest} {s' : TypedRegistry}
    {reply : String → NetworkReply} {e : CppException}
    (h : s.handleNetworkRequest E reg env (.ok request) = catchStd s' reply e)
    (hanswers : ∀ text, (reply text).answers request = true)
    (hsuccess : ∀ text, (reply text).success = false) (hfailed : Failed E reg s env request) :
    Answered E reg s env request ↔ e.isStd = true := by
  constructor
  · rintro ⟨s'', r, hreplied, -, -⟩
    exact isStd_of_catchStd_eq (h.symm.trans hreplied)
  · intro hstd
    obtain ⟨text, htext⟩ := exists_catchStd_eq s' reply hstd
    exact ⟨s', reply text, h.trans htext, hanswers text, iff_of_true (hsuccess text) hfailed⟩

/-- Where a request does not end in a reply. -/
theorem not_answered_of_eq {request : NetworkRequest} {handled : Handled}
    (h : s.handleNetworkRequest E reg env (.ok request) = handled)
    (hno : ∀ s' reply, handled ≠ .replied s' reply) : ¬ Answered E reg s env request := by
  rintro ⟨s', reply, hreplied, -, -⟩
  exact hno s' reply (h.symm.trans hreplied)

theorem not_answered_of_escaped {request : NetworkRequest} {e : CppException}
    (h : s.handleNetworkRequest E reg env (.ok request) = .escaped e) :
    ¬ Answered E reg s env request :=
  not_answered_of_eq h (by simp)

/-- Creation requests. -/
theorem answered_actorCreation_iff (msg : ActorCreationRequest) :
    Answered E reg s env (.actorCreation msg) ↔ Answerable E reg s env (.actorCreation msg) := by
  have heq : s.handleNetworkRequest E reg env (.ok (.actorCreation msg)) = _ :=
    s.handleActorCreationRequest_eq E reg env msg
  rw [Answerable]
  cases hcreation : s.creation E reg env msg with
  | error e =>
      rw [hcreation] at heq
      rw [onlyStd_error_iff]
      exact answered_iff_of_catchStd heq (fun _ => rfl) (fun _ => rfl) (Or.inl ⟨e, hcreation⟩)
  | ok A =>
      rw [hcreation] at heq
      refine iff_of_true ?_ (onlyStd_ok A)
      rcases s.registry.handleActorCreationRequest_spec A env.actorId (.ok ()) with
        ⟨e, hspec⟩ | ⟨htaken, hspec⟩
      · have htaken : s.registry.nameTaken A = true := by
          by_contra hfree
          simp [Registry.handleActorCreationRequest, hfree] at hspec
        simp only [hspec] at heq
        exact (answered_iff_of_catchStd heq (fun _ => rfl) (fun _ => rfl)
          (Or.inr ⟨A, hcreation, htaken⟩)).2 rfl
      · simp only [hspec] at heq
        refine ⟨_, _, heq, rfl, iff_of_false (by simp [NetworkReply.success]) ?_⟩
        rintro (⟨e, he⟩ | ⟨A', hA', htaken'⟩)
        · simp [hcreation] at he
        · obtain rfl := Except.ok.inj (hcreation.symm.trans hA')
          simp [htaken] at htaken'

/-- A method call whose message was made. -/
theorem answered_submit_iff {msg : ActorMethodCallRequest} {a : Address} {fn : RemoteMethod P}
    {call : MethodCall} (ha : s.registry.backend.actorIdToActor.lookup msg.actorId = some a)
    (hcall : s.methodCall E reg env msg a = .ok (fn, call))
    (h : s.handleNetworkRequest E reg env (.ok (.actorMethodCall msg)) = s.submit E env a fn call) :
    Answered E reg s env (.actorMethodCall msg) ↔ Submittable E s env a fn call := by
  unfold TypedRegistry.submit at h
  by_cases hclass : fn.actualClass = (E.instances a).1
  · rw [if_neg (not_not.2 hclass)] at h
    by_cases hindex : s.registry.mailboxCount a ≤ call.mailboxIndex.toNat
    · rw [if_pos hindex] at h
      refine iff_of_false (not_answered_of_eq h (by simp)) ?_
      rintro ⟨-, hlt, -⟩
      omega
    · rw [if_neg hindex] at h
      simp only [Submittable, hclass, Nat.lt_of_not_le hindex, true_and]
      cases hsubmission : env.submission with
      | refused e =>
          rw [hsubmission] at h
          exact answered_iff_of_catchStd h (fun _ => rfl) (fun _ => rfl)
            (Or.inr ⟨a, ha, Or.inr ⟨fn, call, hcall, Or.inl ⟨e, hsubmission⟩⟩⟩)
      | dropped =>
          rw [hsubmission] at h
          exact iff_of_false (not_answered_of_eq h (by simp)) id
      | executed =>
          rw [hsubmission] at h
          cases hinvoke : call.invoke with
          | error e =>
              rw [hinvoke] at h
              simp only [onlyStd_error_iff]
              exact answered_iff_of_catchStd h (fun _ => rfl) (fun _ => rfl)
                (Or.inr ⟨a, ha, Or.inr ⟨fn, call, hcall, Or.inr ⟨e, hinvoke⟩⟩⟩)
          | ok serializedResult =>
              rw [hinvoke] at h
              refine iff_of_true ⟨_, _, h, rfl, iff_of_false (by simp [NetworkReply.success]) ?_⟩
                (onlyStd_ok _)
              -- none of the ways to fail is left
              rintro (hnot | ⟨a', ha', hfailed⟩)
              · exact hnot (UnorderedMap.mem_of_lookup ha)
              · obtain rfl := Option.some.inj (ha.symm.trans ha')
                rcases hfailed with ⟨e, he⟩ | ⟨fn', call', hcall', hfailed⟩
                · simp [hcall] at he
                · obtain ⟨rfl, rfl⟩ := Prod.mk.inj (Except.ok.inj (hcall.symm.trans hcall'))
                  simp [hsubmission, hinvoke] at hfailed
  · rw [if_pos hclass] at h
    exact iff_of_false (not_answered_of_eq h (by simp)) fun hsubmit => hclass hsubmit.1

/-- Method calls. -/
theorem answered_actorMethodCall_iff (msg : ActorMethodCallRequest) :
    Answered E reg s env (.actorMethodCall msg)
      ↔ Answerable E reg s env (.actorMethodCall msg) := by
  have heq : s.handleNetworkRequest E reg env (.ok (.actorMethodCall msg)) = _ :=
    s.handleActorMethodCallRequest_eq E reg env msg
  rw [Answerable]
  cases ha : s.registry.backend.actorIdToActor.lookup msg.actorId with
  | none =>
      rw [ha] at heq
      refine iff_of_true ⟨_, _, heq, rfl, iff_of_true rfl (Or.inl ?_)⟩ (by simp)
      exact AList.lookup_eq_none.1 ha
  | some a =>
      simp only [Option.some.injEq, forall_eq']
      cases hcall : s.methodCall E reg env msg a with
      | error e =>
          simp only [ha, hcall] at heq
          have hfailed : Failed E reg s env (.actorMethodCall msg) :=
            Or.inr ⟨a, ha, Or.inl ⟨e, hcall⟩⟩
          rw [answered_iff_of_catchStd heq (fun _ => rfl) (fun _ => rfl) hfailed,
            onlyStd_error_iff]
          simp
      | ok p =>
          obtain ⟨fn, call⟩ := p
          simp only [ha, hcall] at heq
          rw [answered_submit_iff ha hcall heq]
          simp [onlyStd_ok]

/-- Lookups. -/
theorem answered_actorLookUp (hstored : TypedRegistry.RefsStored E s)
    (hconsistent : s.registry.Consistent) (msg : ActorLookUpRequest) :
    Answered E reg s env (.actorLookUp msg) := by
  have heq : s.handleNetworkRequest E reg env (.ok (.actorLookUp msg))
      = s.handleActorLookUp msg := rfl
  cases hname : s.registry.backend.actorNameToId.lookup msg.actorName with
  | none =>
      have hnot := AList.lookup_eq_none.1 hname
      rw [TypedRegistry.handleActorLookUp, handleActorLookUpRequest, if_neg hnot] at heq
      exact ⟨_, _, heq, rfl, iff_of_true rfl hnot⟩
  | some id =>
      have hin := UnorderedMap.mem_of_lookup hname
      obtain ⟨a, ref, ha, -, -⟩ := hconsistent.exists_of_name hname
      have hrefs := hstored id
      rw [ha, Option.map_some] at hrefs
      rw [TypedRegistry.handleActorLookUp, handleActorLookUpRequest, if_pos hin,
        UnorderedMap.at_of_lookup hname] at heq
      simp only [bind, Except.bind, mapAt_of_lookup hrefs, pure, Except.pure] at heq
      exact ⟨_, _, heq, rfl, iff_of_false (by simp [NetworkReply.success]) (not_not.2 hin)⟩

/-- Destroy requests. -/
theorem answered_actorDestroy_iff {msg : ActorDestroyRequest}
    (hdestroy : s.registry.destroyLocalActor msg.actorId ≠ none) :
    Answered E reg s env (.actorDestroy msg) ↔ Answerable E reg s env (.actorDestroy msg) := by
  have heq : s.handleNetworkRequest E reg env (.ok (.actorDestroy msg))
      = s.handleActorDestroyRequest env msg := rfl
  unfold TypedRegistry.handleActorDestroyRequest at heq
  cases ha : s.registry.backend.actorIdToActor.lookup msg.actorId with
  | none =>
      have hnot := AList.lookup_eq_none.1 ha
      rw [Registry.destroyLocalActor_unknown hnot] at heq
      refine iff_of_true ?_ fun hin => absurd hin hnot
      exact (answered_iff_of_catchStd heq (fun _ => rfl) (fun _ => rfl) (Or.inl hnot)).2 rfl
  | some a =>
      have hin := UnorderedMap.mem_of_lookup ha
      obtain ⟨p, hp⟩ := Option.ne_none_iff_exists'.1 hdestroy
      obtain ⟨hok, -, -⟩ := Registry.destroyLocalActor_known ha hp
      obtain ⟨registry, result⟩ := p
      obtain rfl : result = .ok () := hok
      -- the actor is out of the maps, and the answer waits for its `AsyncDestroy`
      simp only [hp] at heq
      simp only [Answerable, hin, true_implies]
      cases hend : env.asyncDestroy with
      | none =>
          rw [hend] at heq
          exact iff_of_false (not_answered_of_eq heq (by simp)) (by simp)
      | some result =>
          simp only [Option.some.injEq, exists_eq_left']
          rw [hend] at heq
          cases result with
          | error e =>
              rw [onlyStd_error_iff]
              exact answered_iff_of_catchStd heq (fun _ => rfl) (fun _ => rfl)
                (Or.inr ⟨e, hend⟩)
          | ok _ =>
              refine iff_of_true ⟨_, _, heq, rfl, iff_of_false (by simp [NetworkReply.success]) ?_⟩
                (onlyStd_ok _)
              rintro (hnot | ⟨e, he⟩)
              · exact hnot hin
              · simp [hend] at he

/-- A `catch` block leaves the registry as it is. -/
theorem eq_of_catchStd_eq {s s' : TypedRegistry} {reply : String → NetworkReply}
    {e : CppException} {r : NetworkReply} (h : catchStd s reply e = .replied s' r) : s' = s := by
  obtain ⟨text, htext⟩ := exists_catchStd_eq s reply (isStd_of_catchStd_eq h)
  rw [htext, Handled.replied.injEq] at h
  exact h.1.symm

theorem eq_of_submit_eq {s' : TypedRegistry} {a : Address} {fn : RemoteMethod P}
    {call : MethodCall} {reply : NetworkReply} (h : s.submit E env a fn call = .replied s' reply) :
    s' = s := by
  unfold TypedRegistry.submit at h
  split at h
  · simp at h
  · split at h
    · simp at h
    · split at h
      · exact eq_of_catchStd_eq h
      · simp at h
      · split at h
        · exact (Handled.replied.inj h).1.symm
        · exact eq_of_catchStd_eq h

omit [DecidableEq κ] in
/-- A creation request leaves behind what it found or the result of a step. -/
theorem TypedRegistry.handleActorCreationRequest_step {s' : TypedRegistry}
    {msg : ActorCreationRequest} {reply : NetworkReply} (hidle : s.registry.idle)
    (hid : env.actorId ∉ s.registry.backend.actorIdToActor)
    (h : s.handleActorCreationRequest E reg env msg = .replied s' reply) :
    s' = s ∨ ∃ act, (TypedRegistry.machine E).next s act = some s' := by
  rw [handleActorCreationRequest_eq] at h
  cases hcreation : s.creation E reg env msg with
  | error e =>
      rw [hcreation] at h
      exact Or.inl (eq_of_catchStd_eq h)
  | ok A =>
      rw [hcreation] at h
      rcases s.registry.handleActorCreationRequest_spec A env.actorId (.ok ()) with
        ⟨e, hspec⟩ | ⟨-, hspec⟩
      · -- the name is taken
        simp only [hspec] at h
        exact Or.inl (eq_of_catchStd_eq h)
      · simp only [hspec, Handled.replied.injEq] at h
        obtain ⟨rfl, -⟩ := h
        refine Or.inr ⟨.handleActorCreationRequest A env.actorId (.ok ()), ?_⟩
        have hser : SerializeTotal s.registry
          (.handleActorCreationRequest A env.actorId (.ok ())) := trivial
        simp [machine, next, Registry.next, serializedRefs, hser, hidle, hid, hspec]

omit [DecidableEq κ] in
/-- The same of a destroy request. -/
theorem TypedRegistry.handleActorDestroyRequest_step {s' : TypedRegistry}
    {msg : ActorDestroyRequest} {reply : NetworkReply} (hidle : s.registry.idle)
    (h : s.handleActorDestroyRequest env msg = .replied s' reply) :
    s' = s ∨ ∃ act, (TypedRegistry.machine E).next s act = some s' := by
  unfold handleActorDestroyRequest at h
  cases ha : s.registry.backend.actorIdToActor.lookup msg.actorId with
  | none =>
      rw [Registry.destroyLocalActor_unknown (AList.lookup_eq_none.1 ha)] at h
      exact Or.inl (eq_of_catchStd_eq h)
  | some a =>
      cases hp : s.registry.destroyLocalActor msg.actorId with
      | none => simp [hp] at h
      | some p =>
          obtain ⟨hok, -, -⟩ := Registry.destroyLocalActor_known ha hp
          obtain ⟨registry, result⟩ := p
          obtain rfl : result = .ok () := hok
          have hs' : s' = ⟨registry, s.actorIdToSerializedRef.erase msg.actorId⟩ := by
            simp only [hp] at h
            split at h
            · simp at h
            · exact (Handled.replied.inj h).1.symm
            · exact eq_of_catchStd_eq h
          have hser : SerializeTotal s.registry (.destroyLocalActor msg.actorId) := trivial
          refine Or.inr ⟨.destroyLocalActor msg.actorId, ?_⟩
          simp [machine, next, Registry.next, serializedRefs, hser, hidle, hp, hs',
            UnorderedMap.mem_of_lookup ha]

/-- **What a request leaves behind is what it found or the result of a step.** -/
theorem TypedRegistry.handleNetworkRequest_step {s' : TypedRegistry} {request : NetworkRequest}
    {reply : NetworkReply} (hidle : s.registry.idle)
    (hid : env.actorId ∉ s.registry.backend.actorIdToActor)
    (h : s.handleNetworkRequest E reg env (.ok request) = .replied s' reply) :
    s' = s ∨ ∃ act, (TypedRegistry.machine E).next s act = some s' := by
  cases request with
  | actorCreation msg => exact handleActorCreationRequest_step hidle hid h
  | actorMethodCall msg =>
      have h : s.handleActorMethodCallRequest E reg env msg = .replied s' reply := h
      rw [handleActorMethodCallRequest_eq] at h
      split at h
      · exact Or.inl (Handled.replied.inj h).1.symm
      · split at h
        · exact Or.inl (eq_of_catchStd_eq h)
        · exact Or.inl (eq_of_submit_eq h)
  | actorLookUp msg =>
      have h : s.handleActorLookUp msg = .replied s' reply := h
      unfold handleActorLookUp at h
      split at h
      · simp at h
      · exact Or.inl (Handled.replied.inj h).1.symm
      · exact Or.inl (Handled.replied.inj h).1.symm
  | actorDestroy msg => exact handleActorDestroyRequest_step hidle h

/-- **A request is answered exactly under the condition**, in every reachable state of the registry,
whatever is registered and however the waits end. -/
theorem answered_iff_answerable {tr : List (TypedRegistry × RegistryAction)}
    (h : (TypedRegistry.machine E).Exec tr s) (reg : RemoteActorRequestHandlerRegistry P)
    (env : RequestEnv) (request : NetworkRequest) :
    Answered E reg s env request ↔ Answerable E reg s env request := by
  obtain ⟨hexec, hser⟩ := TypedRegistry.exec_registry h
  cases request with
  | actorCreation msg => exact answered_actorCreation_iff msg
  | actorMethodCall msg => exact answered_actorMethodCall_iff msg
  | actorLookUp msg =>
      exact iff_of_true (answered_actorLookUp (TypedRegistry.lookup_serializedRef h)
        (Registry.consistent_of_exec hexec hser) msg) trivial
  | actorDestroy msg =>
      exact answered_actorDestroy_iff (Registry.destroyLocalActor_ne_none hexec msg.actorId)

end Kinds

/-! ### A node with one function -/

/-- A create function that ends in this way. -/
def RemoteCreateFn.ending (result : Except CppException Unit) : RemoteCreateFn where
  uniqueName := "Create"
  deserializeFnArgs _ _ := .ok (ActorConfig.default, result)
  notifyExActorOnSpawned := .ok ()
  hasShouldActivateHook := false

/-- The surroundings of a request in which nothing goes wrong. -/
def RequestEnv.calm : RequestEnv where
  actorId := 7
  submission := .executed
  asyncDestroy := some (.ok ())
  brokerActorRef := .empty

/-- The registry before anything was spawned. -/
def TypedRegistry.start : TypedRegistry := ⟨.initial 1, ∅⟩

theorem TypedRegistry.exec_start : (TypedRegistry.machine TwoBases.env).Exec [] .start :=
  .init ⟨1, rfl⟩

end ExActor
