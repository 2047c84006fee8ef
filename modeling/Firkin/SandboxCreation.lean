import Firkin.LocalBackend

/-! # Two ways to create a sandbox

The serialized way registers the sandbox and then applies its network policy; the detached way,
which does not hold the registry lock while the runtime works, applies the policy first. From
the same state, for an id that is not registered, they end alike. -/
namespace SandboxCreation

open Ext4Types E2bTypes SortedTable FaultMonad LocalBackend
open SandboxRegistry (LocalSandboxRegistry newConnected newRecord)

inductive Creation where
  | plain (request : SandboxCreateRequest)
  | followup (request : FollowupSandboxCreateRequest)

namespace Creation

/-- Up to the answer of the runtime: the request it was started for, and the runtime. -/
def starts (a : RuntimeAdapter) : Creation → Api (SandboxCreateRequest × RuntimeSandbox)
  | .plain request => do
    let runtime ← startSandbox a request
    pure (request, runtime)
  | .followup request => startFollowupSandbox a request

def sequential (a : RuntimeAdapter) : Creation → Api ConnectedSandbox
  | .plain request => create a request
  | .followup request => createFollowup a request

def detached (a : RuntimeAdapter) : Creation → Api ConnectedSandbox
  | .plain request => createWithDetachedRuntimeStart a request
  | .followup request => createFollowupWithDetachedRuntimeStart a request

section
variable (a : RuntimeAdapter) (c : Creation) (s : LocalRuntimeBackend)
include a c s

theorem sequential_eq :
    c.sequential a s = (c.starts a >>= fun p => registerThenApply a p.1 p.2.config) s := by
  cases c with
  | plain request =>
    simp only [sequential, create, starts, run_bind]
    cases startSandbox a request s <;> rfl
  | followup request => rfl

theorem detached_eq :
    c.detached a s = (c.starts a >>= fun p => applyThenRegister a p.1 p.2.config) s := by
  cases c with
  | plain request =>
    simp only [detached, createWithDetachedRuntimeStart, starts, run_bind]
    cases startSandbox a request s <;> rfl
  | followup request => rfl
end

/-- Starting asks the adapter once and leaves the registries alone. -/
theorem starts_ok {c : Creation} (h : c.starts a s = .ok p t) :
    ∃ call, t = { s with calls := s.calls ++ [call] } := by
  cases c with
  | plain request =>
    obtain ⟨runtime, u, hstart, hp⟩ := bind_eq_ok.mp h
    obtain ⟨prepared, v, hfind, hask⟩ := bind_eq_ok.mp ((bind_of_ok (run_get s)).symm.trans hstart)
    cases hp
    rw [(run_ofExcept_eq_ok.mp hfind).2] at hask
    exact ⟨_, (ask_eq_ok.mp hask).2⟩
  | followup request =>
    obtain ⟨snapshot, v, hfind, hstart⟩ := bind_eq_ok.mp ((bind_of_ok (run_get s)).symm.trans h)
    obtain ⟨runtime, u, hask, hp⟩ := bind_eq_ok.mp hstart
    cases hp
    rw [(run_ofExcept_eq_ok.mp hfind).2] at hask
    exact ⟨_, (ask_eq_ok.mp hask).2⟩

end Creation

section
variable (a : RuntimeAdapter) (request : SandboxCreateRequest) (runtime : SandboxRuntimeConfig)
  (s : LocalRuntimeBackend)

def registered : LocalSandboxRegistry :=
  { s.sandboxes with
    sandboxes := s.sandboxes.sandboxes.insert runtime.sandboxId (newRecord request runtime) }

/-- How both ways go on from a started runtime with an unregistered id. -/
def outcome : EStateM.Result BackendError LocalRuntimeBackend ConnectedSandbox :=
  match effectiveNetworkPolicyRequest request with
  | none => .ok (newConnected runtime) { s with sandboxes := registered request runtime s }
  | some policy =>
    let asked := s.calls ++ [.applyNetwork runtime.sandboxId policy]
    match a.applyNetwork runtime.sandboxId policy with
    | .ok () => .ok (newConnected runtime)
        { s with sandboxes := registered request runtime s, calls := asked }
    | .error e => .error e { s with calls := asked ++ [.stop runtime.sandboxId] }

variable {a request runtime s}

section
variable (h : runtime.sandboxId ∉ s.sandboxes.sandboxes)
include h

theorem create_fresh : s.sandboxes.create request runtime =
      .ok (newConnected runtime, registered request runtime s) := by
  rw [LocalSandboxRegistry.create, if_neg h]
  rfl

theorem delete_registered :
    ((registered request runtime s).delete runtime.sandboxId).2 = s.sandboxes := by
  have hnone : s.sandboxes.sandboxes[runtime.sandboxId]? = none := Std.ExtTreeMap.getElem?_eq_none h
  rw [LocalSandboxRegistry.delete, registered, erase_insert hnone]

theorem registerThenApply_eq : registerThenApply a request runtime s =
    outcome a request runtime s := by
  unfold registerThenApply
  rw [bind_of_ok (run_get s), create_fresh h]
  cases hpolicy : effectiveNetworkPolicyRequest request with
  | none =>
    rw [outcome, hpolicy]
    rfl
  | some policy =>
    have hid : (newConnected runtime).sandboxId = runtime.sandboxId := rfl
    cases hnetwork : a.applyNetwork runtime.sandboxId policy with
    | ok _ =>
      simp only [outcome, hpolicy, hid, hnetwork]
      rfl
    | error e =>
      simp only [outcome, hpolicy, hid, hnetwork]
      change EStateM.Result.error e { s with
        sandboxes := ((registered request runtime s).delete runtime.sandboxId).2
        calls := _ } = _
      rw [delete_registered h]

theorem applyThenRegister_eq : applyThenRegister a request runtime s =
    outcome a request runtime s := by
  unfold applyThenRegister
  cases hpolicy : effectiveNetworkPolicyRequest request with
  | none =>
    rw [outcome, hpolicy]
    refine (bind_of_ok (run_get s)).trans ?_
    rw [create_fresh h]
    rfl
  | some policy =>
    refine (bind_of_ok (run_modify _)).trans ?_
    cases hnetwork : a.applyNetwork runtime.sandboxId policy with
    | ok _ =>
      simp only [outcome, hpolicy, hnetwork]
      refine (bind_of_ok (run_get _)).trans ?_
      rw [create_fresh h]
      rfl
    | error e =>
      simp only [outcome, hpolicy, hnetwork]
      rfl
end

theorem outcome_error (h : outcome a request runtime s = .error e s') :
    ∃ policy, s' = { s with
      calls := s.calls ++ [.applyNetwork runtime.sandboxId policy] ++
        [.stop runtime.sandboxId] } := by
  unfold outcome at h
  cases hpolicy : effectiveNetworkPolicyRequest request with
  | none =>
    rw [hpolicy] at h
    cases h
  | some policy =>
    simp only [hpolicy] at h
    cases hnetwork : a.applyNetwork runtime.sandboxId policy with
    | ok _ =>
      rw [hnetwork] at h
      cases h
    | error e =>
      rw [hnetwork] at h
      cases h
      exact ⟨policy, rfl⟩

/-- A failure leaves the registries, and a success adds the record of an id that was free. -/
def Registers (request : SandboxCreateRequest) (runtime : SandboxRuntimeConfig)
    (m : Api ConnectedSandbox) : Prop :=
  ∀ s, Settles m s
    (fun _ t => runtime.sandboxId ∉ s.sandboxes.sandboxes ∧ t.toLocalRuntimeState =
      { s.toLocalRuntimeState with sandboxes := registered request runtime s })
    (fun t => t.toLocalRuntimeState = s.toLocalRuntimeState)

theorem registers_of_fresh (hfresh : ∀ s, runtime.sandboxId ∉ s.sandboxes.sandboxes →
      m s = outcome a request runtime s)
    (htaken : ∀ s, runtime.sandboxId ∈ s.sandboxes.sandboxes →
      ∃ e calls, m s = .error e { s with calls }) : Registers request runtime m := by
  intro s
  unfold Settles
  by_cases hm : runtime.sandboxId ∈ s.sandboxes.sandboxes
  · obtain ⟨e, calls, h⟩ := htaken s hm
    rw [h]
  · rw [hfresh s hm, outcome]
    cases effectiveNetworkPolicyRequest request with
    | none => exact ⟨hm, rfl⟩
    | some policy =>
      dsimp only
      cases a.applyNetwork runtime.sandboxId policy with
      | ok u => exact ⟨hm, rfl⟩
      | error e => rfl

theorem create_taken (h : runtime.sandboxId ∈ s.sandboxes.sandboxes) :
    s.sandboxes.create request runtime = .error (.alreadyExists runtime.sandboxId) := if_pos h

variable (a request runtime)

theorem registers_registerThenApply :
    Registers request runtime (registerThenApply a request runtime) := by
  refine registers_of_fresh (fun s h => registerThenApply_eq h) fun s h => ?_
  rw [registerThenApply, bind_of_ok (run_get s), create_taken h]
  exact ⟨_, _, rfl⟩

theorem registers_applyThenRegister :
    Registers request runtime (applyThenRegister a request runtime) := by
  refine registers_of_fresh (fun s h => applyThenRegister_eq h) fun s h => ?_
  unfold applyThenRegister
  cases effectiveNetworkPolicyRequest request with
  | none =>
    dsimp only
    rw [bind_of_ok (run_get s), create_taken h]
    exact ⟨_, _, rfl⟩
  | some policy =>
    dsimp only
    rw [note, bind_of_ok (run_modify s)]
    cases a.applyNetwork runtime.sandboxId policy with
    | error e => exact ⟨_, _, rfl⟩
    | ok u =>
      dsimp only
      rw [bind_of_ok (run_get _)]
      rw [create_taken h]
      exact ⟨_, _, rfl⟩
end

/-- Both ways end with the same answer, the same registries and the same calls made to the
adapter; and a failure after the start has stopped the sandbox and left its id free. -/
theorem creation_agrees (a : RuntimeAdapter) (c : Creation) (s : LocalRuntimeBackend)
    (hfresh : ∀ request runtime t, c.starts a s = .ok (request, runtime) t →
      runtime.config.sandboxId ∉ s.sandboxes.sandboxes) :
    c.sequential a s = c.detached a s ∧
    ∀ e s', c.sequential a s = .error e s' ∨ c.detached a s = .error e s' →
      ∀ request runtime t, c.starts a s = .ok (request, runtime) t →
        .stop runtime.config.sandboxId ∈ s'.calls.drop s.calls.length ∧
        runtime.config.sandboxId ∉ s'.sandboxes.sandboxes := by
  rw [Creation.sequential_eq, Creation.detached_eq]
  cases hstart : c.starts a s with
  | error e t =>
    rw [bind_of_error hstart, bind_of_error hstart]
    exact ⟨rfl, fun _ _ _ _ _ _ h => by cases h⟩
  | ok p t =>
    obtain ⟨request, runtime⟩ := p
    have hid := hfresh request runtime t hstart
    obtain ⟨call, ht⟩ := Creation.starts_ok hstart
    have hid' : runtime.config.sandboxId ∉ t.sandboxes.sandboxes := by rwa [ht]
    rw [bind_of_ok hstart, bind_of_ok hstart, registerThenApply_eq hid', applyThenRegister_eq hid']
    refine ⟨rfl, fun e s' he request' runtime' t' h => ?_⟩
    cases h
    obtain ⟨policy, rfl⟩ := outcome_error (or_self_iff.mp he)
    rw [ht]
    exact ⟨by simp, hid⟩

/-- Starts every sandbox under one id and enforces no network policy. -/
def lenient : RuntimeAdapter :=
  { RuntimeAdapter.refusing with
    start := fun _ => .ok ⟨⟨str "sbx_1", [], [], none, none, [], [], 1, 512⟩, []⟩ }

def isolated : Creation := .plain { allowInternetAccess := some false }

theorem creation_agrees_on_refused_policy :
    isolated.sequential lenient { templates := .new [] } =
        isolated.detached lenient { templates := .new [] } ∧
      ∃ e s', isolated.sequential lenient { templates := .new [] } = .error e s' ∧
        .stop (str "sbx_1") ∈ s'.calls ∧ str "sbx_1" ∉ s'.sandboxes.sandboxes := by
  have h := creation_agrees lenient isolated { templates := .new [] }
    fun _ _ _ _ => Std.ExtTreeMap.not_mem_empty
  exact ⟨h.1, _, _, rfl, h.2 _ _ (.inl rfl) _ _ _ rfl⟩

end SandboxCreation
