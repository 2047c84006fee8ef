import Firkin.PodRegistry
import Firkin.SandboxRegistry
import Firkin.TemplateRegistry
import Firkin.VolumeRegistry

/-! # The local backend over a runtime adapter

`LocalRuntimeBackend`: four registries in front of a runtime adapter. An adapter is what its
methods answer while a backend method runs; the registries may change before the adapter
fails, and an early return leaves them so. `calls` is the model's own record of what was asked
of running sandboxes and pods. -/
namespace LocalBackend

open Ext4Types E2bTypes SortedTable FaultMonad
open SandboxRegistry (LocalSandboxRegistry)
open PodRegistry (LocalPodRegistry)
open TemplateRegistry (LocalTemplateRegistry)
open VolumeRegistry (LocalVolumeRegistry)

abbrev Result := Except BackendError

structure RuntimeAdapter where
  prepareTemplate : TemplateBuildRequest → Result PreparedTemplate
  buildTemplate : RuntimeTemplateBuild → Result PreparedTemplate
  start : StartSandboxRequest → Result RuntimeSandbox
  startFollowup : StartSandboxRequest → FollowupSnapshot → Result RuntimeSandbox
  startPod : PodRegistry.StartPodRequest → Result PodRegistry.RuntimePod
  stopPod : Str → Result Unit
  addPodContainer : Str → PodRegistry.PodContainerCreateRequest →
    Result PodRegistry.PodContainerInfo
  removePodContainer : Str → Str → Result Unit
  waitPodContainer : Str → Str → Result PodRegistry.PodContainerOutput
  stop : Str → Result Unit
  pause : Str → Result PausedSandbox
  resume : PausedSandbox → Result RuntimeSandbox
  snapshot : Str → Option Str → Result SnapshotRef
  deleteSnapshot : Str → Result Unit
  metrics : Str → Result (List SandboxMetric)
  logs : Str → Result SandboxLogs
  applyNetwork : Str → SandboxNetworkPolicy → Result Unit

def RuntimeAdapter.refusing : RuntimeAdapter where
  prepareTemplate _ := .error (.runtime [])
  buildTemplate _ := .error (.runtime [])
  start _ := .error (.runtime [])
  startFollowup _ _ := .error (.runtime [])
  startPod _ := .error (.runtime [])
  stopPod _ := .error (.runtime [])
  addPodContainer _ _ := .error (.runtime [])
  removePodContainer _ _ := .error (.runtime [])
  waitPodContainer _ _ := .error (.runtime [])
  stop _ := .error (.runtime [])
  pause _ := .error (.runtime [])
  resume _ := .error (.runtime [])
  snapshot _ _ := .error (.runtime [])
  deleteSnapshot _ := .error (.runtime [])
  metrics _ := .error (.runtime [])
  logs _ := .error (.runtime [])
  applyNetwork _ _ := .error (.runtime [])

structure LocalRuntimeState where
  sandboxes : LocalSandboxRegistry := {}
  pods : LocalPodRegistry := {}
  templates : LocalTemplateRegistry
  volumes : LocalVolumeRegistry := {}

inductive AdapterCall where
  | start (request : StartSandboxRequest)
  | startFollowup (request : StartSandboxRequest) (snapshot : FollowupSnapshot)
  | applyNetwork (sandboxId : Str) (policy : SandboxNetworkPolicy)
  | pause (sandboxId : Str)
  | stop (sandboxId : Str)
  | startPod (request : PodRegistry.StartPodRequest)
  | stopPod (podId : Str)
  | removePodContainer (podId containerName : Str)
  deriving DecidableEq

structure LocalRuntimeBackend extends LocalRuntimeState where
  calls : List AdapterCall := []

abbrev Api := EStateM BackendError LocalRuntimeBackend
def note (call : AdapterCall) : Api Unit := modify fun s => { s with calls := s.calls ++ [call] }

def ask {α : Type} (call : AdapterCall) (answer : Result α) : Api α := do
  note call
  MonadExcept.ofExcept answer

theorem ask_eq {α : Type} (call : AdapterCall) (answer : Result α) (s : LocalRuntimeBackend) :
    ask call answer s = match answer with
      | .ok x => .ok x { s with calls := s.calls ++ [call] }
      | .error e => .error e { s with calls := s.calls ++ [call] } := by
  cases answer <;> rfl

theorem ask_eq_ok {α : Type} {call answer s t} {x : α} : ask call answer s = .ok x t ↔
      answer = .ok x ∧ t = { s with calls := s.calls ++ [call] } := by
  rw [ask_eq]
  cases answer <;> simp [eq_comm]

theorem keeps_ask {δ α : Type} (f : LocalRuntimeState → δ) {call : AdapterCall}
    {answer : Result α} : Keeps (fun s => f s.toLocalRuntimeState) (ask call answer) :=
  (show Keeps _ (note call) from keeps_modify fun _ => rfl).bind fun _ =>
    (reads_ofExcept answer).keeps

def onSandboxes {α : Type} (method : LocalSandboxRegistry → Result (α × LocalSandboxRegistry)) :
    Api α := fun s =>
  match method s.sandboxes with
  | .ok (a, sandboxes) => .ok a { s with sandboxes }
  | .error e => .error e s

variable {s : LocalRuntimeBackend}

theorem onSandboxes_ok {α : Type} {method}
    {x : α} {sandboxes} (h : method s.sandboxes = .ok (x, sandboxes)) :
    onSandboxes method s = .ok x { s with sandboxes } := by
  rw [onSandboxes, h]

theorem onSandboxes_error {α : Type}
    {method : LocalSandboxRegistry → Result (α × LocalSandboxRegistry)}
    {e : BackendError} (h : method s.sandboxes = .error e) : onSandboxes method s = .error e s := by
  rw [onSandboxes, h]

def onPods {α : Type} (method : LocalPodRegistry → Result (α × LocalPodRegistry)) : Api α :=
  fun s =>
  match method s.pods with
  | .ok (a, pods) => .ok a { s with pods }
  | .error e => .error e s

/-- What the registry refuses is undone at the adapter, and what that answers is ignored. -/
def onPodsElse {α : Type} (undo : AdapterCall)
    (method : LocalPodRegistry → Result (α × LocalPodRegistry)) : Api α := do
  match method (← get).pods with
  | .ok (a, pods) =>
    modify fun s => { s with pods }
    pure a
  | .error error =>
    note undo
    throw error

def onTemplates {α : Type} (method : TemplateRegistry.Builder α) : Api α := fun s =>
  match method s.templates with
  | .ok a templates => .ok a { s with templates }
  | .error e templates => .error e { s with templates }

def deleteRecord (sandboxId : Str) : Api Bool := fun s =>
  let (existed, sandboxes) := s.sandboxes.delete sandboxId
  .ok existed { s with sandboxes }

def Grows {α : Type} (m : Api α) : Prop := ∀ s, s.calls <+: (FaultMonad.left (m s)).calls

section
variable {α β : Type}

theorem Grows.bind (hm : Grows m) (hk : ∀ a, Grows (k a)) : Grows (m >>= k) := by
  intro s
  have h := hm s
  rw [run_bind]
  cases hs : m s with
  | ok a t =>
    rw [hs] at h
    exact h.trans (hk a t)
  | error e t =>
    rw [hs] at h
    exact h

theorem grows_of_reads (h : FaultMonad.Reads m) : Grows m := fun s => by rw [h s]

theorem grows_note (call : AdapterCall) : Grows (note call) :=
  fun s => List.prefix_append s.calls [call]

theorem grows_fail (error : BackendError) : Grows (do note call; throw error : Api α) :=
  (grows_note call).bind fun _ => grows_of_reads (reads_throw error)
end

def effectiveNetworkPolicyRequest (request : SandboxCreateRequest) : Option SandboxNetworkPolicy :=
  let policy := request.network.getD { allowInternetAccess := request.allowInternetAccess }
  let policy :=
    if request.allowInternetAccess.isSome ∧
        request.allowInternetAccess ≠ policy.allowInternetAccess then
      { policy with allowInternetAccess := request.allowInternetAccess }
    else policy
  if policy.requiresPolicyEngine then some policy else none

def isBuiltinHostTemplate (templateId : Str) : Bool :=
  templateId = ({} : SandboxCreateRequest).templateId || templateId = str "mcp-gateway"

namespace LocalRuntimeState

def preparedTemplate (self : LocalRuntimeState) (templateId : Str) : Option PreparedTemplate :=
  self.templates.latestPreparedTemplate templateId <|>
    self.sandboxes.snapshotPreparedTemplate templateId

/-- The template a sandbox or a container starts from; built-in ones need none. -/
def findTemplate (self : LocalRuntimeState) (templateId : Str) : Result (Option PreparedTemplate) :=
  if (self.preparedTemplate templateId).isNone && !isBuiltinHostTemplate templateId then
    .error (.notFound templateId)
  else .ok (self.preparedTemplate templateId)

def podPreparedTemplates (self : LocalRuntimeState)
    (containers : List PodRegistry.PodContainerCreateRequest) :
    Result (Table Str (Option PreparedTemplate)) :=
  containers.foldlM (fun templates container =>
    if container.templateId ∈ templates then pure templates
    else do
      let prepared ← self.findTemplate container.templateId
      pure (templates.insert container.templateId prepared)) ∅

end LocalRuntimeState

/-- The end of `create` and `create_followup`: register, then apply the network policy, and
take the registration back when that fails. What `stop` answers is ignored. -/
def registerThenApply (a : RuntimeAdapter) (request : SandboxCreateRequest)
    (runtime : SandboxRuntimeConfig) : Api ConnectedSandbox := do
  match (← get).sandboxes.create request runtime with
  | .error error =>
    note (.stop runtime.sandboxId)
    throw error
  | .ok (connected, sandboxes) =>
    modify fun s => { s with sandboxes }
    match effectiveNetworkPolicyRequest request with
    | none => pure connected
    | some policy =>
      note (.applyNetwork connected.sandboxId policy)
      match a.applyNetwork connected.sandboxId policy with
      | .ok () => pure connected
      | .error error =>
        let _ ← deleteRecord connected.sandboxId
        note (.stop connected.sandboxId)
        throw error

/-- The end of the detached variants: apply the network policy, then register. -/
def applyThenRegister (a : RuntimeAdapter) (request : SandboxCreateRequest)
    (runtime : SandboxRuntimeConfig) : Api ConnectedSandbox := do
  match effectiveNetworkPolicyRequest request with
  | none => pure ()
  | some policy =>
    note (.applyNetwork runtime.sandboxId policy)
    match a.applyNetwork runtime.sandboxId policy with
    | .ok () => pure ()
    | .error error =>
      note (.stop runtime.sandboxId)
      throw error
  match (← get).sandboxes.create request runtime with
  | .ok (connected, sandboxes) =>
    modify fun s => { s with sandboxes }
    pure connected
  | .error error =>
    note (.stop runtime.sandboxId)
    throw error

section
variable (a : RuntimeAdapter) (request : SandboxCreateRequest) (runtime : SandboxRuntimeConfig)
include a request runtime

theorem grows_registerThenApply : Grows (registerThenApply a request runtime) := by
  refine (grows_of_reads reads_get).bind fun s => ?_
  cases s.sandboxes.create request runtime with
  | error e => exact grows_fail e
  | ok p =>
    refine Grows.bind (fun s => List.prefix_refl s.calls) fun _ => ?_
    cases effectiveNetworkPolicyRequest request with
    | none => exact grows_of_reads (reads_pure _)
    | some policy =>
      refine (grows_note _).bind fun _ => ?_
      cases a.applyNetwork p.1.sandboxId policy with
      | ok _ => exact grows_of_reads (reads_pure _)
      | error e => exact Grows.bind (fun s => List.prefix_refl s.calls) fun _ => grows_fail e

theorem grows_applyThenRegister : Grows (applyThenRegister a request runtime) := by
  unfold applyThenRegister
  extract_lets register
  have hregister : ∀ r, Grows (register r) := by
    intro r
    refine (grows_of_reads reads_get).bind fun s => ?_
    cases s.sandboxes.create request runtime with
    | ok p =>
      refine Grows.bind (fun s => List.prefix_refl s.calls) fun _ => ?_
      exact grows_of_reads (reads_pure _)
    | error e => exact grows_fail e
  cases effectiveNetworkPolicyRequest request with
  | none => exact hregister ()
  | some policy =>
    refine (grows_note _).bind fun _ => ?_
    cases a.applyNetwork runtime.sandboxId policy with
    | ok _ => exact hregister ()
    | error e =>
      refine (grows_note _).bind fun _ => ?_
      exact (grows_of_reads (reads_throw e)).bind hregister
end

/-- How `create` and its detached variant begin. -/
def startSandbox (a : RuntimeAdapter) (request : SandboxCreateRequest) : Api RuntimeSandbox := do
  let preparedTemplate ← MonadExcept.ofExcept ((← get).findTemplate request.templateId)
  let startRequest : StartSandboxRequest := ⟨request, preparedTemplate⟩
  ask (.start startRequest) (a.start startRequest)

def create (a : RuntimeAdapter) (request : SandboxCreateRequest) : Api ConnectedSandbox := do
  let runtime ← startSandbox a request
  registerThenApply a request runtime.config

def createWithDetachedRuntimeStart (a : RuntimeAdapter) (request : SandboxCreateRequest) :
    Api ConnectedSandbox := do
  let runtime ← startSandbox a request
  applyThenRegister a request runtime.config

def followupRequest (request : FollowupSandboxCreateRequest) (snapshot : FollowupSnapshot) :
    SandboxCreateRequest :=
  { request.createRequest with templateId := snapshot.snapshotId }

def followupTemplate (snapshot : FollowupSnapshot) : PreparedTemplate :=
  { templateId := snapshot.snapshotId, buildId := snapshot.snapshotId
    artifact := snapshot.location, hasEnvd := true
    artifactIntegrity := snapshot.artifactIntegrity }

def startFollowupSandbox (a : RuntimeAdapter) (request : FollowupSandboxCreateRequest) :
    Api (SandboxCreateRequest × RuntimeSandbox) := do
  let snapshot ← MonadExcept.ofExcept ((← get).sandboxes.followupSnapshot request.snapshotId)
  let createRequest := followupRequest request snapshot
  let startRequest : StartSandboxRequest := ⟨createRequest, some (followupTemplate snapshot)⟩
  let runtime ← ask (.startFollowup startRequest snapshot) (a.startFollowup startRequest snapshot)
  pure (createRequest, runtime)

def createFollowup (a : RuntimeAdapter) (request : FollowupSandboxCreateRequest) :
    Api ConnectedSandbox := do
  let (createRequest, runtime) ← startFollowupSandbox a request
  registerThenApply a createRequest runtime.config

def createFollowupWithDetachedRuntimeStart (a : RuntimeAdapter)
    (request : FollowupSandboxCreateRequest) : Api ConnectedSandbox := do
  let (createRequest, runtime) ← startFollowupSandbox a request
  applyThenRegister a createRequest runtime.config

def delete (a : RuntimeAdapter) (sandboxId : Str) : Api Bool := do
  ask (.stop sandboxId) (a.stop sandboxId)
  deleteRecord sandboxId

theorem delete_stopped {a : RuntimeAdapter} {sandboxId : Str} (h : a.stop sandboxId = .ok ()) :
    delete a sandboxId s = .ok (s.sandboxes.delete sandboxId).1
      { s with
        sandboxes := (s.sandboxes.delete sandboxId).2, calls := s.calls ++ [.stop sandboxId] } := by
  unfold delete
  rw [bind_of_ok (ask_eq_ok.mpr ⟨h, rfl⟩)]
  rfl

/-- The record stays when the adapter does not stop the sandbox. -/
theorem delete_failed {a : RuntimeAdapter} {sandboxId : Str} (h : a.stop sandboxId = .error e) :
    delete a sandboxId s = .error e { s with calls := s.calls ++ [.stop sandboxId] } :=
  bind_of_error (by rw [ask_eq, h])

def pause (a : RuntimeAdapter) (sandboxId : Str) : Api Bool := do
  let _ ← ask (.pause sandboxId) (a.pause sandboxId)
  onSandboxes (·.pause sandboxId)

/-- One turn of the loop in `expire_due_sandboxes`. -/
def expireSandbox (a : RuntimeAdapter) (sandboxId : Str) : Api SandboxExpiration := do
  if ← MonadExcept.ofExcept ((← get).sandboxes.autoPauseEnabled sandboxId) then
    let _ ← pause a sandboxId
    pure ⟨sandboxId, .paused⟩
  else
    let _ ← delete a sandboxId
    pure ⟨sandboxId, .deleted⟩

def expireDueSandboxes (a : RuntimeAdapter) (now : Str) : Api (List SandboxExpiration) := do
  let due := (← get).sandboxes.dueRunningSandboxes now
  due.mapM (expireSandbox a)

def connect (a : RuntimeAdapter) (sandboxId : Str) (request : ConnectRequest) :
    Api ConnectedSandbox := do
  let _ ← MonadExcept.ofExcept (a.resume ⟨sandboxId, none⟩)
  onSandboxes (·.connect sandboxId request)

def createSnapshot (a : RuntimeAdapter) (sandboxId : Str) (request : CreateSnapshotRequest) :
    Api SnapshotInfo := do
  let snapshot ← MonadExcept.ofExcept (a.snapshot sandboxId request.name)
  onSandboxes (·.createSnapshot sandboxId request snapshot)

def deleteSnapshot (a : RuntimeAdapter) (snapshotId : Str) : Api Bool := do
  if ((← get).sandboxes.snapshotPreparedTemplate snapshotId).isNone then
    throw (.notFound snapshotId)
  MonadExcept.ofExcept (a.deleteSnapshot snapshotId)
  modifyGet fun s =>
    let (existed, sandboxes) := s.sandboxes.deleteSnapshot snapshotId
    (existed, { s with sandboxes })

def refreshMetrics (a : RuntimeAdapter) (sandboxId : Str) : Api (List SandboxMetric) := do
  let metrics ← MonadExcept.ofExcept (a.metrics sandboxId)
  match metrics.getLast? with
  | some metric => onSandboxes (·.setMetric sandboxId metric)
  | none => pure ()
  pure metrics

def refreshLogs (a : RuntimeAdapter) (sandboxId : Str) : Api SandboxLogs := do
  let logs ← MonadExcept.ofExcept (a.logs sandboxId)
  logs.logs.forM fun log => onSandboxes (·.pushLog sandboxId log)
  pure logs

def createPod (a : RuntimeAdapter) (request : PodRegistry.PodCreateRequest) :
    Api PodRegistry.PodInfo := do
  MonadExcept.ofExcept (request.validate.mapError .runtime)
  match request.podId with
  | some podId => if podId ∈ (← get).pods.pods then throw (.alreadyExists podId)
  | none => pure ()
  let preparedTemplates ← MonadExcept.ofExcept ((← get).podPreparedTemplates request.containers)
  let startRequest : PodRegistry.StartPodRequest := ⟨request, preparedTemplates⟩
  let runtime ← ask (.startPod startRequest) (a.startPod startRequest)
  onPodsElse (.stopPod runtime.config.podId) (·.create request runtime)

def deletePod (a : RuntimeAdapter) (podId : Str) : Api Bool := do
  ask (.stopPod podId) (a.stopPod podId)
  modifyGet fun s =>
    let (existed, pods) := s.pods.delete podId
    (existed, { s with pods })

def addPodContainer (a : RuntimeAdapter) (podId : Str)
    (request : PodRegistry.PodContainerCreateRequest) : Api PodRegistry.PodContainerInfo := do
  let pod ← MonadExcept.ofExcept ((← get).pods.get podId)
  MonadExcept.ofExcept
    ((PodRegistry.validatePodContainerRequest pod.emptyDirs request).mapError .runtime)
  if pod.containers.any (·.name = request.name) then throw (.alreadyExists request.name)
  let _ ← MonadExcept.ofExcept ((← get).podPreparedTemplates [request])
  let container ← MonadExcept.ofExcept (a.addPodContainer podId request)
  onPodsElse (.removePodContainer podId container.name) (·.addContainer podId container)

def requireContainer (podId containerName : Str) : Api Unit := do
  let pod ← MonadExcept.ofExcept ((← get).pods.get podId)
  if pod.containers.any (·.name = containerName) then pure ()
  else throw (.notFound containerName)

def deletePodContainer (a : RuntimeAdapter) (podId containerName : Str) : Api Unit := do
  requireContainer podId containerName
  MonadExcept.ofExcept (a.removePodContainer podId containerName)
  onPods (·.deleteContainer podId containerName)

def waitPodContainer (a : RuntimeAdapter) (podId containerName : Str) :
    Api PodRegistry.PodContainerOutput := do
  requireContainer podId containerName
  let output ← MonadExcept.ofExcept (a.waitPodContainer podId containerName)
  onPods (·.deleteContainer podId containerName)
  pure output

/-- A failure leaves the registries, and a success changes none but the pods. -/
def PodsOnly {α : Type} (m : Api α) : Prop :=
  ∀ s, Settles m s (fun _ t => ∃ pods, t.toLocalRuntimeState = { s.toLocalRuntimeState with pods })
    (fun t => t.toLocalRuntimeState = s.toLocalRuntimeState)

section
variable {α β δ : Type} (a : RuntimeAdapter)

theorem PodsOnly.keeps {f : LocalRuntimeState → δ} (h : PodsOnly m)
    (hf : ∀ s pods, f { s with pods } = f s) : Keeps (fun s => f s.toLocalRuntimeState) m := by
  intro s
  refine Settles.left (R := fun t => f t.toLocalRuntimeState = f s.toLocalRuntimeState)
    ((h s).mono (fun _ t ht => ?_) fun t ht => ?_)
  · obtain ⟨pods, ht⟩ := ht
    rw [ht, hf]
  · rw [ht]

theorem podsOnly_after (hm : Keeps LocalRuntimeBackend.toLocalRuntimeState m)
    (hk : ∀ a, PodsOnly (k a)) : PodsOnly (m >>= k) := by
  intro s
  refine (hm.settles s).bind fun a t ht => ?_
  rw [← ht]
  exact hk a t

theorem podsOnly_onPods {method : PodRegistry.LocalPodRegistry →
    Result (α × PodRegistry.LocalPodRegistry)} : PodsOnly (onPods method) := by
  intro s
  unfold Settles onPods
  cases method s.pods with
  | ok p => exact ⟨p.2, rfl⟩
  | error e => rfl

theorem podsOnly_onPodsElse (undo : AdapterCall) {method : PodRegistry.LocalPodRegistry →
    Result (α × PodRegistry.LocalPodRegistry)} : PodsOnly (onPodsElse undo method) := by
  refine podsOnly_after reads_get.keeps fun t s => ?_
  cases method t.pods with
  | ok p => exact ⟨p.2, rfl⟩
  | error e => rfl

theorem podsOnly_createPod (request : PodRegistry.PodCreateRequest) :
    PodsOnly (createPod a request) := by
  refine podsOnly_after (reads_ofExcept _).keeps fun _ => ?_
  extract_lets finish
  have hfinish : ∀ u, PodsOnly (finish u) := fun u =>
    podsOnly_after reads_get.keeps fun _ => podsOnly_after (reads_ofExcept _).keeps fun _ =>
      podsOnly_after (keeps_ask id) fun _ => podsOnly_onPodsElse _
  cases request.podId with
  | none => exact hfinish ()
  | some podId =>
    refine podsOnly_after reads_get.keeps fun s => ?_
    by_cases hm : podId ∈ s.pods.pods
    · rw [if_pos hm]
      exact podsOnly_after (reads_throw _).keeps hfinish
    · rw [if_neg hm]
      exact hfinish ()

theorem podsOnly_addPodContainer (podId : Str) (request : PodRegistry.PodContainerCreateRequest) :
    PodsOnly (addPodContainer a podId request) := by
  refine podsOnly_after reads_get.keeps fun _ => ?_
  refine podsOnly_after (reads_ofExcept _).keeps fun pod => ?_
  refine podsOnly_after (reads_ofExcept _).keeps fun _ => ?_
  extract_lets finish
  have hfinish : ∀ u, PodsOnly (finish u) := fun u =>
    podsOnly_after reads_get.keeps fun _ => podsOnly_after (reads_ofExcept _).keeps fun _ =>
      podsOnly_after (reads_ofExcept _).keeps fun _ => podsOnly_onPodsElse _
  split
  · exact podsOnly_after (reads_throw _).keeps hfinish
  · exact hfinish ()

theorem reads_requireContainer {podId containerName : Str} :
    Reads (requireContainer podId containerName) := by
  refine reads_get.bind fun _ => (reads_ofExcept _).bind fun pod => ?_
  split
  · exact reads_pure _
  · exact reads_throw _

theorem podsOnly_waitPodContainer (podId containerName : Str) :
    PodsOnly (waitPodContainer a podId containerName) := by
  refine podsOnly_after reads_requireContainer.keeps fun _ => ?_
  refine podsOnly_after (reads_ofExcept _).keeps fun output s => ?_
  exact (podsOnly_onPods s).bind fun _ _ ht => ht

theorem podsOnly_deletePodContainer (podId containerName : Str) :
    PodsOnly (deletePodContainer a podId containerName) :=
  podsOnly_after reads_requireContainer.keeps fun _ =>
    podsOnly_after (reads_ofExcept _).keeps fun _ => podsOnly_onPods
end

section
variable {id : Str}

/-- What the adapters answer to one log request each, where they answer. -/
def answers (sandboxId : Str) (as : List RuntimeAdapter) : List SandboxLogs :=
  as.filterMap fun a => (a.logs sandboxId).toOption

def requestLogs (sandboxId : Str) (s : LocalRuntimeBackend) (as : List RuntimeAdapter) :
    LocalRuntimeBackend :=
  as.foldl (fun s a => left (refreshLogs a sandboxId s)) s

def StoredLogs (id : Str) (s : LocalRuntimeBackend) (entries : List SandboxLogEntry) : Prop :=
  ∃ record, s.sandboxes.sandboxes[id]? = some record ∧ record.logs = ⟨entries⟩

theorem stored_put (record : SandboxRegistry.SandboxRecord) :
    StoredLogs id { s with sandboxes := s.sandboxes.put id record } record.logs.logs :=
  ⟨record, by rw [LocalSandboxRegistry.put, get_insert, if_pos rfl], rfl⟩

theorem pushLogs_stores (h : StoredLogs id s entries) (logs : List SandboxLogEntry) :
    ∃ t, logs.forM (fun log => onSandboxes (·.pushLog id log)) s = .ok ⟨⟩ t ∧
      StoredLogs id t (entries ++ logs) := by
  induction logs generalizing s entries with
  | nil => exact ⟨s, rfl, by rwa [List.append_nil]⟩
  | cons log logs ih =>
    obtain ⟨record, hget, hlogs⟩ := h
    have hpush : s.sandboxes.pushLog id log = .ok ((), s.sandboxes.put id
        { record with logs := ⟨entries ++ [log]⟩ }) := by
      rw [LocalSandboxRegistry.pushLog, LocalSandboxRegistry.record_eq_ok.mpr hget]
      simp [hlogs]
    obtain ⟨t, hrest, hstored⟩ := @ih { s with sandboxes := _ } (entries ++ [log])
      (stored_put (s := s) { record with logs := ⟨entries ++ [log]⟩ })
    rw [List.append_assoc] at hstored
    exact ⟨t, forM_cons_ok.mpr ⟨_, onSandboxes_ok hpush, hrest⟩, hstored⟩

theorem requestLogs_stores (h : StoredLogs id s entries) (as : List RuntimeAdapter) :
    StoredLogs id (requestLogs id s as) (entries ++ ((answers id as).map (·.logs)).flatten) := by
  induction as generalizing s entries with
  | nil => rwa [show answers id [] = [] from rfl, List.map_nil, List.flatten_nil, List.append_nil]
  | cons a as ih =>
    cases ha : a.logs id with
    | error e =>
      have hfail : refreshLogs a id s = .error e s := bind_of_error (ofExcept_fail ha)
      rw [requestLogs, List.foldl_cons, hfail, answers, List.filterMap_cons_none (by rw [ha]; rfl)]
      exact ih h
    | ok logs =>
      obtain ⟨t, hpush, ht⟩ := pushLogs_stores h logs.logs
      have hok : refreshLogs a id s = .ok logs t :=
        (bind_of_ok (ofExcept_run ha)).trans (bind_of_ok hpush)
      rw [requestLogs, List.foldl_cons, hok, answers, List.filterMap_cons_some (by rw [ha]; rfl),
        List.map_cons, List.flatten_cons, ← List.append_assoc]
      exact ih ht

/-- A request stores everything the adapter answers behind what earlier ones have stored: of a new
sandbox just the last answer is stored if the answers before were empty. -/
theorem stored_logs_iff (request : SandboxCreateRequest) (runtime : SandboxRuntimeConfig)
    (as : List RuntimeAdapter) :
    (requestLogs id { s with
        sandboxes := s.sandboxes.put id (SandboxRegistry.newRecord request runtime) } as
      ).sandboxes.logs id = .ok ((answers id as).getLast?.getD {}) ↔
      ∀ logs ∈ (answers id as).dropLast, logs.logs = [] := by
  obtain ⟨record, hget, hlogs⟩ := requestLogs_stores
    (stored_put (s := s) (SandboxRegistry.newRecord request runtime)) as
  rw [LocalSandboxRegistry.logs, LocalSandboxRegistry.record_eq_ok.mpr hget]
  change Except.ok record.logs = _ ↔ _
  rw [hlogs]
  rcases List.eq_nil_or_concat (answers id as) with hnil | ⟨before, last, hsnoc⟩
  · simp [hnil, SandboxRegistry.newRecord]
  · cases last
    simp [hsnoc, SandboxRegistry.newRecord]

def logging (messages : List Str) : RuntimeAdapter :=
  { RuntimeAdapter.refusing with
    logs := fun _ => .ok ⟨messages.map fun message => ⟨[], .info, message, ∅⟩⟩ }

def newSandbox : LocalSandboxRegistry :=
  .put {} [] (SandboxRegistry.newRecord {} ⟨[], [], [], none, none, [], [], 1, 1⟩)

/-- The second request stores the first message again. -/
theorem message_stored_twice :
    (requestLogs [] { templates := .new [], sandboxes := newSandbox }
      [logging [[1]], logging [[1], [2]]]).sandboxes.logs [] =
      .ok ⟨[[1], [1], [2]].map fun message => ⟨[], .info, message, ∅⟩⟩ := by
  decide +kernel
end

end LocalBackend
