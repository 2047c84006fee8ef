import Firkin.E2bTypes

/-! # The sandbox registry

`LocalSandboxRegistry`: the sandboxes and snapshots a client can name. A fallible method gives
the registry back only when it succeeds. Timestamps are texts and compare as such. -/
namespace SandboxRegistry

open Ext4Types E2bTypes SortedTable

structure SandboxRecord where
  createRequest : SandboxCreateRequest
  connected : ConnectedSandbox
  info : SandboxInfo
  logs : SandboxLogs
  metric : Option SandboxMetric
  deriving DecidableEq

structure SnapshotRecord where
  info : SnapshotInfo
  sandboxId : Str
  name : Option Str
  location : Option Str
  artifactIntegrity : Option PreparedTemplateArtifactIntegrity

structure LocalSandboxRegistry where
  sandboxes : Table Str SandboxRecord := ∅
  snapshots : Table Str SnapshotRecord := ∅

abbrev Result := Except BackendError

def newConnected (runtime : SandboxRuntimeConfig) : ConnectedSandbox :=
  { sandboxId := runtime.sandboxId, envdVersion := runtime.envdVersion
    envdAccessToken := runtime.envdAccessToken, trafficAccessToken := runtime.trafficAccessToken
    domain := some runtime.domain }

def newInfo (request : SandboxCreateRequest) (runtime : SandboxRuntimeConfig) : SandboxInfo :=
  { sandboxId := runtime.sandboxId, templateId := request.templateId, aliasName := none
    metadata := request.metadata, startedAt := runtime.startedAt, endAt := runtime.endAt
    state := .running, cpuCount := runtime.cpuCount, memoryMb := runtime.memoryMb
    envdVersion := runtime.envdVersion, allowInternetAccess := request.allowInternetAccess
    network := request.network, volumeMounts := request.volumeMounts }

def newRecord (request : SandboxCreateRequest) (runtime : SandboxRuntimeConfig) : SandboxRecord :=
  { createRequest := request, connected := newConnected runtime, info := newInfo request runtime
    logs := {}, metric := none }

namespace LocalSandboxRegistry

def create (self : LocalSandboxRegistry) (request : SandboxCreateRequest)
    (runtime : SandboxRuntimeConfig) : Result (ConnectedSandbox × LocalSandboxRegistry) :=
  if runtime.sandboxId ∈ self.sandboxes then .error (.alreadyExists runtime.sandboxId)
  else .ok (newConnected runtime, { self with
    sandboxes := self.sandboxes.insert runtime.sandboxId (newRecord request runtime) })

def record (self : LocalSandboxRegistry) (sandboxId : Str) : Result SandboxRecord :=
  match self.sandboxes[sandboxId]? with
  | some record => .ok record
  | none => .error (.notFound sandboxId)

/-- A record that was looked up, changed through `record_mut`. -/
def put (self : LocalSandboxRegistry) (sandboxId : Str) (record : SandboxRecord) :
    LocalSandboxRegistry :=
  { self with sandboxes := self.sandboxes.insert sandboxId record }

def get (self : LocalSandboxRegistry) (sandboxId : Str) : Result SandboxInfo := do
  let record ← self.record sandboxId
  pure record.info

def list (self : LocalSandboxRegistry) : List SandboxInfo := (values self.sandboxes).map (·.info)

def delete (self : LocalSandboxRegistry) (sandboxId : Str) : Bool × LocalSandboxRegistry :=
  (decide (sandboxId ∈ self.sandboxes),
    { self with sandboxes := self.sandboxes.erase sandboxId })

def pause (self : LocalSandboxRegistry) (sandboxId : Str) :
    Result (Bool × LocalSandboxRegistry) := do
  let record ← self.record sandboxId
  if record.info.state = .paused then pure (false, self)
  else
    let info := { record.info with state := .paused }
    pure (true, self.put sandboxId { record with info })

def connect (self : LocalSandboxRegistry) (sandboxId : Str) (_request : ConnectRequest) :
    Result (ConnectedSandbox × LocalSandboxRegistry) := do
  let record ← self.record sandboxId
  let info := { record.info with state := .running }
  pure (record.connected, self.put sandboxId { record with info })

/-- `set_timeout` and `refresh` both store the deadline they are given. -/
def setEndAt (self : LocalSandboxRegistry) (sandboxId endAt : Str) :
    Result (Unit × LocalSandboxRegistry) := do
  let record ← self.record sandboxId
  let info := { record.info with endAt }
  pure ((), self.put sandboxId { record with info })

def setTimeout (self : LocalSandboxRegistry) (sandboxId : Str) (_request : TimeoutRequest)
    (endAt : Str) : Result (Unit × LocalSandboxRegistry) :=
  self.setEndAt sandboxId endAt

def refresh (self : LocalSandboxRegistry) (sandboxId : Str) (_request : RefreshRequest)
    (endAt : Str) : Result (Unit × LocalSandboxRegistry) :=
  self.setEndAt sandboxId endAt

def pushLog (self : LocalSandboxRegistry) (sandboxId : Str) (log : SandboxLogEntry) :
    Result (Unit × LocalSandboxRegistry) := do
  let record ← self.record sandboxId
  pure ((), self.put sandboxId { record with logs := ⟨record.logs.logs ++ [log]⟩ })

def logs (self : LocalSandboxRegistry) (sandboxId : Str) : Result SandboxLogs := do
  let record ← self.record sandboxId
  pure record.logs

def setMetric (self : LocalSandboxRegistry) (sandboxId : Str) (metric : SandboxMetric) :
    Result (Unit × LocalSandboxRegistry) := do
  let record ← self.record sandboxId
  pure ((), self.put sandboxId { record with metric := some metric })

def metricsMany (self : LocalSandboxRegistry) (sandboxIds : List Str) :
    Result (Table Str SandboxMetric) :=
  sandboxIds.foldlM (fun samples sandboxId => do
    let record ← self.record sandboxId
    pure (match record.metric with
      | some metric => samples.insert sandboxId metric
      | none => samples)) ∅

/-- Running, and with a deadline at or before `now`. -/
def isDue (now : Str) (record : SandboxRecord) : Bool :=
  record.info.state = .running && (compare record.info.endAt now).isLE

def dueRunningSandboxes (self : LocalSandboxRegistry) (now : Str) : List Str :=
  (self.sandboxes.toList.filter (isDue now ·.2)).map (·.1)

def autoPauseEnabled (self : LocalSandboxRegistry) (sandboxId : Str) : Result Bool := do
  let record ← self.record sandboxId
  pure (record.createRequest.autoPause.getD false)

def createSnapshot (self : LocalSandboxRegistry) (sandboxId : Str)
    (request : CreateSnapshotRequest) (snapshot : SnapshotRef) :
    Result (SnapshotInfo × LocalSandboxRegistry) := do
  let _ ← self.record sandboxId
  if snapshot.snapshotId ∈ self.snapshots then .error (.alreadyExists snapshot.snapshotId)
  else
    let info : SnapshotInfo := ⟨snapshot.snapshotId⟩
    pure (info, { self with
      snapshots := self.snapshots.insert snapshot.snapshotId
        ⟨info, sandboxId, request.name, snapshot.location, snapshot.artifactIntegrity⟩ })

def listSnapshots (self : LocalSandboxRegistry) (sandboxId : Option Str) : List SnapshotInfo :=
  ((values self.snapshots).filter fun record =>
    sandboxId.all (· = record.sandboxId)).map (·.info)

def deleteSnapshot (self : LocalSandboxRegistry) (snapshotId : Str) : Bool × LocalSandboxRegistry :=
  (decide (snapshotId ∈ self.snapshots),
    { self with snapshots := self.snapshots.erase snapshotId })

def snapshotPreparedTemplate (self : LocalSandboxRegistry) (snapshotId : Str) :
    Option PreparedTemplate :=
  self.snapshots[snapshotId]?.map fun record =>
    { templateId := record.info.snapshotId, buildId := record.info.snapshotId
      artifact := record.location.getD [], hasEnvd := true
      artifactIntegrity := record.artifactIntegrity }

def followupSnapshot (self : LocalSandboxRegistry) (snapshotId : Str) : Result FollowupSnapshot :=
  match self.snapshots[snapshotId]? with
  | none => .error (.notFound snapshotId)
  | some record =>
    match record.location with
    | none => .error (.runtime (str "snapshot `" ++ snapshotId ++
        str "` cannot start a follow-up sandbox without a runtime location"))
    | some location => .ok ⟨record.info.snapshotId, location, record.artifactIntegrity⟩

theorem record_eq_ok {s : LocalSandboxRegistry} {id : Str} {record} :
    s.record id = .ok record ↔ s.sandboxes[id]? = some record := by
  unfold LocalSandboxRegistry.record
  cases s.sandboxes[id]? <;> simp

end LocalSandboxRegistry

end SandboxRegistry
