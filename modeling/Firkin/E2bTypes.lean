import Firkin.Ext4Types
import Firkin.SortedTable

/-! # Values of the E2B control plane

Requests, answers and records of the `e2b-wire` and `e2b-contract` crates, as far as the
backend reads, stores or passes them on. A free JSON value is kept as its text, a 64-bit
float as its bits. -/
namespace E2bTypes

open Ext4Types SortedTable

abbrev JsonValue := Str
abbrev F64 := UInt64

inductive BackendError where
  | alreadyExists (id : Str)
  | notFound (id : Str)
  | runtime (reason : Str)
  deriving DecidableEq

structure SandboxNetworkPolicy where
  allowInternetAccess : Option Bool := none
  allowOut : List Str := []
  denyOut : List Str := []
  allowPublicTraffic : Option Bool := none
  maskRequestHost : Option Str := none
  deriving DecidableEq

def SandboxNetworkPolicy.requiresPolicyEngine (self : SandboxNetworkPolicy) : Bool :=
  self.allowInternetAccess = some false || !self.allowOut.isEmpty || !self.denyOut.isEmpty ||
    self.allowPublicTraffic = some true || self.maskRequestHost.isSome

structure VolumeMount where
  path : Str
  name : Str
  deriving DecidableEq

structure AutoResume where
  enabled : Bool
  deriving DecidableEq

/-- The defaults are those of `SandboxCreateRequest::default`. -/
structure SandboxCreateRequest where
  templateId : Str := str "base"
  timeout : Option UInt64 := some 300
  metadata : Table Str Str := ∅
  envVars : Table Str Str := ∅
  mcp : Option JsonValue := none
  secure : Option Bool := some true
  allowInternetAccess : Option Bool := some true
  network : Option SandboxNetworkPolicy := none
  autoPause : Option Bool := some false
  autoResume : Option AutoResume := none
  volumeMounts : List VolumeMount := []
  deriving DecidableEq

structure FollowupSandboxCreateRequest where
  snapshotId : Str
  createRequest : SandboxCreateRequest

structure ConnectRequest where
  timeout : UInt64

structure TimeoutRequest where
  timeout : UInt64

structure RefreshRequest where
  duration : Option UInt64

structure CreateSnapshotRequest where
  name : Option Str

inductive SandboxState where
  | running
  | paused
  deriving DecidableEq

structure ConnectedSandbox where
  sandboxId : Str
  envdVersion : Str
  envdAccessToken : Option Str
  trafficAccessToken : Option Str
  domain : Option Str
  deriving DecidableEq

structure SandboxInfo where
  sandboxId : Str
  templateId : Str
  aliasName : Option Str
  metadata : Table Str Str
  startedAt : Str
  endAt : Str
  state : SandboxState
  cpuCount : UInt32
  memoryMb : UInt32
  envdVersion : Str
  allowInternetAccess : Option Bool
  network : Option SandboxNetworkPolicy
  volumeMounts : List VolumeMount
  deriving DecidableEq

inductive LogLevel where
  | debug
  | info
  | warn
  | error
  deriving DecidableEq

structure SandboxLogEntry where
  timestamp : Str
  level : LogLevel
  message : Str
  fields : Table Str Str
  deriving DecidableEq

structure SandboxLogs where
  logs : List SandboxLogEntry := []
  deriving DecidableEq

structure SandboxMetric where
  timestamp : Str
  cpuUsedPct : F64
  deriving DecidableEq

structure SnapshotInfo where
  snapshotId : Str

structure PreparedTemplateArtifactIntegrity where
  sizeBytes : UInt64
  sha256Hex : Str
  deriving DecidableEq

structure PreparedTemplate where
  templateId : Str
  buildId : Str
  artifact : Str
  hasEnvd : Bool
  artifactIntegrity : Option PreparedTemplateArtifactIntegrity
  deriving DecidableEq

inductive TemplateBuildStatus where
  | building
  | waiting
  | ready
  | error
  deriving DecidableEq

structure TemplateBuildRequest where
  name : Option Str := none
  tags : List Str := []
  cpuCount : Option UInt32 := none
  memoryMb : Option UInt32 := none

inductive TemplateInstructionKind where
  | copy
  | env
  | run
  | workdir
  | user
  deriving DecidableEq

structure TemplateStep where
  kind : TemplateInstructionKind
  filesHash : Option Str
  deriving DecidableEq

structure TemplateBuildStart where
  fromImageRegistry : Option JsonValue := none
  steps : List TemplateStep := []
  deriving DecidableEq

structure TemplateBuildRequestInfo where
  templateId : Str
  buildId : Str
  isPublic : Bool
  names : List Str
  tags : List Str
  aliases : List Str

structure TemplateInfo where
  templateId : Str
  buildId : Option Str
  isPublic : Bool
  aliases : List Str
  names : List Str
  createdAt : Str
  updatedAt : Str
  lastSpawnedAt : Option Str
  spawnCount : UInt64
  buildCount : UInt32
  envdVersion : Option Str
  buildStatus : Option TemplateBuildStatus
  deriving DecidableEq

structure TemplateBuild where
  buildId : Str
  status : TemplateBuildStatus
  createdAt : Str
  updatedAt : Str
  finishedAt : Option Str
  cpuCount : UInt32
  memoryMb : UInt32
  diskSizeMb : Option UInt32
  envdVersion : Option Str
  deriving DecidableEq

structure TemplateWithBuilds where
  templateId : Str
  isPublic : Bool
  aliases : List Str
  names : List Str
  createdAt : Str
  updatedAt : Str
  lastSpawnedAt : Option Str
  spawnCount : UInt64
  builds : List TemplateBuild

structure BuildLogEntry where
  timestamp : Str
  level : LogLevel
  message : Str
  step : Option Str
  deriving DecidableEq

structure TemplateBuildInfo where
  templateId : Str
  buildId : Str
  status : TemplateBuildStatus
  logs : List Str
  logEntries : List BuildLogEntry

structure TemplateUpdateRequest where
  isPublic : Option Bool

structure TemplateFileUpload where
  present : Bool
  url : Option Str

structure AssignTemplateTags where
  target : Str
  tags : List Str

structure RemoveTemplateTags where
  name : Str
  tags : List Str

structure AssignedTemplateTags where
  tags : List Str
  buildId : Str

structure TemplateTag where
  tag : Str
  buildId : Str
  createdAt : Str
  deriving DecidableEq

structure TemplateAliasInfo where
  templateId : Str
  isPublic : Bool
  deriving DecidableEq

structure RuntimeTemplateBuild where
  templateId : Str
  buildId : Str
  start : TemplateBuildStart
  uploadedFiles : Table Str (List UInt8)

structure StartSandboxRequest where
  createRequest : SandboxCreateRequest
  preparedTemplate : Option PreparedTemplate
  deriving DecidableEq

structure FollowupSnapshot where
  snapshotId : Str
  location : Str
  artifactIntegrity : Option PreparedTemplateArtifactIntegrity
  deriving DecidableEq

structure SandboxRuntimeConfig where
  sandboxId : Str
  domain : Str
  envdVersion : Str
  envdAccessToken : Option Str
  trafficAccessToken : Option Str
  startedAt : Str
  endAt : Str
  cpuCount : UInt32
  memoryMb : UInt32

structure RuntimeSandbox where
  config : SandboxRuntimeConfig
  exposedPorts : List UInt16

structure PausedSandbox where
  sandboxId : Str
  snapshotId : Option Str

structure SnapshotRef where
  snapshotId : Str
  location : Option Str
  artifactIntegrity : Option PreparedTemplateArtifactIntegrity

inductive SandboxExpirationAction where
  | paused
  | deleted

structure SandboxExpiration where
  sandboxId : Str
  action : SandboxExpirationAction

end E2bTypes
