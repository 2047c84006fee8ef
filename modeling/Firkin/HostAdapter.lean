import Firkin.LocalBackend
import Firkin.RestartRecovery

/-! # The host runtime adapter

`HostRuntimeAdapter`: a sandbox is a directory with three listener tasks and the start command
of its template, a pod is a tree of directories. Every operation on files, sockets and
processes may fail; the outcomes are inputs. Tasks and child processes are numbered as they are
spawned, and `running` holds those that were not stopped since. Of the file system only the
tree below `pods` matters to the calls modelled here. -/
namespace HostAdapter

open Ext4Types DecimalText E2bTypes SortedTable FaultMonad Admission
open RestartRecovery (Component components)
open PodRegistry (StartPodRequest RuntimePod PodContainerInfo PodContainerCreateRequest)

abbrev Path := List Str

structure HostRuntimeSandbox where
  envs : Table Str Str
  startChildren : List Nat
  envdPort : UInt16
  envdTask : Nat
  codeInterpreterPort : UInt16
  codeInterpreterTask : Nat
  mcpPort : UInt16
  mcpTask : Nat
  paused : Bool

structure HostRuntimePod where
  root : Path
  containers : Table Str Path

structure HostRuntimeState where
  nextSandbox : UInt64 := 0
  nextPod : UInt64 := 0
  sandboxes : Table Str HostRuntimeSandbox := ∅
  pods : Table Str HostRuntimePod := ∅

structure Host extends HostRuntimeState where
  podFiles : List Path := []
  spawned : Nat := 0
  running : List Nat := []

inductive Failure where
  | backend (error : BackendError)
  | panic

abbrev Adapter := EStateM Failure Host
def fail {α : Type} (text : Str) : Adapter α := throw (.backend (.runtime text))

def check {α : Type} (what : String) : Except Str α → Adapter α
  | .ok a => pure a
  | .error error => fail (str what ++ error)

def spawn : Adapter Nat :=
  modifyGet fun h =>
    (h.spawned, { h with spawned := h.spawned + 1, running := h.running ++ [h.spawned] })

def kill (tasks : List Nat) : Adapter Unit :=
  modify fun h => { h with running := h.running.filter (· ∉ tasks) }

/-- `stop_host_runtime_sandbox_services`. -/
def HostRuntimeSandbox.tasks (self : HostRuntimeSandbox) : List Nat :=
  self.envdTask :: self.codeInterpreterTask :: self.mcpTask :: self.startChildren

def rootedChildPath (root : Path) (path : Str) (label : String) : Except BackendError Path :=
  go root false (components path)
where
  go (child : Path) (sawComponent : Bool) : List Component → Except BackendError Path
  | [] =>
    if sawComponent then .ok child
    else .error (.runtime (str label ++ str " `" ++ path ++ str "` must not target the root"))
  | .parentDir :: _ => .error (.runtime (str label ++ str " `" ++ path ++ str "` escapes its root"))
  | .rootDir :: rest | .curDir :: rest => go child sawComponent rest
  | .normal part :: rest => go (child ++ [part]) true rest

def lift {α : Type} (r : Except BackendError α) : Adapter α :=
  MonadExcept.ofExcept (r.mapError .backend)

@[simp] theorem check_ok {α : Type} (a : α) {h : Host} :
    check what (.ok a) h = .ok a h := rfl

@[simp] theorem check_error {α : Type} (e : Str) {h : Host} :
    (check what (.error e) : Adapter α) h = .error (.backend (.runtime (str what ++ e))) h := rfl

@[simp] theorem lift_ok {α : Type} (a : α) {h : Host} : lift (.ok a) h = .ok a h := rfl

@[simp] theorem lift_error {α : Type} (e : BackendError) {h : Host} :
    (lift (.error e) : Adapter α) h = .error (.backend e) h := rfl

structure Clock where
  now : Int := 0
  rfc3339 : Int → Str := fun _ => []

def lastSecond : Int := 253402300799

def timestamps (clock : Clock) (timeoutSeconds : Option UInt64) : Except Failure (Str × Str) :=
  let timeout := timeoutSeconds.getD 300
  if 2 ^ 63 ≤ timeout.toNat then .error (.backend (.runtime (str "sandbox timeout is too large")))
  else if lastSecond < clock.now + timeout.toNat then .error .panic
  else .ok (clock.rfc3339 clock.now, clock.rfc3339 (clock.now + timeout.toNat))

structure EnvdOutcomes where
  createSandboxRoot : Except Str Unit := .ok ()
  createVolume : VolumeMount → Except Str Unit := fun _ => .ok ()
  createMountParent : VolumeMount → Except Str Unit := fun _ => .ok ()
  removeExisting : VolumeMount → Except Str Unit := fun _ => .ok ()
  symlink : VolumeMount → Except Str Unit := fun _ => .ok ()
  createEnvdRoot : Except Str Unit := .ok ()
  bindEnvd : Except Str Unit := .ok ()
  envdAddress : Except Str UInt16 := .ok 0
  bindCodeInterpreter : Except Str Unit := .ok ()
  codeInterpreterAddress : Except Str UInt16 := .ok 0
  bindMcp : Except Str Unit := .ok ()
  mcpAddress : Except Str UInt16 := .ok 0

def attachHostVolume (o : EnvdOutcomes) (sandboxId : Str) (mount : VolumeMount) :
    Except BackendError Unit := do
  let _ ← rootedChildPath [str "volumes"] mount.name "volume name"
  (o.createVolume mount).mapError fun e => .runtime (str "create host volume: " ++ e)
  let _ ← rootedChildPath [sandboxId] mount.path "volume mount path"
  (o.createMountParent mount).mapError fun e => .runtime (str "create mount parent: " ++ e)
  (o.removeExisting mount).mapError .runtime
  (o.symlink mount).mapError fun e => .runtime (str "mount host volume: " ++ e)

/-- The part of `start_envd_for_sandbox` before the first task is spawned. -/
def openEnvd (o : EnvdOutcomes) (sandboxId : Str) (volumeMounts : List VolumeMount) :
    Except BackendError UInt16 := do
  o.createSandboxRoot.mapError fun e => .runtime (str "create sandbox root: " ++ e)
  volumeMounts.forM (attachHostVolume o sandboxId)
  o.createEnvdRoot.mapError fun e => .runtime (str "create envd root: " ++ e)
  o.bindEnvd.mapError fun e => .runtime (str "bind host envd listener: " ++ e)
  o.envdAddress.mapError fun e => .runtime (str "read host envd listener: " ++ e)

/-- A task whose handle is dropped on an early return goes on running. -/
def startEnvdForSandbox (o : EnvdOutcomes) (sandboxId : Str) (paused : Bool)
    (envs : Table Str Str) (volumeMounts : List VolumeMount) (startChildren : List Nat) :
    Adapter UInt16 := do
  let envdPort ← lift (openEnvd o sandboxId volumeMounts)
  let envdTask ← spawn
  check "bind host code-interpreter listener: " o.bindCodeInterpreter
  let codeInterpreterPort ← check "read host code-interpreter listener: " o.codeInterpreterAddress
  let codeInterpreterTask ← spawn
  check "bind host MCP listener: " o.bindMcp
  let mcpPort ← check "read host MCP listener: " o.mcpAddress
  let mcpTask ← spawn
  let previous := (← get).sandboxes[sandboxId]?
  let sandbox : HostRuntimeSandbox :=
    { envs, startChildren, envdPort, envdTask, codeInterpreterPort, codeInterpreterTask, mcpPort
      mcpTask, paused }
  modify fun h => { h with sandboxes := h.sandboxes.insert sandboxId sandbox }
  match previous with
  | some previous => kill previous.tasks
  | none => pure ()
  pure envdPort

structure HostTemplateMetadata where
  envs : Table Str Str := ∅
  startCmd : Option Str := none
  readyCmd : Option Str := none

structure StartOutcomes where
  createRuntimeRoot : Except Str Unit := .ok ()
  readMetadata : Except Str HostTemplateMetadata := .ok {}
  copyContents : Except Str Unit := .ok ()
  spawnStart : Str → Except Str Unit := fun _ => .ok ()
  runReady : Str → Except Str Unit := fun _ => .ok ()
  envd : EnvdOutcomes := {}
  clock : Clock := {}

def HostRuntimeState.nextSandboxNumber (self : HostRuntimeState) : UInt64 :=
  max (saturatingAdd64 self.nextSandbox 1) 1

def sandboxIdOf (n : UInt64) : Str := str "sbx_host_" ++ render n.toNat

/-- The id the next `start` gives. -/
def HostRuntimeState.nextSandboxId (self : HostRuntimeState) : Str :=
  sandboxIdOf self.nextSandboxNumber

def templateMetadata (o : StartOutcomes) (template : Option PreparedTemplate) :
    Except BackendError HostTemplateMetadata :=
  match template with
  | none => .ok {}
  | some template =>
    if template.artifact = [] then .ok {}
    else do
      let metadata ← o.readMetadata.mapError .runtime
      o.copyContents.mapError .runtime
      pure metadata

/-- `spawn_host_template_command` for the start command, if there is one. -/
def startChildren (o : StartOutcomes) : Option Str → Adapter (List Nat)
  | none => pure []
  | some command => do
    lift ((o.spawnStart command).mapError .runtime)
    let child ← spawn
    pure [child]

def runReady (o : StartOutcomes) : Option Str → Except BackendError Unit
  | none => .ok ()
  | some command => (o.runReady command).mapError .runtime

def orKill {α : Type} (children : List Nat) (step : Adapter α) : Adapter α :=
  tryCatch step fun failure => do
    match failure with
    | .backend _ => kill children
    | .panic => pure ()
    throw failure

/-- The rest of `start`, from the spawned start command on. -/
def finishStart (o : StartOutcomes) (domain : Str) (request : StartSandboxRequest)
    (sandboxId : Str) (metadata : HostTemplateMetadata) (children : List Nat) :
    Adapter RuntimeSandbox := do
  let envs := request.createRequest.envVars.foldl (fun envs k v => envs.insert k v) metadata.envs
  orKill children (lift (runReady o metadata.readyCmd))
  let _ ← orKill children (startEnvdForSandbox o.envd sandboxId false envs
    request.createRequest.volumeMounts children)
  let times ← MonadExcept.ofExcept (timestamps o.clock (request.createRequest.timeout <|> some 300))
  pure {
    config := {
      sandboxId, domain, envdVersion := str "host", envdAccessToken := some (str "host-envd-token")
      trafficAccessToken := some (str "host-traffic-token"), startedAt := times.1, endAt := times.2
      cpuCount := 1, memoryMb := 512 }
    exposedPorts := [49983, 49999, 50005] }

def start (o : StartOutcomes) (domain : Str) (request : StartSandboxRequest) :
    Adapter RuntimeSandbox := do
  check "create host runtime root: " o.createRuntimeRoot
  let sandboxId := (← get).nextSandboxId
  modify fun h => { h with nextSandbox := h.nextSandboxNumber }
  let metadata ← lift (templateMetadata o request.preparedTemplate)
  -- commands run in the environment of the template and the request; that is left to the outcomes
  let children ← startChildren o metadata.startCmd
  finishStart o domain request sandboxId metadata children

structure StopOutcomes where
  removeSandboxRoot : Except Str Unit := .ok ()

def stop (o : StopOutcomes) (sandboxId : Str) : Adapter Unit := do
  match (← get).sandboxes[sandboxId]? with
  | none => throw (.backend (.notFound sandboxId))
  | some sandbox =>
    modify fun h => { h with sandboxes := h.sandboxes.erase sandboxId }
    kill sandbox.tasks
    check "remove sandbox root: " o.removeSandboxRoot

/-- The number of an id of the form `sbx_host_n`. -/
def sandboxNumber (sandboxId : Str) : Option Nat :=
  if str "sbx_host_" <+: sandboxId then parse 64 (sandboxId.drop 9) else none

/-- `restore_from_state` over the records in the order of their ids. -/
def restoreFromState (o : Str → EnvdOutcomes) (state : LocalBackend.LocalRuntimeState) :
    Adapter Unit := do
  let records := values state.sandboxes.sandboxes
  let nextSandbox ← records.foldlM (fun nextSandbox record => do
    let nextSandbox := max nextSandbox ((sandboxNumber record.info.sandboxId).getD 0)
    let _ ← startEnvdForSandbox (o record.info.sandboxId) record.info.sandboxId
      (record.info.state = .paused) record.createRequest.envVars record.info.volumeMounts []
    pure nextSandbox) 0
  modify fun h => { h with nextSandbox := UInt64.ofNat nextSandbox }

structure PodOutcomes where
  createPodsRoot : Except Str Unit := .ok ()
  /-- On failure, how many components of the path were made. -/
  createDirAll : Path → Except (Str × Nat) Unit := fun _ => .ok ()
  write : Path → Except Str Unit := fun _ => .ok ()
  /-- On failure, what is left, with all that leads to it. -/
  removeDirAll : Path → Except (Str × List Path) Unit := fun _ => .ok ()
  clock : Clock := {}

def branch (path : Path) : List Path := path.inits.filter (· ≠ [])

def createDirAll (o : PodOutcomes) (what : String) (path : Path) : Adapter Unit :=
  match o.createDirAll path with
  | .ok () => modify fun h => { h with podFiles := branch path ++ h.podFiles }
  | .error (error, made) => do
    modify fun h => { h with podFiles := branch (path.take made) ++ h.podFiles }
    fail (str what ++ error)

def HostRuntimeState.nextPodNumber (self : HostRuntimeState) : UInt64 :=
  max (saturatingAdd64 self.nextPod 1) 1

def HostRuntimeState.nextPodId (self : HostRuntimeState) : Str :=
  str "pod_host_" ++ render self.nextPodNumber.toNat

def hostPodPath (podId : Str) : Except BackendError Path := rootedChildPath [] podId "pod id"

def hostPodContainerPath (podId name : Str) : Except BackendError Path := do
  let root ← hostPodPath podId
  rootedChildPath (root ++ [str "containers"]) name "pod container name"

def createHostPodContainer (o : PodOutcomes) (podId : Str) (request : PodContainerCreateRequest) :
    Adapter PodContainerInfo := do
  let root ← lift (hostPodContainerPath podId request.name)
  if root ∈ (← get).podFiles then throw (.backend (.alreadyExists request.name))
  createDirAll o "create host pod container: " root
  check "write host pod container metadata: " (o.write (root ++ [str "template_id"]))
  modify fun h => { h with podFiles := (root ++ [str "template_id"]) :: h.podFiles }
  pure (PodContainerInfo.ofRequest request)

def createEmptyDir (o : PodOutcomes) (podRoot : Path) (name : Str) : Adapter Unit := do
  let path ← lift (rootedChildPath (podRoot ++ [str "emptydir"]) name "pod emptyDir name")
  createDirAll o "create host pod emptyDir: " path

def podIdFor (explicit : Option Str) : Adapter Str :=
  match explicit with
  | some podId => pure podId
  | none => do
    let podId := (← get).nextPodId
    modify fun h => { h with nextPod := h.nextPodNumber }
    pure podId

def startPod (o : PodOutcomes) (request : StartPodRequest) : Adapter RuntimePod := do
  check "create host pod root: " o.createPodsRoot
  let podId ← podIdFor request.createRequest.podId
  let podRoot ← lift (hostPodPath podId)
  if podRoot ∈ (← get).podFiles then throw (.backend (.alreadyExists podId))
  createDirAll o "create host pod emptyDir root: " (podRoot ++ [str "emptydir"])
  request.createRequest.emptyDirs.forM fun volume => createEmptyDir o podRoot volume.name
  createDirAll o "create host pod containers root: " (podRoot ++ [str "containers"])
  let containers ← request.createRequest.containers.mapM (createHostPodContainer o podId)
  let paths ← request.createRequest.containers.foldlM (fun paths container => do
    pure (paths.insert container.name (← lift (hostPodContainerPath podId container.name)))) ∅
  let times ← MonadExcept.ofExcept (timestamps o.clock (request.createRequest.timeout <|> some 300))
  modify fun h => { h with pods := h.pods.insert podId ⟨podRoot, paths⟩ }
  pure ⟨⟨podId, times.1, times.2⟩, containers⟩

def stopPod (o : PodOutcomes) (podId : Str) : Adapter Unit := do
  match (← get).pods[podId]? with
  | none => throw (.backend (.notFound podId))
  | some pod =>
    modify fun h => { h with pods := h.pods.erase podId }
    match o.removeDirAll pod.root with
    | .ok () => modify fun h => { h with podFiles := h.podFiles.filter (¬pod.root <+: ·) }
    | .error (error, left) => do
      modify fun h => { h with podFiles := h.podFiles.filter fun path =>
        ¬pod.root <+: path ∨ left.any (path <+: ·) }
      fail (str "remove host pod root: " ++ error)

end HostAdapter
