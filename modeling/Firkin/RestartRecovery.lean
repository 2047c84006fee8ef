import Firkin.DecimalText
import Firkin.Ext4Types
import Firkin.FaultMonad
import Mathlib.Data.List.Sort

/-! # Restart recovery

A running sandbox publishes a marker directory, file by file. After a crash, recovery scans the
markers, reconciles the other roots, and for every marker whose heartbeat is too old terminates
the owner it records before it removes the marker. Any failure ends the pass. -/
namespace RestartRecovery

open Ext4Types DecimalText

inductive Component where
  | rootDir
  | curDir
  | parentDir
  | normal (name : Str)
  deriving DecidableEq

/-- `Path::components`: a dot is a component only in front. -/
def components (path : Str) : List Component :=
  let parts := (path.splitOn slash).filter (· ≠ [])
  let start : List Component :=
    if path.head? = some slash then [.rootDir]
    else if parts.head? = some (str ".") then [.curDir] else []
  start ++ (parts.filter (· ≠ str ".")).map fun part =>
    if part = str ".." then .parentDir else .normal part

def fileName (path : Str) : Option Str :=
  match (components path).getLast? with
  | some (.normal name) => some name
  | _ => none

def processCommandMatchesExecutable (actual expected : Str) : Bool :=
  components actual = components expected ||
    (fileName actual).any fun name => fileName expected = some name

structure Marker where
  id : Str
  heartbeat : Option Str := none
  runtimePid : Option Str := none
  runtimeExecutable : Option Str := none

inductive RestartResourceKind where
  | activeVm
  | snapshotArtifact
  | logStream
  | staleRuntimeProcess
  deriving DecidableEq

/-- `commands` is what `ps` prints for the processes it lists; a process is still listed after
its first `survives` signals. -/
structure Host where
  activeVms : List Marker
  snapshots : List Str := []
  logs : List Str := []
  processes : List Str := []
  quarantine : List (RestartResourceKind × Str) := []
  commands : Nat → Option Str
  survives : Nat → Nat := fun _ => 0

def Host.ids (h : Host) : RestartResourceKind → List Str
  | .activeVm => h.activeVms.map (·.id)
  | .snapshotArtifact => h.snapshots
  | .logStream => h.logs
  | .staleRuntimeProcess => h.processes

def Host.remove (h : Host) (id : Str) : RestartResourceKind → Host
  | .activeVm => { h with activeVms := h.activeVms.filter (·.id ≠ id) }
  | .snapshotArtifact => { h with snapshots := h.snapshots.filter (· ≠ id) }
  | .logStream => { h with logs := h.logs.filter (· ≠ id) }
  | .staleRuntimeProcess => { h with processes := h.processes.filter (· ≠ id) }

inductive RuntimeHostScanError where
  | filesystem (operation id : Str)
  | invalidHeartbeat (id : Str)
  | invalidRuntimePid (id : Str)
  deriving DecidableEq

inductive RuntimeFilesystemReconcilerError where
  | emptyMarkerId (kind : RestartResourceKind)
  | invalidMarkerId (kind : RestartResourceKind) (id : Str)
  | missingMarker (kind : RestartResourceKind) (id : Str)
  | invalidRuntimePid (id : Str)
  | quarantineDestinationExists (kind : RestartResourceKind) (id : Str)
  | filesystem (operation id : Str)
  deriving DecidableEq

inductive CommandHostProcessTerminateError where
  | psStatus (pid : Nat)
  | executableMismatch (pid : Nat) (expected actual : Str)
  deriving DecidableEq

inductive RuntimeHostProcessStuckVmCleanerError where
  | marker (error : RuntimeFilesystemReconcilerError)
  | terminate (pid : Nat) (source : CommandHostProcessTerminateError)
  deriving DecidableEq

inductive RuntimeRestartRecoveryError where
  | scan (error : RuntimeHostScanError)
  | reconcile (recordId : Str) (source : RuntimeFilesystemReconcilerError)
  | stuckVm (vmId : Str) (source : RuntimeHostProcessStuckVmCleanerError)
  deriving DecidableEq

structure StuckVmObservation where
  id : Str
  heartbeatAge : Nat
  runtimePid : Option Nat

structure RestartStateRecord where
  id : Str
  kind : RestartResourceKind

structure HostRuntimeScan where
  restartRecords : List RestartStateRecord
  stuckVmObservations : List StuckVmObservation

def scanMarker (now : Nat) (m : Marker) : Except RuntimeHostScanError StuckVmObservation :=
  match m.heartbeat with
  | none => .error (.filesystem (str "read active VM heartbeat") m.id)
  | some heartbeat =>
    match parse 64 (trim heartbeat) with
    | none => .error (.invalidHeartbeat m.id)
    | some epoch =>
      match m.runtimePid with
      | none => .error (.filesystem (str "read active VM runtime pid") m.id)
      | some text =>
        match parse 32 (trim text) with
        | none => .error (.invalidRuntimePid m.id)
        | some pid => .ok ⟨m.id, now - epoch, some pid⟩

def sorted (ids : List Str) : List Str := ids.insertionSort (· ≤ ·)

def sortedMarkers (markers : List Marker) : List Marker :=
  markers.insertionSort fun left right => left.id ≤ right.id

def scan (h : Host) (now : Nat) : Except RuntimeHostScanError HostRuntimeScan :=
  match (sortedMarkers h.activeVms).mapM (scanMarker now) with
  | .error error => .error error
  | .ok observations =>
    .ok ⟨observations.map (fun o => ⟨o.id, .activeVm⟩) ++
        (sorted h.snapshots).map (fun id => ⟨id, .snapshotArtifact⟩) ++
        (sorted h.logs).map (fun id => ⟨id, .logStream⟩) ++
        (sorted h.processes).map (fun id => ⟨id, .staleRuntimeProcess⟩),
      observations⟩

abbrev Reconciler := EStateM RuntimeFilesystemReconcilerError Host

def validateMarkerId (kind : RestartResourceKind) (id : Str) : Reconciler Unit :=
  if id = [] then throw (.emptyMarkerId kind)
  else
    match components id with
    | [.normal _] => pure ()
    | _ => throw (.invalidMarkerId kind id)

def preserveMarker (kind : RestartResourceKind) (id : Str) : Reconciler Unit := do
  validateMarkerId kind id
  if id ∈ (← get).ids kind then pure () else throw (.missingMarker kind id)

def cleanupMarker (kind : RestartResourceKind) (id : Str) : Reconciler Unit := do
  validateMarkerId kind id
  if id ∈ (← get).ids kind then modify fun h => h.remove id kind
  else throw (.filesystem (str "stat marker") id)

def quarantineMarker (kind : RestartResourceKind) (id : Str) : Reconciler Unit := do
  if id = [] then modify fun h => { h with quarantine := (kind, str "ambiguous") :: h.quarantine }
  else
    validateMarkerId kind id
    if (kind, id) ∈ (← get).quarantine then throw (.quarantineDestinationExists kind id)
    if id ∈ (← get).ids kind then
      modify fun h => { h.remove id kind with quarantine := (kind, id) :: h.quarantine }
    else throw (.filesystem (str "move marker to quarantine") id)

structure ActiveVmRuntimeMetadata where
  pid : Nat
  executable : Str

def activeVmRuntimeMetadata (id : Str) : Reconciler ActiveVmRuntimeMetadata := do
  validateMarkerId .activeVm id
  let marker := (← get).activeVms.find? (·.id = id)
  match marker.bind (·.runtimePid) with
  | none => throw (.filesystem (str "read active VM runtime pid marker") id)
  | some text =>
    match parse 32 (trim text) with
    | none => throw (.invalidRuntimePid id)
    | some pid =>
      match marker.bind (·.runtimeExecutable) with
      | none => throw (.filesystem (str "read active VM runtime executable marker") id)
      | some executable => pure ⟨pid, trim executable⟩

inductive ReconciliationDecision where
  | recover
  | cleanup
  | quarantine

def RestartStateRecord.action (r : RestartStateRecord) : ReconciliationDecision :=
  if r.id = [] then .quarantine
  else
    match r.kind with
    | .activeVm | .snapshotArtifact => .recover
    | .logStream | .staleRuntimeProcess => .cleanup

def reconcile (r : RestartStateRecord) : Reconciler Unit :=
  match r.action with
  | .recover => preserveMarker r.kind r.id
  | .cleanup => cleanupMarker r.kind r.id
  | .quarantine => quarantineMarker r.kind r.id

inductive StuckVmCleanupDecision where
  | preserve
  | cleanup
  | quarantine

def StuckVmObservation.decision (heartbeatTimeout : Nat) (o : StuckVmObservation) :
    StuckVmCleanupDecision :=
  if o.id = [] then .quarantine
  else if heartbeatTimeout ≤ o.heartbeatAge then .cleanup
  else .preserve

abbrev StuckVmCleaner := EStateM RuntimeHostProcessStuckVmCleanerError Host

def Host.signal (h : Host) (pid : Nat) : Host :=
  if h.survives pid = 0 then { h with commands := Function.update h.commands pid none }
  else { h with survives := Function.update h.survives pid (h.survives pid - 1) }

/-- `ps`, then `kill -TERM`. -/
def terminateProcess (m : ActiveVmRuntimeMetadata) :
    EStateM CommandHostProcessTerminateError Host Unit := do
  match (← get).commands m.pid with
  | none => throw (.psStatus m.pid)
  | some stdout =>
    if processCommandMatchesExecutable (trim stdout) m.executable then
      modify fun h => h.signal m.pid
    else throw (.executableMismatch m.pid m.executable (trim stdout))

/-- `map_err`, which leaves the state alone. -/
def mapErr {ε ε' α : Type} (f : ε → ε') (x : EStateM ε Host α) : EStateM ε' Host α := fun h =>
  match x h with
  | .ok a h' => .ok a h'
  | .error e h' => .error (f e) h'

def cleanup (vmId : Str) : StuckVmCleaner Unit := do
  let metadata ← mapErr .marker (activeVmRuntimeMetadata vmId)
  mapErr (.terminate metadata.pid) (terminateProcess metadata)
  mapErr .marker (cleanupMarker .activeVm vmId)

def cleanStuckVm (heartbeatTimeout : Nat) (o : StuckVmObservation) : StuckVmCleaner Unit :=
  match o.decision heartbeatTimeout with
  | .preserve => mapErr .marker (preserveMarker .activeVm o.id)
  | .cleanup => cleanup o.id
  | .quarantine => mapErr .marker (quarantineMarker .activeVm o.id)

structure RuntimeRestartRecoveryReport where
  actions : List ReconciliationDecision
  decisions : List StuckVmCleanupDecision

def executeWithTerminator (heartbeatTimeout now : Nat) :
    EStateM RuntimeRestartRecoveryError Host RuntimeRestartRecoveryReport := do
  match scan (← get) now with
  | .error error => throw (.scan error)
  | .ok found =>
    found.restartRecords.forM fun r => mapErr (.reconcile r.id) (reconcile r)
    found.stuckVmObservations.forM fun o =>
      mapErr (.stuckVm o.id) (cleanStuckVm heartbeatTimeout o)
    pure ⟨found.restartRecords.map (·.action),
      found.stuckVmObservations.map (·.decision heartbeatTimeout)⟩

structure Host.Directories (h : Host) : Prop where
  named : ∀ kind, ∀ id ∈ h.ids kind, ∃ name, components id = [.normal name]
  distinct : ∀ kind, (h.ids kind).Nodup

def Marker.owner (m : Marker) : Option Nat := m.runtimePid.bind fun text => parse 32 (trim text)

def Marker.Running (commands : Nat → Option Str) (m : Marker) : Prop :=
  ∃ pid executable stdout, m.owner = some pid ∧ m.runtimeExecutable = some executable ∧
    commands pid = some stdout ∧
    processCommandMatchesExecutable (trim stdout) (trim executable) = true

def Marker.Scannable (m : Marker) : Prop :=
  (∃ text epoch, m.heartbeat = some text ∧ parse 64 (trim text) = some epoch) ∧
    ∃ pid, m.owner = some pid

end RestartRecovery
