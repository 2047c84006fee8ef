import Firkin.Admission
import Firkin.DecimalText
import Firkin.FaultMonad
import Firkin.KeyedList

/-! # The single-node backend

`create`, `restore`, `delete` and `update_deadline` of the single-node backend over its
scheduler and its list of active session records. A call is given how the work it awaits turns
out: the disk probe, the runtime driver, and the writing of the state file. A deadline wraps as
a 64-bit integer, as in the release build; a build with overflow checks, which is what the image
builder's model is of, panics there and does the same wherever the sum fits. -/
namespace SingleNode

open Ext4Types Admission DecimalText Std

inductive Error where
  | invalidRequest (text : Str)
  | unsupportedCapability (text : Str)
  | capacityRejected (text : Str)
  | diskPressure (text : Str)
  | sandboxNotFound (text : Str)
  | snapshotNotFound (text : Str)
  | conflict (text : Str)
  | templateBuildFailed (text : Str)
  | runtimeLaunchFailed (text : Str)
  | runtimeCommandFailed (text : Str)
  | statePersistenceFailed (text : Str)
  | protocolFailure (text : Str)
  deriving DecidableEq

structure SandboxResources where
  vcpus : UInt32
  memoryBytes : UInt64
  deriving DecidableEq

def SandboxResources.toBudget (self : SandboxResources) : ResourceBudget :=
  ⟨self.vcpus, self.memoryBytes, 0⟩

structure SingleNodeSchedulerConfig where
  maxSessions : Nat
  resources : SandboxResources

structure SchedulerState where
  admitted : TreeMap Str SandboxResources := ∅
  ledger : CapacityLedger

/-- How a size is printed: whole units, or tenths of the largest unit that fits. -/
def sizeText (bytes : Nat) : Str :=
  if bytes < 1024 then render bytes ++ str " B"
  else
    let (unit, label) :=
      if bytes < 1024 ^ 2 then (1024, str "KiB")
      else if bytes < 1024 ^ 3 then (1024 ^ 2, str "MiB")
      else if bytes < 1024 ^ 4 then (1024 ^ 3, str "GiB")
      else (1024 ^ 4, str "TiB")
    if bytes % unit = 0 then render (bytes / unit) ++ str " " ++ label
    else
      let tenths := (bytes * 10 + unit / 2) / unit
      if tenths % 10 = 0 then render (tenths / 10) ++ str " " ++ label
      else render (tenths / 10) ++ str "." ++ render (tenths % 10) ++ str " " ++ label

def rejected (sandboxId reason : Str) : Error :=
  .capacityRejected (str "single-node scheduler rejected sandbox `" ++ sandboxId ++ str "`: " ++
    reason)

def capacityError (sandboxId : Str) : CapacityError → Error
  | .cpu requested available =>
    rejected sandboxId (str "CPU requested " ++ render requested.toNat ++ str ", available " ++
      render available.toNat)
  | .memory requested available =>
    rejected sandboxId (str "memory requested " ++ sizeText requested.toNat ++
      str ", available " ++ sizeText available.toNat)
  | .disk requested available =>
    rejected sandboxId (str "disk requested " ++ sizeText requested.toNat ++
      str ", available " ++ sizeText available.toNat)

namespace SchedulerState

def new (resources : SandboxResources) : SchedulerState := { ledger := .new resources.toBudget }

/-- Admitting an id twice changes nothing, whatever resources are asked for. -/
def admitSandbox (config : SingleNodeSchedulerConfig) (self : SchedulerState) (sandboxId : Str)
    (resources : SandboxResources) : Except Error SchedulerState :=
  if self.admitted.contains sandboxId then .ok self
  else if self.admitted.size ≥ config.maxSessions then
    .error (rejected sandboxId (str "max sessions " ++ render config.maxSessions ++ str " reached"))
  else
    match self.ledger.reserveActive resources.toBudget with
    | .error e => .error (capacityError sandboxId e)
    | .ok ledger => .ok { admitted := self.admitted.insert sandboxId resources, ledger }

def release (self : SchedulerState) (sandboxId : Str) : SchedulerState :=
  match self.admitted[sandboxId]? with
  | none => self
  | some resources =>
    { admitted := self.admitted.erase sandboxId
      ledger := self.ledger.releaseActive resources.toBudget }

end SchedulerState

structure ActiveSessionRecord where
  sandboxId : Str
  templateId : Str
  clientId : Str
  envdAccessToken : Option Str
  startedAtUnixSeconds : Int64
  endAtUnixSeconds : Int64
  resources : SandboxResources
  runtimeAttached : Bool
  deriving DecidableEq

structure SnapshotRecord where
  snapshotId : Str
  startCommand : Option Str

structure SingleNodeCreateRequest where
  sandboxId : Str
  templateId : Str
  resources : SandboxResources
  timeout : Option UInt64 := none

structure RuntimeCreatedSandbox where
  sandboxId : Str
  clientId : Str
  envdAccessToken : Option Str

/-- Seconds as `i64`, the largest one if they do not fit, added to the current time. -/
def deadline (now : Int64) (seconds : UInt64) : Int64 :=
  now + if seconds.toNat < 2 ^ 63 then Int64.ofNat seconds.toNat else Int64.maxValue

structure DiskPressureGuard where
  path : Str
  minimumAvailable : UInt64

/-- `driver` and `files` tell whether there is a runtime driver and a state file. -/
structure Backend where
  config : SingleNodeSchedulerConfig
  scheduler : SchedulerState
  driver : Bool
  files : Bool
  diskPressure : Option DiskPressureGuard := none
  active : List ActiveSessionRecord := []
  snapshots : List SnapshotRecord := []

/-- What a call meets: the disk probe, the driver's `create` or `restore`, the driver's
`delete`, the writing of the state file, and the time. -/
structure Host where
  available : Except Error UInt64
  created : Except Error RuntimeCreatedSandbox
  deleted : Except Error Unit
  persisted : Except Error Unit
  now : Int64

abbrev Action := EStateM Error Backend

def lift {α : Type} : Except Error α → Action α
  | .ok a => pure a
  | .error e => throw e

def DiskPressureGuard.check (self : DiskPressureGuard) (available : Except Error UInt64)
    (operation : Str) : Except Error Unit := do
  let available ← available
  if available < self.minimumAvailable then
    throw (.diskPressure (str "single-node runtime disk pressure rejected " ++ operation ++
      str ": available " ++ render available.toNat ++ str " bytes is below minimum free disk " ++
      render self.minimumAvailable.toNat ++ str " bytes at " ++ self.path))

def Backend.checkDisk (self : Backend) (host : Host) (operation : Str) : Except Error Unit :=
  match self.diskPressure with
  | none => .ok ()
  | some guard => guard.check host.available operation

def checkDiskPressure (host : Host) (operation : Str) : Action Unit := do
  lift ((← get).checkDisk host operation)

def noDriver : Error :=
  .unsupportedCapability (str "single-node backend has no runtime driver configured")

def driver : Action Unit := do
  unless (← get).driver do throw noDriver

def admitSandbox (sandboxId : Str) (resources : SandboxResources) : Action Unit := do
  let self ← get
  let scheduler ← lift (self.scheduler.admitSandbox self.config sandboxId resources)
  set { self with scheduler }

def release (sandboxId : Str) : Action Unit :=
  modify fun self => { self with scheduler := self.scheduler.release sandboxId }

def loadActive : Action (List ActiveSessionRecord) := return (← get).active

def saveActive (sessions : List ActiveSessionRecord) : Action Unit :=
  modify fun self => { self with active := sessions }

def Backend.persist (self : Backend) (host : Host) : Except Error Unit :=
  if self.files then host.persisted else .ok ()

def persistActive (host : Host) : Action Unit := do
  lift ((← get).persist host)

def notFound (sandboxId : Str) : Error :=
  .sandboxNotFound (str "sandbox " ++ sandboxId ++ str " not found")

abbrev lookup (sandboxId : Str) (active : List ActiveSessionRecord) : Option ActiveSessionRecord :=
  KeyedList.find (·.sandboxId) sandboxId active

def ensureActive (sandboxId : Str) : Action ActiveSessionRecord := do
  match lookup sandboxId (← loadActive) with
  | some session => pure session
  | none => throw (notFound sandboxId)

/-- How the three updates end: a list that cannot be persisted is replaced by the old copy. -/
def commitActive (host : Host) (original active : List ActiveSessionRecord) : Action Unit := do
  saveActive active
  tryCatch (persistActive host) fun e => do
    saveActive original
    throw e

abbrev without (sandboxId : Str) (active : List ActiveSessionRecord) : List ActiveSessionRecord :=
  KeyedList.drop (·.sandboxId) sandboxId active

abbrev upsert (session : ActiveSessionRecord) (active : List ActiveSessionRecord) :
    List ActiveSessionRecord :=
  KeyedList.put (·.sandboxId) session active

abbrev extend (sandboxId : Str) (endAt : Int64) (active : List ActiveSessionRecord) :
    List ActiveSessionRecord :=
  KeyedList.amend (·.sandboxId) sandboxId ({ · with endAtUnixSeconds := endAt }) active

def upsertActive (host : Host) (session : ActiveSessionRecord) : Action Unit := do
  let original ← loadActive
  commitActive host original (upsert session original)

def removeActive (host : Host) (sandboxId : Str) : Action Unit := do
  let original ← loadActive
  let active := without sandboxId original
  if active.length = original.length then throw (notFound sandboxId)
  commitActive host original active

def record (host : Host) (request : SingleNodeCreateRequest) (created : RuntimeCreatedSandbox) :
    ActiveSessionRecord where
  sandboxId := created.sandboxId
  templateId := request.templateId
  clientId := created.clientId
  envdAccessToken := created.envdAccessToken
  startedAtUnixSeconds := host.now
  endAtUnixSeconds := deadline host.now (request.timeout.getD 300)
  resources := request.resources
  runtimeAttached := true

/-- What `create` and `restore` do around the driver's own call. -/
def launch (operation : Str) (host : Host) (request : SingleNodeCreateRequest) :
    Action RuntimeCreatedSandbox := do
  checkDiskPressure host operation
  admitSandbox request.sandboxId request.resources
  driver
  let created ← tryCatch (lift host.created) fun e => do
    release request.sandboxId
    throw e
  tryCatch (upsertActive host (record host request created)) fun e => do
    -- the driver's delete of the new sandbox is not checked
    driver
    release request.sandboxId
    throw e
  pure created

def create (host : Host) (request : SingleNodeCreateRequest) : Action RuntimeCreatedSandbox :=
  launch (str "sandbox create") host request

def restore (host : Host) (request : SingleNodeCreateRequest) : Action RuntimeCreatedSandbox :=
  launch (str "sandbox restore") host request

def delete (host : Host) (sandboxId : Str) : Action Unit := do
  let _ ← ensureActive sandboxId
  driver
  lift host.deleted
  removeActive host sandboxId
  release sandboxId

def Backend.new (config : SingleNodeSchedulerConfig) (driver files : Bool) : Backend :=
  { config, scheduler := .new config.resources, driver, files }

/-- A session with a runtime attached is kept if the driver still has it. -/
def keeps (runtimeSandboxExists : Str → Except Error Bool) (session : ActiveSessionRecord) :
    Action Bool :=
  if session.runtimeAttached then do
    driver
    lift (runtimeSandboxExists session.sandboxId)
  else pure true

/-- Sessions that lost their runtime are dropped, the others admitted again. -/
def reconcileSessions (runtimeSandboxExists : Str → Except Error Bool) :
    List ActiveSessionRecord → Action (List ActiveSessionRecord)
  | [] => pure []
  | session :: active => do
    if ← keeps runtimeSandboxExists session then
      admitSandbox session.sandboxId session.resources
      let reconciled ← reconcileSessions runtimeSandboxExists active
      pure (session :: reconciled)
    else reconcileSessions runtimeSandboxExists active

def reconcileActiveState (host : Host) (runtimeSandboxExists : Str → Except Error Bool) :
    Action Unit := do
  let active := (← loadActive).filter fun session => host.now < session.endAtUnixSeconds
  saveActive active
  let reconciled ← reconcileSessions runtimeSandboxExists active
  saveActive reconciled
  persistActive host

section
open FaultMonad

variable {s : Backend} {host : Host} {operation sandboxId : Str}
  {request : SingleNodeCreateRequest}

@[simp] theorem run_lift {α : Type} (r : Except Error α) (s : Backend) :
    lift r s = match r with
      | .ok a => .ok a s
      | .error e => .error e s := by
  cases r <;> rfl

@[simp] theorem run_driver : driver s = if s.driver then .ok () s else .error noDriver s := by
  unfold driver
  rw [run_bind, run_get]
  dsimp only
  split <;> rfl

theorem persistActive_eq :
    persistActive host s = match s.persist host with
      | .ok a => .ok a s
      | .error e => .error e s := by
  unfold persistActive
  rw [run_bind, run_get]
  dsimp only
  cases s.persist host <;> rfl

theorem commitActive_eq (original active : List ActiveSessionRecord) :
    commitActive host original active s = match s.persist host with
      | .ok _ => .ok () { s with active }
      | .error e => .error e { s with active := original } := by
  have hfiles : ({ s with active } : Backend).persist host = s.persist host := rfl
  unfold commitActive saveActive
  rw [run_bind, run_modify]
  dsimp only
  rw [run_tryCatch, persistActive_eq, hfiles]
  cases s.persist host <;> rfl

theorem upsertActive_eq :
    upsertActive host session s = match s.persist host with
      | .ok _ => .ok () { s with active := upsert session s.active }
      | .error e => .error e s :=
  commitActive_eq s.active (upsert session s.active)

theorem lookup_upsert (id : Str) :
    lookup id (upsert session active) =
      if id = session.sandboxId then some session else lookup id active :=
  KeyedList.find_put session id active

theorem lookup_without (id id' : Str) (active : List ActiveSessionRecord) :
    lookup id' (without id active) = if id' = id then none else lookup id' active :=
  KeyedList.find_drop id id' active

theorem without_length :
    (without sandboxId active).length = active.length ↔
      ∀ session ∈ active, session.sandboxId ≠ sandboxId := by
  rw [without, KeyedList.drop, List.length_filter_eq_length_iff]
  simp only [decide_eq_true_eq]

/-- The ways a `create` or `restore` can go. -/
inductive Launched (s : Backend) (host : Host) (operation : Str)
    (request : SingleNodeCreateRequest) : EStateM.Result Error Backend RuntimeCreatedSandbox → Prop
  | pressed {e} : s.checkDisk host operation = .error e →
      Launched s host operation request (.error e s)
  | refused {e} : s.checkDisk host operation = .ok () →
      s.scheduler.admitSandbox s.config request.sandboxId request.resources = .error e →
      Launched s host operation request (.error e s)
  | undriven {scheduler} : s.checkDisk host operation = .ok () →
      s.scheduler.admitSandbox s.config request.sandboxId request.resources = .ok scheduler →
      s.driver = false → Launched s host operation request (.error noDriver { s with scheduler })
  | failed {scheduler e} : s.checkDisk host operation = .ok () →
      s.scheduler.admitSandbox s.config request.sandboxId request.resources = .ok scheduler →
      s.driver = true → host.created = .error e →
      Launched s host operation request
        (.error e { s with scheduler := scheduler.release request.sandboxId })
  | unpersisted {scheduler created e} : s.checkDisk host operation = .ok () →
      s.scheduler.admitSandbox s.config request.sandboxId request.resources = .ok scheduler →
      s.driver = true → host.created = .ok created → s.persist host = .error e →
      Launched s host operation request
        (.error e { s with scheduler := scheduler.release request.sandboxId })
  | done {scheduler created} : s.checkDisk host operation = .ok () →
      s.scheduler.admitSandbox s.config request.sandboxId request.resources = .ok scheduler →
      s.driver = true → host.created = .ok created → s.persist host = .ok () →
      Launched s host operation request
        (.ok created { s with
          scheduler, active := upsert (record host request created) s.active })

theorem admit_eq (sandboxId : Str) :
    admitSandbox sandboxId resources s =
      match s.scheduler.admitSandbox s.config sandboxId resources with
      | .ok scheduler => .ok () { s with scheduler }
      | .error e => .error e s := by
  unfold admitSandbox
  rw [run_bind, run_get]
  dsimp only
  cases s.scheduler.admitSandbox s.config sandboxId resources <;> rfl

theorem launch_spec (s : Backend) (host : Host) (operation : Str)
    (request : SingleNodeCreateRequest) :
    Launched s host operation request (launch operation host request s) := by
  have hdisk : checkDiskPressure host operation s = lift (s.checkDisk host operation) s := by
    unfold checkDiskPressure
    rw [run_bind, run_get]
  unfold launch
  rw [run_bind, hdisk, run_lift]
  cases hc : s.checkDisk host operation with
  | error e => exact .pressed hc
  | ok u =>
    dsimp only
    rw [run_bind, admit_eq]
    cases ha : s.scheduler.admitSandbox s.config request.sandboxId request.resources with
    | error e => exact .refused hc ha
    | ok scheduler =>
      dsimp only
      rw [run_bind, run_driver]
      by_cases hd : s.driver = true
      · rw [if_pos hd]
        dsimp only
        rw [run_bind, run_tryCatch, run_lift]
        cases hcreated : host.created with
        | error e => exact .failed hc ha hd hcreated
        | ok created =>
          dsimp only
          have hpersist : ({ s with scheduler } : Backend).persist host = s.persist host := rfl
          rw [run_bind, run_tryCatch, upsertActive_eq, hpersist]
          cases hp : s.persist host with
          | error e =>
            dsimp only
            rw [run_bind, run_driver, if_pos hd]
            exact .unpersisted hc ha hd hcreated hp
          | ok u => exact .done hc ha hd hcreated hp
      · rw [if_neg hd]
        exact .undriven hc ha (Bool.eq_false_iff.mpr hd)

theorem Launched.of_error (h : Launched s host operation request (.error e t)) :
    ∃ scheduler, t = { s with scheduler } := by
  cases h <;> exact ⟨_, rfl⟩

theorem Launched.of_ok (h : Launched s host operation request (.ok created t)) :
    host.created = .ok created ∧
      ∃ scheduler, t = { s with
        scheduler, active := upsert (record host request created) s.active } := by
  cases h with
  | done _ _ _ hcreated _ => exact ⟨hcreated, _, rfl⟩

/-- The ways a `delete` can go: it changes nothing, or the record and the reservation go. -/
inductive Deleted (s : Backend) (host : Host) (sandboxId : Str) :
    EStateM.Result Error Backend Unit → Prop
  | unknown : (∀ session ∈ s.active, session.sandboxId ≠ sandboxId) →
      Deleted s host sandboxId (.error (notFound sandboxId) s)
  | undriven : (∃ session ∈ s.active, session.sandboxId = sandboxId) → s.driver = false →
      Deleted s host sandboxId (.error noDriver s)
  | failed {e} : (∃ session ∈ s.active, session.sandboxId = sandboxId) → s.driver = true →
      host.deleted = .error e → Deleted s host sandboxId (.error e s)
  | unpersisted {e} : (∃ session ∈ s.active, session.sandboxId = sandboxId) → s.driver = true →
      host.deleted = .ok () → s.persist host = .error e → Deleted s host sandboxId (.error e s)
  | done : (∃ session ∈ s.active, session.sandboxId = sandboxId) → s.driver = true →
      host.deleted = .ok () → s.persist host = .ok () →
      Deleted s host sandboxId (.ok () { s with
        active := without sandboxId s.active, scheduler := s.scheduler.release sandboxId })

theorem Deleted.active (h : Deleted s host sandboxId r) :
    (left r).active = s.active ∨ (left r).active = without sandboxId s.active := by
  cases h with
  | done => exact .inr rfl
  | _ => exact .inl rfl

theorem removeActive_eq (h : ∃ session ∈ s.active, session.sandboxId = sandboxId) :
    removeActive host sandboxId s = match s.persist host with
      | .ok _ => .ok () { s with active := without sandboxId s.active }
      | .error e => .error e s := by
  have hlength : (without sandboxId s.active).length ≠ s.active.length := by
    rw [Ne, without_length]
    push Not
    exact h
  have hrun : removeActive host sandboxId s =
      commitActive host s.active (without sandboxId s.active) s := by
    unfold removeActive loadActive
    rw [run_bind, run_bind, run_get]
    dsimp only
    rw [run_pure]
    dsimp only
    rw [if_neg hlength]
  rw [hrun, commitActive_eq]

theorem delete_spec (s : Backend) (host : Host) (sandboxId : Str) :
    Deleted s host sandboxId (delete host sandboxId s) := by
  have hensure : ensureActive sandboxId s =
      match lookup sandboxId s.active with
      | some session => .ok session s
      | none => .error (notFound sandboxId) s := by
    unfold ensureActive loadActive
    rw [run_bind, run_bind, run_get]
    dsimp only
    rw [run_pure]
    dsimp only
    cases lookup sandboxId s.active <;> rfl
  unfold delete
  rw [run_bind, hensure]
  cases hfind : lookup sandboxId s.active with
  | none => exact .unknown (KeyedList.find_none.mp hfind)
  | some session =>
    have hex : ∃ session ∈ s.active, session.sandboxId = sandboxId :=
      ⟨session, KeyedList.find_some hfind⟩
    dsimp only
    rw [run_bind, run_driver]
    by_cases hd : s.driver = true
    · rw [if_pos hd]
      dsimp only
      rw [run_bind, run_lift]
      cases hdel : host.deleted with
      | error e => exact .failed hex hd hdel
      | ok u =>
        dsimp only
        rw [run_bind, removeActive_eq hex]
        cases hp : s.persist host with
        | error e => exact .unpersisted hex hd hdel hp
        | ok u => exact .done hex hd hdel hp
    · rw [if_neg hd]
      exact .undriven hex (Bool.eq_false_iff.mpr hd)
end

end SingleNode
