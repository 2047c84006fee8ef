import Firkin.E2bTypes
import Firkin.FaultMonad

/-! # The pod registry

Pods and their containers, with the checks on what a client declares. -/
namespace PodRegistry

open Ext4Types E2bTypes SortedTable

inductive PodState where
  | running
  | stopped
  deriving DecidableEq

structure PodVolumeMountRequest where
  name : Str
  deriving DecidableEq

structure PodEmptyDir where
  name : Str
  deriving DecidableEq

structure PodStoreOptions where
  sizeBytes : UInt64 := 7 * 1024 * 1024 * 1024
  deriving DecidableEq

structure PodContainerCreateRequest where
  name : Str
  templateId : Str
  emptyDirMounts : List PodVolumeMountRequest := []
  deriving DecidableEq

structure PodCreateRequest where
  podId : Option Str := none
  timeout : Option UInt64 := none
  metadata : Table Str Str := ∅
  emptyDirs : List PodEmptyDir := []
  podStore : PodStoreOptions := {}
  containers : List PodContainerCreateRequest
  deriving DecidableEq

inductive PodContainerState where
  | running
  | stopped
  deriving DecidableEq

structure PodContainerInfo where
  name : Str
  templateId : Str
  state : PodContainerState
  emptyDirMounts : List PodVolumeMountRequest
  deriving DecidableEq

structure PodContainerOutput where
  stdout : List UInt8
  stderr : List UInt8
  exitCode : Int32

structure PodInfo where
  podId : Str
  metadata : Table Str Str
  startedAt : Str
  endAt : Str
  state : PodState
  emptyDirs : List PodEmptyDir
  containers : List PodContainerInfo
  deriving DecidableEq

structure StartPodRequest where
  createRequest : PodCreateRequest
  preparedTemplates : Table Str (Option PreparedTemplate)
  deriving DecidableEq

structure PodRuntimeConfig where
  podId : Str
  startedAt : Str
  endAt : Str

structure RuntimePod where
  config : PodRuntimeConfig
  containers : List PodContainerInfo

def PodContainerInfo.ofRequest (request : PodContainerCreateRequest) : PodContainerInfo :=
  ⟨request.name, request.templateId, .running, request.emptyDirMounts⟩

/-- The first name that occurred before, as a set being filled finds it. -/
def firstDuplicate (seen : List Str) : List Str → Option Str
  | [] => none
  | name :: names => if name ∈ seen then some name else firstDuplicate (name :: seen) names

def validateContainerMounts (emptyDirs : List Str) (container : PodContainerCreateRequest) :
    Except Str Unit :=
  match container.emptyDirMounts.find? (·.name ∉ emptyDirs) with
  | none => .ok ()
  | some mount => .error (str "container `" ++ container.name ++
      str "` references unknown emptyDir `" ++ mount.name ++ str "`")

def validateContainers (emptyDirs : List Str) (seen : List Str) :
    List PodContainerCreateRequest → Except Str Unit
  | [] => .ok ()
  | container :: containers => do
    if container.name ∈ seen then
      .error (str "pod declares duplicate container `" ++ container.name ++ str "`")
    validateContainerMounts emptyDirs container
    validateContainers emptyDirs (container.name :: seen) containers

def PodCreateRequest.validate (self : PodCreateRequest) : Except Str Unit := do
  if self.containers.isEmpty then .error (str "pod requires at least one container")
  if self.podStore.sizeBytes = 0 then
    .error (str "podStore.sizeBytes must be greater than zero")
  let emptyDirs := self.emptyDirs.map (·.name)
  match firstDuplicate [] emptyDirs with
  | some name => .error (str "pod declares duplicate emptyDir `" ++ name ++ str "`")
  | none => validateContainers emptyDirs [] self.containers

def validatePodContainerRequest (emptyDirs : List PodEmptyDir)
    (container : PodContainerCreateRequest) : Except Str Unit :=
  validateContainerMounts (emptyDirs.map (·.name)) container

theorem validateContainers_ok (h : validateContainers emptyDirs seen containers = .ok ()) :
    firstDuplicate seen (containers.map (·.name)) = none := by
  induction containers generalizing seen with
  | nil => rfl
  | cons container containers ih =>
    unfold validateContainers at h
    rw [List.map_cons, firstDuplicate]
    by_cases hseen : container.name ∈ seen
    · rw [if_pos hseen] at h
      cases h
    · rw [if_neg hseen] at h ⊢
      obtain ⟨_, -, h⟩ := FaultMonad.except_bind_eq_ok.mp h
      exact ih h

theorem PodCreateRequest.validate_ok {self : PodCreateRequest} (h : self.validate = .ok ()) :
    firstDuplicate [] (self.containers.map (·.name)) = none := by
  unfold PodCreateRequest.validate at h
  dsimp only at h
  by_cases hempty : self.containers.isEmpty = true
  · rw [if_pos hempty] at h
    cases h
  · rw [if_neg hempty] at h
    by_cases hsize : self.podStore.sizeBytes = 0
    · rw [if_pos hsize] at h
      cases h
    · rw [if_neg hsize] at h
      split at h
      · cases h
      · exact validateContainers_ok h

structure PodRecord where
  createRequest : PodCreateRequest
  info : PodInfo

structure LocalPodRegistry where
  pods : Table Str PodRecord := ∅

abbrev Result := Except BackendError

namespace LocalPodRegistry

def create (self : LocalPodRegistry) (request : PodCreateRequest) (runtime : RuntimePod) :
    Result (PodInfo × LocalPodRegistry) :=
  if runtime.config.podId ∈ self.pods then .error (.alreadyExists runtime.config.podId)
  else
    match firstDuplicate [] (runtime.containers.map (·.name)) with
    | some name => .error (.alreadyExists name)
    | none =>
      let info : PodInfo :=
        { podId := runtime.config.podId, metadata := request.metadata
          startedAt := runtime.config.startedAt, endAt := runtime.config.endAt, state := .running
          emptyDirs := request.emptyDirs, containers := runtime.containers }
      .ok (info, ⟨self.pods.insert runtime.config.podId ⟨request, info⟩⟩)

def record (self : LocalPodRegistry) (podId : Str) : Result PodRecord :=
  match self.pods[podId]? with
  | some record => .ok record
  | none => .error (.notFound podId)

def get (self : LocalPodRegistry) (podId : Str) : Result PodInfo := do
  let record ← self.record podId
  pure record.info

def list (self : LocalPodRegistry) : List PodInfo := (values self.pods).map (·.info)

def delete (self : LocalPodRegistry) (podId : Str) : Bool × LocalPodRegistry :=
  (decide (podId ∈ self.pods), ⟨self.pods.erase podId⟩)

def putContainers (self : LocalPodRegistry) (podId : Str) (record : PodRecord)
    (containers : List PodContainerInfo) : LocalPodRegistry :=
  ⟨self.pods.insert podId { record with info := { record.info with containers } }⟩

def addContainer (self : LocalPodRegistry) (podId : Str) (container : PodContainerInfo) :
    Result (PodContainerInfo × LocalPodRegistry) := do
  let record ← self.record podId
  if record.info.containers.any (·.name = container.name) then
    .error (.alreadyExists container.name)
  else pure (container, self.putContainers podId record (record.info.containers ++ [container]))

/-- The list is cut before its length is compared; nothing was cut when the lengths agree. -/
def deleteContainer (self : LocalPodRegistry) (podId containerName : Str) :
    Result (Unit × LocalPodRegistry) := do
  let record ← self.record podId
  let containers := record.info.containers.filter (·.name ≠ containerName)
  if containers.length = record.info.containers.length then .error (.notFound containerName)
  else pure ((), self.putContainers podId record containers)

end LocalPodRegistry

end PodRegistry
