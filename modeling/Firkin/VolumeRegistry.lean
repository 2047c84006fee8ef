import Firkin.AdmissionAmounts
import Firkin.DecimalText
import Firkin.E2bTypes
import Mathlib.Data.List.DropRight

/-! # The volume registry

Volumes and their content. `create` counts before it looks whether the id is taken, so it
gives the registry back with every answer. -/
namespace VolumeRegistry

open Ext4Types DecimalText E2bTypes SortedTable Admission

structure VolumeInfo where
  volumeId : Str
  name : Str
  deriving DecidableEq

structure VolumeAndToken where
  volumeId : Str
  name : Str
  token : Str

inductive VolumeFileType where
  | unknown
  | file
  | directory
  | symlink
  deriving DecidableEq

structure VolumeEntryStat where
  name : Str
  kind : VolumeFileType
  path : Str
  size : Int64
  mode : UInt32
  uid : UInt32
  gid : UInt32
  atime : Str
  mtime : Str
  ctime : Str
  target : Option Str
  deriving DecidableEq

structure VolumeMetadataRequest where
  uid : Option UInt32 := none
  gid : Option UInt32 := none
  mode : Option UInt32 := none

structure VolumeWriteOptions where
  uid : Option UInt32 := none
  gid : Option UInt32 := none
  mode : Option UInt32 := none
  force : Option Bool := none

structure VolumeContentEntry where
  stat : VolumeEntryStat
  data : List UInt8
  deriving DecidableEq

structure VolumeRecord where
  info : VolumeInfo
  token : Str
  entries : Table Str VolumeContentEntry
  deriving DecidableEq

structure LocalVolumeRegistry where
  volumes : Table Str VolumeRecord := ∅
  nextVolumeId : UInt64 := 0
  deriving DecidableEq

abbrev Result := Except BackendError
def slash : UInt8 := 47
def timestamp : Str := str "2026-05-03T12:00:00Z"

def volumePathName (path : Str) : Str :=
  if path = [slash] then [slash]
  else ((path.splitOn slash).reverse.find? (!·.isEmpty)).getD [slash]

/-- Blanks around the path do not count, and then no slashes around it. -/
def normalizeVolumePath (path : Str) : Str :=
  let trimmed := TextTrim.trim TextTrim.whiteSpace path
  if trimmed = [] ∨ trimmed = [slash] then [slash]
  else slash :: ((trimmed.dropWhile (· = slash)).rdropWhile (· = slash))

def volumeEntryStat (path : Str) (kind : VolumeFileType) (size : Int64) (mode uid gid : UInt32) :
    VolumeEntryStat :=
  { name := volumePathName path, kind, path, size, mode, uid, gid
    atime := timestamp, mtime := timestamp, ctime := timestamp, target := none }

def rootVolumeEntry : VolumeContentEntry :=
  ⟨volumeEntryStat [slash] .directory 0 0o755 0 0, []⟩

namespace LocalVolumeRegistry

def create (self : LocalVolumeRegistry) (name : Str) :
    Result VolumeAndToken × LocalVolumeRegistry :=
  let nextVolumeId := saturatingAdd64 self.nextVolumeId 1
  let volumeId := str "vol_" ++ render nextVolumeId.toNat
  let token := str "tok_" ++ render nextVolumeId.toNat
  if volumeId ∈ self.volumes then
    (.error (.alreadyExists volumeId), { self with nextVolumeId })
  else
    (.ok ⟨volumeId, name, token⟩,
      { nextVolumeId
        volumes := self.volumes.insert volumeId
          ⟨⟨volumeId, name⟩, token,
            (∅ : Table Str VolumeContentEntry).insert [slash] rootVolumeEntry⟩ })

def volume (self : LocalVolumeRegistry) (volumeId : Str) : Result VolumeRecord :=
  match self.volumes[volumeId]? with
  | some record => .ok record
  | none => .error (.notFound volumeId)

def get (self : LocalVolumeRegistry) (volumeId : Str) : Result VolumeAndToken := do
  let record ← self.volume volumeId
  pure ⟨record.info.volumeId, record.info.name, record.token⟩

def list (self : LocalVolumeRegistry) : List VolumeInfo := (values self.volumes).map (·.info)

def delete (self : LocalVolumeRegistry) (volumeId : Str) : Bool × LocalVolumeRegistry :=
  (decide (volumeId ∈ self.volumes), { self with volumes := self.volumes.erase volumeId })

def entry (self : LocalVolumeRegistry) (volumeId path : Str) : Result VolumeContentEntry := do
  let record ← self.volume volumeId
  match record.entries[path]? with
  | some entry => pure entry
  | none => .error (.notFound path)

def putEntry (self : LocalVolumeRegistry) (volumeId : Str) (record : VolumeRecord) (path : Str)
    (entry : VolumeContentEntry) : LocalVolumeRegistry :=
  { self with
    volumes := self.volumes.insert volumeId
      { record with entries := record.entries.insert path entry } }

def listDir (self : LocalVolumeRegistry) (volumeId path : Str) :
    Result (List VolumeEntryStat) := do
  let path := normalizeVolumePath path
  let record ← self.volume volumeId
  let entry ← self.entry volumeId path
  if entry.stat.kind ≠ .directory then .error (.notFound path)
  else
    let parent := if path = [slash] then [slash] else path ++ [slash]
    pure ((record.entries.toList.filter fun (candidate, _) =>
      candidate ≠ path && parent.isPrefixOf candidate &&
        slash ∉ candidate.drop parent.length).map (·.2.stat))

def store (self : LocalVolumeRegistry) (volumeId path : Str) (opts : VolumeWriteOptions)
    (entry : Str → VolumeContentEntry) : Result (VolumeEntryStat × LocalVolumeRegistry) := do
  let path := normalizeVolumePath path
  let record ← self.volume volumeId
  if opts.force ≠ some true ∧ path ∈ record.entries then .error (.alreadyExists path)
  else pure ((entry path).stat, self.putEntry volumeId record path (entry path))

def makeDir (self : LocalVolumeRegistry) (volumeId path : Str) (opts : VolumeWriteOptions) :
    Result (VolumeEntryStat × LocalVolumeRegistry) :=
  self.store volumeId path opts fun path =>
    ⟨volumeEntryStat path .directory 0 (opts.mode.getD 0o755) (opts.uid.getD 0)
      (opts.gid.getD 0), []⟩

def pathInfo (self : LocalVolumeRegistry) (volumeId path : Str) : Result VolumeEntryStat := do
  let entry ← self.entry volumeId (normalizeVolumePath path)
  pure entry.stat

def updateMetadata (self : LocalVolumeRegistry) (volumeId path : Str)
    (metadata : VolumeMetadataRequest) : Result (VolumeEntryStat × LocalVolumeRegistry) := do
  let path := normalizeVolumePath path
  let record ← self.volume volumeId
  let entry ← self.entry volumeId path
  let stat := { entry.stat with
    uid := metadata.uid.getD entry.stat.uid, gid := metadata.gid.getD entry.stat.gid
    mode := metadata.mode.getD entry.stat.mode, ctime := timestamp }
  pure (stat, self.putEntry volumeId record path { entry with stat })

def readFile (self : LocalVolumeRegistry) (volumeId path : Str) : Result (List UInt8) := do
  let path := normalizeVolumePath path
  let entry ← self.entry volumeId path
  if entry.stat.kind ≠ .file then .error (.notFound path) else pure entry.data

/-- Sizes past the largest `i64` are stored as that. -/
def fileSize (data : List UInt8) : Int64 := Int64.ofNat (min data.length (2 ^ 63 - 1))

def writeFile (self : LocalVolumeRegistry) (volumeId path : Str) (data : List UInt8)
    (opts : VolumeWriteOptions) : Result (VolumeEntryStat × LocalVolumeRegistry) :=
  self.store volumeId path opts fun path =>
    ⟨volumeEntryStat path .file (fileSize data) (opts.mode.getD 0o644) (opts.uid.getD 0)
      (opts.gid.getD 0), data⟩

def removePath (self : LocalVolumeRegistry) (volumeId path : Str) :
    Result (Unit × LocalVolumeRegistry) := do
  let path := normalizeVolumePath path
  if path = [slash] then .error (.notFound path)
  else
    let record ← self.volume volumeId
    if path ∈ record.entries then
      pure ((), { self with
        volumes := self.volumes.insert volumeId
          { record with entries := record.entries.erase path } })
    else .error (.notFound path)

end LocalVolumeRegistry

end VolumeRegistry
