import Firkin.LossyUtf8
import Firkin.Ext4Types
import Mathlib.Data.List.Sort

/-! # Garbage collection of snapshot artifacts

The plan keeps the artifact of each manifest by its path and spares every `*.manifest.json`.
The names of the other sidecars are derived from the artifact's by rewriting its extension, and
no part of the plan knows them. Artifacts lie directly under the root, so a path is the name of
an entry there. -/
namespace ArtifactGc

open Ext4Types

inductive ArtifactGcError where
  | filesystem (operation source : Str)
  deriving DecidableEq

/-- What `DirEntry::metadata` says; a symbolic link is neither a file nor a directory. -/
inductive FileType where
  | file
  | dir
  | other
  deriving DecidableEq

structure Metadata where
  fileType : FileType
  modified : Except Str Nat

structure Entry where
  name : Str
  metadata : Except Str Metadata

structure SnapshotArtifactManifest where
  path : Str

structure ArtifactGcPlan where
  keep : List Str
  delete : List Str
  deriving DecidableEq

def dot : UInt8 := 46

/-- `Path::file_stem`: up to the last dot, unless that is the first byte. -/
def fileStem (name : Str) : Str :=
  let before := ((name.reverse.dropWhile (· ≠ dot)).drop 1).reverse
  if before = [] then name else before

def withExtension (name extension : Str) : Str := fileStem name ++ dot :: extension

inductive Sidecar where
  | manifest
  | integrity
  | state
  deriving DecidableEq

instance {p : Sidecar → Prop} [DecidablePred p] : Decidable (∀ s, p s) :=
  decidable_of_iff (p .manifest ∧ p .integrity ∧ p .state)
    ⟨fun h s => Sidecar.casesOn s h.1 h.2.1 h.2.2, fun h => ⟨h _, h _, h _⟩⟩

def Sidecar.extension : Sidecar → Str
  | .manifest => str "manifest.json"
  | .integrity => str "integrity.json"
  | .state => str "state.json"

def SnapshotArtifactManifest.sidecarPath (m : SnapshotArtifactManifest) (s : Sidecar) : Str :=
  withExtension m.path s.extension

/-- `OsStr::to_str`. -/
def toStr (name : Str) : Option Str := if LossyUtf8.lossy name = name then some name else none

def isSnapshotManifestSidecar (name : Str) : Bool :=
  (toStr name).any fun name => (str ".manifest.json").isSuffixOf name

def filesystem (operation : String) (source : Str) : ArtifactGcError :=
  .filesystem (str operation) source

def collects (keep : List Str) (minUnreferencedAge now : Nat) (e : Entry) :
    Except ArtifactGcError Bool :=
  match e.metadata with
  | .error source => .error (filesystem "stat snapshot artifact" source)
  | .ok metadata =>
    if e.name ∉ keep ∧ !isSnapshotManifestSidecar e.name ∧ metadata.fileType ≠ .other then
      match metadata.modified with
      | .error source => .error (filesystem "stat snapshot artifact" source)
      -- a modification time in the future counts as age zero
      | .ok modified => .ok (minUnreferencedAge ≤ now - modified)
    else .ok false

def candidates (keep : List Str) (minUnreferencedAge now : Nat) :
    List (Except Str Entry) → Except ArtifactGcError (List Str)
  | [] => .ok []
  | .error source :: _ => .error (filesystem "read snapshot artifact entry" source)
  | .ok e :: entries =>
    match collects keep minUnreferencedAge now e with
    | .error error => .error error
    | .ok collected =>
      match candidates keep minUnreferencedAge now entries with
      | .error error => .error error
      | .ok delete => .ok (if collected then e.name :: delete else delete)

/-- `root` is what reading the directory gives: each entry in turn, or the host's error for it. -/
def forSnapshotDirWithRetention (root : Except Str (List (Except Str Entry)))
    (manifests : List SnapshotArtifactManifest) (minUnreferencedAge now : Nat) :
    Except ArtifactGcError ArtifactGcPlan :=
  let keep := manifests.map (·.path)
  match root with
  | .error source => .error (filesystem "read snapshot artifact directory" source)
  | .ok entries =>
    match candidates keep minUnreferencedAge now entries with
    | .error error => .error error
    | .ok delete => .ok ⟨keep, delete.insertionSort (· ≤ ·)⟩

structure Execution where
  entries : List Entry
  deleted : List Str
  error : Option ArtifactGcError

def isDir (entries : List Entry) (name : Str) : Bool :=
  entries.any fun e =>
    e.name = name && match e.metadata with
      | .ok metadata => metadata.fileType = .dir
      | .error _ => false

/-- Deletes until the host refuses one; `refuses` is its error, if any, for each name. -/
def execute (refuses : Str → Option Str) : List Str → List Entry → Execution
  | [], entries => ⟨entries, [], none⟩
  | name :: names, entries =>
    match refuses name with
    | some source =>
      ⟨entries, [], some (if isDir entries name then
        filesystem "delete snapshot artifact directory" source
        else filesystem "delete snapshot artifact file" source)⟩
    | none =>
      let rest := execute refuses names (entries.filter (·.name ≠ name))
      { rest with deleted := name :: rest.deleted }

theorem isSnapshotManifestSidecar_manifest (m : SnapshotArtifactManifest) :
    isSnapshotManifestSidecar (m.sidecarPath .manifest) =
      (toStr (m.sidecarPath .manifest)).isSome := by
  have hsuffix : str ".manifest.json" <:+ m.sidecarPath .manifest :=
    ⟨fileStem m.path, by rw [SnapshotArtifactManifest.sidecarPath]; rfl⟩
  unfold isSnapshotManifestSidecar toStr
  split <;> simp [hsuffix]

/-- No rewriting of an extension makes another sidecar look like a manifest. -/
theorem not_isSnapshotManifestSidecar (m : SnapshotArtifactManifest)
    (hs : s ≠ .manifest) : isSnapshotManifestSidecar (m.sidecarPath s) = false := by
  have hother : dot :: s.extension <:+ m.sidecarPath s := ⟨fileStem m.path, rfl⟩
  have hnot : ¬str ".manifest.json" <:+ m.sidecarPath s := by
    intro hmanifest
    cases s with
    | manifest => exact hs rfl
    | integrity =>
      have := List.suffix_of_suffix_length_le hmanifest hother (by decide)
      exact absurd this (by decide)
    | state =>
      have := List.suffix_of_suffix_length_le hother hmanifest (by decide)
      exact absurd this (by decide)
  have hsuffix : (str ".manifest.json").isSuffixOf (m.sidecarPath s) = false :=
    Bool.eq_false_iff.mpr fun h => hnot (List.isSuffixOf_iff_suffix.mp h)
  unfold isSnapshotManifestSidecar toStr
  split <;> simp [hsuffix]

def expired (minUnreferencedAge now : Nat) (e : Entry) : Bool :=
  match e.metadata with
  | .ok ⟨.other, _⟩ => false
  | .ok ⟨_, .ok modified⟩ => minUnreferencedAge ≤ now - modified
  | _ => false

section
variable {entries : List Entry}

theorem collects_true : collects keep age now e = .ok true ↔
    e.name ∉ keep ∧ isSnapshotManifestSidecar e.name = false ∧ expired age now e = true := by
  unfold collects expired
  rcases e.metadata with _ | ⟨_ | _ | _, _ | modified⟩ <;>
    by_cases hkept : e.name ∉ keep ∧ isSnapshotManifestSidecar e.name = false <;>
    simp [hkept] <;> tauto

theorem mem_candidates (h : candidates keep age now (entries.map .ok) = .ok delete) (name : Str) :
    name ∈ delete ↔ ∃ e ∈ entries, e.name = name ∧ collects keep age now e = .ok true := by
  induction entries generalizing delete with
  | nil =>
    cases h
    simp
  | cons e entries ih =>
    simp only [List.map_cons, candidates] at h
    cases hc : collects keep age now e with
    | error _ => simp [hc] at h
    | ok collected =>
      cases hd : candidates keep age now (entries.map .ok) with
      | error _ => simp [hc, hd] at h
      | ok rest =>
        simp only [hc, hd, Except.ok.injEq] at h
        subst h
        cases collected <;> simp [hc, ih hd, eq_comm]

theorem mem_delete
    (h : forSnapshotDirWithRetention (.ok (entries.map .ok)) manifests age now = .ok plan)
    (name : Str) :
    name ∈ plan.delete ↔ ∃ e ∈ entries, e.name = name ∧ (∀ m ∈ manifests, m.path ≠ name) ∧
      isSnapshotManifestSidecar name = false ∧ expired age now e = true := by
  simp only [forSnapshotDirWithRetention] at h
  split at h
  · cases h
  · next delete hd =>
    cases h
    simp only [List.mem_insertionSort, mem_candidates hd, collects_true]
    constructor <;> rintro ⟨e, he, rfl, hkeep, hrest⟩ <;>
      exact ⟨e, he, rfl, by simpa [eq_comm] using hkeep, hrest⟩
end

section
theorem execute_spec (entries : List Entry) :
    (execute refuses names entries).entries =
        entries.filter (·.name ∉ (execute refuses names entries).deleted) ∧
      (execute refuses names entries).deleted ⊆ names := by
  induction names generalizing entries with
  | nil => simp [execute]
  | cons name names ih =>
    cases hr : refuses name with
    | some source => simp [execute, hr]
    | none =>
      simp only [execute, hr]
      obtain ⟨hentries, hdeleted⟩ := ih (entries.filter (·.name ≠ name))
      rw [hentries]
      exact ⟨by simp [Bool.and_comm], List.cons_subset_cons name hdeleted⟩

theorem deleted_all : (execute (fun _ => none) names entries).deleted = names := by
  induction names generalizing entries with
  | nil => rfl
  | cons name names ih => simp only [execute, ih]
end

def SnapshotArtifactManifest.owns (m : SnapshotArtifactManifest) (name : Str) : Prop :=
  name = m.path ∨ ∃ s, name = m.sidecarPath s

/-- The artifacts and sidecars of the manifests are all left in place, and what is deleted are
entries of the root that belong to no manifest. -/
structure Preserved (manifests : List SnapshotArtifactManifest) (entries : List Entry)
    (x : Execution) : Prop where
  inPlace : ∀ m ∈ manifests, ∀ e ∈ entries, m.owns e.name → e ∈ x.entries
  unowned : ∀ name ∈ x.deleted, (∃ e ∈ entries, e.name = name) ∧ ∀ m ∈ manifests, ¬m.owns name

/-- Every integrity or state sidecar that has expired is itself the artifact of a manifest, and
so is every expired manifest sidecar whose name is no text. -/
def SidecarsKept (manifests : List SnapshotArtifactManifest) (age now : Nat)
    (entries : List Entry) : Prop :=
  ∀ m ∈ manifests, ∀ s, ∀ e ∈ entries, e.name = m.sidecarPath s → expired age now e = true →
    (s = .manifest ∧ (toStr e.name).isSome) ∨ ∃ m' ∈ manifests, m'.path = e.name

instance (manifests : List SnapshotArtifactManifest) (age now : Nat) (entries : List Entry) :
    Decidable (SidecarsKept manifests age now entries) :=
  inferInstanceAs (Decidable (∀ m ∈ manifests, ∀ s, ∀ e ∈ entries, e.name = m.sidecarPath s →
    expired age now e = true →
      (s = .manifest ∧ (toStr e.name).isSome) ∨ ∃ m' ∈ manifests, m'.path = e.name))

theorem gc_preserves_iff (entries : List Entry) (manifests : List SnapshotArtifactManifest)
    (age now : Nat) (plan : ArtifactGcPlan)
    (h : forSnapshotDirWithRetention (.ok (entries.map .ok)) manifests age now = .ok plan) :
    (∀ refuses, Preserved manifests entries (execute refuses plan.delete entries)) ↔
      SidecarsKept manifests age now entries := by
  constructor
  · intro hp m hm s e he hname hexpired
    by_contra hnot
    push Not at hnot
    obtain ⟨hmanifest, hkeep⟩ := hnot
    have hsidecar : isSnapshotManifestSidecar e.name = false := by
      by_cases hs : s = .manifest
      · subst hs
        have := hmanifest rfl
        rw [hname] at this ⊢
        rw [isSnapshotManifestSidecar_manifest]
        simpa using this
      · rw [hname]
        exact not_isSnapshotManifestSidecar m hs
    have hdelete := (mem_delete h e.name).mpr ⟨e, he, rfl, hkeep, hsidecar, hexpired⟩
    have hdeleted := (hp fun _ => none).unowned e.name (by rwa [deleted_all])
    exact hdeleted.2 m hm (.inr ⟨s, hname⟩)
  · intro hkept refuses
    have hunowned : ∀ name ∈ (execute refuses plan.delete entries).deleted,
        (∃ e ∈ entries, e.name = name) ∧ ∀ m ∈ manifests, ¬m.owns name := by
      intro name hname
      obtain ⟨e, he, rfl, hkeep, hsidecar, hexpired⟩ :=
        (mem_delete h name).mp ((execute_spec _).2 hname)
      refine ⟨⟨e, he, rfl⟩, ?_⟩
      rintro m hm (hpath | ⟨s, hs⟩)
      · exact hkeep m hm hpath.symm
      · rcases hkept m hm s e he hs hexpired with ⟨rfl, htext⟩ | ⟨m', hm', hpath⟩
        · rw [hs, isSnapshotManifestSidecar_manifest, ← hs, htext] at hsidecar
          cases hsidecar
        · exact hkeep m' hm' hpath
    refine ⟨fun m hm e he howns => ?_, hunowned⟩
    rw [(execute_spec _).1, List.mem_filter]
    refine ⟨he, ?_⟩
    simp only [decide_eq_true_eq]
    exact fun hd => (hunowned e.name hd).2 m hm howns

def file (name : String) (modified : Nat) : Entry := ⟨str name, .ok ⟨.file, .ok modified⟩⟩

def captured (modified : Nat) : List Entry :=
  [file "a.vz" 0, file "a.manifest.json" 0, file "a.integrity.json" modified,
    file "a.state.json" modified, file "b.vz" 0]

theorem gc_preserves_recent :
    Preserved [⟨str "a.vz"⟩] (captured 990)
      (execute (fun _ => none) [str "b.vz"] (captured 990)) :=
  (gc_preserves_iff (captured 990) [⟨str "a.vz"⟩] 60 1000 ⟨[str "a.vz"], [str "b.vz"]⟩
    (by decide +kernel)).mpr (by decide +kernel) fun _ => none

/-- Once they are older than the retention age, the sidecars of a snapshot that is still
referenced are deleted and its artifact can no longer be restored. -/
theorem gc_deletes_sidecars :
    forSnapshotDirWithRetention (.ok ((captured 0).map .ok)) [⟨str "a.vz"⟩] 60 1000 =
        .ok ⟨[str "a.vz"], [str "a.integrity.json", str "a.state.json", str "b.vz"]⟩ ∧
      ((execute (fun _ => none) [str "a.integrity.json", str "a.state.json", str "b.vz"]
        (captured 0)).entries.map (·.name)) = [str "a.vz", str "a.manifest.json"] ∧
      SnapshotArtifactManifest.sidecarPath ⟨str "a.vz"⟩ .integrity = str "a.integrity.json" ∧
      SnapshotArtifactManifest.sidecarPath ⟨str "a.vz"⟩ .state = str "a.state.json" := by
  decide +kernel

end ArtifactGc
