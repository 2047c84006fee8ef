import Firkin.Ext4BuilderReachable
import Firkin.LossyUtf8

/-! # Extracting OCI layers into a builder

A layer is the sequence of its tar entries as the archive reader yields them; whatever
the reader may refuse is optional. Every entry comes down to at most one method call. -/
namespace Ext4Layers

open Ext4Types Ext4Path Ext4Builder Ext4BuilderInvariant Ext4BuilderRuns Ext4BuilderTree List
open Ext4BuilderReachable FaultMonad LossyUtf8

inductive EntryKind where
  | directory
  | file
  | symlink
  | hardLink
  | other (debug : Str)

/-- `none` stands for an I/O error; a link name may also be missing. -/
structure TarEntry where
  path : Option (List UInt8)
  kind : EntryKind
  mode : Option UInt32
  content : Option (List UInt8)
  linkName : Option (Option (List UInt8))

abbrev Layer := Except String (List (Option TarEntry))

def emptyEntry (kind : EntryKind) (path : String) (mode : UInt32) : Option TarEntry :=
  some { path := some (str path), kind, mode := some mode, content := some []
         linkName := some none }

inductive Component where
  | rootDir
  | curDir
  | parentDir
  | normal (part : List UInt8)

/-- `Path::components`: a `.` counts only as the first component. -/
def components (path : List UInt8) : List Component :=
  (if path.head? = some slash then [.rootDir]
    else if (splitSlash path).head? = some (str ".") then [.curDir] else []) ++
  (splitSlash path).filterMap fun part =>
    if part = [] ∨ part = str "." then none
    else if part = str ".." then some .parentDir
    else some (.normal part)

def collectParts : List Component → Option (List Str)
  | [] => some []
  | .normal part :: rest => (collectParts rest).map (lossy part :: ·)
  | .curDir :: rest => collectParts rest
  | .parentDir :: _ => none
  | .rootDir :: _ => none

def pathToGuestString (path : List UInt8) : Str := lossy path

def tarPathToGuestString (path : List UInt8) : Except Ext4Error Str :=
  match collectParts (components path) with
  | none => .error (.unsupportedFeature (str "unsafe OCI layer path " ++ lossy path))
  | some [] => .ok (str "/")
  | some parts => .ok (str "/" ++ List.intercalate (str "/") parts)

/-- `Path::file_name` of a guest path, which has no empty or `.` component. -/
def fileName (path : Str) : Option Str :=
  let base := (splitParent path).2
  if base = [] ∨ base = str ".." then none else some base

def guestParentPath (path : Str) : Str :=
  let parent := (splitParent path).1
  if parent = [] then str "/" else parent

def appendGuestPath (parent child : Str) : Str :=
  if parent = str "/" then str "/" ++ child else parent ++ str "/" ++ child

def stripWhiteout (name : Str) : Option Str :=
  if (str ".wh.").isPrefixOf name then some (name.drop 4) else none

def opaqueMarker : Str := str ".wh..wh..opq"

def handleOciWhiteout (guestPath : Str) : BuilderM Bool := do
  match fileName guestPath with
  | none => pure false
  | some name =>
    if name = opaqueMarker then
      clearDir (guestParentPath guestPath)
      pure true
    else
      match stripWhiteout name with
      | none => pure false
      | some targetName =>
        removePath (appendGuestPath (guestParentPath guestPath) targetName)
        pure true

/-- The masked mode always fits, so the fallback of the source is never used. -/
def tarEntryMode (entry : TarEntry) : Except Ext4Error UInt16 :=
  match entry.mode with
  | none => .error (.control "read OCI layer mode")
  | some mode => .ok (mode &&& 0o7777).toUInt16

def tarLinkName (entry : TarEntry) (what : String) (missing : Str) :
    Except Ext4Error (List UInt8) :=
  match entry.linkName with
  | none => .error (.control what)
  | some none => .error (.unsupportedFeature missing)
  | some (some target) => .ok target

def extractEntry (entry : Option TarEntry) : BuilderM Unit := do
  match entry with
  | none => throw (.err (.control "read OCI layer entry"))
  | some entry =>
    match entry.path with
    | none => throw (.err (.control "read OCI layer entry path"))
    | some path =>
      let guestPath ← liftResult (tarPathToGuestString path)
      if ← handleOciWhiteout guestPath then pure ()
      else
        match entry.kind with
        | .directory =>
          if guestPath ≠ str "/" then
            addDir guestPath (← liftResult (tarEntryMode entry))
          else pure ()
        | .file =>
          match entry.content with
          | none => throw (.err (.control "read OCI layer file"))
          | some content => addFile guestPath content (← liftResult (tarEntryMode entry))
        | .symlink =>
          let target ← liftResult (tarLinkName entry "read OCI layer symlink"
            (str "symlink without target at " ++ guestPath))
          addSymlink guestPath (pathToGuestString target)
        | .hardLink =>
          let target ← liftResult (tarLinkName entry "read OCI layer hardlink"
            (str "hardlink without target at " ++ guestPath))
          addHardlink guestPath (← liftResult (tarPathToGuestString target))
        | .other debug =>
          throw (.err (.unsupportedFeature
            (str "OCI layer entry type " ++ debug ++ str " at " ++ guestPath)))

def extractLayer (layer : Layer) : BuilderM Unit :=
  match layer with
  | .error what => throw (.err (.control what))
  | .ok entries => entries.forM extractEntry

def writeLayersRaw (layers : List Layer) : BuilderM Unit := layers.forM extractLayer

/-- The guest path made of `parts`. -/
def guestString (parts : List Str) : Str := if parts = [] then str "/" else keyOf parts
def Part (s : Str) : Prop := Segment s ∧ s ≠ str ".."

theorem part_lossy (h0 : part ≠ []) (h1 : slash ∉ part)
    (h2 : part ≠ str "..") : Part (lossy part) := by
  refine ⟨⟨fun h => h0 (lossy_eq_nil.mp h), fun h => ?_⟩, fun h => ?_⟩
  · rcases mem_lossy h with h | h
    · exact h1 h
    · revert h; decide
  · have := lossy_ascii (by rw [h]; decide +kernel)
    exact h2 (this.symm.trans h)

theorem collectParts_parts
    (hcs : ∀ part, .normal part ∈ cs → part ≠ [] ∧ slash ∉ part ∧ part ≠ str "..")
    (h : collectParts cs = some parts) : ∀ s ∈ parts, Part s := by
  induction cs generalizing parts with
  | nil => cases h; simp
  | cons c cs ih =>
    have hrest : ∀ part, .normal part ∈ cs → part ≠ [] ∧ slash ∉ part ∧ part ≠ str ".." :=
      fun part hp => hcs part (mem_cons_of_mem _ hp)
    cases c with
    | normal part =>
      obtain ⟨ps, hps, rfl⟩ := Option.map_eq_some_iff.mp h
      obtain ⟨h0, h1, h2⟩ := hcs part mem_cons_self
      intro s hs
      rcases mem_cons.mp hs with rfl | hs
      · exact part_lossy h0 h1 h2
      · exact ih hrest hps s hs
    | curDir => exact ih hrest h
    | parentDir => cases h
    | rootDir => cases h

theorem mem_components (h : .normal part ∈ components path) :
    part ≠ [] ∧ slash ∉ part ∧ part ≠ str ".." := by
  rcases mem_append.mp h with h | h
  · split at h
    · simp at h
    · split at h <;> simp at h
  · obtain ⟨s, hs, he⟩ := mem_filterMap.mp h
    split at he
    · cases he
    · next h1 =>
      split at he
      · cases he
      · next h2 =>
        cases he
        exact ⟨fun e => h1 (.inl e), mem_splitSlash hs, h2⟩

theorem slash_join (parts : List Str) :
    (match parts with
      | [] => str "/"
      | p :: ps => str "/" ++ intercalate (str "/") (p :: ps)) = guestString parts := by
  cases parts with
  | nil => rfl
  | cons p ps => rw [guestString]; exact slash_intercalate p ps

def tarParts (path : List UInt8) : Except Ext4Error (List Str) :=
  match collectParts (components path) with
  | none => .error (.unsupportedFeature (str "unsafe OCI layer path " ++ lossy path))
  | some parts => .ok parts

theorem tarPathToGuestString_eq : tarPathToGuestString path = (tarParts path).map guestString := by
  unfold tarPathToGuestString tarParts
  match collectParts (components path) with
  | none => rfl
  | some [] => rfl
  | some (p :: ps) => exact congrArg Except.ok (slash_join (p :: ps))

theorem tarParts_parts (h : tarParts path = .ok parts) : ∀ s ∈ parts, Part s := by
  unfold tarParts at h
  cases hp : collectParts (components path) with
  | none => rw [hp] at h; cases h
  | some ps =>
    rw [hp] at h
    cases h
    exact collectParts_parts (fun part => mem_components) hp

variable {parts : List Str}

theorem segments_guestString (h : ∀ s ∈ parts, Part s) : segments (guestString parts) = parts := by
  unfold guestString
  split
  · next hp => rw [hp]; decide
  · exact segments_keyOf fun s hs => (h s hs).1

theorem guestString_eq_slash (h : ∀ s ∈ parts, Part s) :
    guestString parts = str "/" ↔ parts = [] := by
  constructor
  · intro he
    rw [← segments_guestString h, he]
    decide
  · rintro rfl
    rfl

theorem guestString_split (h : ∀ s ∈ q ++ [b], Part s) :
    fileName (guestString (q ++ [b])) = some b ∧
      guestParentPath (guestString (q ++ [b])) = guestString q := by
  have hb := h b (by simp)
  have hs : splitParent (guestString (q ++ [b])) = (keyOf q, b) := by
    rw [guestString, if_neg (by simp), splitParent_keyOf q hb.1]
  constructor
  · rw [fileName, hs]
    exact if_neg (by simp [hb.1.1, hb.2])
  · rw [guestParentPath, hs, guestString]
    simp only [keyOf_eq_nil]

theorem segments_appendGuestPath (h : ∀ s ∈ q, Part s) (ht : slash ∉ t) :
    segments (appendGuestPath (guestString q) t) = q ++ if t = [] then [] else [t] := by
  have hkey : appendGuestPath (guestString q) t = keyOf (q ++ [t]) := by
    unfold appendGuestPath
    split
    · next hq =>
      rw [(guestString_eq_slash h).mp hq]
      simp [show str "/" = [slash] from rfl]
    · next hq =>
      have hne : q ≠ [] := fun e => hq ((guestString_eq_slash h).mpr e)
      rw [guestString, if_neg hne]
      simp [show str "/" = [slash] from rfl]
  rw [hkey, segments_keyOf_filter]
  · rw [filter_append, filter_eq_self.mpr fun s hs => decide_eq_true (h s hs).1.1]
    by_cases he : t = [] <;> simp [he]
  · intro s hs
    rcases mem_append.mp hs with hs | hs
    · exact (h s hs).1.2
    · rwa [mem_singleton.mp hs]

/-- An entry as an action on the tree. `whiteout parent []` comes from a file called
just `.wh.`; the mode of an entry for the root directory is never read. -/
inductive Action where
  | root (perm : Option UInt16)
  | clear (dir : List Str)
  | whiteout (parent : List Str) (name : Str)
  | dir (path : List Str) (perm : UInt16)
  | file (path : List Str) (content : List UInt8) (perm : UInt16)
  | symlink (path : List Str) (target : Str)
  | link (path target : List Str)
  deriving DecidableEq

def markerAction (parts : List Str) : Option Action :=
  match parts.getLast? with
  | none => none
  | some name =>
    if name = opaqueMarker then some (.clear parts.dropLast)
    else (stripWhiteout name).map (.whiteout parts.dropLast)

def contentAction (entry : TarEntry) (parts : List Str) : Except Ext4Error Action :=
  match entry.kind with
  | .directory =>
    if parts = [] then .ok (.root (entry.mode.map fun mode => (mode &&& 0o7777).toUInt16))
    else (tarEntryMode entry).map (.dir parts)
  | .file =>
    match entry.content with
    | none => .error (.control "read OCI layer file")
    | some content => (tarEntryMode entry).map (.file parts content)
  | .symlink =>
    (tarLinkName entry "read OCI layer symlink"
      (str "symlink without target at " ++ guestString parts)).map fun target =>
        .symlink parts (pathToGuestString target)
  | .hardLink =>
    (tarLinkName entry "read OCI layer hardlink"
      (str "hardlink without target at " ++ guestString parts)).bind fun target =>
        (tarParts target).map (.link parts)
  | .other debug =>
    .error (.unsupportedFeature
      (str "OCI layer entry type " ++ debug ++ str " at " ++ guestString parts))

def entryAction (entry : Option TarEntry) : Except Ext4Error Action :=
  match entry with
  | none => .error (.control "read OCI layer entry")
  | some entry =>
    match entry.path with
    | none => .error (.control "read OCI layer entry path")
    | some path =>
      (tarParts path).bind fun parts =>
        match markerAction parts with
        | some action => .ok action
        | none => contentAction entry parts

/-- The method an action calls; an entry for the root directory calls none. -/
def Action.call : Action → Option Op
  | .root _ => none
  | .clear d => some (.clearDir (guestString d))
  | .whiteout parent name => some (.removePath (appendGuestPath (guestString parent) name))
  | .dir path perm => some (.addDir (guestString path) perm)
  | .file path content perm => some (.addFile (guestString path) content perm)
  | .symlink path target => some (.addSymlink (guestString path) target)
  | .link path target => some (.addHardlink (guestString path) (guestString target))

def Action.run (a : Action) : BuilderM Unit :=
  match a.call with
  | none => pure ()
  | some op => op.run

theorem handleOciWhiteout_eq (h : ∀ s ∈ parts, Part s) :
    handleOciWhiteout (guestString parts) = match markerAction parts with
      | some a => (do a.run; pure true)
      | none => pure false := by
  rcases eq_nil_or_concat parts with rfl | ⟨q, b, rfl⟩
  · rfl
  · rw [concat_eq_append] at h ⊢
    obtain ⟨hf, hp⟩ := guestString_split h
    simp only [handleOciWhiteout, markerAction, hf, hp, getLast?_append_of_ne_nil, ne_eq,
      cons_ne_nil, not_false_eq_true, getLast?_singleton, dropLast_concat]
    split
    · rfl
    · cases stripWhiteout b <;> rfl

theorem run_liftResult {α : Type} (r : Except Ext4Error α) (fs : FileSystemBuilder) :
    liftResult r fs = match r with
      | .ok a => .ok a fs
      | .error e => .error (.err e) fs := by
  cases r <;> rfl

theorem extractEntry_eq :
    extractEntry entry fs = match entryAction entry with
      | .ok a => a.run fs
      | .error e => .error (.err e) fs := by
  cases entry with
  | none => rfl
  | some entry =>
    simp only [extractEntry, entryAction]
    cases entry.path with
    | none => rfl
    | some path =>
      simp only [run_bind, run_liftResult, tarPathToGuestString_eq]
      cases hparts : tarParts path with
      | error e => rfl
      | ok parts =>
        have hp := tarParts_parts hparts
        simp only [Except.map, Except.bind, handleOciWhiteout_eq hp]
        cases markerAction parts with
        | some a =>
          simp only [run_bind]
          cases a.run fs <;> rfl
        | none =>
          simp only [run_pure, contentAction, Bool.false_eq_true, if_false, ne_eq,
            guestString_eq_slash hp]
          cases entry.kind with
          | directory =>
            by_cases hr : parts = []
            · simp [hr, Action.run, Action.call]
            · simp only [hr, not_false_eq_true]
              cases tarEntryMode entry with
              | error e => rfl
              | ok perm => rfl
          | file =>
            cases entry.content with
            | none => rfl
            | some content =>
              cases tarEntryMode entry <;> rfl
          | symlink =>
            cases tarLinkName entry _ _ <;> rfl
          | hardLink =>
            simp only [run_bind, run_liftResult]
            cases tarLinkName entry _ _ with
            | error e => rfl
            | ok target =>
              simp only [Except.bind]
              cases tarParts target <;> rfl
          | other debug => rfl

def Action.Proper : Action → Prop
  | .root _ => True
  | .clear d => ∀ s ∈ d, Part s
  | .whiteout parent name => (∀ s ∈ parent, Part s) ∧ slash ∉ name
  | .dir path _ => (∀ s ∈ path, Part s) ∧ path ≠ []
  | .file path _ _ => ∀ s ∈ path, Part s
  | .symlink path _ => ∀ s ∈ path, Part s
  | .link path target => (∀ s ∈ path, Part s) ∧ ∀ s ∈ target, Part s

variable {a : Action}

theorem markerAction_proper (h : ∀ s ∈ parts, Part s)
    (ha : markerAction parts = some a) : a.Proper := by
  rcases eq_nil_or_concat parts with rfl | ⟨q, b, rfl⟩
  · cases ha
  · rw [concat_eq_append] at h ha
    simp only [markerAction, getLast?_append_of_ne_nil, ne_eq, cons_ne_nil, not_false_eq_true,
      getLast?_singleton, dropLast_concat] at ha
    have hq : ∀ s ∈ q, Part s := fun s hs => h s (by simp [hs])
    split at ha
    · cases ha
      exact hq
    · unfold stripWhiteout at ha
      split at ha
      · cases ha
        exact ⟨hq, fun hs => (h b (by simp)).1.2 (mem_of_mem_drop hs)⟩
      · cases ha

theorem contentAction_proper (h : ∀ s ∈ parts, Part s)
    (ha : contentAction entry parts = .ok a) : a.Proper := by
  unfold contentAction at ha
  cases hk : entry.kind with
  | directory =>
    simp only [hk] at ha
    split at ha
    · cases ha; trivial
    · next hne =>
      cases hm : tarEntryMode entry with
      | error e => simp [hm, Except.map] at ha
      | ok perm =>
        simp only [hm, Except.map, Except.ok.injEq] at ha
        subst ha
        exact ⟨h, hne⟩
  | file =>
    simp only [hk] at ha
    cases hc : entry.content with
    | none => simp [hc] at ha
    | some content =>
      cases hm : tarEntryMode entry with
      | error e => simp [hc, hm, Except.map] at ha
      | ok perm =>
        simp only [hc, hm, Except.map, Except.ok.injEq] at ha
        subst ha
        exact h
  | symlink =>
    simp only [hk] at ha
    cases hm : tarLinkName entry "read OCI layer symlink"
        (str "symlink without target at " ++ guestString parts) with
    | error e => simp [hm, Except.map] at ha
    | ok target =>
      simp only [hm, Except.map, Except.ok.injEq] at ha
      subst ha
      exact h
  | hardLink =>
    simp only [hk] at ha
    cases hm : tarLinkName entry "read OCI layer hardlink"
        (str "hardlink without target at " ++ guestString parts) with
    | error e => simp [hm, Except.bind] at ha
    | ok target =>
      cases ht : tarParts target with
      | error e => simp [hm, ht, Except.bind, Except.map] at ha
      | ok ps =>
        simp only [hm, ht, Except.bind, Except.map, Except.ok.injEq] at ha
        subst ha
        exact ⟨h, tarParts_parts ht⟩
  | other debug => simp [hk] at ha

theorem entryAction_proper (h : entryAction entry = .ok a) : a.Proper := by
  cases entry with
  | none => cases h
  | some entry =>
    simp only [entryAction] at h
    cases hp : entry.path with
    | none => simp [hp] at h
    | some path =>
      cases hparts : tarParts path with
      | error e => simp [hp, hparts, Except.bind] at h
      | ok parts =>
        simp only [hp, hparts, Except.bind] at h
        have hpp := tarParts_parts hparts
        cases hm : markerAction parts with
        | some a' =>
          simp only [hm, Except.ok.injEq] at h
          exact h ▸ markerAction_proper hpp hm
        | none =>
          simp only [hm] at h
          exact contentAction_proper hpp h

def Action.onTree {ι : Type} (id : ι) : Action → FsTree ι → Option (FsTree ι)
  | .root _, T => some T
  | .clear d, T => PathTree.clear d T
  | .whiteout parent name, T =>
    some (PathTree.remove (parent ++ if name = [] then [] else [name]) T)
  | .dir path perm, T => PathTree.addDir parentMode path (FileMode.dir perm) T
  | .file path content perm, T =>
    PathTree.addLeaf parentMode path ⟨id, FileMode.regular perm, some (.file content)⟩ T
  | .symlink path target, T =>
    PathTree.addLeaf parentMode path ⟨id, FileMode.symlink 0o777, some (.symlink target)⟩ T
  | .link path target, T => PathTree.addLink parentMode path target T

theorem onTree_call {ι : Type} {id : ι} (h : a.Proper) {T} :
    a.onTree id T = match a.call with
      | none => some T
      | some op => treeOp id op T := by
  cases a with
  | root perm => rfl
  | clear d => simp only [Action.call, treeOp, segments_guestString h, Action.onTree]
  | whiteout parent name =>
    simp only [Action.call, treeOp, segments_appendGuestPath h.1 h.2, Action.onTree]
  | dir path perm => simp only [Action.call, treeOp, segments_guestString h.1, Action.onTree]
  | file | symlink => simp only [Action.call, treeOp, segments_guestString h, Action.onTree]
  | link path target =>
    simp only [Action.call, treeOp, segments_guestString h.1, segments_guestString h.2,
      Action.onTree]

def Action.MakesInode : Action → Prop
  | .file _ _ _ | .symlink _ _ => True
  | _ => False

variable {fs fs' : FileSystemBuilder}

theorem action_evolves (wf : WellFormed fs) (hr : a.run fs = .ok () fs') : Evolves fs fs' := by
  unfold Action.run at hr
  cases hc : a.call with
  | none =>
    rw [hc] at hr
    cases hr
    exact .refl wf
  | some op =>
    rw [hc] at hr
    have hset := settled_run wf op
    rw [show op.run fs = .ok () fs' from hr] at hset
    exact hset

/-- Extracting an entry is its action on the tree; a new inode is the last node. -/
theorem action_refines (h : a.Proper) (wf : WellFormed fs) (hr : a.run fs = .ok () fs') :
    a.onTree (fs'.nodes.length - 1) (treeOf fs) = some (treeOf fs') ∧
      (a.MakesInode → fs.nodes.length < fs'.nodes.length) := by
  rw [onTree_call h]
  unfold Action.run at hr
  cases hc : a.call with
  | none =>
    rw [hc] at hr
    cases hr
    refine ⟨rfl, fun hm => ?_⟩
    cases a <;> simp [Action.MakesInode, Action.call] at hm hc
  | some op =>
    rw [hc] at hr
    obtain ⟨h1, h2⟩ := run_refines wf hr
    refine ⟨h1, fun hm => h2 ?_⟩
    cases a <;> simp [Action.call] at hm hc <;> subst hc <;> trivial

theorem extractEntry_ok :
    extractEntry entry fs = .ok () fs' ↔ ∃ a, entryAction entry = .ok a ∧
      a.run fs = .ok () fs' := by
  rw [extractEntry_eq]
  cases entryAction entry <;> simp

theorem extractEntries_evolves {entries : List (Option TarEntry)} (wf : WellFormed fs)
    (h : entries.forM extractEntry fs = .ok () fs') : Evolves fs fs' := by
  refine forM_invariant (P := Evolves fs) (fun e _ u v hu hv => ?_) h (.refl wf)
  obtain ⟨a, _, hr⟩ := extractEntry_ok.mp hv
  exact hu.trans (action_evolves hu.wf hr)

/-- The entries of a stack of layers, in the order in which they are met. -/
def layerEntries : List Layer → List (Option TarEntry)
  | [] => []
  | .ok entries :: layers => entries ++ layerEntries layers
  | .error _ :: _ => []

theorem writeLayersRaw_ok :
    writeLayersRaw layers fs = .ok () fs' ↔
      (∀ layer ∈ layers, ∃ entries, layer = .ok entries) ∧
        (layerEntries layers).forM extractEntry fs = .ok () fs' := by
  unfold writeLayersRaw
  induction layers generalizing fs with
  | nil => simp [layerEntries]
  | cons layer layers ih =>
    rw [forM_cons_ok]
    cases layer with
    | error what => simp [extractLayer, run_throw]
    | ok entries =>
      simp only [layerEntries, forM_append_ok, ih, forall_mem_cons]
      tauto

/-- Entry `e` is applied in state `fs` while `entries` are extracted into `fs₀`. -/
def AppliedIn (fs₀ : FileSystemBuilder) (entries : List (Option TarEntry))
    (e : Option TarEntry) (fs : FileSystemBuilder) : Prop :=
  ∃ done, done ++ [e] <+: entries ∧ done.forM extractEntry fs₀ = .ok () fs

theorem AppliedIn.wellFormed (wf : WellFormed fs₀) (h : AppliedIn fs₀ entries e fs) :
    WellFormed fs := by
  obtain ⟨done, _, hr⟩ := h
  exact (extractEntries_evolves wf hr).wf

theorem extract_snoc :
    (done ++ [e]).forM extractEntry fs₀ = .ok () fs' ↔
      ∃ fs, done.forM extractEntry fs₀ = .ok () fs ∧ extractEntry e fs = .ok () fs' := by
  simp only [forM_append_ok, forM_cons_ok, forM_nil_ok, exists_eq_right']

theorem whiteout_run (wf : WellFormed fs) (parent : List Str) (name : Str) :
    ∃ fs', (Action.whiteout parent name).run fs = .ok () fs' := by
  let target := appendGuestPath (guestString parent) name
  cases hk : fs.pathIndex (Ext4Path.normalize target) with
  | none => exact ⟨fs, removePath_absent hk⟩
  | some idx =>
    obtain ⟨fs', he, _⟩ := removePath_present wf hk
    exact ⟨fs', he⟩

end Ext4Layers
