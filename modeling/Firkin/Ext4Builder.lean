import Firkin.FaultMonad
import Firkin.Ext4Path

/-! # The in-memory filesystem builder

The arena, the children lists and the path index are edited together, as the
methods of `FileSystemBuilder` do it. Indexing outside the arena and `u16`
overflow are panics; recursion that follows the arena carries fuel. -/
namespace Ext4Builder

open Ext4Types Ext4Path

def maxFileSize : Nat := 128 * 1024 * 1024 * 1024
def maxSymlinkLen : Nat := 4095
def lostFoundInode : Nat := 11

structure Xattr where
  name : Str
  value : List UInt8

inductive NodeContent where
  | directory
  | file (bytes : List UInt8)
  | symlink (target : Str)
  | whiteout
  | hardlink
  deriving DecidableEq

/-- `ee_start_hi` is always zero in this crate; it is kept for the encoding. -/
structure ExtentLeaf where
  block : Nat
  len : Nat
  startHi : Nat
  startLo : Nat

structure Node where
  name : Str
  parent : Option Nat
  children : List Nat := []
  content : NodeContent
  mode : FileMode
  uid : Nat := 0
  gid : Nat := 0
  xattrs : List Xattr := []
  inode : Option Nat := none
  startBlock : Nat := 0
  endBlock : Nat := 0
  dirLinkCount : Nat
  hardlinkTarget : Option Nat := none
  xattrBlock : Option Nat := none
  fileExtents : List ExtentLeaf := []
  extentLeafBlock : Option Nat := none
  deleted : Bool := false

structure FileSystemBuilder where
  blockSize : BlockSize
  uuid : Vector UInt8 16
  fsTimestamp : UInt32
  minSize : UInt64
  nodes : List Node
  pathIndex : Str → Option Nat

abbrev BuilderM := EStateM Fault FileSystemBuilder

def getNode (idx : Nat) : BuilderM Node := do
  match (← get).nodes[idx]? with
  | some node => pure node
  | none => throw (.panic .indexOutOfRange)

def FileSystemBuilder.updateNode (fs : FileSystemBuilder) (idx : Nat) (f : Node → Node) :
    FileSystemBuilder :=
  { fs with nodes := fs.nodes.modify idx f }

def modifyNode (idx : Nat) (f : Node → Node) : BuilderM Unit := do
  let _ ← getNode idx
  modify (·.updateNode idx f)

def pushNode (node : Node) : BuilderM Nat := do
  let fs ← get
  set { fs with nodes := fs.nodes ++ [node] }
  pure fs.nodes.length

def FileSystemBuilder.insertKey (fs : FileSystemBuilder) (key : Str) (idx : Nat) :
    FileSystemBuilder :=
  { fs with pathIndex := fun k => if k = key then some idx else fs.pathIndex k }

def FileSystemBuilder.removeKey (fs : FileSystemBuilder) (key : Str) : FileSystemBuilder :=
  { fs with pathIndex := fun k => if k = key then none else fs.pathIndex k }

def liftResult {α : Type} (r : Except Ext4Error α) : BuilderM α :=
  match r with
  | .ok a => pure a
  | .error e => throw (.err e)

/-- The `while` loop of `node_path`, collecting names from a node upwards. -/
def nodePathParts (nodes : List Node) : Nat → Option Nat → Option (List Str)
  | _, none => some []
  | 0, some _ => none
  | fuel + 1, some i => do
    let node ← nodes[i]?
    let parts ← nodePathParts nodes fuel node.parent
    pure (if node.name = [] then parts else node.name :: parts)

def nodePath (nodes : List Node) (idx : Nat) : Option Str :=
  if idx = 0 then some (str "/")
  else do
    let parts ← nodePathParts nodes nodes.length (some idx)
    pure (str "/" ++ List.intercalate (str "/") parts.reverse)

def askNodePath (idx : Nat) : BuilderM Str := do
  match nodePath (← get).nodes idx with
  | some path => pure path
  | none => throw (.panic .indexOutOfRange)

/-- `ensure_parent`, with the recursive creation of a missing ancestor abstracted. -/
def ensureParentWith (addDir : Str → BuilderM Nat) (path : Str) : BuilderM Nat := do
  let normalized := normalize path
  if normalized = [] ∨ normalized = [slash] then throw (.err (.invalidFilename path))
  else
    let (parentPath, base) := splitParent normalized
    if invalidBase base then throw (.err (.invalidFilename path))
    else if parentPath = [] then pure 0
    else
      match (← get).pathIndex parentPath with
      | some idx =>
        let node ← getNode idx
        if node.mode.isDir then pure idx else throw (.err (.pathConflict parentPath))
      | none => addDir parentPath

def fixedInodeOpt (n : Nat) : Option Nat := if n = 0 then none else some n

/-- The common end of the `add_*` methods: push the node, hang it under its parent and
index it. Only `add_dir_internal` counts a link on the parent. -/
def attachNode (parent : Nat) (node : Node) (countLink : Bool) (key : Str) : BuilderM Nat := do
  let idx ← pushNode node
  modifyNode parent fun p => { p with children := p.children ++ [idx] }
  if countLink then
    let links ← checkedAdd 16 (← getNode parent).dirLinkCount 1
    modifyNode parent fun p => { p with dirLinkCount := links }
  modify (·.insertKey key idx)
  pure idx

/-- `add_dir_internal` and `ensure_parent` call each other on shorter and shorter paths. -/
def addDirInternal : Nat → Str → FileMode → Nat → Nat → Nat → BuilderM Nat
  | 0, _, _, _, _, _ => throw (.panic .diverges)
  | fuel + 1, path, mode, uid, gid, fixedInode => do
    let key := normalize path
    match (← get).pathIndex key with
    | some idx =>
      let node ← getNode idx
      if node.mode.isDir then pure idx else throw (.err (.pathConflict path))
    | none =>
      let parent ← ensureParentWith (fun p => addDirInternal fuel p (FileMode.dir 0o755) 0 0 0) path
      let name ← liftResult (basename path)
      attachNode parent
        { name, parent := some parent, content := .directory, mode, uid, gid
          inode := fixedInodeOpt fixedInode, dirLinkCount := 2 } true key

def ensureParent (path : Str) : BuilderM Nat :=
  ensureParentWith (fun p => addDirInternal (path.length + 1) p (FileMode.dir 0o755) 0 0 0) path

/-- The end of `delete_subtree`: take the node out of its parent's list. -/
def unlinkNode (idx : Nat) (node : Node) : BuilderM Unit := do
  match node.parent with
  | none => pure ()
  | some parent =>
    modifyNode parent fun p => { p with children := p.children.filter (· ≠ idx) }
    let p ← getNode parent
    if node.mode.isDir ∧ p.dirLinkCount > 2 then
      modifyNode parent fun p => { p with dirLinkCount := p.dirLinkCount - 1 }
    else pure ()

def deleteSubtree : Nat → Nat → Bool → BuilderM Unit
  | 0, _, _ => throw (.panic .diverges)
  | fuel + 1, idx, unlinkFromParent => do
    let node ← getNode idx
    if node.deleted then pure ()
    else
      modifyNode idx fun n => { n with children := [] }
      node.children.forM fun child => deleteSubtree fuel child false
      let key ← askNodePath idx
      modify (·.removeKey (if key = str "/" then [] else key))
      modifyNode idx fun n => { n with deleted := true }
      if unlinkFromParent then unlinkNode idx node else pure ()

def runDeleteSubtree (idx : Nat) (unlinkFromParent : Bool) : BuilderM Unit := do
  deleteSubtree ((← get).nodes.length + 1) idx unlinkFromParent

def removeExistingLeaf (path : Str) (replacementMode : FileMode) : BuilderM Unit := do
  match (← get).pathIndex (normalize path) with
  | none => pure ()
  | some idx =>
    let node ← getNode idx
    if node.mode.isDir ≠ replacementMode.isDir then throw (.err (.pathConflict path))
    else runDeleteSubtree idx true

/-- The body shared by `add_leaf_node` and `add_hardlink`. -/
def insertLeaf (path : Str) (mode : FileMode) (node : Nat → Str → Node) : BuilderM Unit := do
  removeExistingLeaf path mode
  let parent ← ensureParent path
  let name ← liftResult (basename path)
  let _ ← attachNode parent (node parent name) false (normalize path)

def addLeafNode (path : Str) (content : NodeContent) (mode : FileMode) : BuilderM Unit :=
  insertLeaf path mode fun parent name =>
    { name, parent := some parent, content, mode, dirLinkCount := 0 }

def addDir (path : Str) (perm : UInt16) : BuilderM Unit := do
  let _ ← addDirInternal (path.length + 2) path (FileMode.dir perm) 0 0 0

def addFile (path : Str) (content : List UInt8) (perm : UInt16) : BuilderM Unit :=
  if content.length > maxFileSize then throw (.err (.fileTooLarge content.length maxFileSize))
  else addLeafNode path (.file content) (FileMode.regular perm)

def addWhiteout (path : Str) : BuilderM Unit := do
  let marker ← liftResult (whiteoutMarkerPath path)
  addLeafNode marker .whiteout (FileMode.charDevice 0)

def addOpaqueDir (path : Str) : BuilderM Unit :=
  addLeafNode (opaqueDirMarkerPath path) (.file []) (FileMode.regular 0)

def addSymlink (path target : Str) : BuilderM Unit :=
  if target.length > maxSymlinkLen then
    throw (.err (.symlinkTargetTooLong target.length maxSymlinkLen))
  else addLeafNode path (.symlink target) (FileMode.symlink 0o777)

def addHardlink (linkPath targetPath : Str) : BuilderM Unit := do
  match (← get).pathIndex (normalize targetPath) with
  | none => throw (.err (.invalidHardlinkTarget targetPath))
  | some targetIdx =>
    let target ← getNode targetIdx
    if target.mode.isDir then throw (.err (.invalidHardlinkTarget targetPath))
    else
      insertLeaf linkPath target.mode fun parent name =>
        { name, parent := some parent, content := .hardlink, mode := target.mode
          dirLinkCount := 0, hardlinkTarget := some targetIdx }

def setXattr (path name : Str) (value : List UInt8) : BuilderM Unit := do
  match (← get).pathIndex (normalize path) with
  | none => throw (.err (.pathConflict path))
  | some idx => modifyNode idx fun n => { n with xattrs := n.xattrs ++ [⟨name, value⟩] }

def removePath (path : Str) : BuilderM Unit := do
  match (← get).pathIndex (normalize path) with
  | none => pure ()
  | some idx => runDeleteSubtree idx true

def clearDir (path : Str) : BuilderM Unit := do
  match (← get).pathIndex (normalize path) with
  | none => pure ()
  | some idx =>
    let node ← getNode idx
    if node.mode.isDir then
      modifyNode idx fun n => { n with children := [] }
      node.children.forM fun child => runDeleteSubtree child false
      modifyNode idx fun n => { n with dirLinkCount := 2 }
    else throw (.err (.pathConflict path))

def rootNode : Node :=
  { name := [], parent := none, content := .directory, mode := FileMode.dir 0o755
    dirLinkCount := 2 }

/-- The builder before `lost+found` is added. -/
def rootOnly (blockSize : BlockSize) : FileSystemBuilder :=
  { blockSize, uuid := Vector.replicate 16 0, fsTimestamp := 0, minSize := 1024 * 1024
    nodes := [rootNode]
    pathIndex := fun k => if k = [] then some 0 else none }

/-- The result of adding `lost+found` is ignored, as in the source. -/
def FileSystemBuilder.new (blockSize : BlockSize) : FileSystemBuilder :=
  match addDirInternal 13 (str "/lost+found") (FileMode.dir 0o700) 0 0 lostFoundInode
      (rootOnly blockSize) with
  | .ok _ fs => fs
  | .error _ fs => fs

inductive Op where
  | addDir (path : Str) (perm : UInt16)
  | addFile (path : Str) (content : List UInt8) (perm : UInt16)
  | addSymlink (path target : Str)
  | addWhiteout (path : Str)
  | addOpaqueDir (path : Str)
  | addHardlink (linkPath targetPath : Str)
  | setXattr (path name : Str) (value : List UInt8)
  | removePath (path : Str)
  | clearDir (path : Str)
  | withMinSize (bytes : UInt64)
  | withUuid (uuid : Vector UInt8 16)
  | withTimestamp (secs : UInt32)

def Op.run : Op → BuilderM Unit
  | .addDir path perm => Ext4Builder.addDir path perm
  | .addFile path content perm => Ext4Builder.addFile path content perm
  | .addSymlink path target => Ext4Builder.addSymlink path target
  | .addWhiteout path => Ext4Builder.addWhiteout path
  | .addOpaqueDir path => Ext4Builder.addOpaqueDir path
  | .addHardlink linkPath targetPath => Ext4Builder.addHardlink linkPath targetPath
  | .setXattr path name value => Ext4Builder.setXattr path name value
  | .removePath path => Ext4Builder.removePath path
  | .clearDir path => Ext4Builder.clearDir path
  | .withMinSize bytes => modify fun fs => { fs with minSize := bytes }
  | .withUuid uuid => modify fun fs => { fs with uuid }
  | .withTimestamp secs => modify fun fs => { fs with fsTimestamp := secs }

end Ext4Builder
