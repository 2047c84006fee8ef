import Firkin.Ext4Encoding

/-! # The image writer

`Finalizer` is the one-shot state machine behind `FileSystemBuilder::write`. Methods on
`&self` are functions of the state; methods on `&mut self` are computations on it. The
sink is any store with random access whose calls may fail: `fate` says of each call
whether it fails, and after how many bytes. -/
namespace Ext4Finalizer

open Ext4Types Ext4Builder ByteImage Ext4Layout Ext4Encoding

structure Sink where
  bytes : Image
  cursor : Nat := 0
  calls : Nat := 0
  fate : Nat → Option Nat := fun _ => none

structure Finalizer where
  fs : FileSystemBuilder
  out : Sink
  pos : Nat := 0
  inodes : List (Option Nat) := []
  inodeTable : List Inode256 := []
  nextFreeBlock : Nat := 0
  headerBlocks : Nat := 0
  blockGroups : Nat := 1
  inodesPerGroup : Nat := 0
  blocksPerGroup : Nat := 0
  totalDiskBlocksCache : Nat := 0
  totalUsedBlocksCache : Nat := 0
  inodeUsedCountCache : Nat := 0

abbrev FinalizerM := EStateM Fault Finalizer

def seekAbsolute (off : Nat) : FinalizerM Unit := do
  let s ← get
  let out := { s.out with calls := s.out.calls + 1 }
  match s.out.fate s.out.calls with
  | some _ =>
    set { s with out }
    throw (.err (.control "seek"))
  | none => set { s with out := { out with cursor := off }, pos := off }

def writeBytes (bytes : List UInt8) : FinalizerM Unit := do
  let s ← get
  let out := { s.out with calls := s.out.calls + 1 }
  match s.out.fate s.out.calls with
  | some done =>
    set { s with out := { out with bytes := overwrite out.bytes out.cursor (bytes.take done) } }
    throw (.err (.write s.pos bytes.length))
  | none =>
    set { s with
      out := { out with
        bytes := overwrite out.bytes out.cursor bytes
        cursor := out.cursor + bytes.length }
      pos := s.pos + bytes.length }

def flush : FinalizerM Unit := do
  let s ← get
  set { s with out := { s.out with calls := s.out.calls + 1 } }
  match s.out.fate s.out.calls with
  | some _ => throw (.err (.control "flush"))
  | none => pure ()

def seekToBlock (block : Nat) : FinalizerM Unit := do
  seekAbsolute (block * (← get).fs.blockSize.bytes)

/-- Zeros up to the next block boundary after `len` bytes. -/
def padBlock (blockSize len : Nat) : FinalizerM Unit :=
  if len % blockSize ≠ 0 then writeBytes (zeros (blockSize - len % blockSize)) else pure ()

def padRegion (consumed reserved : Nat) : FinalizerM Unit :=
  if consumed < reserved then writeBytes (zeros (reserved - consumed)) else pure ()

def ensureLen (len : Nat) : FinalizerM Unit :=
  if len = 0 then pure ()
  else do
    seekAbsolute (len - 1)
    writeBytes [0]

def node (self : Finalizer) (idx : Nat) : Except Fault Node := index self.fs.nodes idx
def inodeOf (self : Finalizer) (idx : Nat) : Except Fault (Option Nat) := index self.inodes idx

def modifyNode (idx : Nat) (f : Node → Node) : FinalizerM Unit := do
  let _ ← ofExcept (node (← get) idx)
  modify fun s => { s with fs := s.fs.updateNode idx f }

def firstDataBlock (self : Finalizer) : Nat := if self.fs.blockSize.bytes = 1024 then 1 else 0
def firstGdtBlock (self : Finalizer) : Nat := firstGdtBlockForSize self.fs.blockSize

structure Walk where
  inodes : List (Option Nat)
  next : Nat
  queue : List Nat

def visitChild (nodes : List Node) (w : Walk) (child : Nat) : Except Fault Walk := do
  let node ← index nodes child
  if node.deleted then pure w
  else
    let w ← match ← index w.inodes child with
      | some _ => pure w
      | none =>
        match node.hardlinkTarget with
        | some tgt => do
          let borrowed ← index w.inodes tgt
          pure { w with inodes := w.inodes.set child borrowed }
        | none => do
          let next ← u32Add w.next 1
          pure { w with inodes := w.inodes.set child (some w.next), next }
    pure { w with queue := w.queue ++ [child] }

def walkTree (nodes : List Node) : Nat → Walk → Except Fault Walk
  | 0, w => if w.queue = [] then pure w else throw (.panic .diverges)
  | fuel + 1, w =>
    match w.queue with
    | [] => pure w
    | parent :: queue => do
      let node ← index nodes parent
      let w ← node.children.foldlM (visitChild nodes) { w with queue }
      walkTree nodes fuel w

/-- The root has inode 2; other nodes start with the inode they were created with. -/
def fixedInodes (nodes : List Node) : List (Option Nat) :=
  nodes.mapIdx fun i node =>
    if i = 0 then some rootInode else if node.deleted then none else node.inode

/-- The `while` loop that sizes the inode table. -/
def growInodes (inc need : Nat) : Nat → Nat → Nat
  | 0, ipg => ipg
  | fuel + 1, ipg =>
    if ipg < need then growInodes inc need fuel (min (ipg + inc) (2 ^ 32 - 1)) else ipg

def tableSize (blockSize : BlockSize) (next : Nat) : Nat :=
  let bitsPerBitmap := blockSize.bytes * 8
  let need := max (next - 1) firstFreeInode
  let inc := blockSize.bytes * 64 / inodeSize
  min (growInodes inc need need inc) bitsPerBitmap

def sortedLiveChildren (self : Finalizer) (idx : Nat) : Except Fault (List Nat) := do
  let parent ← node self idx
  let live ← parent.children.filterM fun child => do
    let n ← node self child
    let ino ← inodeOf self child
    pure (!n.deleted && ino.isSome)
  pure (live.insertionSort fun a b =>
    ((self.inodes[a]?).join.getD 0) ≤ ((self.inodes[b]?).join.getD 0))

def directoryBlockCount (self : Finalizer) (idx : Nat) : Except Fault (Except Ext4Error Nat) := do
  let children ← sortedLiveChildren self idx
  let names ← children.mapM fun child => do
    let n ← node self child
    pure n.name
  pure (countDirBlocks self.fs.blockSize.bytes (str "." :: str ".." :: names) 1 0)

def estimateContent (self : Finalizer) (blocks : Nat) (node : Node) (idx : Nat) :
    Except Fault Nat :=
  match node.content with
  | .directory => do
    match ← directoryBlockCount self idx with
    | .ok n => u32Add blocks n
    | .error _ => u32Add blocks (2 ^ 32 - 1)
  | .file content =>
    if content = [] then pure blocks
    else do
      let fileBlocks := divCeilUsize content.length self.fs.blockSize.bytes
      let blocks ← u32Add blocks fileBlocks
      let extents := divCeil fileBlocks targetBlocksPerFileExtent
      if extents > maxExtentsPerInode then u32Add blocks 1 else pure blocks
  | .symlink target =>
    if target.length ≥ fastSymlinkMax then u32Add blocks 1 else pure blocks
  | .whiteout => pure blocks
  | .hardlink => pure blocks

def estimateNode (self : Finalizer) (blocks : Nat) (entry : Node × Nat) : Except Fault Nat := do
  let (node, idx) := entry
  if node.deleted ∨ (self.inodes[idx]?).join = none then pure blocks
  else if node.hardlinkTarget.isSome then pure blocks
  else
    let blocks ← estimateContent self blocks node idx
    if node.xattrs = [] then pure blocks
    else
      let fits ← xattrsFitInline node.xattrs
      if fits then pure blocks else u32Add blocks 1

def estimatePayloadBlocks (self : Finalizer) : Except Fault Nat :=
  self.fs.nodes.zipIdx.foldlM (estimateNode self) 0

def headerBlocksFor (blockSize : BlockSize) (groups : Nat) : Except Fault Nat := do
  let gdtBytes ← u32Mul groups groupDescSize
  let padded ← u32Add gdtBytes (blockSize.bytes - 1)
  u32Add (firstGdtBlockForSize blockSize) (max (padded / blockSize.bytes) 1)

def inodeTableBlocks (blockSize : BlockSize) (inodesPerGroup : Nat) : Nat :=
  (inodesPerGroup * inodeSize + blockSize.bytes - 1) / blockSize.bytes

/-- The `loop` of `estimate_block_groups`; the group count only grows and is a `u32`. -/
def settleGroups (blockSize : BlockSize) (blocksPerGroup tableBlocks payload minBlocks : Nat) :
    Nat → Nat → Except Fault Nat
  | 0, _ => throw (.panic .diverges)
  | fuel + 1, groups => do
    let header ← headerBlocksFor blockSize groups
    let metadata ← u32Mul groups (tableBlocks + 2)
    let used ← u32Add header payload
    let used ← u32Add used metadata
    let next := divCeil (max used minBlocks) blocksPerGroup
    let next := max (if next < 2 ^ 32 then next else 2 ^ 32 - 1) 1
    if next = groups then pure groups
    else settleGroups blockSize blocksPerGroup tableBlocks payload minBlocks fuel next

def estimateBlockGroups (self : Finalizer) (inodesPerGroup : Nat) : Except Fault Nat := do
  let blockSize := self.fs.blockSize
  let payload ← estimatePayloadBlocks self
  settleGroups blockSize (max self.blocksPerGroup 1) (inodeTableBlocks blockSize inodesPerGroup)
    payload (divCeil self.fs.minSize.toNat blockSize.bytes) (2 ^ 32) 1

def allocateInodes : FinalizerM Unit := do
  let s ← get
  let nodes := s.fs.nodes
  let _ ← ofExcept (index nodes 0)
  let w ← ofExcept (walkTree nodes (nodes.length + 1)
    { inodes := fixedInodes nodes, next := firstFreeInode + 1, queue := [0] })
  let ipg := tableSize s.fs.blockSize w.next
  let s := { s with
    inodes := w.inodes
    inodesPerGroup := ipg
    blocksPerGroup := s.fs.blockSize.bytes * 8 }
  let groups ← ofExcept (estimateBlockGroups s ipg)
  set { s with blockGroups := groups, inodeTable := List.replicate ipg Inode256.zeroed }

def layoutHeader : FinalizerM Unit := do
  let s ← get
  let header ← ofExcept (headerBlocksFor s.fs.blockSize s.blockGroups)
  set { s with headerBlocks := header, nextFreeBlock := header }
  seekToBlock header

def appendBlock (buf : Buf) : FinalizerM Unit := do
  let block := (← get).nextFreeBlock
  seekToBlock block
  writeBytes buf
  let next ← ofExcept (u32Add block 1)
  modify fun s => { s with nextFreeBlock := next }

/-- `.`, `..` and the children of a directory. -/
def dirEntries (self : Finalizer) (idx : Nat) : Except Fault (List DirEntrySpec) := do
  let dot ← unwrap (← inodeOf self idx)
  let n ← node self idx
  let dotdot ← unwrap (← inodeOf self (n.parent.getD idx))
  let children ← sortedLiveChildren self idx
  let entries ← children.mapM fun child => do
    let inode ← unwrap (← inodeOf self child)
    let c ← node self child
    pure { inode, name := c.name, fileType := c.mode.dirEntryType : DirEntrySpec }
  pure ({ inode := dot, name := str ".", fileType := (FileMode.dir 0o755).dirEntryType } ::
    { inode := dotdot, name := str "..", fileType := (FileMode.dir 0o755).dirEntryType } :: entries)

/-- The outer loop of `write_directory_block`; every block takes at least one entry. -/
def writeDirBlocks : Nat → List DirEntrySpec → FinalizerM Unit
  | _, [] => pure ()
  | 0, _ :: _ => throw (.panic .diverges)
  | fuel + 1, entry :: rest => do
    let bs := (← get).fs.blockSize.bytes
    let (buf, left) ← ofExcept (fillDirBlock bs (entry :: rest) 0 (zeros bs))
    appendBlock buf
    writeDirBlocks fuel left

def writeDirectoryBlock (idx : Nat) : FinalizerM Unit := do
  let s ← get
  let entries ← ofExcept (dirEntries s idx)
  writeDirBlocks entries.length entries
  let endBlock := (← get).nextFreeBlock
  modifyNode idx fun n => { n with startBlock := s.nextFreeBlock, endBlock }

def nodePathOf (self : Finalizer) (idx : Nat) : Except Fault Str :=
  match nodePath self.fs.nodes idx with
  | some path => pure path
  | none => throw (.panic .indexOutOfRange)

def askNodePath (idx : Nat) : FinalizerM Str := do
  ofExcept (nodePathOf (← get) idx)

def writeFileBlocks (idx : Nat) (content : List UInt8) : FinalizerM Unit := do
  if content = [] then
    modifyNode idx fun n =>
      { n with startBlock := 0, endBlock := 0, fileExtents := [], extentLeafBlock := none }
  else
    let s ← get
    let bs := s.fs.blockSize.bytes
    let start := s.nextFreeBlock
    seekToBlock start
    writeBytes content
    padBlock bs content.length
    let blocksWritten := (content.length + bs - 1) / bs % 2 ^ 32
    let endBlock ← ofExcept (u32Add start blocksWritten)
    modify fun s => { s with nextFreeBlock := endBlock }
    modifyNode idx fun n => { n with startBlock := start, endBlock }
    let path ← askNodePath idx
    let extents ← ofExcept (splitContiguousExtent 0 blocksWritten start targetBlocksPerFileExtent)
    if extents.length > maxExtentsPerInode then
      seekToBlock endBlock
      let buf ← ofExcept (writeExtentLeafBlock extents s.fs.blockSize (zeros bs) path)
      writeBytes buf
      let next ← ofExcept (u32Add endBlock 1)
      modify fun s => { s with nextFreeBlock := next }
      modifyNode idx fun n => { n with fileExtents := extents, extentLeafBlock := some endBlock }
    else
      modifyNode idx fun n => { n with fileExtents := extents, extentLeafBlock := none }

def writeSymlinkBlocks (idx : Nat) (target : Str) : FinalizerM Unit := do
  if target.length < fastSymlinkMax then
    modifyNode idx fun n => { n with startBlock := 0, endBlock := 0 }
  else
    let s ← get
    let bs := s.fs.blockSize.bytes
    seekToBlock s.nextFreeBlock
    let buf ← ofExcept (copyFromSlice (zeros bs) 0 target.length target)
    writeBytes buf
    let endBlock ← ofExcept (u32Add s.nextFreeBlock 1)
    modify fun t => { t with nextFreeBlock := endBlock }
    modifyNode idx fun n => { n with startBlock := s.nextFreeBlock, endBlock }

def writeNodeData (idx : Nat) : FinalizerM Unit := do
  let s ← get
  let n ← ofExcept (node s idx)
  if n.deleted then pure ()
  else
    let ino ← ofExcept (inodeOf s idx)
    if ino.isNone then pure ()
    else if n.hardlinkTarget.isSome then pure ()
    else
      match n.content with
      | .directory => writeDirectoryBlock idx
      | .file content => writeFileBlocks idx content
      | .symlink target => writeSymlinkBlocks idx target
      | .whiteout => pure ()
      | .hardlink => pure ()

def writeNodeXattrs (idx : Nat) : FinalizerM Unit := do
  let s ← get
  let n ← ofExcept (node s idx)
  if n.deleted then pure ()
  else
    let ino ← ofExcept (inodeOf s idx)
    if ino.isNone then pure ()
    else if n.xattrs = [] then pure ()
    else
      let fits ← ofExcept (xattrsFitInline n.xattrs)
      if fits then pure ()
      else
        seekToBlock s.nextFreeBlock
        let buf ← ofExcept (writeXattrBlock n.xattrs (zeros s.fs.blockSize.bytes))
        writeBytes buf
        let next ← ofExcept (u32Add s.nextFreeBlock 1)
        modify fun t => { t with nextFreeBlock := next }
        modifyNode idx fun n => { n with xattrBlock := some s.nextFreeBlock }

def nodesToProcess (self : Finalizer) : List Nat :=
  (List.range self.fs.nodes.length).insertionSort fun a b =>
    ((self.inodes[a]?).join.getD (2 ^ 32 - 1)) ≤ ((self.inodes[b]?).join.getD (2 ^ 32 - 1))

def writeDataRegion : FinalizerM Unit := do
  let s ← get
  (nodesToProcess s).forM writeNodeData
  (List.range s.fs.nodes.length).forM writeNodeXattrs

def willUseExtents (n : Node) : Bool :=
  match n.content with
  | .directory => true
  | .file c => decide (c ≠ [])
  | .symlink t => decide (t.length ≥ fastSymlinkMax)
  | .whiteout => false
  | .hardlink => false

def inodeFlags (n : Node) : Nat :=
  if willUseExtents n then inodeFlagExtents ||| inodeFlagHugeFile
  else match n.content with
    | .file _ => inodeFlagHugeFile
    | _ => 0

def inodeMetadata (fs : FileSystemBuilder) (n : Node) : InodeBody :=
  let stamp := fs.fsTimestamp.toNat
  let body : InodeBody :=
    { InodeBody.zeroed with
      mode := n.mode.bits.toNat
      uid := n.uid % 2 ^ 16
      uidHi := n.uid / 2 ^ 16
      gid := n.gid % 2 ^ 16
      gidHi := n.gid / 2 ^ 16
      atime := stamp
      ctime := stamp
      mtime := stamp
      crtime := stamp
      extraIsize := inodeExtraIsize
      flags := inodeFlags n }
  match n.content with
  | .directory =>
    { body with
      linksCount := n.dirLinkCount
      sizeLo := min ((n.endBlock - n.startBlock) * fs.blockSize.bytes) (2 ^ 32 - 1) }
  | .file c =>
    { body with linksCount := 1, sizeLo := c.length % 2 ^ 32, sizeHi := c.length / 2 ^ 32 }
  | .symlink t => { body with linksCount := 1, sizeLo := t.length }
  | .whiteout => { body with linksCount := 1 }
  | .hardlink => body

def sumLeaves (n : Node) : Except Fault Nat := do
  let blocks ← n.fileExtents.foldlM (fun sum leaf => u32Add sum leaf.len) 0
  if n.extentLeafBlock.isSome then u32Add blocks 1 else pure blocks

def encodeBlocks (self : Finalizer) (idx : Nat) (n : Node) (body : InodeBody) :
    Except Fault InodeBody :=
  match n.content with
  | .directory => do
    let block ← encodeInlineExtent body.block 0 (n.endBlock - n.startBlock) n.startBlock
    pure { body with block, blocksLo := n.endBlock - n.startBlock }
  | .file c =>
    if c = [] then pure body
    else if n.fileExtents = [] then
      throw (.err (.internal 0 "non-empty file missing serialized extents"))
    else do
      let path ← nodePathOf self idx
      let block ← encodeFileExtentRoot body.block n.fileExtents n.extentLeafBlock path
      let blocksLo ← sumLeaves n
      pure { body with block, blocksLo }
  | .symlink target =>
    if target.length < fastSymlinkMax then do
      let block ← copyFromSlice body.block 0 target.length target
      pure { body with block, blocksLo := 0 }
    else do
      let block ← encodeInlineExtent body.block 0 1 n.startBlock
      pure { body with block, blocksLo := 1 }
  | .whiteout => pure { body with blocksLo := 0 }
  | .hardlink => pure body

def encodeXattrs (n : Node) (body : InodeBody) : Except Fault Inode256 :=
  if n.xattrs = [] then pure { body, inlineXattrs := zeros inodeInlineXattrSize }
  else do
    let fits ← xattrsFitInline n.xattrs
    if fits then
      let inlineXattrs ← writeXattrInline n.xattrs (zeros inodeInlineXattrSize)
      pure { body, inlineXattrs }
    else
      match n.xattrBlock with
      | some xblock =>
        let blocksLo ← u32Add body.blocksLo 1
        pure { body := { body with fileAclLo := xblock, blocksLo }
               inlineXattrs := zeros inodeInlineXattrSize }
      | none => throw (.err (.internal 0 "xattr overflow but no xattr block allocated"))

def buildInodeRecord (self : Finalizer) (idx : Nat) : Except Fault Inode256 := do
  let n ← node self idx
  let body ← encodeBlocks self idx n (inodeMetadata self.fs n)
  encodeXattrs n body

def setInodeRecord (slot : Nat) (f : Inode256 → Except Fault Inode256) : FinalizerM Unit := do
  let s ← get
  let old ← ofExcept (index s.inodeTable slot)
  let record ← ofExcept (f old)
  set { s with inodeTable := s.inodeTable.set slot record }

def fillInodeRecord (idx : Nat) : FinalizerM Unit := do
  let s ← get
  let n ← ofExcept (node s idx)
  if n.deleted then pure ()
  else
    match ← ofExcept (inodeOf s idx) with
    | none => pure ()
    | some ino =>
      if n.hardlinkTarget.isSome then pure ()
      else
        let record ← ofExcept (buildInodeRecord s idx)
        setInodeRecord (ino - 1) fun _ => pure record

def countHardlink (idx : Nat) : FinalizerM Unit := do
  let s ← get
  let n ← ofExcept (node s idx)
  if n.deleted then pure ()
  else
    let ino ← ofExcept (inodeOf s idx)
    if ino.isNone then pure ()
    else
      match n.hardlinkTarget with
      | none => pure ()
      | some tgt =>
        let ino ← ofExcept (unwrap (← ofExcept (inodeOf s tgt)))
        setInodeRecord (ino - 1) fun record =>
          if record.body.linksCount + 1 < 2 ^ 16 then
            pure { record with
              body := { record.body with linksCount := record.body.linksCount + 1 } }
          else throw (.panic .arithmeticOverflow)

def finalizeInodeTable : FinalizerM Unit := do
  let count := (← get).fs.nodes.length
  (List.range count).forM fillInodeRecord
  (List.range count).forM countHardlink

/-- The inode table of the first group, then an empty one for every other group. -/
def writeInodeTables (tableBlocks : Nat) : FinalizerM Unit := do
  let s ← get
  seekToBlock s.nextFreeBlock
  writeBytes (s.inodeTable.flatMap Inode256.bytes)
  let expected := tableBlocks * s.fs.blockSize.bytes
  padRegion (s.inodeTable.length * inodeSize) expected
  (List.range (s.blockGroups - 1)).forM fun _ => writeBytes (zeros expected)

def blockBitmap (self : Finalizer) (totalUsed totalDisk group : Nat) :
    Except Fault (Buf × Nat) := do
  let offset ← u32Mul group self.blocksPerGroup
  let groupFirst ← u32Add (firstDataBlock self) offset
  -- the loop below computes `group_first + local` up to the last block of the group
  let _ ← u32Add groupFirst (self.blocksPerGroup - 1)
  let validBlocks := min (totalDisk - groupFirst) self.blocksPerGroup
  let usedBlocks := min (totalUsed - groupFirst) validBlocks
  let bits := (List.range self.blocksPerGroup).filter fun l =>
    decide (groupFirst + l < totalUsed) || decide (groupFirst + l ≥ totalDisk)
  pure (bits.foldl setBit (zeros self.fs.blockSize.bytes), validBlocks - usedBlocks)

def liveInodes (self : Finalizer) : Except Fault (List (Nat × Node)) := do
  let found ← self.inodes.zipIdx.mapM fun entry => do
    let n ← node self entry.2
    pure (if n.deleted then none else entry.1.map fun ino => (ino, n))
  pure (found.filterMap id)

def inodeBitmaps (self : Finalizer) (live : List (Nat × Node)) : List Buf :=
  let bs := self.fs.blockSize.bytes
  let reserved := (List.replicate self.blockGroups (zeros bs)).modify 0 fun bitmap =>
    (List.range 10).foldl setBit bitmap
  let used := live.foldl (fun bitmaps entry =>
    bitmaps.modify ((entry.1 - 1) / self.inodesPerGroup) fun bitmap =>
      setBit bitmap ((entry.1 - 1) % self.inodesPerGroup)) reserved
  used.map fun bitmap =>
    (List.range' self.inodesPerGroup (bs * 8 - self.inodesPerGroup)).foldl setBit bitmap

structure InodeCount where
  seen : List Nat
  usedByGroup : List Nat
  used : Nat
  dirs : Nat

def countUsed (inodesPerGroup : Nat) (c : InodeCount) (ino : Nat) : InodeCount :=
  if ino > 10 then
    { c with
      used := c.used + 1
      usedByGroup := c.usedByGroup.modify ((ino - 1) / inodesPerGroup) (· + 1) }
  else c

def countDir (c : InodeCount) (n : Node) : Except Fault InodeCount :=
  if n.mode.isDir then
    if c.dirs + 1 < 2 ^ 16 then pure { c with dirs := c.dirs + 1 }
    else throw (.panic .arithmeticOverflow)
  else pure c

def countInode (inodesPerGroup : Nat) (c : InodeCount) (entry : Nat × Node) :
    Except Fault InodeCount :=
  if entry.1 ∈ c.seen then pure c
  else countDir (countUsed inodesPerGroup { c with seen := entry.1 :: c.seen } entry.1) entry.2

def countInodes (self : Finalizer) (live : List (Nat × Node)) : Except Fault InodeCount :=
  live.foldlM (countInode self.inodesPerGroup)
    { seen := [], usedByGroup := (List.replicate self.blockGroups 0).set 0 10, used := 10
      dirs := 0 }

structure Tables where
  inodeTableStart : Nat
  tableBlocks : Nat
  blockBitmapStart : Nat
  inodeBitmapStart : Nat

def groupDescriptor (self : Finalizer) (tables : Tables) (free : List Nat) (count : InodeCount)
    (group : Nat) : Except Fault GroupDescriptor := do
  let blockBitmapLo ← u32Add tables.blockBitmapStart group
  let inodeBitmapLo ← u32Add tables.inodeBitmapStart group
  let skipped ← u32Mul group tables.tableBlocks
  let inodeTableLo ← u32Add tables.inodeTableStart skipped
  let freeBlocks ← index free group
  let usedInodes ← index count.usedByGroup group
  let freeInodes ← uintSub self.inodesPerGroup usedInodes
  pure { blockBitmapLo, inodeBitmapLo, inodeTableLo
         freeBlocksCountLo := freeBlocks % 2 ^ 16
         freeInodesCountLo := freeInodes % 2 ^ 16
         usedDirsCountLo := if group = 0 then count.dirs else 0 }

def writeGdt (descriptors : List GroupDescriptor) : FinalizerM Unit := do
  let s ← get
  seekToBlock (firstGdtBlock s)
  let bytes := descriptors.flatMap GroupDescriptor.bytes
  writeBytes bytes
  let reserved ← ofExcept (u32Mul (s.headerBlocks - firstGdtBlock s) s.fs.blockSize.bytes)
  padRegion (bytes.length % 2 ^ 32) reserved

def reserveTables (tableBlocks : Nat) : FinalizerM Tables := do
  let s ← get
  let allTables ← ofExcept (u32Mul tableBlocks s.blockGroups)
  let blockBitmapStart ← ofExcept (u32Add s.nextFreeBlock allTables)
  let inodeBitmapStart ← ofExcept (u32Add blockBitmapStart s.blockGroups)
  let next ← ofExcept (u32Add inodeBitmapStart s.blockGroups)
  set { s with nextFreeBlock := next }
  pure { inodeTableStart := s.nextFreeBlock, tableBlocks, blockBitmapStart, inodeBitmapStart }

/-- The size of the image in blocks: whole block groups, at least `min_size` bytes. -/
def totalDiskBlocks (self : Finalizer) (totalUsed : Nat) : Except Fault Nat := do
  let bs := self.fs.blockSize.bytes
  let groupBlocks ← u32Mul self.blocksPerGroup self.blockGroups
  let bytes := max (max totalUsed groupBlocks * bs) self.fs.minSize.toNat
  let groupBytes := self.blocksPerGroup * bs
  let aligned := (bytes + groupBytes - 1) / groupBytes * groupBytes
  pure (aligned / bs % 2 ^ 32)

def writeBitmapsAndGdt : FinalizerM Unit := do
  let s ← get
  let tableBlocks := inodeTableBlocks s.fs.blockSize s.inodesPerGroup
  writeInodeTables tableBlocks
  let tables ← reserveTables tableBlocks
  let totalUsed := (← get).nextFreeBlock
  let totalDisk ← ofExcept (totalDiskBlocks s totalUsed)
  modify fun t => { t with blockGroups := max (totalDisk / t.blocksPerGroup) 1 }
  let s ← get
  let groups := List.range s.blockGroups
  let bitmaps ← ofExcept (groups.mapM (blockBitmap s totalUsed totalDisk))
  let live ← ofExcept (liveInodes s)
  let count ← ofExcept (countInodes s live)
  seekToBlock tables.blockBitmapStart
  bitmaps.forM fun bitmap => writeBytes bitmap.1
  seekToBlock tables.inodeBitmapStart
  (inodeBitmaps s live).forM writeBytes
  let descriptors ← ofExcept (groups.mapM (groupDescriptor s tables (bitmaps.map Prod.snd) count))
  writeGdt descriptors
  ensureLen (totalDisk * s.fs.blockSize.bytes)
  modify fun t => { t with
    totalDiskBlocksCache := totalDisk
    totalUsedBlocksCache := totalUsed
    inodeUsedCountCache := count.used }

def superblockOf (self : Finalizer) (totalInodes freeInodes : Nat) : Superblock :=
  let stamp := self.fs.fsTimestamp.toNat
  { inodesCount := totalInodes
    blocksCountLo := self.totalDiskBlocksCache
    rBlocksCountLo := 0
    freeBlocksCountLo := self.totalDiskBlocksCache - self.totalUsedBlocksCache
    freeInodesCount := freeInodes
    firstDataBlock := firstDataBlock self
    logBlockSize := self.fs.blockSize.log
    logClusterSize := self.fs.blockSize.log
    blocksPerGroup := self.blocksPerGroup
    clustersPerGroup := self.blocksPerGroup
    inodesPerGroup := self.inodesPerGroup
    mtime := stamp
    wtime := stamp
    mntCount := 0
    maxMntCount := 0xFFFF
    magic := superblockMagic
    state := 1
    errors := 1
    minorRevLevel := 0
    lastcheck := stamp
    checkinterval := 0
    creatorOs := 0
    revLevel := 1
    firstIno := firstFreeInode
    inodeSize := Ext4Layout.inodeSize
    featureCompat := 0x0008 ||| 0x0200
    featureIncompat := 0x0002 ||| 0x0040 ||| 0x0200
    featureRoCompat := 0x0002 ||| 0x0008 ||| 0x0040
    uuid := self.fs.uuid
    descSize := groupDescSize
    mkfsTime := stamp
    minExtraIsize := inodeExtraIsize
    wantExtraIsize := inodeExtraIsize
    logGroupsPerFlex := 31
    lpfIno := lostFoundInode }

def writeSuperblock : FinalizerM Unit := do
  let s ← get
  let totalInodes ← ofExcept (u32Mul s.inodesPerGroup s.blockGroups)
  let freeInodes ← ofExcept (uintSub totalInodes s.inodeUsedCountCache)
  seekAbsolute superblockOffset
  writeBytes (superblockOf s totalInodes freeInodes).bytes

def run : FinalizerM Unit := do
  allocateInodes
  layoutHeader
  writeDataRegion
  finalizeInodeTable
  writeBitmapsAndGdt
  writeSuperblock
  flush

/-- `FileSystemBuilder::write`: the builder keeps what the run recorded on its nodes. -/
def write (fs : FileSystemBuilder) (out : Sink) : EStateM.Result Fault Finalizer Unit :=
  run { fs, out }

end Ext4Finalizer
