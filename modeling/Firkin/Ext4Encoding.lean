import Firkin.Ext4Layout

/-! # Encoders of the image writer

The free functions of the writer: directory entries, extent trees and extended attributes, each
filling a buffer it was handed. `u32` arithmetic is checked, as in a build with overflow checks;
`usize` and `u64` sums cannot reach their limits. Slicing past the end of a buffer and copying
between slices of different lengths are panics. -/
namespace Ext4Encoding

open Ext4Types Ext4Builder Ext4Layout

def fastSymlinkMax : Nat := 60
def targetBlocksPerFileExtent : Nat := 4096
abbrev Buf := List UInt8

def u32Add (a b : Nat) : Except Fault Nat :=
  if a + b < 2 ^ 32 then .ok (a + b) else .error (.panic .arithmeticOverflow)

def u32Mul (a b : Nat) : Except Fault Nat :=
  if a * b < 2 ^ 32 then .ok (a * b) else .error (.panic .arithmeticOverflow)

def uintSub (a b : Nat) : Except Fault Nat :=
  if b ≤ a then .ok (a - b) else .error (.panic .arithmeticOverflow)

def index {α : Type} (l : List α) (i : Nat) : Except Fault α :=
  match l[i]? with
  | some a => .ok a
  | none => .error (.panic .indexOutOfRange)

def unwrap {α : Type} : Option α → Except Fault α
  | some a => .ok a
  | none => .error (.panic .unwrapNone)

/-- `buf[lo..hi].copy_from_slice(src)`. -/
def copyFromSlice (buf : Buf) (lo hi : Nat) (src : List UInt8) : Except Fault Buf :=
  if hi < lo ∨ buf.length < hi then .error (.panic .indexOutOfRange)
  else if src.length ≠ hi - lo then .error (.panic .sliceMismatch)
  else .ok (buf.take lo ++ src ++ buf.drop hi)

/-- `div_ceil_u64` and `div_ceil_u32`. -/
def divCeil (n d : Nat) : Nat := if n = 0 then 0 else 1 + (n - 1) / d

def divCeilUsize (n d : Nat) : Nat :=
  if divCeil n d < 2 ^ 32 then divCeil n d else 2 ^ 32 - 1

def firstGdtBlockForSize (blockSize : BlockSize) : Nat :=
  if blockSize.bytes = 1024 then 2 else 1

/-- `(n + 3) & !3`. -/
def align4 (n : Nat) : Nat := (n + 3) / 4 * 4

structure DirEntrySpec where
  inode : Nat
  name : Str
  fileType : UInt8

def dirEntryMinLen (name : Str) : Nat := align4 (8 + name.length)

def dirRecLen (lastInBlock : Bool) (blockSize off aligned : Nat) : Except Fault Nat :=
  if lastInBlock then uintSub blockSize off else pure aligned

def writeDirEntry (buf : Buf) (off blockSize : Nat) (entry : DirEntrySpec) (lastInBlock : Bool) :
    Except Fault (Buf × Nat) := do
  let recLen ← dirRecLen lastInBlock blockSize off (dirEntryMinLen entry.name)
  if recLen > 65535 ∨ off + recLen > blockSize then
    throw (.err (.dirEntryOverflow entry.name (min recLen 65535)))
  else
    let hdr : DirEntryHeader :=
      { inode := entry.inode, recLen, nameLen := entry.name.length, fileType := entry.fileType }
    let buf ← copyFromSlice buf off (off + 8) hdr.bytes
    let buf ← copyFromSlice buf (off + 8) (off + 8 + entry.name.length) entry.name
    pure (buf, off + recLen)

def writeDirEntryTail (buf : Buf) (off blockSize : Nat) : Except Fault Buf :=
  if off ≥ blockSize then pure buf
  else
    let recLen := blockSize - off
    if recLen < 8 ∨ recLen > 65535 then throw (.err (.dirEntryOverflow [] (recLen % 2 ^ 16)))
    else copyFromSlice buf off (off + 8)
      ({ inode := 0, recLen, nameLen := 0, fileType := 0 } : DirEntryHeader).bytes

/-- The inner loop of `write_directory_block`: fill one block from `off` on and return
the entries that are left. -/
def fillDirBlock (blockSize : Nat) : List DirEntrySpec → Nat → Buf →
    Except Fault (Buf × List DirEntrySpec)
  | [], _, buf => pure (buf, [])
  | entry :: rest, off, buf =>
    let entryLen := dirEntryMinLen entry.name
    if off + entryLen > blockSize then
      if off = 0 then throw (.err (.dirEntryOverflow entry.name (min entryLen 65535)))
      else do
        let buf ← writeDirEntryTail buf off blockSize
        pure (buf, entry :: rest)
    else do
      let nextFits := match rest with
        | [] => false
        | next :: _ => decide (off + entryLen + dirEntryMinLen next.name ≤ blockSize)
      let (buf, off) ← writeDirEntry buf off blockSize entry !nextFits
      if nextFits then fillDirBlock blockSize rest off buf else pure (buf, rest)

/-- The loop of `directory_block_count`, from `blocks` blocks with `off` bytes used. -/
def countDirBlocks (blockSize : Nat) : List Str → Nat → Nat → Except Ext4Error Nat
  | [], blocks, _ => pure blocks
  | name :: rest, blocks, off =>
    let entryLen := dirEntryMinLen name
    if entryLen > blockSize then throw (.dirEntryOverflow name (min entryLen 65535))
    else if off + entryLen > blockSize then
      countDirBlocks blockSize rest (min (blocks + 1) (2 ^ 32 - 1)) entryLen
    else countDirBlocks blockSize rest blocks (off + entryLen)

/-- The loop of `split_contiguous_extent`; each pass takes at least one block. -/
def splitLoop (maxLen : Nat) : Nat → Nat → Nat → Nat → Except Fault (List ExtentLeaf)
  | 0, _, _, _ => pure []
  | fuel + 1, remaining, disk, logical =>
    if remaining = 0 then pure []
    else do
      let len := min remaining maxLen % 2 ^ 16
      let nextDisk ← u32Add disk len
      let nextLogical ← u32Add logical len
      let rest ← splitLoop maxLen fuel (remaining - len) nextDisk nextLogical
      pure ({ block := logical, len, startHi := 0, startLo := disk } :: rest)

def splitContiguousExtent (logicalStart blocks diskStart maxBlocksPerExtent : Nat) :
    Except Fault (List ExtentLeaf) :=
  splitLoop (min maxBlocksPerExtent Ext4Layout.maxBlocksPerExtent) blocks blocks diskStart
    logicalStart

def extentLeafCapacity (blockSize : BlockSize) : Nat := (blockSize.bytes - 12) / 12

def copyLeaves : List ExtentLeaf → Nat → Buf → Except Fault Buf
  | [], _, buf => pure buf
  | leaf :: rest, off, buf => do
    let buf ← copyFromSlice buf off (off + 12) (leafBytes leaf)
    copyLeaves rest (off + 12) buf

def writeExtentLeafBlock (extents : List ExtentLeaf) (blockSize : BlockSize) (buf : Buf)
    (path : Str) : Except Fault Buf := do
  let capacity := extentLeafCapacity blockSize
  if extents.length > capacity then throw (.err (.extentDepthExceeded path 1))
  else
    let hdr : ExtentHeader := { entries := extents.length, maxEntries := capacity, depth := 0 }
    let buf ← copyFromSlice buf 0 12 hdr.bytes
    copyLeaves extents 12 buf

def encodeFileExtentRoot (iBlock : Buf) (extents : List ExtentLeaf) (extentLeafBlock : Option Nat)
    (path : Str) : Except Fault Buf := do
  if extents.length ≤ maxExtentsPerInode then
    let hdr : ExtentHeader :=
      { entries := extents.length, maxEntries := maxExtentsPerInode, depth := 0 }
    let iBlock ← copyFromSlice iBlock 0 12 hdr.bytes
    copyLeaves extents 12 iBlock
  else
    match extentLeafBlock with
    | none =>
      throw (.err (.internal 0 "extent tree overflow but no leaf block was allocated"))
    | some leafBlock =>
      let hdr : ExtentHeader := { entries := 1, maxEntries := maxExtentsPerInode, depth := 1 }
      match extents.head? with
      | none => throw (.err (.extentDepthExceeded path 1))
      | some first =>
        let iBlock ← copyFromSlice iBlock 0 12 hdr.bytes
        copyFromSlice iBlock 12 24
          ({ block := first.block, leafLo := leafBlock } : ExtentIndex).bytes

def encodeInlineExtent (iBlock : Buf) (logicalStart blocks diskStart : Nat) :
    Except Fault Buf := do
  let extents ← splitContiguousExtent logicalStart blocks diskStart maxBlocksPerExtent
  if extents.length > maxExtentsPerInode then throw (.err (.extentDepthExceeded [] 0))
  else encodeFileExtentRoot iBlock extents none []

def stripStart (start s : Str) : Option Str :=
  if start.isPrefixOf s then some (s.drop start.length) else none

def splitXattrName (full : Str) : Nat × Str :=
  match stripStart (str "user.") full with
  | some s => (1, s)
  | none =>
    if full = str "system.posix_acl_access" then (2, [])
    else if full = str "system.posix_acl_default" then (3, [])
    else
      match stripStart (str "trusted.") full with
      | some s => (4, s)
      | none =>
        match stripStart (str "security.") full with
        | some s => (6, s)
        | none => (0, full)

def inlineNeed : List Xattr → Nat → Except Fault Nat
  | [], need => pure need
  | x :: xs, need => do
    let nameLen ← u32Add ((splitXattrName x.name).2.length % 2 ^ 32) 3
    let valueLen ← u32Add (x.value.length % 2 ^ 32) 3
    let size ← u32Add 16 (nameLen / 4 * 4)
    let size ← u32Add size (valueLen / 4 * 4)
    let need ← u32Add need size
    inlineNeed xs need

def xattrsFitInline (xs : List Xattr) : Except Fault Bool := do
  let need ← inlineNeed xs 4
  let need ← u32Add need 4
  pure (decide (need ≤ inodeInlineXattrSize))

/-- The loop of both attribute encoders: entries grow forward from `entriesOff`, values
backward to `valueNext`, which counts from `base`. -/
def writeXattrEntries (base : Nat) (what : String) : List Xattr → Nat → Nat → Buf →
    Except Fault Buf
  | [], _, _, buf => pure buf
  | x :: xs, entriesOff, valueNext, buf => do
    let (nameIndex, suffix) := splitXattrName x.name
    let nameLen := suffix.length % 2 ^ 8
    let namePad := align4 nameLen - nameLen
    let entrySize := 16 + nameLen + namePad
    let valuePad := align4 x.value.length - x.value.length
    let valueTotal := x.value.length + valuePad
    if valueNext < valueTotal then throw (.err (.internal 0 what))
    else
      let valueNext := valueNext - valueTotal
      let e : XattrEntry :=
        { nameLen, nameIndex, valueOffs := valueNext, valueSize := x.value.length }
      let buf ← copyFromSlice buf entriesOff (entriesOff + 16) e.bytes
      let buf ← copyFromSlice buf (entriesOff + 16) (entriesOff + 16 + nameLen) suffix
      let buf ← copyFromSlice buf (base + valueNext) (base + valueNext + x.value.length) x.value
      writeXattrEntries base what xs (entriesOff + entrySize) valueNext buf

def writeXattrInline (xs : List Xattr) (buf : Buf) : Except Fault Buf := do
  let buf ← copyFromSlice buf 0 4 (le32 xattrMagic)
  writeXattrEntries 4 "inline xattr value region overflow" xs 4 (buf.length - 4) buf

def writeXattrBlock (xs : List Xattr) (buf : Buf) : Except Fault Buf := do
  let buf ← copyFromSlice buf 0 4 (le32 xattrMagic)
  let buf ← copyFromSlice buf 4 8 (le32 1)
  let buf ← copyFromSlice buf 8 12 (le32 1)
  writeXattrEntries 0 "block xattr value region overflow" xs 32 buf.length buf

end Ext4Encoding
