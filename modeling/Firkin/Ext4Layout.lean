import Firkin.ByteImage
import Firkin.Ext4Builder

/-! # On-disk records

The `repr(C)` records of the image and their bytes. Numbers are encoded little-endian,
so a field keeps the low bits of its value, as a cast to its width does. A field this
crate never sets is part of a run of zeros. -/
namespace Ext4Layout

open Ext4Builder ByteImage

def superblockOffset : Nat := 1024
def superblockMagic : Nat := 0xEF53
def extentHeaderMagic : Nat := 0xF30A
def xattrMagic : Nat := 0xEA020000
def inodeSize : Nat := 256
def inodeExtraIsize : Nat := 32
def inodeInlineXattrSize : Nat := 96
def groupDescSize : Nat := 32
def rootInode : Nat := 2
def firstFreeInode : Nat := 11
def maxExtentsPerInode : Nat := 4
def maxBlocksPerExtent : Nat := 0x8000
def inodeFlagHugeFile : Nat := 0x40000
def inodeFlagExtents : Nat := 0x80000
def le16 (n : Nat) : List UInt8 := leBytes 2 n
def le32 (n : Nat) : List UInt8 := leBytes 4 n

@[simp] theorem length_le16 (n : Nat) : (le16 n).length = 2 := length_leBytes 2 n
@[simp] theorem length_le32 (n : Nat) : (le32 n).length = 4 := length_leBytes 4 n

structure Superblock where
  inodesCount : Nat
  blocksCountLo : Nat
  rBlocksCountLo : Nat
  freeBlocksCountLo : Nat
  freeInodesCount : Nat
  firstDataBlock : Nat
  logBlockSize : Nat
  logClusterSize : Nat
  blocksPerGroup : Nat
  clustersPerGroup : Nat
  inodesPerGroup : Nat
  mtime : Nat
  wtime : Nat
  mntCount : Nat
  maxMntCount : Nat
  magic : Nat
  state : Nat
  errors : Nat
  minorRevLevel : Nat
  lastcheck : Nat
  checkinterval : Nat
  creatorOs : Nat
  revLevel : Nat
  firstIno : Nat
  inodeSize : Nat
  featureCompat : Nat
  featureIncompat : Nat
  featureRoCompat : Nat
  uuid : Vector UInt8 16
  descSize : Nat
  mkfsTime : Nat
  minExtraIsize : Nat
  wantExtraIsize : Nat
  logGroupsPerFlex : Nat
  lpfIno : Nat

def Superblock.bytes (sb : Superblock) : List UInt8 :=
  [le32 sb.inodesCount, le32 sb.blocksCountLo, le32 sb.rBlocksCountLo, le32 sb.freeBlocksCountLo,
    le32 sb.freeInodesCount, le32 sb.firstDataBlock, le32 sb.logBlockSize,
    le32 sb.logClusterSize, le32 sb.blocksPerGroup, le32 sb.clustersPerGroup,
    le32 sb.inodesPerGroup, le32 sb.mtime, le32 sb.wtime, le16 sb.mntCount, le16 sb.maxMntCount,
    le16 sb.magic, le16 sb.state, le16 sb.errors, le16 sb.minorRevLevel, le32 sb.lastcheck,
    le32 sb.checkinterval, le32 sb.creatorOs, le32 sb.revLevel, zeros 4, le32 sb.firstIno,
    le16 sb.inodeSize, zeros 2, le32 sb.featureCompat, le32 sb.featureIncompat,
    le32 sb.featureRoCompat, sb.uuid.toList, zeros 134, le16 sb.descSize, zeros 8,
    le32 sb.mkfsTime, zeros 80, le16 sb.minExtraIsize, le16 sb.wantExtraIsize, zeros 20,
    leBytes 1 sb.logGroupsPerFlex, zeros 243, le32 sb.lpfIno, zeros 404].flatten

structure GroupDescriptor where
  blockBitmapLo : Nat
  inodeBitmapLo : Nat
  inodeTableLo : Nat
  freeBlocksCountLo : Nat
  freeInodesCountLo : Nat
  usedDirsCountLo : Nat

def GroupDescriptor.bytes (gd : GroupDescriptor) : List UInt8 :=
  [le32 gd.blockBitmapLo, le32 gd.inodeBitmapLo, le32 gd.inodeTableLo, le16 gd.freeBlocksCountLo,
    le16 gd.freeInodesCountLo, le16 gd.usedDirsCountLo, zeros 14].flatten

structure InodeBody where
  mode : Nat
  uid : Nat
  sizeLo : Nat
  atime : Nat
  ctime : Nat
  mtime : Nat
  gid : Nat
  linksCount : Nat
  blocksLo : Nat
  flags : Nat
  block : List UInt8
  fileAclLo : Nat
  sizeHi : Nat
  uidHi : Nat
  gidHi : Nat
  extraIsize : Nat
  crtime : Nat

def InodeBody.bytes (body : InodeBody) : List UInt8 :=
  [le16 body.mode, le16 body.uid, le32 body.sizeLo, le32 body.atime, le32 body.ctime,
    le32 body.mtime, zeros 4, le16 body.gid, le16 body.linksCount, le32 body.blocksLo,
    le32 body.flags, zeros 4, body.block, zeros 4, le32 body.fileAclLo, le32 body.sizeHi,
    zeros 8, le16 body.uidHi, le16 body.gidHi, zeros 4, le16 body.extraIsize, zeros 14,
    le32 body.crtime, zeros 12].flatten

structure Inode256 where
  body : InodeBody
  inlineXattrs : List UInt8

def Inode256.bytes (inode : Inode256) : List UInt8 := inode.body.bytes ++ inode.inlineXattrs

def InodeBody.zeroed : InodeBody :=
  { mode := 0, uid := 0, sizeLo := 0, atime := 0, ctime := 0, mtime := 0, gid := 0, linksCount := 0
    blocksLo := 0, flags := 0, block := zeros 60, fileAclLo := 0, sizeHi := 0, uidHi := 0
    gidHi := 0, extraIsize := 0, crtime := 0 }

def Inode256.zeroed : Inode256 :=
  { body := InodeBody.zeroed, inlineXattrs := zeros inodeInlineXattrSize }

structure ExtentHeader where
  entries : Nat
  maxEntries : Nat
  depth : Nat

def ExtentHeader.bytes (hdr : ExtentHeader) : List UInt8 :=
  [le16 extentHeaderMagic, le16 hdr.entries, le16 hdr.maxEntries, le16 hdr.depth, zeros 4].flatten

structure ExtentIndex where
  block : Nat
  leafLo : Nat

def ExtentIndex.bytes (index : ExtentIndex) : List UInt8 :=
  [le32 index.block, le32 index.leafLo, zeros 4].flatten

def leafBytes (leaf : ExtentLeaf) : List UInt8 :=
  [le32 leaf.block, le16 leaf.len, le16 leaf.startHi, le32 leaf.startLo].flatten

structure DirEntryHeader where
  inode : Nat
  recLen : Nat
  nameLen : Nat
  fileType : UInt8

def DirEntryHeader.bytes (hdr : DirEntryHeader) : List UInt8 :=
  [le32 hdr.inode, le16 hdr.recLen, leBytes 1 hdr.nameLen, [hdr.fileType]].flatten

structure XattrEntry where
  nameLen : Nat
  nameIndex : Nat
  valueOffs : Nat
  valueSize : Nat

def XattrEntry.bytes (e : XattrEntry) : List UInt8 :=
  [leBytes 1 e.nameLen, leBytes 1 e.nameIndex, le16 e.valueOffs, zeros 4, le32 e.valueSize,
    zeros 4].flatten

@[simp] theorem length_groupDescriptor {gd : GroupDescriptor} :
    gd.bytes.length = groupDescSize := by
  simp [GroupDescriptor.bytes, groupDescSize]

@[simp] theorem length_superblock {sb : Superblock} : sb.bytes.length = 1024 := by
  simp [Superblock.bytes]

@[simp] theorem length_extentHeader (hdr : ExtentHeader) : hdr.bytes.length = 12 := by
  simp [ExtentHeader.bytes]

@[simp] theorem length_extentIndex (index : ExtentIndex) : index.bytes.length = 12 := by
  simp [ExtentIndex.bytes]

@[simp] theorem length_leafBytes (leaf : ExtentLeaf) : (leafBytes leaf).length = 12 := by
  simp [leafBytes]

@[simp] theorem length_dirEntryHeader (hdr : DirEntryHeader) : hdr.bytes.length = 8 := by
  simp [DirEntryHeader.bytes]

@[simp] theorem length_xattrEntry (e : XattrEntry) : e.bytes.length = 16 := by
  simp [XattrEntry.bytes]

end Ext4Layout
