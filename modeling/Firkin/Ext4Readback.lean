import Firkin.Ext4Extents

/-! # Reading extents and directories back

A reader of the image that knows nothing of the writer: it follows the extent tree of an
inode to the disk blocks of a file, and the records of a directory block to its names. -/
namespace Ext4Readback

open Ext4Types Ext4Builder ByteImage Ext4Layout Ext4Encoding Ext4Sizing Ext4DirectoryBlocks
  Ext4Extents FaultMonad

/-- The first leaf of a run of leaves. -/
def leafAt (bytes : List UInt8) : ExtentLeaf :=
  { block := field bytes 0 4, len := field bytes 4 2, startHi := field bytes 6 2
    startLo := field bytes 8 4 }

def leavesAt : Nat → List UInt8 → List ExtentLeaf
  | 0, _ => []
  | count + 1, bytes => leafAt bytes :: leavesAt count (bytes.drop 12)

/-- The leaves a node of depth 0 lists. -/
def nodeLeaves (node : List UInt8) : Option (List ExtentLeaf) :=
  if field node 0 2 = extentHeaderMagic ∧ field node 6 2 = 0 then
    some (leavesAt (field node 2 2) (node.drop 12))
  else none

/-- The leaves below the root in an inode, where `disk` reads a block. -/
def readExtents (disk : Nat → List UInt8) (root : List UInt8) : Option (List ExtentLeaf) :=
  if field root 0 2 = extentHeaderMagic ∧ field root 2 2 = 1 ∧ field root 6 2 = 1 then
    nodeLeaves (disk (field root 20 2 * 2 ^ 32 + field root 16 4))
  else nodeLeaves root

/-- Logical block `i` is disk block `d`. -/
def Maps (leaves : List ExtentLeaf) (i d : Nat) : Prop :=
  ∃ leaf ∈ leaves, leaf.block ≤ i ∧ i < leaf.block + leaf.len ∧
    d = leaf.startHi * 2 ^ 32 + leaf.startLo + (i - leaf.block)

/-- What `write_file_blocks` and the inode store of a run: the root and, if needed, the leaf
block at `leafBlock`. -/
def encodeExtents (bs : BlockSize) (cap blocks start leafBlock : Nat) (path : Str) :
    Except Fault (Buf × Option Buf) := do
  let extents ← splitContiguousExtent 0 blocks start cap
  if extents.length > maxExtentsPerInode then
    let leaf ← writeExtentLeafBlock extents bs (zeros bs.bytes) path
    let root ← encodeFileExtentRoot (zeros 60) extents (some leafBlock) path
    pure (root, some leaf)
  else
    let root ← encodeFileExtentRoot (zeros 60) extents none path
    pure (root, none)

variable {disk i d : Nat} {leaf : ExtentLeaf}
  {leaves : List ExtentLeaf}

theorem maps_cons : Maps (leaf :: leaves) i d ↔ (leaf.block ≤ i ∧ i < leaf.block + leaf.len ∧
      d = leaf.startHi * 2 ^ 32 + leaf.startLo + (i - leaf.block)) ∨ Maps leaves i d := by
  simp [Maps]

theorem maps_extentRuns (hmax : 0 < maxLen) (hf : remaining ≤ fuel) :
    Maps (extentRuns maxLen fuel remaining disk logical) i d ↔
      logical ≤ i ∧ i < logical + remaining ∧ d = disk + (i - logical) := by
  induction fuel generalizing remaining disk logical with
  | zero =>
    simp only [extentRuns, Maps, List.not_mem_nil, false_and, exists_false, false_iff]
    omega
  | succ fuel ih =>
    rw [extentRuns]
    by_cases h0 : remaining = 0
    · simp only [if_pos h0, Maps, List.not_mem_nil, false_and, exists_false, false_iff]
      omega
    · rw [if_neg h0, maps_cons, ih (by omega)]
      dsimp only
      omega

/-- Every field of a leaf fits its width. -/
def LeafFits (leaf : ExtentLeaf) : Prop :=
  leaf.block < 2 ^ 32 ∧ leaf.len < 2 ^ 16 ∧ leaf.startHi < 2 ^ 16 ∧ leaf.startLo < 2 ^ 32

theorem mem_extentRuns (hmax : 0 < maxLen) (hmax' : maxLen ≤ 0x8000)
    (hd : disk + remaining < 2 ^ 32) (hl : logical + remaining < 2 ^ 32)
    (h : leaf ∈ extentRuns maxLen fuel remaining disk logical) :
    LeafFits leaf ∧ 1 ≤ leaf.len ∧ leaf.len ≤ maxLen := by
  induction fuel generalizing remaining disk logical with
  | zero => cases h
  | succ fuel ih =>
    rw [extentRuns] at h
    by_cases h0 : remaining = 0
    · rw [if_pos h0] at h
      cases h
    · rw [if_neg h0] at h
      rcases List.mem_cons.mp h with rfl | h
      · unfold LeafFits
        dsimp only
        omega
      · exact ih (by omega) (by omega) h

theorem leafAt_leafBytes (h : LeafFits leaf) : leafAt (leafBytes leaf ++ r) = leaf := by
  norm_num [LeafFits] at h
  simp [leafAt, leafBytes, le16, le32, field_skip, field_head, Nat.mod_eq_of_lt, h]

theorem leavesAt_leavesBytes (h : ∀ leaf ∈ leaves, LeafFits leaf) :
    leavesAt leaves.length (leavesBytes leaves ++ r) = leaves := by
  induction leaves with
  | nil => rfl
  | cons leaf leaves ih =>
    have hsplit : leavesBytes (leaf :: leaves) ++ r =
        leafBytes leaf ++ (leavesBytes leaves ++ r) := by
      simp [leavesBytes]
    rw [List.length_cons, leavesAt, hsplit, leafAt_leafBytes (h leaf List.mem_cons_self),
      List.drop_left' (length_leafBytes leaf), ih fun l hl => h l (List.mem_cons_of_mem _ hl)]

theorem nodeLeaves_leafNode (hlen : leaves.length < 2 ^ 16) (h : ∀ leaf ∈ leaves, LeafFits leaf) :
    nodeLeaves (leafNodeBytes leaves maxEntries size) = some leaves := by
  have hdrop : (leafNodeBytes leaves maxEntries size).drop 12 =
      leavesBytes leaves ++ zeros (size - 12 - 12 * leaves.length) := by
    rw [leafNodeBytes, List.append_assoc, List.drop_left' (length_extentHeader _)]
  rw [nodeLeaves, hdrop]
  norm_num at hlen
  simp [leafNodeBytes, ExtentHeader.bytes, extentHeaderMagic, le16, field_skip, field_head,
    Nat.mod_eq_of_lt hlen, leavesAt_leavesBytes h]

theorem readExtents_leafNode {maxEntries size : Nat} {disk} :
    readExtents disk (leafNodeBytes leaves maxEntries size) =
      nodeLeaves (leafNodeBytes leaves maxEntries size) := by
  rw [readExtents, if_neg]
  simp [leafNodeBytes, ExtentHeader.bytes, le16, field_skip, field_head]

theorem readExtents_indexNode {leafBlock : Nat} (hleaf : leafBlock < 2 ^ 32) {disk} :
    readExtents disk (indexNodeBytes leafBlock) = nodeLeaves (disk leafBlock) := by
  norm_num at hleaf
  simp [readExtents, indexNodeBytes, ExtentHeader.bytes, ExtentIndex.bytes, extentHeaderMagic, le16,
    le32, field_skip, field_head, Nat.mod_eq_of_lt hleaf, ← zeros_add, field_zeros]

section
variable {bs : BlockSize} {cap blocks start leafBlock : Nat} {path : Str}

theorem splits_into (hcap : 0 < cap) (h : start + blocks < 2 ^ 32) :
    splitContiguousExtent 0 blocks start cap =
      .ok (extentsOf (min cap maxBlocksPerExtent) blocks start) :=
  splitLoop_eq (by unfold maxBlocksPerExtent; omega) (min_le_right _ _) h (by omega)

theorem encodeExtents_eq (hcap : 0 < cap) (h : start + blocks < 2 ^ 32)
    (he : extentsOf (min cap maxBlocksPerExtent) blocks start = leaves) :
    encodeExtents bs cap blocks start leafBlock path =
      if leaves.length ≤ maxExtentsPerInode then
        .ok (leafNodeBytes leaves maxExtentsPerInode 60, none)
      else if leaves.length ≤ extentLeafCapacity bs then
        .ok (indexNodeBytes leafBlock, some (leafNodeBytes leaves (extentLeafCapacity bs) bs.bytes))
      else .error (.err (.extentDepthExceeded path 1)) := by
  rw [encodeExtents, except_bind_ok (splits_into hcap h), he]
  by_cases hroot : leaves.length ≤ maxExtentsPerInode
  · rw [if_neg (by omega), if_pos hroot,
      except_bind_ok (encodeFileExtentRoot_inline hroot none path)]
    rfl
  · have hindex : encodeFileExtentRoot (zeros 60) leaves (some leafBlock) path =
        .ok (indexNodeBytes leafBlock) := by
      subst he
      exact encodeFileExtentRoot_index (by omega) path
    rw [if_pos (by omega), if_neg hroot, writeExtentLeafBlock_eq]
    by_cases hleaf : leaves.length ≤ extentLeafCapacity bs
    · rw [if_neg (by omega), if_pos hleaf, except_bind_ok rfl, except_bind_ok hindex]
      rfl
    · rw [if_pos (by omega), if_neg hleaf, except_bind_error rfl]

/-- The extents of a run are read back as the run, whichever of the two encodings was taken, and
only a run with more extents than fit a leaf block is refused. -/
theorem extents_read_back (hcap : 0 < cap) (h : start + blocks < 2 ^ 32)
    (hleaf : leafBlock < 2 ^ 32) :
    ∃ extents, splitContiguousExtent 0 blocks start cap = .ok extents ∧
      ((∃ e, encodeExtents bs cap blocks start leafBlock path = .error e) ↔
        maxExtentsPerInode < extents.length ∧ extentLeafCapacity bs < extents.length) ∧
      ∀ root leaf, encodeExtents bs cap blocks start leafBlock path = .ok (root, leaf) →
        ∀ disk : Nat → List UInt8, (∀ b ∈ leaf, disk leafBlock = b) →
          ∃ leaves, readExtents disk root = some leaves ∧
            (∀ i d, Maps leaves i d ↔ i < blocks ∧ d = start + i) ∧
            ∀ l ∈ leaves, 1 ≤ l.len ∧ l.len ≤ min cap maxBlocksPerExtent := by
  have hmax : 0 < min cap maxBlocksPerExtent := by unfold maxBlocksPerExtent; omega
  have hsplit := splits_into hcap h
  have hmem : ∀ l ∈ extentsOf (min cap maxBlocksPerExtent) blocks start,
      LeafFits l ∧ 1 ≤ l.len ∧ l.len ≤ min cap maxBlocksPerExtent :=
    fun l hl => mem_extentRuns hmax (min_le_right _ _) h (by omega) hl
  have hmaps : ∀ i d, Maps (extentsOf (min cap maxBlocksPerExtent) blocks start) i d ↔
      i < blocks ∧ d = start + i := by
    intro i d
    rw [extentsOf, maps_extentRuns hmax le_rfl]
    omega
  generalize he : extentsOf (min cap maxBlocksPerExtent) blocks start = leaves at *
  rw [encodeExtents_eq hcap h he]
  refine ⟨leaves, hsplit, ?_, fun root leaf hok disk hdisk => ⟨leaves, ?_, hmaps, fun l hl =>
    (hmem l hl).2⟩⟩
  · split_ifs <;> simp <;> omega
  · split_ifs at hok with h1 h2
    · cases hok
      rw [readExtents_leafNode]
      exact nodeLeaves_leafNode (by unfold maxExtentsPerInode at h1; omega) fun l hl =>
        (hmem l hl).1
    · cases hok
      rw [readExtents_indexNode hleaf, hdisk _ rfl]
      have hcapacity : extentLeafCapacity bs < 2 ^ 16 := by
        unfold extentLeafCapacity
        rcases blockSize_cases bs with h | h | h <;> omega
      exact nodeLeaves_leafNode (by omega) fun l hl => (hmem l hl).1

/-- Five extents of one block go through a leaf block. -/
theorem extents_read_back_deep : ∃ root leaf,
    encodeExtents .k1 1 5 100 7 [] = .ok (root, some leaf) ∧
      ∃ leaves, readExtents (fun _ => leaf) root = some leaves ∧
        ∀ i d, Maps leaves i d ↔ i < 5 ∧ d = 100 + i := by
  have hok := @encodeExtents_eq _ .k1 1 5 100 7 [] (by decide) (by decide) rfl
  rw [if_neg (by decide), if_pos (by decide)] at hok
  obtain ⟨_, _, _, hread⟩ := @extents_read_back .k1 1 5 100 7 [] (by decide) (by decide) (by decide)
  obtain ⟨leaves, hleaves, hmaps, _⟩ := hread _ _ hok (fun _ => _) fun _ hb => Option.some.inj hb
  exact ⟨_, _, hok, leaves, hleaves, hmaps⟩
end

end Ext4Readback
