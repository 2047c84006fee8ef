import Firkin.Ext4DirectoryBlocks

/-! # Extent trees

A contiguous run of blocks is cut into extents of bounded length. Up to four of them go
into the inode; more go into a leaf block the inode points to. -/
namespace Ext4Extents

open Ext4Types Ext4Builder ByteImage Ext4Layout Ext4Encoding Ext4Sizing Ext4DirectoryBlocks
  FaultMonad

/-- The extents of `remaining` blocks from `disk` on. -/
def extentRuns (maxLen : Nat) : Nat → Nat → Nat → Nat → List ExtentLeaf
  | 0, _, _, _ => []
  | fuel + 1, remaining, disk, logical =>
    if remaining = 0 then []
    else
      { block := logical, len := min remaining maxLen, startHi := 0, startLo := disk } ::
        extentRuns maxLen fuel (remaining - min remaining maxLen) (disk + min remaining maxLen)
          (logical + min remaining maxLen)

/-- The extents of `blocks` blocks of a file that start at block `start`. -/
def extentsOf (maxLen blocks start : Nat) : List ExtentLeaf :=
  extentRuns maxLen blocks blocks start 0

variable {maxLen : Nat}

theorem splitLoop_eq (hmax : 0 < maxLen) (hmax' : maxLen ≤ 0x8000)
    (hd : disk + remaining < 2 ^ 32) (hl : logical + remaining < 2 ^ 32) :
    splitLoop maxLen fuel remaining disk logical =
      .ok (extentRuns maxLen fuel remaining disk logical) := by
  induction fuel generalizing remaining disk logical with
  | zero => rfl
  | succ fuel ih =>
    rw [splitLoop, extentRuns]
    by_cases h0 : remaining = 0
    · rw [if_pos h0, if_pos h0]
      rfl
    · have hlen : min remaining maxLen % 2 ^ 16 = min remaining maxLen :=
        Nat.mod_eq_of_lt (by omega)
      rw [if_neg h0, if_neg h0]
      simp only [hlen]
      rw [except_bind_ok (u32Add_ok (by omega)), except_bind_ok (u32Add_ok (by omega)),
        except_bind_ok (ih (by omega) (by omega))]
      rfl

theorem splitContiguousExtent_eq {blocks start cap : Nat} (hcap : 0 < cap) (hcap' : cap ≤ 0x8000)
    (h : start + blocks < 2 ^ 32) :
    splitContiguousExtent 0 blocks start cap = .ok (extentsOf cap blocks start) := by
  have hmin : min cap maxBlocksPerExtent = cap := min_eq_left hcap'
  rw [splitContiguousExtent, hmin]
  exact splitLoop_eq hcap hcap' h (by omega)

theorem extentRuns_length (hmax : 0 < maxLen) (hf : remaining ≤ fuel) :
    (extentRuns maxLen fuel remaining disk logical).length = divCeil remaining maxLen := by
  induction fuel generalizing remaining disk logical with
  | zero =>
    obtain rfl : remaining = 0 := by omega
    rfl
  | succ fuel ih =>
    rw [extentRuns]
    by_cases h0 : remaining = 0
    · rw [h0]
      rfl
    · rw [if_neg h0, List.length_cons, ih (by omega), divCeil, divCeil, if_neg h0]
      by_cases hle : remaining ≤ maxLen
      · rw [min_eq_left hle, Nat.sub_self, if_pos rfl, Nat.div_eq_of_lt (by omega)]
      · rw [min_eq_right (by omega), if_neg (by omega)]
        have : (remaining - 1) / maxLen = (remaining - maxLen - 1) / maxLen + 1 := by
          rw [← Nat.add_div_right _ hmax]
          congr 1
          omega
        omega

theorem extentsOf_length (hmax : 0 < maxLen) {blocks start : Nat} :
    (extentsOf maxLen blocks start).length = divCeil blocks maxLen :=
  extentRuns_length hmax le_rfl

theorem extentsOf_eq_nil {blocks start : Nat} (h : 0 < blocks) :
    extentsOf maxLen blocks start ≠ [] := by
  obtain ⟨b, rfl⟩ : ∃ b, blocks = b + 1 := ⟨blocks - 1, by omega⟩
  rw [extentsOf, extentRuns]
  simp

theorem extentRuns_sum (hmax : 0 < maxLen) (hf : remaining ≤ fuel) :
    ((extentRuns maxLen fuel remaining disk logical).map ExtentLeaf.len).sum = remaining := by
  induction fuel generalizing remaining disk logical with
  | zero =>
    obtain rfl : remaining = 0 := by omega
    rfl
  | succ fuel ih =>
    rw [extentRuns]
    by_cases h0 : remaining = 0
    · rw [h0]
      rfl
    · rw [if_neg h0, List.map_cons, List.sum_cons, ih (by omega)]
      simp only
      omega

def leavesBytes (leaves : List ExtentLeaf) : List UInt8 := leaves.flatMap leafBytes

@[simp] theorem length_leavesBytes : (leavesBytes leaves).length = 12 * leaves.length := by
  induction leaves with
  | nil => rfl
  | cons leaf leaves ih =>
    rw [leavesBytes, List.flatMap_cons, List.length_append, length_leafBytes, List.length_cons]
    rw [leavesBytes] at ih
    omega

variable {leaves : List ExtentLeaf}

theorem copyLeaves_eq (hp : p.length = off) (hk : 12 * leaves.length ≤ k) :
    copyLeaves leaves off (p ++ zeros k) =
      .ok (p ++ leavesBytes leaves ++ zeros (k - 12 * leaves.length)) := by
  induction leaves generalizing p off k with
  | nil =>
    rw [leavesBytes, List.flatMap_nil, List.append_nil]
    rfl
  | cons leaf leaves ih =>
    rw [List.length_cons] at hk
    have hrest : k - 12 - 12 * leaves.length = k - 12 * (leaves.length + 1) := by omega
    rw [copyLeaves, except_bind_ok (copyFromSlice_zeros p (leafBytes leaf) hp
        (by rw [length_leafBytes]) (by rw [length_leafBytes]; omega)), length_leafBytes,
      ih (by rw [List.length_append, hp, length_leafBytes]) (by omega), hrest]
    simp only [leavesBytes, List.flatMap_cons, List.append_assoc, List.length_cons]

def leafNodeBytes (leaves : List ExtentLeaf) (maxEntries size : Nat) : List UInt8 :=
  ({ entries := leaves.length, maxEntries, depth := 0 } : ExtentHeader).bytes ++
    leavesBytes leaves ++ zeros (size - 12 - 12 * leaves.length)

def indexNodeBytes (leafBlock : Nat) : List UInt8 :=
  ({ entries := 1, maxEntries := maxExtentsPerInode, depth := 1 } : ExtentHeader).bytes ++
    ({ block := 0, leafLo := leafBlock } : ExtentIndex).bytes ++ zeros 36

theorem length_leafNodeBytes (h : 12 + 12 * leaves.length ≤ size) :
    (leafNodeBytes leaves maxEntries size).length = size := by
  simp only [leafNodeBytes, List.length_append, length_extentHeader, length_leavesBytes,
    length_zeros]
  omega

@[simp] theorem length_indexNodeBytes (leafBlock : Nat) :
    (indexNodeBytes leafBlock).length = 60 := by
  simp [indexNodeBytes]

theorem copyLeafNode {maxEntries size : Nat} (h : 12 + 12 * leaves.length ≤ size) : (do
      let buf ← copyFromSlice (zeros size) 0 12
        ({ entries := leaves.length, maxEntries, depth := 0 } : ExtentHeader).bytes
      copyLeaves leaves 12 buf : Except Fault Buf) =
        .ok (leafNodeBytes leaves maxEntries size) := by
  have hhdr := length_extentHeader { entries := leaves.length, maxEntries, depth := 0 }
  rw [except_bind_ok (copyFromSlice_start _ hhdr (by omega)), copyLeaves_eq hhdr (by omega)]
  rfl

theorem writeExtentLeafBlock_eq (path : Str) :
    writeExtentLeafBlock leaves bs (zeros bs.bytes) path =
      if leaves.length > extentLeafCapacity bs then .error (.err (.extentDepthExceeded path 1))
      else .ok (leafNodeBytes leaves (extentLeafCapacity bs) bs.bytes) := by
  rw [writeExtentLeafBlock]
  by_cases h : leaves.length > extentLeafCapacity bs
  · rw [if_pos h, if_pos h]
    rfl
  · rw [if_neg h, if_neg h]
    refine copyLeafNode ?_
    have := blockSize_cases bs
    unfold extentLeafCapacity at h
    omega

theorem encodeFileExtentRoot_inline (h : leaves.length ≤ maxExtentsPerInode)
    (leafBlock : Option Nat) (path : Str) :
    encodeFileExtentRoot (zeros 60) leaves leafBlock path =
      .ok (leafNodeBytes leaves maxExtentsPerInode 60) := by
  rw [encodeFileExtentRoot.eq_def, if_pos h]
  exact copyLeafNode (by unfold maxExtentsPerInode at h; omega)

theorem encodeFileExtentRoot_index {blocks start leafBlock : Nat}
    (h : maxExtentsPerInode < (extentsOf maxLen blocks start).length) (path : Str) :
    encodeFileExtentRoot (zeros 60) (extentsOf maxLen blocks start) (some leafBlock) path =
      .ok (indexNodeBytes leafBlock) := by
  have hfirst : ∃ rest, extentsOf maxLen blocks start =
      { block := 0, len := min blocks maxLen, startHi := 0, startLo := start } :: rest := by
    unfold extentsOf at h ⊢
    cases blocks with
    | zero => simp [extentRuns] at h
    | succ b => exact ⟨_, by rw [extentRuns, if_neg (by omega)]⟩
  obtain ⟨rest, hrest⟩ := hfirst
  rw [encodeFileExtentRoot.eq_def, if_neg (by omega), hrest]
  have hhdr := length_extentHeader { entries := 1, maxEntries := maxExtentsPerInode, depth := 1 }
  have hidx := length_extentIndex { block := 0, leafLo := leafBlock }
  simp only [List.head?_cons]
  rw [except_bind_ok (copyFromSlice_start _ hhdr (by omega)),
    copyFromSlice_zeros _ _ hhdr (by rw [hidx]) (by rw [hidx]; omega)]
  rfl

theorem encodeInlineExtent_eq {blocks start : Nat} (h : start + blocks < 2 ^ 32) :
    encodeInlineExtent (zeros 60) 0 blocks start =
      if divCeil blocks maxBlocksPerExtent > maxExtentsPerInode then
        .error (.err (.extentDepthExceeded [] 0))
      else
        .ok (leafNodeBytes (extentsOf maxBlocksPerExtent blocks start) maxExtentsPerInode 60) := by
  have hsplit : splitContiguousExtent 0 blocks start maxBlocksPerExtent =
      .ok (extentsOf maxBlocksPerExtent blocks start) :=
    splitContiguousExtent_eq (by decide) le_rfl h
  rw [encodeInlineExtent, except_bind_ok hsplit, extentsOf_length (by decide)]
  by_cases hlong : divCeil blocks maxBlocksPerExtent > maxExtentsPerInode
  · rw [if_pos hlong, if_pos hlong]
    rfl
  · rw [if_neg hlong, if_neg hlong, encodeFileExtentRoot_inline]
    rw [extentsOf_length (by decide)]
    exact Nat.le_of_not_lt hlong

end Ext4Extents
