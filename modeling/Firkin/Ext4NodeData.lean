import Firkin.Ext4SinkSteps

/-! # The data of one node

`nodeData` is the run of blocks a node takes and `place` what the writer records of it.
Writing a node either puts exactly that run at the next free block or stops with the
fault `nodeFault` names: a file with too many extents for one leaf block is rejected, a
symlink target longer than a block is a panic. -/
namespace Ext4NodeData

open Ext4Types Ext4Builder Ext4BuilderInvariant Ext4BuilderRuns ByteImage Ext4Layout Ext4Encoding
open List FileSystemBuilder Ext4Finalizer Ext4InodeAllocation Ext4WriterFrame Ext4Sizing
open Ext4DirectoryBlocks Ext4Extents Ext4SinkSteps FaultMonad

def dirPacks (fs : FileSystemBuilder) (i : Nat) : List (List DirEntrySpec) :=
  packBlocks fs.blockSize.bytes (entriesOf fs.nodes i).length (entriesOf fs.nodes i)

def fileBlocks (fs : FileSystemBuilder) (content : List UInt8) : Nat :=
  divCeil content.length fs.blockSize.bytes

def fileExtents (fs : FileSystemBuilder) (start : Nat) (content : List UInt8) : List ExtentLeaf :=
  extentsOf targetBlocksPerFileExtent (fileBlocks fs content) start

def nodeData (fs : FileSystemBuilder) (start i : Nat) (n : Node) : List UInt8 :=
  let bs := fs.blockSize.bytes
  match n.content with
  | .directory => (dirPacks fs i).flatMap (blockBytes bs · 0)
  | .file content =>
    content ++ zeros (fileBlocks fs content * bs - content.length) ++
      if (fileExtents fs start content).length > maxExtentsPerInode then
        leafNodeBytes (fileExtents fs start content) (extentLeafCapacity fs.blockSize) bs
      else []
  | .symlink target =>
    if target.length < fastSymlinkMax then [] else target ++ zeros (bs - target.length)
  | .whiteout => []
  | .hardlink => []

/-- What is recorded on a node whose run starts at `start`. -/
def place (fs : FileSystemBuilder) (start i : Nat) (n : Node) : Node :=
  match n.content with
  | .directory => { n with startBlock := start, endBlock := start + (dirPacks fs i).length }
  | .file content =>
    if content = [] then
      { n with startBlock := 0, endBlock := 0, fileExtents := [], extentLeafBlock := none }
    else
      { n with
        startBlock := start
        endBlock := start + fileBlocks fs content
        fileExtents := fileExtents fs start content
        extentLeafBlock :=
          if (fileExtents fs start content).length > maxExtentsPerInode then
            some (start + fileBlocks fs content)
          else none }
  | .symlink target =>
    if target.length < fastSymlinkMax then { n with startBlock := 0, endBlock := 0 }
    else { n with startBlock := start, endBlock := start + 1 }
  | .whiteout => n
  | .hardlink => n

def nodeFault (fs : FileSystemBuilder) (i : Nat) (n : Node) : Option Fault :=
  match n.content with
  | .file content =>
    if divCeil (fileBlocks fs content) targetBlocksPerFileExtent > extentLeafCapacity fs.blockSize
    then some (.err (.extentDepthExceeded ((nodePath fs.nodes i).getD []) 1))
    else none
  | .symlink target =>
    if target.length > fs.blockSize.bytes then some (.panic .indexOutOfRange) else none
  | _ => none

variable {fs : FileSystemBuilder} {s : Finalizer} {i : Nat} {n m : Node}

/-- The node's run is put at the next free block, or the fault is the one it has. -/
def WritesNode (fs : FileSystemBuilder) (i : Nat) (n : Node) (s : Finalizer)
    (m : FinalizerM Unit) : Prop :=
  Ends m s
    (fun _ t => nodeFault fs i n = none ∧
      Placed s t (s.fs.updateNode i (place fs s.nextFreeBlock i))
        (s.nextFreeBlock + nodeBlocks fs i n)
        (overwrite s.out.bytes (s.nextFreeBlock * fs.blockSize.bytes)
          (nodeData fs s.nextFreeBlock i n)))
    (fun φ => IoFault s.out φ ∨ nodeFault fs i n = some φ)

theorem unplaced_place (fs : FileSystemBuilder) (start i : Nat) (n : Node) :
    unplaced (place fs start i n) = unplaced n := by
  unfold place
  split <;> (try split) <;> rfl

theorem updateNode_congr (hn : fs.nodes[i]? = some n) (h : f n = f' n) :
    fs.updateNode i f = fs.updateNode i f' := by
  unfold updateNode
  congr 1
  apply ext_getElem?
  intro k
  by_cases hk : i = k
  · subst hk
    rw [getElem?_modify_eq, getElem?_modify_eq, hn]
    exact congrArg some h
  · rw [getElem?_modify_ne _ _ hk, getElem?_modify_ne _ _ hk]

theorem updateNode_updateNode (fs : FileSystemBuilder) (i : Nat) (f f' : Node → Node) :
    (fs.updateNode i f).updateNode i f' = fs.updateNode i (f' ∘ f) := by
  simp only [updateNode, modify_modify_eq]

theorem updateNode_same (hn : fs.nodes[i]? = some n) (h : f n = n) : fs.updateNode i f = fs := by
  rw [updateNode_congr hn (show f n = id n from h)]
  simp [updateNode]

theorem updateNode_get (hn : fs.nodes[i]? = some n) (f : Node → Node) :
    (fs.updateNode i f).nodes[i]? = some (f n) := by
  rw [updateNode, getElem?_modify_eq, hn]
  rfl

theorem writeDirBlocks_ends (s : Finalizer)
    (hf : entries.length ≤ fuel) (hall : ∀ e ∈ entries, entryLen e ≤ s.fs.blockSize.bytes)
    (hfit : s.nextFreeBlock + (packBlocks s.fs.blockSize.bytes fuel entries).length < 2 ^ 32) :
    Ends (writeDirBlocks fuel entries) s
      (fun _ t => Placed s t s.fs
        (s.nextFreeBlock + (packBlocks s.fs.blockSize.bytes fuel entries).length)
        (overwrite s.out.bytes (s.nextFreeBlock * s.fs.blockSize.bytes)
          ((packBlocks s.fs.blockSize.bytes fuel entries).flatMap
            (blockBytes s.fs.blockSize.bytes · 0))))
      (IoFault s.out) := by
  induction fuel generalizing s entries with
  | zero =>
    rw [length_eq_zero_iff.mp (by omega : entries.length = 0)]
    simp only [packBlocks, flatMap_nil, overwrite_nil]
    exact Placed.refl s
  | succ fuel ih =>
    cases entries with
    | nil =>
      simp only [packBlocks, flatMap_nil, overwrite_nil]
      exact Placed.refl s
    | cons e rest =>
      have he := hall e mem_cons_self
      have hbs : s.fs.blockSize.bytes ≤ 65535 := by
        rcases blockSize_cases s.fs.blockSize with h | h | h <;> omega
      have hleft := takeBlock_left_length s.fs.blockSize.bytes e rest 0
      have hfill := @fillDirBlock_eq s.fs.blockSize.bytes 0 e rest [] rfl (by omega) hbs
      have htaken := @takeBlock_fits s.fs.blockSize.bytes 0 e rest (by omega)
      have hlen := length_blockBytes htaken
      simp only [nil_append, Nat.sub_zero] at hfill hlen
      rw [packBlocks, length_cons] at hfit
      rw [length_cons] at hf
      rw [writeDirBlocks, ends_get_bind, ends_bind_ok (ofExcept_run hfill)]
      refine (appendBlock_ends (by omega)).bind ?_
      rintro _ _ ⟨out, pos, rfl, hb, hfate⟩
      refine (ih _ (by omega) ?_ (by simp only; omega)).mono ?_ fun _ h => h.congr hfate
      · intro d hd
        refine hall d ?_
        rw [← takeBlock_append s.fs.blockSize.bytes (e :: rest) 0]
        exact mem_append_right _ hd
      · rintro _ _ ⟨out', pos', rfl, hb', hfate'⟩
        refine ⟨out', pos', ?_, ?_, hfate'.trans hfate⟩
        · simp only [packBlocks, length_cons]
          congr 1
          omega
        · rw [hb', hb, packBlocks, flatMap_cons, overwrite_append, hlen, Nat.add_mul, Nat.one_mul]

theorem payload_ge (hn : fs.nodes[i]? = some n) : nodePayload fs (n, i) ≤ payload fs := by
  refine single_le_sum (by simp) _ ?_
  exact mem_map.mpr ⟨(n, i), mem_zipIdx_iff_getElem?.mpr hn, rfl⟩

/-- In an image that can be sized every directory entry fits a block. -/
theorem Sized.dir (h : Sized fs g) (hn : fs.nodes[i]? = some n) (hskip : skipped n = false)
    (hc : n.content = .directory) :
    (∀ e ∈ entriesOf fs.nodes i, entryLen e ≤ fs.blockSize.bytes) ∧
      nodeBlocks fs i n = (dirPacks fs i).length := by
  have hsmall := h.groups.small
  have hhdr : 2 ≤ headerOf fs.blockSize g := by
    have := firstGdt_cases fs.blockSize
    unfold headerOf
    omega
  have hle := payload_ge hn
  rw [nodePayload, hskip] at hle
  simp only [Bool.false_eq_true, if_false] at hle
  have hlt : nodeBlocks fs i n < 2 ^ 32 - 1 := by unfold blocksNeeded at hsmall; omega
  unfold nodeBlocks at hlt ⊢
  simp only [hc] at hlt ⊢
  by_cases hall : ∀ name ∈ (entriesOf fs.nodes i).map DirEntrySpec.name,
      dirEntryMinLen name ≤ fs.blockSize.bytes
  · have hall' : ∀ e ∈ entriesOf fs.nodes i, entryLen e ≤ fs.blockSize.bytes := fun e he =>
      hall e.name (mem_map_of_mem he)
    rw [countDirBlocks_ok hall (by norm_num)] at hlt ⊢
    simp only at hlt ⊢
    have hlen : (dirPacks fs i).length =
        1 + extraBlocks fs.blockSize.bytes ((entriesOf fs.nodes i).map DirEntrySpec.name) 0 :=
      packBlocks_length hall' le_rfl
    exact ⟨hall', by omega⟩
  · obtain ⟨e, he⟩ := @countDirBlocks_error _ fs.blockSize.bytes 1 0 hall
    rw [he] at hlt
    simp at hlt

theorem writeDirectoryBlock_ends (hs : Sound fs) (h : Renders fs s) (hn : fs.nodes[i]? = some n)
    (hskip : skipped n = false) (hc : n.content = .directory) (hsized : Sized fs g)
    (hfit : s.nextFreeBlock + nodeBlocks fs i n < 2 ^ 32) :
    WritesNode fs i n s (writeDirectoryBlock i) := by
  obtain ⟨hall, hblocks⟩ := Sized.dir hsized hn hskip hc
  simp only [skipped, Bool.or_eq_false_iff, Option.isSome_eq_false_iff,
    Option.isNone_iff_eq_none] at hskip
  have hlive : Live fs.nodes i := ⟨n, hn, hskip.1⟩
  obtain ⟨k, hk, _⟩ := owner_number hs hlive ((targetOf_some hn).trans hskip.2)
  have hpacks : packBlocks s.fs.blockSize.bytes (entriesOf fs.nodes i).length
      (entriesOf fs.nodes i) = dirPacks fs i := by rw [h.blockSize]; rfl
  rw [WritesNode, writeDirectoryBlock, ends_get_bind,
    ends_bind_ok (ofExcept_run (h.dirEntries hs hlive hk))]
  refine (writeDirBlocks_ends s le_rfl (by rw [h.blockSize]; exact hall)
    (by rw [hpacks]; omega)).andThen (fun _ h => .inl h) ?_
  rw [hpacks, h.blockSize]
  rintro _ _ ⟨out, pos, rfl, hb, hf⟩
  obtain ⟨m, hm, hme⟩ := h.get hn
  rw [ends_get_bind]
  refine modifyNode_ends (n := m) hm ⟨by rw [nodeFault, hc], out, pos, ?_, ?_, hf⟩
  · rw [hblocks]
    rw [updateNode_congr hm]
    rw [place, (unplaced_fields hme).2.2.2.1, hc]
  · rw [hb, nodeData, hc]

def recordRun (start blocks : Nat) (n : Node) : Node :=
  { n with startBlock := start, endBlock := start + blocks }

variable {content : List UInt8}

theorem place_file (hc : n.content = .file content) (hne : content ≠ [])
    {start : Nat} : place fs start i n =
      { recordRun start (fileBlocks fs content) n with
        fileExtents := fileExtents fs start content
        extentLeafBlock :=
          if (fileExtents fs start content).length > maxExtentsPerInode then
            some (start + fileBlocks fs content)
          else none } := by
  unfold place
  split <;> simp_all [recordRun]

theorem nodeBlocks_file (hc : n.content = .file content) :
    nodeBlocks fs i n = fileBlocks fs content +
      if divCeil (fileBlocks fs content) targetBlocksPerFileExtent > maxExtentsPerInode then 1
      else 0 := by
  simp only [nodeBlocks, hc]
  rfl

theorem blocksWritten_eq (hlen : content.length ≤ maxFileSize)
    (hne : content ≠ []) (fs : FileSystemBuilder) :
    (content.length + fs.blockSize.bytes - 1) / fs.blockSize.bytes % 2 ^ 32 =
      fileBlocks fs content := by
  have hpos : 0 < content.length := length_pos_iff.mpr hne
  have hle := (divCeil_file hlen fs.blockSize).2
  have heq : (content.length + fs.blockSize.bytes - 1) / fs.blockSize.bytes =
      divCeil content.length fs.blockSize.bytes := by
    rw [divCeil, if_neg (by omega)]
    rcases blockSize_cases fs.blockSize with h | h | h <;> rw [h] <;> omega
  rw [heq, Nat.mod_eq_of_lt (by omega), fileBlocks]

theorem padding_eq (fs : FileSystemBuilder) (content : List UInt8) :
    content.length ≤ fileBlocks fs content * fs.blockSize.bytes ∧
      (content.length % fs.blockSize.bytes = 0 →
        fileBlocks fs content * fs.blockSize.bytes - content.length = 0) ∧
      (content.length % fs.blockSize.bytes ≠ 0 →
        fileBlocks fs content * fs.blockSize.bytes - content.length =
          fs.blockSize.bytes - content.length % fs.blockSize.bytes) := by
  rw [fileBlocks, divCeil]
  rcases blockSize_cases fs.blockSize with h | h | h <;> rw [h] <;> split <;> omega

theorem padBlock_ends (fs : FileSystemBuilder) (content : List UInt8) :
    Ends (padBlock fs.blockSize.bytes content.length) s
      (fun _ t => Wrote s t (zeros (fileBlocks fs content * fs.blockSize.bytes - content.length)))
      (IoFault s.out) := by
  obtain ⟨_, h0, h1⟩ := padding_eq fs content
  rw [padBlock]
  by_cases h : content.length % fs.blockSize.bytes ≠ 0
  · rw [if_pos h, h1 h]
    exact writeBytes_ends s _
  · rw [if_neg h, h0 (by omega)]
    exact ⟨_, _, rfl, by simp, rfl, by simp⟩

theorem leafCapacity_ge (bs : BlockSize) : maxExtentsPerInode ≤ extentLeafCapacity bs := by
  cases bs <;> decide

theorem writeFileBlocks_ends (hs : Sound fs) (h : Renders fs s) (hn : fs.nodes[i]? = some n)
    (hc : n.content = .file content) (hfit : s.nextFreeBlock + nodeBlocks fs i n < 2 ^ 32) :
    WritesNode fs i n s (writeFileBlocks i content) := by
  obtain ⟨m, hm, hme⟩ := h.get hn
  have hmc : m.content = .file content := (unplaced_fields hme).2.2.2.1.trans hc
  have htyped := hs.typed i n hn
  rw [Typed, hc] at htyped
  rw [WritesNode, writeFileBlocks]
  by_cases hnil : content = []
  · subst hnil
    refine modifyNode_ends (n := m) hm ⟨?_, s.out, s.pos, ?_, ?_, rfl⟩
    · simp only [nodeFault, hc]
      exact if_neg (by simp [fileBlocks, divCeil])
    · have hzero : nodeBlocks fs i n = 0 := by
        simp only [nodeBlocks, hc]
        simp [divCeil]
      rw [hzero, Nat.add_zero, updateNode_congr hm]
      rw [place, hmc]
      rfl
    · simp [nodeData, hc, fileExtents, fileBlocks, divCeil, extentsOf, extentRuns]
  · have hblocks := @nodeBlocks_file fs i n content hc
    have hcap := leafCapacity_ge fs.blockSize
    have hpad := (padding_eq fs content).1
    have hext : (fileExtents fs s.nextFreeBlock content).length =
        divCeil (fileBlocks fs content) targetBlocksPerFileExtent :=
      extentsOf_length (by decide)
    rw [if_neg hnil, ends_get_bind, h.blockSize]
    simp only
    rw [blocksWritten_eq htyped.2 hnil fs]
    refine (seekToBlock_ends s _).andThen (fun _ h => .inl h) ?_
    rw [h.blockSize]
    rintro _ _ ⟨o1, p1, rfl, hb1, hf1, hc1⟩
    refine (writeBytes_ends _ content).andThen (fun _ h => .inl (h.congr hf1)) ?_
    rintro _ _ ⟨o2, p2, rfl, hb2, hf2, hc2⟩
    refine (padBlock_ends fs content).andThen (fun _ h => .inl (h.congr (hf2.trans hf1))) ?_
    rintro _ _ ⟨o3, p3, rfl, hb3, hf3, -⟩
    rw [ends_bind_ok (ofExcept_run (u32Add_ok (by omega))), ends_bind, ends_modify, ends_bind]
    refine modifyNode_ends (n := m) hm ?_
    have hfate := hf3.trans (hf2.trans hf1)
    have hbytes : o3.bytes = overwrite s.out.bytes (s.nextFreeBlock * fs.blockSize.bytes)
        (content ++ zeros (fileBlocks fs content * fs.blockSize.bytes - content.length)) := by
      rw [overwrite_append, hb3, hb2, hc2]
      simp only [hb1, hc1]
    have hi := lt_of_get hn
    have hsplit : splitContiguousExtent 0 (fileBlocks fs content) s.nextFreeBlock
        targetBlocksPerFileExtent = .ok (fileExtents fs s.nextFreeBlock content) :=
      splitContiguousExtent_eq (by decide) (by decide) (by omega)
    have hrend : Renders fs { s with
        fs := s.fs.updateNode i (recordRun s.nextFreeBlock (fileBlocks fs content))
        nextFreeBlock := s.nextFreeBlock + fileBlocks fs content, out := o3, pos := p3 } :=
      h.update (f := recordRun s.nextFreeBlock (fileBlocks fs content)) rfl rfl fun _ => rfl
    have hm' := updateNode_get hm (recordRun s.nextFreeBlock (fileBlocks fs content))
    refine (ends_bind_ok (hrend.askNodePath hs.wf hi)).mpr ?_
    rw [ends_bind_ok (ofExcept_run hsplit)]
    have hplace : ∀ leaf, leaf = (if (fileExtents fs s.nextFreeBlock content).length >
          maxExtentsPerInode then some (s.nextFreeBlock + fileBlocks fs content) else none) →
        (s.fs.updateNode i (recordRun s.nextFreeBlock (fileBlocks fs content))).updateNode i
          (fun n => { n with
            fileExtents := fileExtents fs s.nextFreeBlock content, extentLeafBlock := leaf }) =
        s.fs.updateNode i (place fs s.nextFreeBlock i) := by
      rintro _ rfl
      rw [updateNode_updateNode]
      exact updateNode_congr hm (place_file hmc hnil).symm
    by_cases hlong : (fileExtents fs s.nextFreeBlock content).length > maxExtentsPerInode
    · rw [if_pos hlong]
      rw [if_pos (hext ▸ hlong)] at hblocks
      refine (seekToBlock_ends _ _).andThen (fun _ h => .inl (h.congr hfate)) ?_
      rintro _ _ ⟨o4, p4, rfl, hb4, hf4, hc4⟩
      have hleaf := @writeExtentLeafBlock_eq (fileExtents fs s.nextFreeBlock content) fs.blockSize
        ((nodePath fs.nodes i).getD [])
      by_cases hmany : (fileExtents fs s.nextFreeBlock content).length >
          extentLeafCapacity fs.blockSize
      · rw [if_pos hmany] at hleaf
        rw [ends_bind_error (ofExcept_fail hleaf)]
        right
        rw [nodeFault, hc]
        exact if_pos (hext ▸ hmany)
      · rw [if_neg hmany] at hleaf
        rw [ends_bind_ok (ofExcept_run hleaf)]
        refine (writeBytes_ends _ _).andThen (fun _ h => .inl (h.congr (hf4.trans hfate))) ?_
        rintro _ _ ⟨o5, p5, rfl, hb5, hf5, -⟩
        rw [ends_bind_ok (ofExcept_run (u32Add_ok (by omega))), ends_bind]
        refine modifyNode_ends hm' ⟨?_, o5, p5, ?_, ?_, hf5.trans (hf4.trans hfate)⟩
        · rw [nodeFault, hc]
          exact if_neg (hext ▸ hmany)
        · simp only [hplace _ (if_pos hlong).symm, hblocks, Nat.add_assoc]
        · have hend : (s.nextFreeBlock + fileBlocks fs content) * fs.blockSize.bytes =
              s.nextFreeBlock * fs.blockSize.bytes + (content ++
                zeros (fileBlocks fs content * fs.blockSize.bytes - content.length)).length := by
            rw [length_append, length_zeros, Nat.add_mul]
            omega
          have hbs : (s.fs.updateNode i
              (recordRun s.nextFreeBlock (fileBlocks fs content))).blockSize = fs.blockSize :=
            h.blockSize
          simp only [hb5, hb4, hbytes, hc4, hbs, hend]
          rw [nodeData, hc]
          simp only [if_pos hlong]
          exact overwrite_append.symm
    · rw [if_neg hlong]
      rw [if_neg (hext ▸ hlong)] at hblocks
      refine modifyNode_ends hm' ⟨?_, o3, p3, ?_, ?_, hfate⟩
      · rw [nodeFault, hc]
        exact if_neg (by rw [← hext]; omega)
      · simp only [hplace _ (if_neg hlong).symm, hblocks, Nat.add_zero]
      · simp only [hbytes, nodeData, hc, if_neg hlong, append_nil]

theorem writeSymlinkBlocks_ends (h : Renders fs s) (hn : fs.nodes[i]? = some n)
    (hc : n.content = .symlink target)
    (hfit : s.nextFreeBlock + nodeBlocks fs i n < 2 ^ 32) :
    WritesNode fs i n s (writeSymlinkBlocks i target) := by
  obtain ⟨m, hm, hme⟩ := h.get hn
  have hmc : m.content = .symlink target := (unplaced_fields hme).2.2.2.1.trans hc
  have hbs := blockSize_cases fs.blockSize
  have hblocks : nodeBlocks fs i n = if target.length ≥ fastSymlinkMax then 1 else 0 := by
    simp only [nodeBlocks, hc]
  rw [WritesNode, writeSymlinkBlocks]
  by_cases hfast : target.length < fastSymlinkMax
  · rw [if_pos hfast]
    rw [if_neg (by omega)] at hblocks
    refine modifyNode_ends hm ⟨?_, s.out, s.pos, ?_, ?_, rfl⟩
    · rw [nodeFault, hc]
      exact if_neg (by unfold fastSymlinkMax at hfast; omega)
    · rw [hblocks, updateNode_congr hm]
      · rfl
      · simp only [place, hmc, if_pos hfast]
    · simp only [nodeData, hc, if_pos hfast, overwrite_nil]
  · rw [if_neg hfast, ends_get_bind, h.blockSize]
    rw [if_pos (by omega)] at hblocks
    refine (seekToBlock_ends s _).andThen (fun _ h => .inl h) ?_
    rintro _ _ ⟨o1, p1, rfl, hb1, hf1, hc1⟩
    by_cases hlong : target.length ≤ fs.blockSize.bytes
    · have hcopy := copyFromSlice_start target rfl hlong
      rw [ends_bind_ok (ofExcept_run hcopy)]
      refine (writeBytes_ends _ _).andThen (fun _ h => .inl (h.congr hf1)) ?_
      rintro _ _ ⟨o2, p2, rfl, hb2, hf2, -⟩
      rw [ends_bind_ok (ofExcept_run (u32Add_ok (by omega))), ends_bind]
      refine modifyNode_ends hm ⟨?_, o2, p2, ?_, ?_, hf2.trans hf1⟩
      · rw [nodeFault, hc]
        exact if_neg (by omega)
      · rw [hblocks]
        rw [updateNode_congr hm]
        simp only [place, hmc, if_neg hfast]
      · simp only [hb2, hb1, hc1, h.blockSize, nodeData, hc, if_neg hfast]
    · have hcopy : copyFromSlice (zeros fs.blockSize.bytes) 0 target.length target =
          .error (.panic .indexOutOfRange) := if_pos (.inr (by rw [length_zeros]; omega))
      rw [ends_bind_error (ofExcept_fail hcopy)]
      right
      rw [nodeFault, hc]
      exact if_pos (by omega)

/-- Tombstones, hard links and whiteouts take no block; every other node is placed at the
next free block. -/
theorem writeNodeData_ends (hs : Sound fs) (h : Renders fs s) (hn : fs.nodes[i]? = some n)
    (hsized : Sized fs g)
    (hfit : skipped n = false → s.nextFreeBlock + nodeBlocks fs i n < 2 ^ 32) :
    Ends (writeNodeData i) s
      (fun _ t => if skipped n then t = s else nodeFault fs i n = none ∧
        Placed s t (s.fs.updateNode i (place fs s.nextFreeBlock i))
          (s.nextFreeBlock + nodeBlocks fs i n)
          (overwrite s.out.bytes (s.nextFreeBlock * fs.blockSize.bytes)
            (nodeData fs s.nextFreeBlock i n)))
      (fun φ => IoFault s.out φ ∨ skipped n = false ∧ nodeFault fs i n = some φ) := by
  obtain ⟨m, hm, hme⟩ := h.node hn
  obtain ⟨-, -, -, hcon, -, -, -, hlink, hdel⟩ := unplaced_fields hme
  have hino := h.inodeOf (lt_of_get hn)
  rw [writeNodeData, ends_get_bind, ends_bind_ok (ofExcept_run hm), hdel, hlink, hcon]
  by_cases hdead : n.deleted = true
  · have hskip : skipped n = true := by simp [skipped, hdead]
    rw [if_pos hdead, ends_pure, if_pos hskip]
  rw [if_neg hdead, ends_bind_ok (ofExcept_run hino)]
  by_cases hlinked : n.hardlinkTarget.isSome = true
  · have hskip : skipped n = true := by simp [skipped, hlinked]
    rw [if_pos hlinked, ite_self, ends_pure, if_pos hskip]
  rw [if_neg hlinked]
  simp only [Bool.not_eq_true, Option.isSome_eq_false_iff,
    Option.isNone_iff_eq_none] at hdead hlinked
  have hskip : skipped n = false := by simp [skipped, hdead, hlinked]
  have hfit := hfit hskip
  obtain ⟨k, hk, _⟩ := owner_number hs ⟨n, hn, hdead⟩ ((targetOf_some hn).trans hlinked)
  rw [hk]
  simp only [hskip, true_and]
  have hstay (hb : nodeBlocks fs i n = 0) (hf : nodeFault fs i n = none)
      (hd : nodeData fs s.nextFreeBlock i n = [])
      (hp : ∀ m, m.content = n.content → place fs s.nextFreeBlock i m = m) :
      WritesNode fs i n s (pure ()) := by
    obtain ⟨m, hm, hme⟩ := h.get hn
    rw [WritesNode, ends_pure, updateNode_same hm (hp m (unplaced_fields hme).2.2.2.1), hb, hd,
      overwrite_nil]
    exact ⟨hf, Placed.refl s⟩
  cases hc : n.content with
  | directory => exact writeDirectoryBlock_ends hs h hn hskip hc hsized hfit
  | file content => exact writeFileBlocks_ends hs h hn hc hfit
  | symlink target => exact writeSymlinkBlocks_ends h hn hc hfit
  | whiteout | hardlink =>
    exact hstay (by simp only [nodeBlocks, hc]) (by simp only [nodeFault, hc])
      (by simp only [nodeData, hc]) fun m hmc => by simp only [place, hmc, hc]

theorem length_nodeData (hn : fs.nodes[i]? = some n) (hskip : skipped n = false)
    (hsized : Sized fs g) (hf : nodeFault fs i n = none) (start : Nat) :
    (nodeData fs start i n).length = nodeBlocks fs i n * fs.blockSize.bytes := by
  unfold nodeFault at hf
  cases hc : n.content with
  | directory =>
    obtain ⟨hall, hblocks⟩ := Sized.dir hsized hn hskip hc
    rw [hblocks, nodeData, hc]
    simp only
    rw [length_flatMap, map_congr_left (g := fun _ => fs.blockSize.bytes), map_const',
      sum_replicate_nat]
    intro pack hpack
    exact length_blockBytes (by simpa using (packBlocks_fits hall hpack).2)
  | file content =>
    simp only [hc] at hf
    have hpad := (padding_eq fs content).1
    have hext : (fileExtents fs start content).length =
        divCeil (fileBlocks fs content) targetBlocksPerFileExtent :=
      extentsOf_length (by decide)
    have hcap : 12 + 12 * extentLeafCapacity fs.blockSize ≤ fs.blockSize.bytes := by
      cases fs.blockSize <;> decide
    rw [nodeBlocks_file hc, nodeData, hc]
    simp only [hext]
    by_cases hlong : divCeil (fileBlocks fs content) targetBlocksPerFileExtent > maxExtentsPerInode
    · have hmany : ¬ divCeil (fileBlocks fs content) targetBlocksPerFileExtent >
          extentLeafCapacity fs.blockSize := by
        intro hgt
        rw [if_pos hgt] at hf
        cases hf
      rw [if_pos hlong, if_pos hlong, length_append, length_append, length_zeros,
        length_leafNodeBytes (by omega), Nat.add_mul]
      omega
    · rw [if_neg hlong, if_neg hlong, append_nil, length_append, length_zeros, Nat.add_zero]
      omega
  | symlink target =>
    simp only [hc] at hf
    rw [nodeData, nodeBlocks, hc]
    simp only
    by_cases hfast : target.length < fastSymlinkMax
    · rw [if_pos hfast, if_neg (by omega)]
      simp
    · have hlong : ¬ target.length > fs.blockSize.bytes := by
        intro hgt
        rw [if_pos hgt] at hf
        cases hf
      rw [if_neg hfast, if_pos (by omega), length_append, length_zeros]
      omega
  | whiteout | hardlink => simp only [nodeData, nodeBlocks, hc, length_nil, Nat.zero_mul]

end Ext4NodeData
