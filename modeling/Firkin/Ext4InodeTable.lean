import Firkin.Ext4DataRegion

/-! # The inode table

Every node with an inode of its own fills one slot of the table, after which each hard
link adds one to the link count of its target. Slots are as many as one bitmap covers,
so a larger tree runs past the end of the table. -/
namespace Ext4InodeTable

open Ext4Types Ext4Builder Ext4BuilderInvariant Ext4BuilderTree ByteImage LevelOrder Ext4Layout List
  Ext4Encoding Ext4Finalizer Ext4InodeAllocation Ext4WriterFrame Ext4Sizing Ext4Extents
  Ext4DirectoryBlocks Ext4NodeData Ext4Attributes Ext4DataRegion SerialLayout FaultMonad

/-- The block area of an inode: extents, or the target of a short symlink. -/
def blockArea (fs : FileSystemBuilder) (g i : Nat) (n : Node) : List UInt8 :=
  let start := dataStart fs g i
  match n.content with
  | .directory =>
    leafNodeBytes (extentsOf maxBlocksPerExtent (dirPacks fs i).length start) maxExtentsPerInode 60
  | .file content =>
    if content = [] then zeros 60
    else if (fileExtents fs start content).length > maxExtentsPerInode then
      indexNodeBytes (start + fileBlocks fs content)
    else leafNodeBytes (fileExtents fs start content) maxExtentsPerInode 60
  | .symlink target =>
    if target.length < fastSymlinkMax then target ++ zeros (60 - target.length)
    else leafNodeBytes (extentsOf maxBlocksPerExtent 1 start) maxExtentsPerInode 60
  | .whiteout => zeros 60
  | .hardlink => zeros 60

def inodeBody (fs : FileSystemBuilder) (g i : Nat) (n : Node) : InodeBody :=
  { inodeMetadata fs (placedNode fs g i n) with
    block := blockArea fs g i n
    blocksLo := nodeBlocks fs i n + attrCost fs i
    fileAclLo := if holdsAttrs fs i then attrStart fs g i else 0 }

def inlineArea (n : Node) : List UInt8 :=
  if n.xattrs = [] ∨ inodeInlineXattrSize < attrNeed n.xattrs then zeros inodeInlineXattrSize
  else
    match writeXattrInline n.xattrs (zeros inodeInlineXattrSize) with
    | .ok area => area
    | .error _ => zeros inodeInlineXattrSize

def inodeRecord (fs : FileSystemBuilder) (g i : Nat) (n : Node) : Inode256 :=
  { body := inodeBody fs g i n, inlineXattrs := inlineArea n }

def extentFault (fs : FileSystemBuilder) (i : Nat) (n : Node) : Option Fault :=
  match n.content with
  | .directory =>
    if divCeil (dirPacks fs i).length maxBlocksPerExtent > maxExtentsPerInode then
      some (.err (.extentDepthExceeded [] 0))
    else none
  | _ => none

/-- Attributes that are to stand inline may still run past their area. -/
def inlineAreaFault (n : Node) : Option Fault :=
  if n.xattrs = [] ∨ inodeInlineXattrSize < attrNeed n.xattrs then none
  else inlineFault n.xattrs

def recordFault (fs : FileSystemBuilder) (i : Nat) (n : Node) : Option Fault :=
  (extentFault fs i n).or (inlineAreaFault n)

variable {fs : FileSystemBuilder} {i g : Nat} {n : Node}
  {out : Sink} {table : List Inode256} {next pos : Nat}

theorem placedNode_owner (hskip : skipped n = false) :
    placedNode fs g i n = place fs (dataStart fs g i) i n := by
  rw [placedNode, hskip]
  rfl

theorem attrNode_fields (fs : FileSystemBuilder) (g i : Nat) (n : Node) :
    (attrNode fs g i n).content = n.content ∧ (attrNode fs g i n).startBlock = n.startBlock ∧
      (attrNode fs g i n).endBlock = n.endBlock ∧ (attrNode fs g i n).fileExtents = n.fileExtents ∧
      (attrNode fs g i n).extentLeafBlock = n.extentLeafBlock ∧
      (attrNode fs g i n).xattrs = n.xattrs := by
  unfold attrNode
  split <;> exact ⟨rfl, rfl, rfl, rfl, rfl, rfl⟩

theorem inodeMetadata_attrNode (g i : Nat) :
    inodeMetadata (finished fs g) (attrNode fs g i n) = inodeMetadata fs n := by
  unfold attrNode
  split <;> rfl

theorem inodeMetadata_zero (fs : FileSystemBuilder) (n : Node) :
    (inodeMetadata fs n).block = zeros 60 ∧ (inodeMetadata fs n).blocksLo = 0 ∧
      (inodeMetadata fs n).fileAclLo = 0 := by
  unfold inodeMetadata
  cases n.content <;> exact ⟨rfl, rfl, rfl⟩

theorem dataStart_add_lt (hsized : Sized fs g) (hn : fs.nodes[i]? = some n)
    (hskip : skipped n = false) : dataStart fs g i + nodeBlocks fs i n < 2 ^ 32 := by
  have hlt := dataEnd_lt hsized
  have hi : i ∈ dataOrder fs := mem_dataOrder.mpr (lt_of_get hn)
  have hle := @offset_add_le _ _ (dataCost fs) _ _ dataOrder_nodup hi
  rw [dataCost_owner hn hskip] at hle
  rw [dataEnd] at hlt
  rw [dataStart]
  omega

theorem foldlM_leaves {leaves : List ExtentLeaf} {sum : Nat}
    (h : sum + (leaves.map ExtentLeaf.len).sum < 2 ^ 32) :
    leaves.foldlM (fun sum leaf => u32Add sum leaf.len) sum =
      .ok (sum + (leaves.map ExtentLeaf.len).sum) := by
  induction leaves generalizing sum with
  | nil => rfl
  | cons leaf leaves ih =>
    rw [map_cons, sum_cons] at h ⊢
    rw [foldlM_cons, except_bind_ok (u32Add_ok (by omega)), ih (by omega), Nat.add_assoc]

theorem sumLeaves_eq {start : Nat} (he : m.fileExtents = fileExtents fs start content)
    (hl : m.extentLeafBlock = if (fileExtents fs start content).length > maxExtentsPerInode then
      some (start + fileBlocks fs content) else none)
    (hlt : fileBlocks fs content +
      (if divCeil (fileBlocks fs content) targetBlocksPerFileExtent > maxExtentsPerInode then 1
       else 0) < 2 ^ 32) :
    sumLeaves m = .ok (fileBlocks fs content +
      if divCeil (fileBlocks fs content) targetBlocksPerFileExtent > maxExtentsPerInode then 1
      else 0) := by
  have hlen : (fileExtents fs start content).length =
      divCeil (fileBlocks fs content) targetBlocksPerFileExtent :=
    extentsOf_length (by decide)
  have hsum : ((fileExtents fs start content).map ExtentLeaf.len).sum = fileBlocks fs content :=
    extentRuns_sum (by decide) le_rfl
  have hfold := @foldlM_leaves (fileExtents fs start content) 0 (by omega)
  rw [hsum, Nat.zero_add] at hfold
  rw [sumLeaves, he, hl, except_bind_ok hfold, hlen]
  split at hlt
  · next hlong =>
    rw [if_pos hlong, if_pos hlong]
    exact u32Add_ok hlt
  · next hshort =>
    rw [if_neg hshort, if_neg hshort]
    rfl

/-- The block map of a node that owns its inode, from a body with an empty one. -/
theorem encodeBlocks_eq (hs : Sound fs) (hsized : Sized fs g) (hn : fs.nodes[i]? = some n)
    (hskip : skipped n = false) (h : Renders fs s) (hb : body.block = zeros 60)
    (hz : body.blocksLo = 0) :
    encodeBlocks s i (attrNode fs g i (placedNode fs g i n)) body =
      match extentFault fs i n with
      | some φ => .error φ
      | none => .ok { body with block := blockArea fs g i n, blocksLo := nodeBlocks fs i n } := by
  obtain ⟨e1, e2, e3, e4, e5, -⟩ := attrNode_fields fs g i (placedNode fs g i n)
  have hlt := dataStart_add_lt hsized hn hskip
  have hcon : (placedNode fs g i n).content = n.content :=
    (unplaced_fields (unplaced_placedNode i n)).2.2.2.1
  have hplaced := @placedNode_owner fs i g n hskip
  unfold encodeBlocks
  rw [e1, e2, e3, e4, hcon, hb]
  cases hc : n.content with
  | directory =>
    obtain ⟨-, hblocks⟩ := Sized.dir hsized hn hskip hc
    have hstart : (placedNode fs g i n).startBlock = dataStart fs g i ∧
        (placedNode fs g i n).endBlock = dataStart fs g i + (dirPacks fs i).length := by
      rw [hplaced, place, hc]
      exact ⟨rfl, rfl⟩
    have henc := @encodeInlineExtent_eq (dirPacks fs i).length (dataStart fs g i) (by omega)
    simp only [hstart, Nat.add_sub_cancel_left]
    rw [henc, extentFault, hc]
    split
    · rfl
    · rw [hblocks, blockArea, hc]
      rfl
  | file content =>
    have hnofault : extentFault fs i n = none := by rw [extentFault, hc]
    rw [hnofault]
    simp only
    by_cases hnil : content = []
    · have hzero : nodeBlocks fs i n = 0 := by rw [nodeBlocks_file hc, hnil]; rfl
      have hzeros : blockArea fs g i n = zeros 60 := by simp only [blockArea, hc, if_pos hnil]
      rw [if_pos hnil, hzero, hzeros, ← hb, ← hz]
      rfl
    · have hfile := @place_file fs i n content hc hnil (dataStart fs g i)
      rw [← hplaced] at hfile
      have hext : (placedNode fs g i n).fileExtents =
          fileExtents fs (dataStart fs g i) content := by
        rw [hfile]
      have hleaf : (placedNode fs g i n).extentLeafBlock =
          if (fileExtents fs (dataStart fs g i) content).length > maxExtentsPerInode then
            some (dataStart fs g i + fileBlocks fs content) else none := by rw [hfile]
      have hpos : 0 < fileBlocks fs content := by
        have := length_pos_iff.mpr hnil
        rw [fileBlocks, divCeil, if_neg (by omega)]
        exact Nat.lt_add_right _ Nat.one_pos
      have hblocks := @nodeBlocks_file fs i n content hc
      have hsum := sumLeaves_eq (e4.trans hext) (e5.trans hleaf) (by omega)
      rw [← hblocks] at hsum
      have hne : fileExtents fs (dataStart fs g i) content ≠ [] := extentsOf_eq_nil hpos
      have hi := lt_of_get hn
      rw [if_neg hnil, hext, if_neg hne, except_bind_ok (h.nodePathOf hs.wf hi), e5, hleaf, hsum]
      simp only [blockArea, hc, if_neg hnil]
      by_cases hlong : (fileExtents fs (dataStart fs g i) content).length > maxExtentsPerInode
      · rw [if_pos hlong, if_pos hlong]
        have hroot : encodeFileExtentRoot (zeros 60) (fileExtents fs (dataStart fs g i) content)
            (some (dataStart fs g i + fileBlocks fs content)) ((nodePath fs.nodes i).getD []) =
            .ok (indexNodeBytes (dataStart fs g i + fileBlocks fs content)) :=
          encodeFileExtentRoot_index hlong _
        rw [except_bind_ok hroot]
        rfl
      · rw [if_neg hlong, if_neg hlong, except_bind_ok (encodeFileExtentRoot_inline
          (by omega) none ((nodePath fs.nodes i).getD []))]
        rfl
  | symlink target =>
    have hnofault : extentFault fs i n = none := by rw [extentFault, hc]
    rw [hnofault]
    simp only
    by_cases hfast : target.length < fastSymlinkMax
    · have hzero : nodeBlocks fs i n = 0 := by
        simp only [nodeBlocks, hc]
        exact if_neg (by omega)
      rw [if_pos hfast, except_bind_ok (copyFromSlice_start target rfl
        (by unfold fastSymlinkMax at hfast; omega)), hzero, blockArea, hc]
      simp only [if_pos hfast]
      rfl
    · have hone : nodeBlocks fs i n = 1 := by
        simp only [nodeBlocks, hc]
        exact if_pos (by omega)
      have hstart : (placedNode fs g i n).startBlock = dataStart fs g i := by
        rw [hplaced, place, hc]
        simp only [if_neg hfast]
      have henc := @encodeInlineExtent_eq 1 (dataStart fs g i) (by omega)
      rw [if_neg hfast, hstart, except_bind_ok henc, hone, blockArea, hc]
      simp only [if_neg hfast]
      rfl
  | whiteout =>
    have hzero : nodeBlocks fs i n = 0 := by simp only [nodeBlocks, hc]
    simp only [extentFault, blockArea, hc, hzero, ← hb]
    rfl
  | hardlink =>
    have hzero : nodeBlocks fs i n = 0 := by simp only [nodeBlocks, hc]
    simp only [extentFault, blockArea, hc, hzero, ← hb]
    rw [← hz]
    rfl

theorem owner_live (hn : fs.nodes[i]? = some n) (hskip : skipped n = false) :
    Live fs.nodes i ∧ targetOf fs.nodes i = none := by
  simp only [skipped, Bool.or_eq_false_iff, Option.isSome_eq_false_iff,
    Option.isNone_iff_eq_none] at hskip
  exact ⟨⟨n, hn, hskip.1⟩, (targetOf_some hn).trans hskip.2⟩

/-- A node that owns its inode has an attribute block if its attributes do not fit inline. -/
theorem holdsAttrs_owner (hs : Sound fs) (hn : fs.nodes[i]? = some n) (hskip : skipped n = false) :
    holdsAttrs fs i = true ↔ ¬ (n.xattrs = [] ∨ attrNeed n.xattrs ≤ inodeInlineXattrSize) := by
  obtain ⟨hlive, ht⟩ := owner_live hn hskip
  obtain ⟨k, hk, _⟩ := owner_number hs hlive ht
  have hd : n.deleted = false := by
    simp only [skipped, Bool.or_eq_false_iff] at hskip
    exact hskip.1
  simp [holdsAttrs, hn, hd, hk]

section
variable (hs : Sound fs) (hsized : Sized fs g) (hn : fs.nodes[i]? = some n)
    (hskip : skipped n = false)
include hs hsized hn hskip

theorem encodeXattrs_eq (hz : body.blocksLo = nodeBlocks fs i n) (ha : body.fileAclLo = 0) :
    encodeXattrs (attrNode fs g i (placedNode fs g i n)) body =
      match inlineAreaFault n with
      | some φ => .error φ
      | none => .ok { body := { body with
                        blocksLo := nodeBlocks fs i n + attrCost fs i
                        fileAclLo := if holdsAttrs fs i then attrStart fs g i else 0 }
                      inlineXattrs := inlineArea n } := by
  obtain ⟨-, -, -, -, -, e6⟩ := attrNode_fields fs g i (placedNode fs g i n)
  rw [(unplaced_fields (unplaced_placedNode i n)).2.2.2.2.2.1] at e6
  have hholds := holdsAttrs_owner hs hn hskip
  have hstay (hno : holdsAttrs fs i = false) : body = { body with
      blocksLo := nodeBlocks fs i n + attrCost fs i
      fileAclLo := if holdsAttrs fs i then attrStart fs g i else 0 } := by
    have hcost : attrCost fs i = 0 := if_neg (by simp [hno])
    have hacl : (if holdsAttrs fs i = true then attrStart fs g i else 0) = body.fileAclLo := by
      rw [ha, hno]
      rfl
    rw [hcost, hacl, Nat.add_zero, ← hz]
  unfold encodeXattrs inlineAreaFault
  rw [e6]
  by_cases hnil : n.xattrs = []
  · have hno : holdsAttrs fs i = false := by rw [← Bool.not_eq_true, hholds]; simp [hnil]
    rw [if_pos hnil, if_pos (.inl hnil), inlineArea, if_pos (Or.inl hnil)]
    rw [← hstay hno]
    rfl
  have hweight : attrNeed n.xattrs < 2 ^ 32 := by
    have := hsized.attrs n (mem_of_getElem? hn)
    rwa [attrWeight, if_neg (by simp [hskip, hnil])] at this
  have hfits := xattrsFitInline_eq n.xattrs
  rw [if_pos hweight] at hfits
  rw [if_neg hnil, except_bind_ok hfits]
  by_cases hin : attrNeed n.xattrs ≤ inodeInlineXattrSize
  · have hno : holdsAttrs fs i = false := by rw [← Bool.not_eq_true, hholds]; simp [hin]
    have hcond : ¬ (n.xattrs = [] ∨ inodeInlineXattrSize < attrNeed n.xattrs) := by
      simp [hnil, hin]
    rw [if_pos (decide_eq_true hin), if_neg hcond]
    rcases writeXattrInline_cases n.xattrs with ⟨φ, hφ, herr⟩ | ⟨hnone, r, hok, _⟩
    · rw [hφ, except_bind_error herr]
    · rw [hnone, inlineArea, if_neg hcond, hok]
      rw [← hstay hno]
      rfl
  · have hyes : holdsAttrs fs i = true := by rw [hholds]; simp [hnil, hin]
    have hblock : (attrNode fs g i (placedNode fs g i n)).xattrBlock = some (attrStart fs g i) := by
      rw [attrNode, if_pos hyes]
    have hlt : body.blocksLo + 1 < 2 ^ 32 := by
      have hpay := payload_ge hn
      have hmax := hsized.payload_lt
      have hattr : attrBlocks n = 1 := if_neg (by simp [hnil, hin])
      rw [nodePayload, if_neg (by simp [hskip])] at hpay
      simp only at hpay
      omega
    rw [if_neg (by simpa using hin), if_pos (.inr (not_le.mp hin)), hblock]
    simp only
    rw [except_bind_ok (u32Add_ok hlt), hyes, attrCost_holder hyes, hz, inlineArea,
      if_pos (Or.inr (not_le.mp hin))]
    rfl

theorem buildInodeRecord_eq : buildInodeRecord (stage fs g (finished fs g) table next out pos) i =
      match recordFault fs i n with
      | some φ => .error φ
      | none => .ok (inodeRecord fs g i n) := by
  obtain ⟨hb, hz, ha⟩ := inodeMetadata_zero fs (placedNode fs g i n)
  have hnode : node (stage fs g (finished fs g) table next out pos) i =
      .ok (attrNode fs g i (placedNode fs g i n)) := index_ok (finished_get hn)
  have hblocks := encodeBlocks_eq hs hsized hn hskip
    (@renders_finished fs g out table next pos) hb hz
  rw [buildInodeRecord, except_bind_ok hnode]
  change (encodeBlocks _ i _ (inodeMetadata (finished fs g) _) >>= _) = _
  rw [inodeMetadata_attrNode, hblocks, recordFault]
  cases hext : extentFault fs i n with
  | some φ => rfl
  | none =>
    exact encodeXattrs_eq hs hsized hn hskip rfl ha
end

/-- The fault of the pass that fills the slots, at node `i`. -/
def fillFault (fs : FileSystemBuilder) (i : Nat) : Option Fault :=
  match fs.nodes[i]? with
  | some n =>
    if skipped n then none
    else (recordFault fs i n).or
      (if (inodeNumber fs.nodes i).getD 0 - 1 < slots fs then none
       else some (.panic .indexOutOfRange))
  | none => none

/-- Node `j` is a hard link that shares inode `k`. -/
def isLinkTo (fs : FileSystemBuilder) (k j : Nat) : Bool :=
  match fs.nodes[j]? with
  | some n => !n.deleted && n.hardlinkTarget.isSome && decide (inodeNumber fs.nodes j = some k)
  | none => false

def linksTo (fs : FileSystemBuilder) (done : List Nat) (k : Nat) : Nat :=
  done.countP (isLinkTo fs k)

/-- The fault of the pass that counts the links, at node `j`. -/
def linkFault (fs : FileSystemBuilder) (j : Nat) : Option Fault :=
  match inodeNumber fs.nodes j with
  | some k =>
    if isLinkTo fs k j ∧ ¬ 1 + linksTo fs (List.range j) k + 1 < 2 ^ 16 then some overflow
    else none
  | none => none

def fillFaults (fs : FileSystemBuilder) : List Fault :=
  (List.range fs.nodes.length).filterMap (fillFault fs)

def linkFaults (fs : FileSystemBuilder) : List Fault :=
  (List.range fs.nodes.length).filterMap (linkFault fs)

def withLinks (record : Inode256) (extra : Nat) : Inode256 :=
  { record with body := { record.body with linksCount := record.body.linksCount + extra } }

/-- The table holds the records of `owners`, with the links among `links` counted. -/
structure TableHolds (fs : FileSystemBuilder) (g : Nat) (owners links : List Nat)
    (table : List Inode256) : Prop where
  length : table.length = slots fs
  sized : ∀ r ∈ table, r.body.block.length = 60 ∧ r.inlineXattrs.length = inodeInlineXattrSize
  record : ∀ i ∈ owners, ∀ n k, fs.nodes[i]? = some n → skipped n = false →
    inodeNumber fs.nodes i = some k →
      table[k - 1]? = some (withLinks (inodeRecord fs g i n) (linksTo fs links k))

theorem tableHolds_blank : TableHolds fs g [] [] (blankTable fs) where
  length := length_replicate
  sized := by
    intro r hr
    rw [eq_of_mem_replicate hr]
    exact ⟨by simp [Inode256.zeroed, InodeBody.zeroed], by simp [Inode256.zeroed]⟩
  record := by
    intro i hi
    cases hi

theorem length_blockArea (hext : extentFault fs i n = none) : (blockArea fs g i n).length = 60 := by
  unfold extentFault at hext
  unfold blockArea
  cases hc : n.content with
  | directory =>
    simp only [hc] at hext ⊢
    have hle : ¬ divCeil (dirPacks fs i).length maxBlocksPerExtent > maxExtentsPerInode := by
      intro hgt
      rw [if_pos hgt] at hext
      cases hext
    refine length_leafNodeBytes ?_
    rw [extentsOf_length (by decide)]
    unfold maxExtentsPerInode at hle
    omega
  | file content =>
    simp only
    split
    · simp
    · split
      · simp
      · next hlong =>
        refine length_leafNodeBytes ?_
        unfold maxExtentsPerInode at hlong
        omega
  | symlink target =>
    simp only
    split
    · next hfast =>
      unfold fastSymlinkMax at hfast
      simp only [length_append, length_zeros]
      omega
    · exact length_leafNodeBytes (by rw [extentsOf_length (by decide)]; decide)
  | whiteout => simp
  | hardlink => simp

theorem length_inlineArea (n : Node) : (inlineArea n).length = inodeInlineXattrSize := by
  unfold inlineArea
  split
  · simp
  · rcases writeXattrInline_cases n.xattrs with ⟨φ, _, herr⟩ | ⟨_, r, hok, hlen⟩
    · rw [herr]
      simp
    · rw [hok]
      exact hlen

section
theorem setInodeRecord_run (h : s.inodeTable[slot]? = some old) (hf : f old = .ok r) :
    setInodeRecord slot f s = .ok () { s with inodeTable := s.inodeTable.set slot r } := by
  rw [setInodeRecord, bind_of_ok (run_get s), bind_of_ok (ofExcept_run (index_ok h)),
    bind_of_ok (ofExcept_run hf)]
  rfl

theorem setInodeRecord_fail (h : s.inodeTable[slot]? = some old) (hf : f old = .error φ) :
    setInodeRecord slot f s = .error φ s := by
  rw [setInodeRecord, bind_of_ok (run_get s), bind_of_ok (ofExcept_run (index_ok h)),
    bind_of_error (ofExcept_fail hf)]

theorem setInodeRecord_out (h : s.inodeTable.length ≤ slot) :
    setInodeRecord slot f s = .error (.panic .indexOutOfRange) s := by
  have hindex : index s.inodeTable slot = .error (.panic .indexOutOfRange) := by
    rw [index, getElem?_eq_none h]
  rw [setInodeRecord, bind_of_ok (run_get s), bind_of_error (ofExcept_fail hindex)]
end

theorem slot_ne (hs : Sound fs) (hn : fs.nodes[i]? = some n)
    (hskip : skipped n = false) (hm : fs.nodes[j]? = some m) (hskip' : skipped m = false)
    (hk : inodeNumber fs.nodes i = some k) (hl : inodeNumber fs.nodes j = some l) (hne : i ≠ j) :
    k - 1 ≠ l - 1 := by
  obtain ⟨hi, hti⟩ := owner_live hn hskip
  obtain ⟨hj, htj⟩ := owner_live hm hskip'
  obtain ⟨a, ha, hac⟩ := owner_number hs hi hti
  obtain ⟨b, hb, hbc⟩ := owner_number hs hj htj
  have hlb : l = b := Option.some.inj (hl.symm.trans hb)
  intro heq
  refine hne (owner_injective hs hi hti hj htj ?_)
  rw [hk, hl]
  congr 1
  omega

theorem fillInodeRecord_step (hs : Sound fs) (hsized : Sized fs g) (hi : i < fs.nodes.length)
    (hT : TableHolds fs g (range i) [] table) :
    Ends (fillInodeRecord i) (stage fs g (finished fs g) table next out pos)
      (fun _ v => fillFault fs i = none ∧ ∃ table',
        v = stage fs g (finished fs g) table' next out pos ∧
          TableHolds fs g (range (i + 1)) [] table')
      (fun φ => fillFault fs i = some φ) := by
  have hn := getElem?_eq_getElem hi
  generalize fs.nodes[i] = n at hn
  have hrend := @renders_finished fs g out table next pos
  obtain ⟨m, hm, hme⟩ := hrend.node hn
  obtain ⟨-, -, -, -, -, -, -, hlink, hdel⟩ := unplaced_fields hme
  have hino := hrend.inodeOf hi
  have hstay (hskip : skipped n = true) : fillFault fs i = none ∧ ∃ table',
      stage fs g (finished fs g) table next out pos =
        stage fs g (finished fs g) table' next out pos ∧
        TableHolds fs g (range (i + 1)) [] table' := by
    refine ⟨by simp [fillFault, hn, hskip], table, rfl, hT.length, hT.sized, ?_⟩
    intro j hj a k ha hskip' hk
    rw [range_succ] at hj
    rcases mem_append.mp hj with hj | hj
    · exact hT.record j hj a k ha hskip' hk
    · rw [mem_singleton.mp hj, hn] at ha
      cases ha
      cases hskip.symm.trans hskip'
  rw [fillInodeRecord, ends_get_bind, ends_bind_ok (ofExcept_run hm), hdel, hlink]
  by_cases hdead : n.deleted = true
  · rw [if_pos hdead]
    exact hstay (by simp [skipped, hdead])
  rw [if_neg hdead, ends_bind_ok (ofExcept_run hino)]
  by_cases hl : n.hardlinkTarget.isSome = true
  · have hskip : skipped n = true := by simp [skipped, hl]
    cases inodeNumber fs.nodes i with
    | none => exact hstay hskip
    | some k =>
      simp only
      rw [if_pos hl]
      exact hstay hskip
  have hskip : skipped n = false := by simp [skipped, hdead, hl]
  obtain ⟨hlive, ht⟩ := owner_live hn hskip
  obtain ⟨k, hk, _⟩ := owner_number hs hlive ht
  have hfault : fillFault fs i = (recordFault fs i n).or
      (if k - 1 < slots fs then none else some (.panic .indexOutOfRange)) := by
    rw [fillFault, hn]
    simp only [hskip, hk]
    rfl
  have hbuild := @buildInodeRecord_eq fs i g n out table next pos hs hsized hn hskip
  rw [hk]
  simp only
  rw [if_neg (by simp [hl])]
  cases hrec : recordFault fs i n with
  | some φ =>
    rw [hrec] at hbuild hfault
    rw [ends_bind_error (ofExcept_fail hbuild)]
    exact hfault
  | none =>
    rw [hrec] at hbuild hfault
    rw [ends_bind_ok (ofExcept_run hbuild)]
    by_cases hslot : k - 1 < slots fs
    case neg =>
      rw [if_neg hslot] at hfault
      refine ends_of_error (setInodeRecord_out ?_) hfault
      change table.length ≤ k - 1
      rw [hT.length]
      omega
    rw [if_pos hslot] at hfault
    have hlt : k - 1 < table.length := by rw [hT.length]; exact hslot
    refine ends_of_ok (setInodeRecord_run (getElem?_eq_getElem hlt) rfl) ?_
    refine ⟨hfault, table.set (k - 1) (inodeRecord fs g i n), rfl, ?_, ?_, ?_⟩
    · rw [length_set, hT.length]
    · intro r hr
      rcases mem_or_eq_of_mem_set hr with hr | rfl
      · exact hT.sized r hr
      · rw [recordFault, Option.or_eq_none_iff] at hrec
        exact ⟨length_blockArea hrec.1, length_inlineArea n⟩
    · intro j hj a l ha hskip' hl'
      rw [range_succ] at hj
      rcases mem_append.mp hj with hj | hj
      · have hji : i ≠ j := by
          rintro rfl
          exact absurd (mem_range.mp hj) (lt_irrefl i)
        rw [getElem?_set_ne (slot_ne hs hn hskip ha hskip' hk hl' hji)]
        exact hT.record j hj a l ha hskip' hl'
      · rw [mem_singleton.mp hj] at ha hl' ⊢
        rw [hn] at ha
        rw [hk] at hl'
        cases ha
        cases hl'
        rw [getElem?_set_self hlt]
        rfl

theorem linksTo_succ (j k : Nat) : linksTo fs (range (j + 1)) k =
    linksTo fs (range j) k + if isLinkTo fs k j then 1 else 0 := by
  rw [linksTo, range_succ, countP_append, countP_singleton]
  rfl

theorem linksCount_record (hdir : n.content ≠ .directory) (hl : n.content ≠ .hardlink) :
    (inodeRecord fs g i n).body.linksCount = 1 := by
  have hcon : (placedNode fs g i n).content = n.content :=
    (unplaced_fields (unplaced_placedNode i n)).2.2.2.1
  simp only [inodeRecord, inodeBody, inodeMetadata, hcon]
  cases hc : n.content with
  | directory => exact absurd hc hdir
  | hardlink => exact absurd hc hl
  | file c => rfl
  | symlink t => rfl
  | whiteout => rfl

theorem link_owner (hs : Sound fs) (hn : fs.nodes[i]? = some n) (hd : n.deleted = false) {t k : Nat}
    (ht : n.hardlinkTarget = some t) (hk : inodeNumber fs.nodes i = some k) :
    inodeNumber fs.nodes t = some k ∧ ∃ r m, fs.nodes[r]? = some m ∧ skipped m = false ∧
      inodeNumber fs.nodes r = some k ∧ m.content ≠ .directory ∧ m.content ≠ .hardlink := by
  have hto : targetOf fs.nodes i = some t := (targetOf_some hn).trans ht
  have hl : Live fs.nodes i := ⟨n, hn, hd⟩
  have htk : inodeNumber fs.nodes t = some k := by
    by_cases hb : Precedes (levelOrder fs.nodes) t i
    · rw [← inodeNumber_link hs hl hto hb, hk]
    · rw [inodeNumber_link_none hs hl hto hb] at hk
      cases hk
  obtain ⟨⟨m, hm, hmd⟩, hmt, hmk⟩ := number_resolve hs hl hk
  obtain ⟨_, m', hm', hmode, _⟩ := resolve_spec hs.wf.shape hn
  cases hm.symm.trans hm'
  have hnolink : m.hardlinkTarget = none := (targetOf_some hm).symm.trans hmt
  refine ⟨htk, _, m, hm, by simp [skipped, hmd, hnolink], hmk, ?_, ?_⟩
  · intro hc
    have hdir := (hs.wf.shape.kind _ m hm).mp hc
    rw [hmode, link_not_dir hs.wf hn ht] at hdir
    cases hdir
  · intro hc
    exact (hs.wf.shape.link _ m hm).mp hc hnolink

theorem countHardlink_step (hs : Sound fs) (hi : i < fs.nodes.length)
    (hT : TableHolds fs g (range fs.nodes.length) (range i) table) :
    Ends (countHardlink i) (stage fs g (finished fs g) table next out pos)
      (fun _ v => linkFault fs i = none ∧ ∃ table',
        v = stage fs g (finished fs g) table' next out pos ∧
          TableHolds fs g (range fs.nodes.length) (range (i + 1)) table')
      (fun φ => linkFault fs i = some φ) := by
  have hn := getElem?_eq_getElem hi
  generalize fs.nodes[i] = n at hn
  have hrend := @renders_finished fs g out table next pos
  obtain ⟨m, hm, hme⟩ := hrend.node hn
  obtain ⟨-, -, -, -, -, -, -, hlink, hdel⟩ := unplaced_fields hme
  have hino := hrend.inodeOf hi
  have hstay (hno : ∀ k, isLinkTo fs k i = false) : linkFault fs i = none ∧ ∃ table',
      stage fs g (finished fs g) table next out pos =
        stage fs g (finished fs g) table' next out pos ∧
        TableHolds fs g (range fs.nodes.length) (range (i + 1)) table' := by
    refine ⟨?_, table, rfl, hT.length, hT.sized, ?_⟩
    · unfold linkFault
      split
      · next k _ => exact if_neg (by simp [hno k])
      · rfl
    · intro j hj a k ha hskip hk
      rw [linksTo_succ, hno k]
      exact hT.record j hj a k ha hskip hk
  rw [countHardlink, ends_get_bind, ends_bind_ok (ofExcept_run hm), hdel, hlink]
  by_cases hdead : n.deleted = true
  · rw [if_pos hdead]
    exact hstay fun k => by simp [isLinkTo, hn, hdead]
  rw [if_neg hdead, ends_bind_ok (ofExcept_run hino)]
  rw [Bool.not_eq_true] at hdead
  cases hk : inodeNumber fs.nodes i with
  | none =>
    exact hstay fun k => by simp [isLinkTo, hn, hk]
  | some k =>
    rw [if_neg (by simp)]
    cases ht : n.hardlinkTarget with
    | none =>
      simp only [ends_pure]
      exact hstay fun k => by simp [isLinkTo, hn, ht]
    | some t =>
      obtain ⟨htk, r, a, ha, hskip, hrk, hdir, hhl⟩ := link_owner hs hn hdead ht hk
      have htlt : t < fs.nodes.length :=
        lt_trans (hs.wf.shape.target i n t hn ht).1 hi
      have hself : isLinkTo fs k i = true := by simp [isLinkTo, hn, hdead, ht, hk]
      have hrecord := hT.record r (mem_range.mpr (lt_of_get ha)) a k ha hskip hrk
      have hcount : (withLinks (inodeRecord fs g r a)
          (linksTo fs (range i) k)).body.linksCount = 1 + linksTo fs (range i) k := by
        change (inodeRecord fs g r a).body.linksCount + _ = _
        rw [linksCount_record hdir hhl]
      have hfault : linkFault fs i = if 1 + linksTo fs (range i) k + 1 < 2 ^ 16 then none
          else some overflow := by
        rw [linkFault, hk]
        simp only [hself, true_and]
        split_ifs <;> rfl
      rw [ends_bind_ok (ofExcept_run (hrend.inodeOf htlt)), htk,
        ends_bind_ok (ofExcept_run (unwrap_some rfl))]
      by_cases hfit : 1 + linksTo fs (range i) k + 1 < 2 ^ 16
      case neg =>
        rw [if_neg hfit] at hfault
        refine ends_of_error (setInodeRecord_fail hrecord ?_) hfault
        rw [hcount, if_neg hfit]
        rfl
      rw [if_pos hfit] at hfault
      refine ends_of_ok (setInodeRecord_run (r := withLinks (inodeRecord fs g r a)
        (linksTo fs (range i) k + 1)) hrecord ?_) ?_
      · exact if_pos (show _ + 1 < 2 ^ 16 by rw [hcount]; exact hfit)
      · have hlt : k - 1 < table.length := lt_of_get hrecord
        refine ⟨hfault, table.set (k - 1) (withLinks (inodeRecord fs g r a)
          (linksTo fs (range i) k + 1)), rfl, ?_, ?_, ?_⟩
        · rw [length_set, hT.length]
        · intro b hb
          rcases mem_or_eq_of_mem_set hb with hb | rfl
          · exact hT.sized b hb
          · have hsized := hT.sized _ (mem_of_getElem? hrecord)
            exact hsized
        · intro j hj b l hb hskip' hl
          by_cases hjr : r = j
          · subst hjr
            rw [ha] at hb
            rw [hrk] at hl
            cases hb
            cases hl
            rw [getElem?_set_self hlt, linksTo_succ, hself]
            rfl
          · have hne : l ≠ k := by
              rintro rfl
              exact slot_ne hs ha hskip hb hskip' hrk hl hjr rfl
            have hno : isLinkTo fs l i = false := by
              simp [isLinkTo, hn, hk, Ne.symm hne]
            rw [getElem?_set_ne (slot_ne hs ha hskip hb hskip' hrk hl hjr), linksTo_succ, hno]
            exact hT.record j hj b l hb hskip' hl

/-- The table as a whole, or the first fault of the two passes over the nodes. -/
theorem finalizeInodeTable_ends (hs : Sound fs) (hsized : Sized fs g) (next : Nat) (out : Sink)
    (pos : Nat) :
    Ends finalizeInodeTable (stage fs g (finished fs g) (blankTable fs) next out pos)
      (fun _ t => fillFaults fs = [] ∧ linkFaults fs = [] ∧ ∃ table,
        t = stage fs g (finished fs g) table next out pos ∧
          TableHolds fs g (range fs.nodes.length) (range fs.nodes.length) table)
      (fun φ => (fillFaults fs ++ linkFaults fs).head? = some φ) := by
  have hlen : (stage fs g (finished fs g) (blankTable fs) next out pos).fs.nodes.length =
      fs.nodes.length := renders_finished.length
  rw [finalizeInodeTable, ends_get_bind, hlen]
  refine (ends_forM_faults (fillFault fs) (fun k u => ∃ table,
      u = stage fs g (finished fs g) table next out pos ∧ TableHolds fs g (range k) [] table)
    ?_ ⟨blankTable fs, rfl, tableHolds_blank⟩).andThen ?_ ?_
  · rintro k _ hk ⟨table, rfl, hT⟩
    exact fillInodeRecord_step hs hsized hk hT
  · intro φ h
    rw [head?_append, fillFaults, h]
    rfl
  rintro _ _ ⟨hfill, table, rfl, hT⟩
  refine (ends_forM_faults (linkFault fs) (fun k u => ∃ table,
      u = stage fs g (finished fs g) table next out pos ∧
        TableHolds fs g (range fs.nodes.length) (range k) table) ?_ ⟨table, rfl, hT⟩).mono ?_ ?_
  · rintro k _ hk ⟨table, rfl, hT⟩
    exact countHardlink_step hs hk hT
  · exact fun _ _ h => ⟨hfill, h⟩
  · intro φ h
    rw [show fillFaults fs = [] from hfill]
    exact h

end Ext4InodeTable
