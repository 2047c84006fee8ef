import Firkin.Ext4Bitmaps

/-! # The finished image

Behind the data region the writer appends the inode tables and both kinds of bitmaps,
fills in the group descriptors, touches the last byte of the disk and puts down the
superblock. `tailWrites` lists these writes in their order, so the finished image is the
data region with them applied. The run as a whole ends in that image or in the first
fault of `faults`. -/
namespace Ext4Image

open Ext4Types Ext4Builder ByteImage Ext4Layout Ext4Encoding Ext4Finalizer Ext4InodeAllocation List
  Ext4Sizing Ext4SinkSteps Ext4NodeData Ext4DataRegion Ext4InodeTable Ext4Bitmaps FaultMonad

section
variable (fs : FileSystemBuilder) (g : Nat)

/-- The filled table of the first group and the empty ones of the others. -/
def tablesBytes (table : List Inode256) : List UInt8 :=
  table.flatMap Inode256.bytes ++ zeros ((g - 1) * (tableBlocks fs * fs.blockSize.bytes))

def blockBitmapsBytes : List UInt8 := (List.range (diskGroups fs g)).flatMap (blockBitmapBytes fs g)
def inodeBitmapsBytes : List UInt8 := (List.range (diskGroups fs g)).flatMap (inodeBitmapBytes fs)

def descriptor (k : Nat) : GroupDescriptor :=
  { blockBitmapLo := blockBitmapStart fs g + k
    inodeBitmapLo := inodeBitmapStart fs g + k
    inodeTableLo := tableStart fs g + k * tableBlocks fs
    freeBlocksCountLo := freeBlocks fs g k % 2 ^ 16
    freeInodesCountLo := (slots fs - if k = 0 then usedInodes fs else 0) % 2 ^ 16
    usedDirsCountLo := if k = 0 then liveDirs fs else 0 }

def descriptorsBytes : List UInt8 :=
  (List.range (diskGroups fs g)).flatMap fun k => (descriptor fs g k).bytes

def gdtRoom : Nat :=
  (headerOf fs.blockSize g - firstGdtBlockForSize fs.blockSize) * fs.blockSize.bytes

def gdtBytes : List UInt8 :=
  descriptorsBytes fs g ++ zeros (gdtRoom fs g - (descriptorsBytes fs g).length)

def superblock : Superblock :=
  superblockOf
    { fs, out := { bytes := fun _ => 0 }, inodesPerGroup := slots fs
      blocksPerGroup := groupBlocks fs, totalDiskBlocksCache := diskBlocks fs g
      totalUsedBlocksCache := usedBlocks fs g }
    (slots fs * diskGroups fs g) (slots fs * diskGroups fs g - usedInodes fs)

/-- The byte `ensure_len` writes to give the image its length. -/
def lastByte : List (Nat × List UInt8) :=
  if diskBlocks fs g = 0 then [] else [(diskBlocks fs g * fs.blockSize.bytes - 1, [0])]

def tableWrites (table : List Inode256) : List (Nat × List UInt8) :=
  [(tableStart fs g * fs.blockSize.bytes, tablesBytes fs g table),
    (blockBitmapStart fs g * fs.blockSize.bytes, blockBitmapsBytes fs g),
    (inodeBitmapStart fs g * fs.blockSize.bytes, inodeBitmapsBytes fs g),
    (firstGdtBlockForSize fs.blockSize * fs.blockSize.bytes, gdtBytes fs g)] ++ lastByte fs g

def tailWrites (table : List Inode256) : List (Nat × List UInt8) :=
  tableWrites fs g table ++ [(superblockOffset, (superblock fs g).bytes)]

/-- The sums of the last phase stay within `u32`. Only hard links with attribute blocks can
make the disk larger than planned, and the last two bounds matter only then. -/
structure TablesFit : Prop where
  used : usedBlocks fs g < 2 ^ 32
  disk : groupBlocks fs * g < 2 ^ 32
  bitmaps : inodeBitmapStart fs g + (diskGroups fs g - 1) < 2 ^ 32
  tables : tableStart fs g + (diskGroups fs g - 1) * tableBlocks fs < 2 ^ 32

instance : Decidable (TablesFit fs g) :=
  decidable_of_iff (usedBlocks fs g < 2 ^ 32 ∧ groupBlocks fs * g < 2 ^ 32 ∧
      inodeBitmapStart fs g + (diskGroups fs g - 1) < 2 ^ 32 ∧
      tableStart fs g + (diskGroups fs g - 1) * tableBlocks fs < 2 ^ 32)
    ⟨fun h => ⟨h.1, h.2.1, h.2.2.1, h.2.2.2⟩, fun h => ⟨h.used, h.disk, h.bitmaps, h.tables⟩⟩

def tableFaults : List Fault := if TablesFit fs g then [] else [overflow]

/-- Everything that can go wrong once the image is sized, in the order of the writer. -/
def faults : List Fault :=
  dataFaults fs ++ attrFaults fs g ++ fillFaults fs ++ linkFaults fs ++ tableFaults fs g
end

variable {fs : FileSystemBuilder} {t : Finalizer} {g k : Nat}
  {out : Sink} {table : List Inode256} {pos : Nat}

theorem slots_fill (h : nextInode fs.nodes < 2 ^ 32) :
    slots fs * inodeSize = tableBlocks fs * fs.blockSize.bytes := by
  obtain ⟨k, _, _, hslots, htable, _⟩ := slots_spec h
  rw [hslots]
  unfold inodeSize
  rcases blockSize_cases fs.blockSize with h | h | h <;> rw [h] <;> omega

theorem flatMap_zeros (count size : Nat) :
    ((range count).flatMap fun _ => zeros size) = zeros (count * size) := by
  induction count with
  | zero => simp
  | succ count ih =>
    rw [range_succ, flatMap_append, ih, flatMap_singleton, Nat.succ_mul, zeros_add]

theorem writeInodeTables_ends (hsized : Sized fs g) (hlen : table.length = slots fs)
    (out : Sink) (pos : Nat) :
    Ends (writeInodeTables (tableBlocks fs))
      (stage fs g (finished fs g) table (tableStart fs g) out pos)
      (fun _ t => Put (stage fs g (finished fs g) table (tableStart fs g) out pos) t
        [(tableStart fs g * fs.blockSize.bytes, tablesBytes fs g table)])
      (IoFault out) := by
  rw [writeInodeTables, ends_get_bind]
  have hfill := slots_fill hsized.inodes
  have hpad : tableBlocks fs * fs.blockSize.bytes - table.length * inodeSize = 0 := by
    rw [hlen, hfill]
    exact Nat.sub_self _
  refine (seekToBlock_ends _ _).bind fun _ t1 h1 => ?_
  refine (writeBytes_ends t1 _).andThen (fun _ h => h.congr h1.fate) fun _ t2 h2 => ?_
  refine (padRegion_ends t2).andThen (fun _ h => h.congr (h2.fate.trans h1.fate)) fun _ t3 h3 => ?_
  refine (forM_writeBytes_ends _ _ t3).mono (fun _ t4 h4 => ?_)
    fun _ h => h.congr (h3.fate.trans (h2.fate.trans h1.fate))
  have hall := h1.wrote (h2.append (h3.append h4))
  rw [flatMap_zeros] at hall
  change Put _ _ [(tableStart fs g * fs.blockSize.bytes, table.flatMap Inode256.bytes ++
    (zeros (tableBlocks fs * fs.blockSize.bytes - table.length * inodeSize) ++
      zeros ((g - 1) * (tableBlocks fs * fs.blockSize.bytes))))] at hall
  rw [hpad, zeros_zero] at hall
  exact hall

theorem reserveTables_ends (hsized : Sized fs g) (out : Sink) (pos : Nat) :
    Ends (reserveTables (tableBlocks fs))
      (stage fs g (finished fs g) table (tableStart fs g) out pos)
      (fun tables t => usedBlocks fs g < 2 ^ 32 ∧
        tables = ⟨tableStart fs g, tableBlocks fs, blockBitmapStart fs g, inodeBitmapStart fs g⟩ ∧
        t = stage fs g (finished fs g) table (usedBlocks fs g) out pos)
      (fun φ => φ = overflow ∧ ¬ usedBlocks fs g < 2 ^ 32) := by
  have hmul : tableBlocks fs * g < 2 ^ 32 := by
    have hsmall := hsized.groups.small
    rw [blocksNeeded, Nat.mul_add, Nat.mul_comm g] at hsmall
    omega
  change Ends (ofExcept (u32Mul (tableBlocks fs) g) >>= _) _ _ _
  rw [ends_bind_ok (ofExcept_run (u32Mul_ok hmul))]
  change Ends (ofExcept (u32Add (tableStart fs g) (tableBlocks fs * g)) >>= _) _ _ _
  have hused : usedBlocks fs g = tableStart fs g + tableBlocks fs * g + g + g := rfl
  by_cases h1 : tableStart fs g + tableBlocks fs * g < 2 ^ 32
  case neg =>
    rw [ends_bind_error (ofExcept_fail (u32Add_overflow h1))]
    exact ⟨rfl, by omega⟩
  rw [ends_bind_ok (ofExcept_run (u32Add_ok h1))]
  by_cases h2 : tableStart fs g + tableBlocks fs * g + g < 2 ^ 32
  case neg =>
    refine (ends_bind_error (ofExcept_fail (u32Add_overflow h2))).mpr ⟨rfl, by omega⟩
  refine (ends_bind_ok (ofExcept_run (u32Add_ok h2))).mpr ?_
  by_cases h3 : tableStart fs g + tableBlocks fs * g + g + g < 2 ^ 32
  case neg =>
    exact (ends_bind_error (ofExcept_fail (u32Add_overflow h3))).mpr ⟨rfl, h3⟩
  exact (ends_bind_ok (ofExcept_run (u32Add_ok h3))).mpr ⟨h3, rfl, rfl⟩

theorem slots_ge (h : nextInode fs.nodes < 2 ^ 32) : 256 ≤ slots fs := by
  obtain ⟨k, hk, _, hslots, _⟩ := slots_spec h
  rw [hslots]
  rcases blockSize_cases fs.blockSize with h | h | h <;> rw [h] <;> omega

theorem usedInodes_le (hs : Sound fs) (hsized : Sized fs g) (hfill : fillFaults fs = []) :
    usedInodes fs ≤ slots fs := by
  have hsub : (liveNumbers fs).toFinset.filter (10 < ·) ⊆ Finset.Ioc 10 (slots fs) := by
    intro x hx
    obtain ⟨hmem, hgt⟩ := Finset.mem_filter.mp hx
    have := (number_bounds hs hfill (mem_toFinset.mp hmem)).2
    exact Finset.mem_Ioc.mpr ⟨hgt, by omega⟩
  have hcard := Finset.card_le_card hsub
  rw [Nat.card_Ioc] at hcard
  have := slots_ge hsized.inodes
  rw [usedInodes, distinctAbove]
  omega

theorem isLiveDir_iff : isLiveDir fs i = true ↔
    ∃ n, fs.nodes[i]? = some n ∧ n.deleted = false ∧ n.mode.isDir = true := by
  unfold isLiveDir
  cases fs.nodes[i]? with
  | none => simp
  | some n => simp

theorem liveDirs_le (hs : Sound fs) (hfill : fillFaults fs = []) : liveDirs fs ≤ slots fs := by
  have hnd : (((range fs.nodes.length).filter (isLiveDir fs)).map
      fun i => (inodeNumber fs.nodes i).getD 0).Nodup := by
    refine List.Nodup.map_on ?_ (nodup_range.filter _)
    intro i hi j hj heq
    obtain ⟨n, hn, hd, hdir⟩ := isLiveDir_iff.mp (mem_filter.mp hi).2
    obtain ⟨m, hm, hd', hdir'⟩ := isLiveDir_iff.mp (mem_filter.mp hj).2
    have hti := targetOf_dir hs.wf hn hdir
    have htj := targetOf_dir hs.wf hm hdir'
    obtain ⟨a, ha, _⟩ := owner_number hs ⟨n, hn, hd⟩ hti
    obtain ⟨b, hb, _⟩ := owner_number hs ⟨m, hm, hd'⟩ htj
    refine owner_injective hs ⟨n, hn, hd⟩ hti ⟨m, hm, hd'⟩ htj ?_
    rw [ha, hb] at heq ⊢
    exact congrArg some heq
  have hsub : (((range fs.nodes.length).filter (isLiveDir fs)).map
      fun i => (inodeNumber fs.nodes i).getD 0) ⊆ range' 1 (slots fs) := by
    intro x hx
    obtain ⟨i, hi, rfl⟩ := mem_map.mp hx
    obtain ⟨n, hn, hd, hdir⟩ := isLiveDir_iff.mp (mem_filter.mp hi).2
    obtain ⟨a, ha, _⟩ := owner_number hs ⟨n, hn, hd⟩ (targetOf_dir hs.wf hn hdir)
    have hb := number_bounds hs hfill (mem_liveNumbers.mpr ⟨i, ⟨n, hn, hd⟩, ha⟩)
    rw [ha, Option.getD_some, mem_range'_1]
    omega
  have hlen := (hnd.subperm hsub).length_le
  rwa [length_map, length_range', ← countP_eq_length_filter] at hlen

theorem slots_le (h : nextInode fs.nodes < 2 ^ 32) : slots fs ≤ groupBlocks fs := by
  obtain ⟨k, _, hk, hslots, _⟩ := slots_spec h
  rw [hslots, groupBlocks]
  rcases blockSize_cases fs.blockSize with h | h | h <;> rw [h] <;> omega

/-- The descriptor of group `k` can be computed. -/
def DescriptorFits (fs : FileSystemBuilder) (g k : Nat) : Prop :=
  inodeBitmapStart fs g + k < 2 ^ 32 ∧ tableStart fs g + k * tableBlocks fs < 2 ^ 32

instance : DecidablePred (DescriptorFits fs g) := fun _ => instDecidableAnd

theorem groupDescriptor_eq (hk : k < diskGroups fs g) (hused : usedInodes fs ≤ slots fs)
    {c : InodeCount} (hdirs : c.dirs = liveDirs fs)
    (hc : c.usedByGroup = (replicate (diskGroups fs g) 0).set 0 (usedInodes fs)) :
    groupDescriptor (tailStage fs g table out pos)
      ⟨tableStart fs g, tableBlocks fs, blockBitmapStart fs g, inodeBitmapStart fs g⟩
      ((range (diskGroups fs g)).map (freeBlocks fs g)) c k =
      if DescriptorFits fs g k then .ok (descriptor fs g k) else .error overflow := by
  have hfree : index ((range (diskGroups fs g)).map (freeBlocks fs g)) k =
      .ok (freeBlocks fs g k) := index_range_map hk
  have hcount : index c.usedByGroup k = .ok (if k = 0 then usedInodes fs else 0) := by
    refine index_ok ?_
    rw [hc]
    by_cases h0 : k = 0
    · simp [h0, h0 ▸ hk]
    · simp [h0, Ne.symm h0, hk]
  have hsub : uintSub (slots fs) (if k = 0 then usedInodes fs else 0) =
      .ok (slots fs - if k = 0 then usedInodes fs else 0) := if_pos (by split <;> omega)
  have hstart : blockBitmapStart fs g ≤ inodeBitmapStart fs g := Nat.le_add_right _ _
  rw [groupDescriptor]
  simp only [u32Add_bind, u32Mul_bind]
  by_cases hfit : inodeBitmapStart fs g + k < 2 ^ 32
  case neg =>
    have hno : ¬ DescriptorFits fs g k := fun h => hfit h.1
    split <;> rfl
  rw [if_pos (show blockBitmapStart fs g + k < 2 ^ 32 by omega), if_pos hfit]
  by_cases htab : tableStart fs g + k * tableBlocks fs < 2 ^ 32
  case neg =>
    have hno : ¬ DescriptorFits fs g k := fun h => htab h.2
    split <;> rfl
  have hyes : DescriptorFits fs g k := ⟨hfit, htab⟩
  rw [if_pos (show k * tableBlocks fs < 2 ^ 32 by omega), if_pos htab, if_pos hyes,
    except_bind_ok hfree, except_bind_ok hcount]
  change (uintSub (slots fs) _ >>= _) = _
  rw [except_bind_ok hsub, hdirs]
  rfl

theorem diskGroups_pos : 1 ≤ diskGroups fs g := le_max_right _ _

theorem descriptorFits_iff : (∀ k ∈ range (diskGroups fs g), DescriptorFits fs g k) ↔
    DescriptorFits fs g (diskGroups fs g - 1) := by
  have hpos := @diskGroups_pos fs g
  constructor
  · intro h
    exact h _ (mem_range.mpr (by omega))
  · rintro ⟨h1, h2⟩ k hk
    have hle : k ≤ diskGroups fs g - 1 := by
      have := mem_range.mp hk
      omega
    have := Nat.mul_le_mul_right (tableBlocks fs) hle
    exact ⟨by omega, by omega⟩

theorem length_descriptorsBytes : (descriptorsBytes fs g).length = 32 * diskGroups fs g := by
  rw [descriptorsBytes, length_flatMap, map_congr_left (g := fun _ => groupDescSize)
    fun k _ => length_groupDescriptor, map_const', length_range,
    sum_replicate_nat]
  exact Nat.mul_comm _ _

theorem gdtRoom_lt (h : Sized fs g) : gdtRoom fs g < 2 ^ 32 := by
  have hlt := Sized.groups_lt h
  rw [gdtRoom, headerOf]
  unfold groupDescSize
  rcases blockSize_cases fs.blockSize with h | h | h <;> rw [h] <;> omega

theorem writeGdt_ends (hsized : Sized fs g) (out : Sink) (pos : Nat) :
    Ends (writeGdt ((range (diskGroups fs g)).map (descriptor fs g)))
      (tailStage fs g table out pos)
      (fun _ t => Put (tailStage fs g table out pos) t
        [(firstGdtBlockForSize fs.blockSize * fs.blockSize.bytes, gdtBytes fs g)])
      (IoFault out) := by
  have hbound := @diskGroups_bound fs g (diskGroups fs g - 1)
    (by have := @diskGroups_pos fs g; omega)
  have hcases := groupBlocks_cases fs
  have hlen := @length_descriptorsBytes fs g
  have hmod : (descriptorsBytes fs g).length % 2 ^ 32 = (descriptorsBytes fs g).length := by
    refine Nat.mod_eq_of_lt ?_
    rw [Nat.sub_add_cancel diskGroups_pos] at hbound
    have : 8192 * diskGroups fs g ≤ diskGroups fs g * groupBlocks fs := by
      rw [Nat.mul_comm]
      exact Nat.mul_le_mul_left _ (by omega)
    omega
  have hbytes : ((range (diskGroups fs g)).map (descriptor fs g)).flatMap
      GroupDescriptor.bytes = descriptorsBytes fs g := flatMap_map _ _ _
  rw [writeGdt, ends_get_bind, hbytes]
  refine (seekToBlock_ends _ _).bind fun _ t1 h1 => ?_
  refine (writeBytes_ends t1 _).andThen (fun _ h => h.congr h1.fate) fun _ t2 h2 => ?_
  refine (ends_bind_ok (ofExcept_run (u32Mul_ok (gdtRoom_lt hsized)))).mpr ?_
  rw [hmod]
  refine (padRegion_ends t2).mono (fun _ t3 h3 => ?_) fun _ h => h.congr (h2.fate.trans h1.fate)
  exact h1.wrote (h2.append h3)

def finalStage (fs : FileSystemBuilder) (g : Nat) (table : List Inode256) (out : Sink)
    (pos : Nat) : Finalizer :=
  { tailStage fs g table out pos with
    totalDiskBlocksCache := diskBlocks fs g
    totalUsedBlocksCache := usedBlocks fs g
    inodeUsedCountCache := usedInodes fs }

theorem lastByte_eq (g : Nat) : lastByte fs g = if diskBlocks fs g * fs.blockSize.bytes = 0 then []
    else [(diskBlocks fs g * fs.blockSize.bytes - 1, [0])] := by
  have hpos : fs.blockSize.bytes ≠ 0 := by cases fs.blockSize <;> decide
  rw [lastByte]
  by_cases h : diskBlocks fs g = 0
  · rw [if_pos h, if_pos (by rw [h, Nat.zero_mul])]
  · rw [if_neg h, if_neg (Nat.mul_ne_zero h hpos)]

section
variable (hs : Sound fs) (hsized : Sized fs g) (hfill : fillFaults fs = [])
include hs hsized hfill

theorem writeBitmapsAndGdt_ends (hlen : table.length = slots fs) (out : Sink) (pos : Nat) :
    Ends writeBitmapsAndGdt (stage fs g (finished fs g) table (tableStart fs g) out pos)
      (fun _ t => TablesFit fs g ∧ ∃ o p, t = finalStage fs g table o p ∧ o.fate = out.fate ∧
        o.bytes = applyAll out.bytes (tableWrites fs g table))
      (fun φ => IoFault out φ ∨ φ = overflow ∧ ¬ TablesFit fs g) := by
  have hinodes := usedInodes_le hs hsized hfill
  have hslots := slots_le hsized.inodes
  have hgroup := groupBlocks_cases fs
  have hdirs := liveDirs_le hs hfill
  rw [writeBitmapsAndGdt, ends_get_bind]
  refine (writeInodeTables_ends hsized hlen out pos).andThen (fun _ h => .inl h) ?_
  rintro _ _ ⟨o1, p1, rfl, hb1, hf1⟩
  refine (reserveTables_ends hsized o1 p1).andThen ?_ ?_
  · rintro φ ⟨rfl, hno⟩
    exact .inr ⟨rfl, fun h => hno h.used⟩
  rintro _ _ ⟨hused, rfl, rfl⟩
  rw [ends_get_bind]
  have hdisk := @totalDiskBlocks_eq fs g out table (tableStart fs g) pos hsized
  by_cases hfit : groupBlocks fs * g < 2 ^ 32
  case neg =>
    rw [if_neg hfit] at hdisk
    exact (ends_bind_error (ofExcept_fail hdisk)).mpr (.inr ⟨rfl, fun h => hfit h.disk⟩)
  rw [if_pos hfit] at hdisk
  refine (ends_bind_ok (ofExcept_run hdisk)).mpr ?_
  rw [ends_bind]
  change Ends (get >>= _) (tailStage fs g table o1 p1) _ _
  rw [ends_get_bind]
  have hbitmaps : (range (diskGroups fs g)).mapM
      (blockBitmap (tailStage fs g table o1 p1) (usedBlocks fs g) (diskBlocks fs g)) =
      .ok ((range (diskGroups fs g)).map
        fun k => (blockBitmapBytes fs g k, freeBlocks fs g k)) :=
    mapM_ok fun k hk => blockBitmap_eq (mem_range.mp hk)
  refine (ends_bind_ok (ofExcept_run hbitmaps)).mpr ?_
  refine (ends_bind_ok (ofExcept_run liveInodes_eq)).mpr ?_
  rcases @countInodes_tail fs g o1 table p1 hs hfill with
    ⟨c, hc, hcused, hcdirs, -, hcgroups⟩ | ⟨-, hbig⟩
  case inr => omega
  refine (ends_bind_ok (ofExcept_run hc)).mpr ?_
  have hio : ∀ φ, IoFault o1 φ → IoFault out φ ∨ φ = overflow ∧ ¬ TablesFit fs g :=
    fun φ h => .inl (h.congr hf1)
  refine seekToBlock_put (s := tailStage fs g table o1 p1) (l := blockBitmapsBytes fs g)
    (fun t => ?_) hio ?_
  · have hw := forM_writeBytes_ends Prod.fst ((range (diskGroups fs g)).map
      fun k => (blockBitmapBytes fs g k, freeBlocks fs g k)) t
    rwa [flatMap_map] at hw
  rintro _ ⟨o2, p2, rfl, hb2, hf2⟩
  have hio2 : ∀ φ, IoFault o2 φ → IoFault out φ ∨ φ = overflow ∧ ¬ TablesFit fs g :=
    fun φ h => hio φ (h.congr hf2)
  refine seekToBlock_put (s := tailStage fs g table o2 p2) (l := inodeBitmapsBytes fs g)
    (fun t => ?_) hio2 ?_
  · rw [inodeBitmaps_eq hs hfill]
    have hw := forM_writeBytes_ends id ((range (diskGroups fs g)).map (inodeBitmapBytes fs)) t
    rwa [flatMap_map] at hw
  rintro _ ⟨o3, p3, rfl, hb3, hf3⟩
  have hio3 : ∀ φ, IoFault o3 φ → IoFault out φ ∨ φ = overflow ∧ ¬ TablesFit fs g :=
    fun φ h => hio2 φ (h.congr hf3)
  have hdesc := mapM_ite fun k hk => @groupDescriptor_eq fs g k o1 table p1
    (mem_range.mp hk) hinodes c hcdirs hcgroups
  have hsnd : (((range (diskGroups fs g)).map
      fun k => (blockBitmapBytes fs g k, freeBlocks fs g k)).map Prod.snd) =
      (range (diskGroups fs g)).map (freeBlocks fs g) := by
    rw [map_map]
    rfl
  rw [hsnd]
  by_cases hlast : DescriptorFits fs g (diskGroups fs g - 1)
  case neg =>
    rw [if_neg fun h => hlast (descriptorFits_iff.mp h)] at hdesc
    exact (ends_bind_error (ofExcept_fail hdesc)).mpr
      (.inr ⟨rfl, fun h => hlast ⟨h.bitmaps, h.tables⟩⟩)
  rw [if_pos (descriptorFits_iff.mpr hlast)] at hdesc
  refine (ends_bind_ok (ofExcept_run hdesc)).mpr ?_
  refine (writeGdt_ends hsized o3 p3).andThen hio3 ?_
  rintro _ _ ⟨o4, p4, rfl, hb4, hf4⟩
  refine ensureLen_ends.andThen (fun φ h => hio3 φ (h.congr hf4)) ?_
  rintro _ _ ⟨o5, p5, rfl, hb5, hf5⟩
  refine ⟨⟨hused, hfit, hlast.1, hlast.2⟩, o5, p5, ?_, ?_, ?_⟩
  · rw [hcused]
    rfl
  · exact hf5.trans (hf4.trans (hf3.trans (hf2.trans hf1)))
  · have hlast : o5.bytes = applyAll o4.bytes (lastByte fs g) := by
      refine hb5.trans ?_
      rw [lastByte_eq]
      rfl
    rw [hlast, tableWrites]
    refine congrArg (applyAll · _) ?_
    exact hb4.trans (congrArg (applyAll · _) (hb3.trans (congrArg (applyAll · _)
      (hb2.trans (congrArg (applyAll · _) hb1)))))

theorem writeSuperblock_ends (out : Sink) (pos : Nat) :
    Ends writeSuperblock (finalStage fs g table out pos)
      (fun _ t => Put (finalStage fs g table out pos) t
        [(superblockOffset, (superblock fs g).bytes)])
      (IoFault out) := by
  have hpos := @diskGroups_pos fs g
  have hbound := @diskGroups_bound fs g (diskGroups fs g - 1) (by omega)
  rw [Nat.sub_add_cancel hpos] at hbound
  have hmul : slots fs * diskGroups fs g < 2 ^ 32 := by
    have := Nat.mul_le_mul_right (diskGroups fs g) (slots_le hsized.inodes)
    rw [Nat.mul_comm (groupBlocks fs)] at this
    omega
  have hsub : uintSub (slots fs * diskGroups fs g) (usedInodes fs) =
      .ok (slots fs * diskGroups fs g - usedInodes fs) := by
    refine if_pos ((usedInodes_le hs hsized hfill).trans ?_)
    exact Nat.le_mul_of_pos_right _ hpos
  rw [writeSuperblock, ends_get_bind]
  refine (ends_bind_ok (ofExcept_run (u32Mul_ok hmul))).mpr ?_
  refine (ends_bind_ok (ofExcept_run hsub)).mpr ?_
  refine (seekAbsolute_ends _).bind fun _ t ht => ?_
  refine (writeBytes_ends t _).mono (fun _ u hu => ?_) fun _ h => h.congr ht.fate
  exact ht.wrote hu
end

/-- What is in the image once `write` has returned. -/
def Written (fs : FileSystemBuilder) (g : Nat) (img : Image) : Prop :=
  ∃ base table, DataHeld fs g (dataOrder fs) base ∧
    AttrsHeld fs g (List.range fs.nodes.length) base ∧
    TableHolds fs g (List.range fs.nodes.length) (List.range fs.nodes.length) table ∧
    img = applyAll base (tailWrites fs g table)

theorem head?_append_left {α : Type} {a : α} {l l' : List α} (h : l.head? = some a) :
    (l ++ l').head? = some a := by
  rw [head?_append, h]
  rfl

theorem faults_eq_nil : faults fs g = [] ↔ dataFaults fs = [] ∧ attrFaults fs g = [] ∧
    fillFaults fs = [] ∧ linkFaults fs = [] ∧ TablesFit fs g := by
  have htable : tableFaults fs g = [] ↔ TablesFit fs g := by
    rw [tableFaults]
    split <;> simp_all
  simp only [faults, append_eq_nil_iff]
  tauto

theorem run_ends (hs : Sound fs) (out : Sink) :
    Ends run { fs, out }
      (fun _ t => ∃ g, Sized fs g ∧ faults fs g = [] ∧ Written fs g t.out.bytes ∧
        ∃ table, table.length = slots fs ∧ t = finalStage fs g table t.out t.pos)
      (fun φ => IoFault out φ ∨ (φ = overflow ∧ ∀ g, ¬ Sized fs g) ∨
        ∃ g, Sized fs g ∧ (faults fs g).head? = some φ) := by
  refine (allocateInodes_ends hs out).andThen (fun _ h => .inr (.inl h)) ?_
  rintro _ _ ⟨g, hsized, rfl⟩
  refine (layoutHeader_ends hsized out).andThen (fun _ h => .inl h) ?_
  rintro _ _ ⟨o1, p1, rfl, hf1⟩
  refine (writeDataRegion_ends hs hsized o1 p1).andThen ?_ ?_
  · rintro φ (h | h)
    · exact .inl (h.congr hf1)
    · refine .inr (.inr ⟨g, hsized, ?_⟩)
      simp only [faults, append_assoc]
      rw [← append_assoc]
      exact head?_append_left h
  rintro _ _ ⟨hdata, hattr, o2, p2, rfl, hf2, hheld, hattrs⟩
  have hfate := hf2.trans hf1
  refine (finalizeInodeTable_ends hs hsized (tableStart fs g) o2 p2).andThen ?_ ?_
  · intro φ h
    refine .inr (.inr ⟨g, hsized, ?_⟩)
    rw [faults, hdata, hattr]
    exact head?_append_left h
  rintro _ _ ⟨hfill, hlink, table, rfl, hT⟩
  refine (writeBitmapsAndGdt_ends hs hsized hfill hT.length o2 p2).andThen ?_ ?_
  · rintro φ (h | ⟨rfl, hno⟩)
    · exact .inl (h.congr hfate)
    · refine .inr (.inr ⟨g, hsized, ?_⟩)
      rw [faults, hdata, hattr, hfill, hlink, tableFaults, if_neg hno]
      rfl
  rintro _ _ ⟨hfit, o3, p3, rfl, hf3, hb3⟩
  refine (writeSuperblock_ends hs hsized hfill o3 p3).andThen
    (fun _ h => .inl (h.congr (hf3.trans hfate))) ?_
  rintro _ _ ⟨o4, p4, rfl, hb4, hf4⟩
  refine flush_ends.mono ?_ fun _ h => .inl (h.congr (hf4.trans (hf3.trans hfate)))
  rintro _ _ ⟨o5, p5, rfl, hb5, -, -⟩
  refine ⟨g, hsized, faults_eq_nil.mpr ⟨hdata, hattr, hfill, hlink, hfit⟩,
    ⟨o2.bytes, table, hheld, hattrs, hT, ?_⟩, table, hT.length, rfl⟩
  rw [tailWrites, applyAll_append, ← hb3]
  exact hb5.trans hb4

theorem write_ok (hs : Sound fs) (h : write fs out = .ok () t) :
    ∃ g, Sized fs g ∧ faults fs g = [] ∧ Written fs g t.out.bytes := by
  obtain ⟨g, hsized, hclean, hw, -⟩ := (run_ends hs out).of_ok h
  exact ⟨g, hsized, hclean, hw⟩

end Ext4Image
