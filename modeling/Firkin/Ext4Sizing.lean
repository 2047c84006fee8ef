import Firkin.Ext4WriterFrame

/-! # How large the image will be

Before anything is written `allocate_inodes` sizes the inode table, adds up the blocks
every node will take and settles on the number of block groups. All failures here are
`u32` overflows. The group count is the least one whose groups hold everything. -/
namespace Ext4Sizing

open Ext4Types Ext4Builder Ext4BuilderRuns Ext4Layout Ext4Encoding Ext4Finalizer Ext4InodeAllocation
  Ext4WriterFrame FaultMonad

def overflow : Fault := .panic .arithmeticOverflow

variable {a b : Nat}

theorem u32Add_ok (h : a + b < 2 ^ 32) : u32Add a b = .ok (a + b) := if_pos h

theorem u32Add_overflow (h : ¬ a + b < 2 ^ 32) : u32Add a b = .error overflow :=
  if_neg h

theorem u32Mul_ok (h : a * b < 2 ^ 32) : u32Mul a b = .ok (a * b) := if_pos h

theorem u32Mul_overflow (h : ¬ a * b < 2 ^ 32) : u32Mul a b = .error overflow :=
  if_neg h

theorem u32Add_bind {α : Type} {k : Nat → Except Fault α} :
    (u32Add a b >>= k) = if a + b < 2 ^ 32 then k (a + b) else .error overflow := by
  by_cases h : a + b < 2 ^ 32
  · rw [if_pos h, except_bind_ok (u32Add_ok h)]
  · rw [if_neg h, except_bind_error (u32Add_overflow h)]

theorem u32Mul_bind {α : Type} {k : Nat → Except Fault α} :
    (u32Mul a b >>= k) = if a * b < 2 ^ 32 then k (a * b) else .error overflow := by
  by_cases h : a * b < 2 ^ 32
  · rw [if_pos h, except_bind_ok (u32Mul_ok h)]
  · rw [if_neg h, except_bind_error (u32Mul_overflow h)]

theorem blockSize_cases (bs : BlockSize) : bs.bytes = 1024 ∨ bs.bytes = 2048 ∨ bs.bytes = 4096 := by
  cases bs <;> simp [BlockSize.bytes]

/-- The room an entry takes inline, with the lengths cut to 32 bits as the code does. -/
def attrSize (x : Xattr) : Nat :=
  16 + align4 ((splitXattrName x.name).2.length % 2 ^ 32) + align4 (x.value.length % 2 ^ 32)

def attrNeed (xs : List Xattr) : Nat := 8 + (xs.map attrSize).sum

theorem inlineNeed_eq (xs : List Xattr) {need : Nat} (h : need < 2 ^ 32) :
    inlineNeed xs need = if need + (xs.map attrSize).sum < 2 ^ 32 then
      .ok (need + (xs.map attrSize).sum) else .error overflow := by
  induction xs generalizing need with
  | nil =>
    simp only [List.map_nil, List.sum_nil, Nat.add_zero, if_pos h]
    rfl
  | cons x xs ih =>
    simp only [List.map_cons, List.sum_cons]
    generalize hS : (xs.map attrSize).sum = S at ih ⊢
    have hx : attrSize x = 16 + ((splitXattrName x.name).2.length % 2 ^ 32 + 3) / 4 * 4 +
      (x.value.length % 2 ^ 32 + 3) / 4 * 4 := rfl
    generalize ha : (splitXattrName x.name).2.length % 2 ^ 32 = a at hx
    generalize hv : x.value.length % 2 ^ 32 = v at hx
    rw [inlineNeed, ha, hv]
    simp only [u32Add_bind]
    by_cases htotal : need + (attrSize x + S) < 2 ^ 32
    · rw [if_pos (by omega), if_pos (by omega), if_pos (by omega), if_pos (by omega),
        if_pos (by omega), ih (by omega), if_pos (by omega), if_pos htotal]
      congr 1
      omega
    · split_ifs
      · rw [ih (by omega), if_neg (by omega)]
      all_goals rfl

theorem xattrsFitInline_eq (xs : List Xattr) : xattrsFitInline xs =
    if attrNeed xs < 2 ^ 32 then .ok (decide (attrNeed xs ≤ inodeInlineXattrSize))
    else .error overflow := by
  have hneed : attrNeed xs = 4 + (xs.map attrSize).sum + 4 := by rw [attrNeed]; omega
  rw [xattrsFitInline, inlineNeed_eq xs (by norm_num), hneed]
  by_cases h : 4 + (xs.map attrSize).sum < 2 ^ 32
  · rw [if_pos h, except_bind_ok rfl, u32Add_bind]
    rfl
  · rw [if_neg h, if_neg (by omega), except_bind_error rfl]

/-- The data blocks of a node, a leaf block of its extent tree included. A directory with a
name longer than a block counts as the largest `u32`. -/
def nodeBlocks (fs : FileSystemBuilder) (i : Nat) (n : Node) : Nat :=
  match n.content with
  | .directory =>
    match countDirBlocks fs.blockSize.bytes ((entriesOf fs.nodes i).map DirEntrySpec.name) 1 0 with
    | .ok k => k
    | .error _ => 2 ^ 32 - 1
  | .file content =>
    let blocks := divCeil content.length fs.blockSize.bytes
    blocks + if divCeil blocks targetBlocksPerFileExtent > maxExtentsPerInode then 1 else 0
  | .symlink target => if target.length ≥ fastSymlinkMax then 1 else 0
  | .whiteout => 0
  | .hardlink => 0

/-- A node whose attributes do not fit inline takes a block for them. -/
def attrBlocks (n : Node) : Nat :=
  if n.xattrs = [] ∨ attrNeed n.xattrs ≤ inodeInlineXattrSize then 0 else 1

def skipped (n : Node) : Bool := n.deleted || n.hardlinkTarget.isSome

def nodePayload (fs : FileSystemBuilder) (entry : Node × Nat) : Nat :=
  if skipped entry.1 then 0 else nodeBlocks fs entry.2 entry.1 + attrBlocks entry.1

def payload (fs : FileSystemBuilder) : Nat := (fs.nodes.zipIdx.map (nodePayload fs)).sum
def attrWeight (n : Node) : Nat := if skipped n ∨ n.xattrs = [] then 0 else attrNeed n.xattrs

theorem divCeil_le (hd : 0 < d) : divCeil n d ≤ k ↔ n ≤ k * d := by
  unfold divCeil
  split
  · next h => subst h; simp
  · have := Nat.div_lt_iff_lt_mul hd (x := n - 1) (y := k)
    omega

variable {fs : FileSystemBuilder} {s : Finalizer}

theorem stored_of_content {i : Nat} (hs : Sound fs) (hn : fs.nodes[i]? = some n)
    (hd : n.deleted = false) (hc : n.content ≠ .hardlink) : skipped n = false := by
  have hlink := mt (hs.wf.shape.link i n hn).mpr hc
  simpa [skipped, hd] using hlink

theorem divCeil_file {content : List UInt8} (h : content.length ≤ maxFileSize) (bs : BlockSize) :
    divCeilUsize content.length bs.bytes = divCeil content.length bs.bytes ∧
      divCeil content.length bs.bytes ≤ 2 ^ 27 := by
  have hpos : 0 < bs.bytes := by cases bs <;> decide
  have hle : divCeil content.length bs.bytes ≤ 2 ^ 27 := by
    rw [divCeil_le hpos]
    have := blockSize_cases bs
    have : maxFileSize = 2 ^ 37 := rfl
    omega
  exact ⟨if_pos (by omega), hle⟩

theorem estimateContent_eq (hs : Sound fs) (h : Renders fs s) (hn : fs.nodes[i]? = some n)
    (hb : b < 2 ^ 32) : estimateContent s b n i =
      if b + nodeBlocks fs i n < 2 ^ 32 then .ok (b + nodeBlocks fs i n) else .error overflow := by
  have htyped := hs.typed i n hn
  unfold estimateContent nodeBlocks
  cases hc : n.content with
  | directory =>
    rw [except_bind_ok (h.directoryBlockCount hs (lt_of_get hn))]
    cases countDirBlocks fs.blockSize.bytes ((entriesOf fs.nodes i).map DirEntrySpec.name) 1 0 with
    | ok k => rfl
    | error e => rfl
  | file content =>
    rw [Typed, hc] at htyped
    obtain ⟨hceil, hle⟩ := divCeil_file htyped.2 fs.blockSize
    simp only [h.blockSize, hceil]
    by_cases hnil : content = []
    · rw [hnil]
      exact (if_pos hb).symm
    · rw [if_neg hnil, u32Add_bind]
      generalize divCeil content.length fs.blockSize.bytes = k
      by_cases hext : divCeil k targetBlocksPerFileExtent > maxExtentsPerInode
      · simp only [u32Add]
        split_ifs <;> first | rfl | omega
      · simp only [if_neg hext]
        rfl
  | symlink target =>
    simp only
    by_cases hlen : target.length ≥ fastSymlinkMax
    · rw [if_pos hlen, if_pos hlen]
      rfl
    · rw [if_neg hlen, if_neg hlen, Nat.add_zero, if_pos hb]
      rfl
  | whiteout | hardlink => exact (if_pos hb).symm

theorem estimateNode_eq (hs : Sound fs) (h : Renders fs s) (hn : fs.nodes[i]? = some n)
    (hb : b < 2 ^ 32) : estimateNode s b (n, i) =
      if attrWeight n < 2 ^ 32 ∧ b + nodePayload fs (n, i) < 2 ^ 32 then
        .ok (b + nodePayload fs (n, i))
      else .error overflow := by
  have hjoin := h.join hs i
  rw [estimateNode, hjoin]
  simp only [nodePayload, attrWeight]
  by_cases hskip : skipped n = true
  · have hres : (if 0 < 2 ^ 32 ∧ b + 0 < 2 ^ 32 then Except.ok (b + 0) else .error overflow) =
        (pure b : Except Fault Nat) := if_pos ⟨by norm_num, hb⟩
    simp only [hskip, true_or, if_true, hres]
    by_cases hd : n.deleted = true ∨ inodeNumber fs.nodes i = none
    · rw [if_pos hd]
    · rw [if_neg hd]
      simp only [skipped, Bool.or_eq_true] at hskip
      rw [if_pos (hskip.resolve_left fun hdel => hd (.inl hdel))]
  · simp only [skipped, Bool.or_eq_true, not_or, Bool.not_eq_true, Option.isSome_eq_false_iff,
      Option.isNone_iff_eq_none] at hskip
    obtain ⟨k, hk, _⟩ := owner_number hs ⟨n, hn, hskip.1⟩ ((targetOf_some hn).trans hskip.2)
    have hsk : skipped n = false := by simp [skipped, hskip]
    rw [if_neg (by simp [hskip, hk]), if_neg (by simp [hskip]), estimateContent_eq hs h hn hb]
    simp only [hsk, Bool.false_eq_true]
    generalize nodeBlocks fs i n = k
    by_cases hx : n.xattrs = []
    · simp only [attrBlocks, hx]
      by_cases hfit : b + k < 2 ^ 32
      · rw [if_pos hfit, if_pos ⟨by norm_num, hfit⟩]
        rfl
      · rw [if_neg hfit, if_neg fun hc => hfit hc.2]
        rfl
    · simp only [attrBlocks, hx, false_or, if_false, xattrsFitInline_eq]
      generalize attrNeed n.xattrs = w
      by_cases hfit : b + k < 2 ^ 32
      · rw [if_pos hfit, except_bind_ok rfl]
        by_cases hw : w < 2 ^ 32
        · rw [if_pos hw, except_bind_ok rfl]
          by_cases hin : w ≤ inodeInlineXattrSize
          · rw [if_pos (decide_eq_true hin), if_pos hin, if_pos ⟨hw, hfit⟩]
            rfl
          · rw [if_neg (by simpa using hin), if_neg hin]
            simp only [hw, true_and, u32Add, Nat.add_assoc, overflow]
        · rw [if_neg hw, except_bind_error rfl, if_neg fun hc => hw hc.1]
      · rw [if_neg hfit, except_bind_error rfl, if_neg fun hc => hfit (by omega)]

theorem estimateNodes_eq (hs : Sound fs) (h : Renders fs s) {entries : List (Node × Nat)}
    (he : ∀ e ∈ entries, fs.nodes[e.2]? = some e.1) (hb : b < 2 ^ 32) :
    entries.foldlM (estimateNode s) b =
      if (∀ e ∈ entries, attrWeight e.1 < 2 ^ 32) ∧
          b + (entries.map (nodePayload fs)).sum < 2 ^ 32 then
        .ok (b + (entries.map (nodePayload fs)).sum)
      else .error overflow := by
  induction entries generalizing b with
  | nil => exact (if_pos ⟨by simp, hb⟩).symm
  | cons e entries ih =>
    have ih := fun {c} => ih (fun d hd => he d (List.mem_cons_of_mem e hd)) (b := c)
    rw [List.foldlM_cons, estimateNode_eq hs h (he e List.mem_cons_self) hb]
    simp only [List.forall_mem_cons, List.map_cons, List.sum_cons]
    by_cases hfit : attrWeight e.1 < 2 ^ 32 ∧ b + nodePayload fs e < 2 ^ 32
    · rw [if_pos hfit, except_bind_ok rfl, ih hfit.2]
      simp only [hfit.1, true_and, Nat.add_assoc]
    · rw [if_neg hfit, except_bind_error rfl, if_neg]
      rintro ⟨⟨hw, _⟩, hsum⟩
      exact hfit ⟨hw, by omega⟩

def AttrsMeasured (fs : FileSystemBuilder) : Prop := ∀ n ∈ fs.nodes, attrWeight n < 2 ^ 32

theorem estimatePayloadBlocks_eq (hs : Sound fs) (h : Renders fs s) (hfs : s.fs = fs) :
    (AttrsMeasured fs ∧ payload fs < 2 ^ 32 ∧ estimatePayloadBlocks s = .ok (payload fs)) ∨
      (¬ (AttrsMeasured fs ∧ payload fs < 2 ^ 32) ∧
        estimatePayloadBlocks s = .error overflow) := by
  have he : ∀ e ∈ fs.nodes.zipIdx, fs.nodes[e.2]? = some e.1 := by
    intro e hmem
    exact List.mem_zipIdx_iff_getElem?.mp hmem
  have hall : (∀ e ∈ fs.nodes.zipIdx, attrWeight e.1 < 2 ^ 32) ↔ AttrsMeasured fs := by
    constructor
    · intro hw n hn
      obtain ⟨i, hi⟩ := List.mem_iff_getElem?.mp hn
      exact hw (n, i) (List.mem_zipIdx_iff_getElem?.mpr hi)
    · intro hw e hmem
      exact hw e.1 (List.mem_of_getElem? (he e hmem))
  have heq := estimateNodes_eq hs h he (b := 0) (by norm_num)
  rw [Nat.zero_add] at heq
  rw [estimatePayloadBlocks, hfs, heq]
  by_cases hc : AttrsMeasured fs ∧ payload fs < 2 ^ 32
  · exact .inl ⟨hc.1, hc.2, if_pos ⟨hall.mpr hc.1, hc.2⟩⟩
  · exact .inr ⟨hc, if_neg fun hd => hc ⟨hall.mp hd.1, hd.2⟩⟩

theorem growInodes_spec (hinc : 0 < inc) (hneed : need < 2 ^ 32) (fuel : Nat)
    (hf : need ≤ ipg + fuel) (hi : inc ∣ ipg) :
    need ≤ growInodes inc need fuel ipg ∧
      (inc ∣ growInodes inc need fuel ipg ∨ growInodes inc need fuel ipg = 2 ^ 32 - 1) := by
  induction fuel generalizing ipg with
  | zero => exact ⟨hf, .inl hi⟩
  | succ fuel ih =>
    rw [growInodes]
    by_cases hlt : ipg < need
    · rw [if_pos hlt]
      by_cases hsat : ipg + inc ≤ 2 ^ 32 - 1
      · rw [min_eq_left hsat]
        exact ih (by omega) (hi.add (dvd_refl inc))
      · rw [min_eq_right (by omega)]
        cases fuel with
        | zero => exact ⟨by rw [growInodes]; omega, .inr rfl⟩
        | succ fuel =>
          rw [growInodes, if_neg (by omega)]
          exact ⟨by omega, .inr rfl⟩
    · rw [if_neg hlt]
      exact ⟨by omega, .inl hi⟩

/-- The table is a whole number of 64-block units, holds every inode if one bitmap can, and
never exceeds one bitmap. -/
theorem tableSize_spec (bs : BlockSize) (hnext : next < 2 ^ 32) :
    ∃ k, 1 ≤ k ∧ k ≤ 32 ∧ tableSize bs next = k * (bs.bytes / 4) ∧
      (max (next - 1) 11 ≤ tableSize bs next ∨ tableSize bs next = 8 * bs.bytes) := by
  have hbs := blockSize_cases bs
  obtain ⟨q, hq⟩ : ∃ q, bs.bytes = 4 * q := ⟨bs.bytes / 4, by omega⟩
  have hinc : bs.bytes * 64 / inodeSize = q := by rw [hq]; unfold inodeSize; omega
  have hneed : max (next - 1) firstFreeInode < 2 ^ 32 := by unfold firstFreeInode; omega
  obtain ⟨hge, hdvd⟩ := growInodes_spec (by omega) hneed
    (max (next - 1) firstFreeInode) (by omega : _ ≤ q + _) (dvd_refl q)
  have hsize : tableSize bs next = min (growInodes q (max (next - 1) firstFreeInode)
      (max (next - 1) firstFreeInode) q) (bs.bytes * 8) := by
    rw [tableSize, hinc]
  generalize growInodes q (max (next - 1) firstFreeInode) (max (next - 1) firstFreeInode) q = r
    at hge hdvd hsize
  have hq4 : bs.bytes / 4 = q := by omega
  rw [hq4, hsize]
  rw [firstFreeInode] at hge
  by_cases hr : r ≤ bs.bytes * 8
  · rw [min_eq_left hr]
    obtain ⟨k, rfl⟩ := hdvd.resolve_right (by omega)
    refine ⟨k, ?_, ?_, Nat.mul_comm q k, .inl hge⟩
    · by_contra hk
      obtain rfl : k = 0 := by omega
      omega
    · by_contra hk
      have : q * 33 ≤ q * k := Nat.mul_le_mul_left q (by omega)
      omega
  · exact ⟨32, by omega, le_rfl, by omega, .inr (by omega)⟩

theorem inodeTableBlocks_eq : inodeTableBlocks bs (k * (bs.bytes / 4)) = 64 * k := by
  unfold inodeTableBlocks inodeSize
  rcases blockSize_cases bs with h | h | h <;> rw [h] <;> omega

def headerOf (bs : BlockSize) (groups : Nat) : Nat :=
  firstGdtBlockForSize bs + max ((groups * groupDescSize + (bs.bytes - 1)) / bs.bytes) 1

theorem firstGdt_cases (bs : BlockSize) :
    firstGdtBlockForSize bs = 1 ∨ firstGdtBlockForSize bs = 2 := by
  cases bs <;> simp [firstGdtBlockForSize, BlockSize.bytes]

theorem headerBlocksFor_eq (groups : Nat) : headerBlocksFor bs groups =
    if groups * groupDescSize + (bs.bytes - 1) < 2 ^ 32 then .ok (headerOf bs groups)
    else .error overflow := by
  have hbs := blockSize_cases bs
  have hgdt := firstGdt_cases bs
  rw [headerBlocksFor, u32Mul_bind]
  by_cases h1 : groups * groupDescSize < 2 ^ 32
  · rw [if_pos h1, u32Add_bind]
    by_cases h2 : groups * groupDescSize + (bs.bytes - 1) < 2 ^ 32
    · rw [if_pos h2, if_pos h2]
      refine u32Add_ok ?_
      have : (groups * groupDescSize + (bs.bytes - 1)) / bs.bytes ≤ 2 ^ 22 := by
        rcases hbs with h | h | h <;> rw [h] at h2 ⊢ <;> omega
      omega
    · rw [if_neg h2, if_neg h2]
  · rw [if_neg h1, if_neg (by omega)]

theorem headerOf_mono (bs : BlockSize) (h : g ≤ g') : headerOf bs g ≤ headerOf bs g' := by
  have hdiv : (g * groupDescSize + (bs.bytes - 1)) / bs.bytes ≤
      (g' * groupDescSize + (bs.bytes - 1)) / bs.bytes :=
    Nat.div_le_div_right (by
      have := Nat.mul_le_mul_right groupDescSize h
      omega)
  unfold headerOf
  omega

section
variable (bs : BlockSize) (tableBlocks payload minBlocks : Nat)

/-- Everything the image holds when it has `groups` block groups. -/
def blocksNeeded (groups : Nat) : Nat :=
  headerOf bs groups + payload + groups * (tableBlocks + 2)

/-- `groups` block groups are enough. -/
def GroupsFit (groups : Nat) : Prop :=
  1 ≤ groups ∧ blocksNeeded bs tableBlocks payload groups ≤ groups * (bs.bytes * 8) ∧
    minBlocks ≤ groups * (bs.bytes * 8)

structure GroupCount (groups : Nat) : Prop where
  fit : GroupsFit bs tableBlocks payload minBlocks groups
  small : blocksNeeded bs tableBlocks payload groups < 2 ^ 32
  least : ∀ g, GroupsFit bs tableBlocks payload minBlocks g → groups ≤ g

variable {bs tableBlocks payload minBlocks}

theorem GroupCount.unique (h : GroupCount bs tableBlocks payload minBlocks g)
    (h' : GroupCount bs tableBlocks payload minBlocks g') : g = g' :=
  Nat.le_antisymm (h.least g' h'.fit) (h'.least g h.fit)

theorem blocksNeeded_mono (h : g ≤ g') :
    blocksNeeded bs tableBlocks payload g ≤ blocksNeeded bs tableBlocks payload g' := by
  have h1 := headerOf_mono bs h
  have h2 := Nat.mul_le_mul_right (tableBlocks + 2) h
  unfold blocksNeeded
  omega

def nextGroups (bs : BlockSize) (tableBlocks payload minBlocks groups : Nat) : Nat :=
  max (divCeil (max (blocksNeeded bs tableBlocks payload groups) minBlocks) (bs.bytes * 8)) 1

theorem nextGroups_le_iff (hg : 1 ≤ g) :
    nextGroups bs tableBlocks payload minBlocks g ≤ g ↔
      GroupsFit bs tableBlocks payload minBlocks g := by
  have hpos : 0 < bs.bytes * 8 := by rcases blockSize_cases bs with h | h | h <;> omega
  have := divCeil_le (n := max (blocksNeeded bs tableBlocks payload g) minBlocks) (k := g) hpos
  unfold nextGroups GroupsFit
  omega

theorem nextGroups_mono (h : g ≤ g') :
    nextGroups bs tableBlocks payload minBlocks g ≤
      nextGroups bs tableBlocks payload minBlocks g' := by
  have hpos : 0 < bs.bytes * 8 := by rcases blockSize_cases bs with h | h | h <;> omega
  have hneed := @blocksNeeded_mono bs tableBlocks payload g g' h
  have hle := (divCeil_le (k := divCeil (max (blocksNeeded bs tableBlocks payload g') minBlocks)
    (bs.bytes * 8)) hpos).mp le_rfl
  have : divCeil (max (blocksNeeded bs tableBlocks payload g) minBlocks) (bs.bytes * 8) ≤
      divCeil (max (blocksNeeded bs tableBlocks payload g') minBlocks) (bs.bytes * 8) :=
    (divCeil_le hpos).mpr (le_trans (by omega) hle)
  unfold nextGroups
  omega

theorem settleGroups_step (ht : 64 ≤ tableBlocks) (fuel g : Nat) :
    settleGroups bs (bs.bytes * 8) tableBlocks payload minBlocks (fuel + 1) g =
      if blocksNeeded bs tableBlocks payload g < 2 ^ 32 then
        if min (nextGroups bs tableBlocks payload minBlocks g) (2 ^ 32 - 1) = g then .ok g
        else settleGroups bs (bs.bytes * 8) tableBlocks payload minBlocks fuel
          (min (nextGroups bs tableBlocks payload minBlocks g) (2 ^ 32 - 1))
      else .error overflow := by
  have hbs := blockSize_cases bs
  have hmul : g * 66 ≤ g * (tableBlocks + 2) := Nat.mul_le_mul_left g (by omega)
  have hdesc : g * groupDescSize = 32 * g := Nat.mul_comm g 32
  rw [settleGroups, headerBlocksFor_eq]
  by_cases hsmall : blocksNeeded bs tableBlocks payload g < 2 ^ 32
  · have hexp : blocksNeeded bs tableBlocks payload g =
        headerOf bs g + payload + g * (tableBlocks + 2) := rfl
    rw [if_pos (by omega), except_bind_ok rfl, u32Mul_bind, if_pos (by omega), u32Add_bind,
      if_pos (by omega), u32Add_bind, if_pos (by omega), if_pos hsmall]
    have hnext : ∀ x : Nat, max (if x < 2 ^ 32 then x else 2 ^ 32 - 1) 1 =
        min (max x 1) (2 ^ 32 - 1) := by
      intro x
      split <;> omega
    simp only [hnext]
    rfl
  · rw [if_neg hsmall]
    have hexp : blocksNeeded bs tableBlocks payload g =
        headerOf bs g + payload + g * (tableBlocks + 2) := rfl
    by_cases h1 : g * groupDescSize + (bs.bytes - 1) < 2 ^ 32
    · rw [if_pos h1, except_bind_ok rfl, u32Mul_bind]
      split_ifs with h2
      · rw [u32Add_bind]
        split_ifs with h3
        · rw [u32Add_bind, if_neg (by omega)]
        · rfl
      · rfl
    · rw [if_neg h1, except_bind_error rfl]

/-- The loop ends at the least group count that fits, or overflows where there is none
below the limits of `u32`. -/
theorem settleGroups_spec (ht : 64 ≤ tableBlocks) (hg : 1 ≤ g)
    (hup : g ≤ nextGroups bs tableBlocks payload minBlocks g ∨ g = 2 ^ 32 - 1)
    (hbelow : ∀ g', GroupsFit bs tableBlocks payload minBlocks g' → g ≤ g')
    (hfuel : 2 ^ 32 < g + fuel) (hlt : g < 2 ^ 32) :
    (∃ r, settleGroups bs (bs.bytes * 8) tableBlocks payload minBlocks fuel g = .ok r ∧
      GroupCount bs tableBlocks payload minBlocks r) ∨
    (settleGroups bs (bs.bytes * 8) tableBlocks payload minBlocks fuel g = .error overflow ∧
      ∀ r, ¬ GroupCount bs tableBlocks payload minBlocks r) := by
  induction fuel generalizing g with
  | zero => omega
  | succ fuel ih =>
    rw [settleGroups_step ht]
    by_cases hsmall : blocksNeeded bs tableBlocks payload g < 2 ^ 32
    · rw [if_pos hsmall]
      have hg66 : g * 66 < 2 ^ 32 := by
        have : g * 66 ≤ g * (tableBlocks + 2) := Nat.mul_le_mul_left g (by omega)
        unfold blocksNeeded at hsmall
        omega
      have hup := hup.resolve_right (by omega)
      by_cases heq : min (nextGroups bs tableBlocks payload minBlocks g) (2 ^ 32 - 1) = g
      · rw [if_pos heq]
        have hfit := (nextGroups_le_iff hg).mp
          (by omega : nextGroups bs tableBlocks payload minBlocks g ≤ g)
        exact .inl ⟨g, rfl, hfit, hsmall, hbelow⟩
      · rw [if_neg heq]
        have hmono := @nextGroups_mono bs tableBlocks payload minBlocks
        apply ih
        · omega
        · by_cases hsat : nextGroups bs tableBlocks payload minBlocks g ≤ 2 ^ 32 - 1
          · left
            rw [min_eq_left hsat]
            exact hmono hup
          · omega
        · intro g' hfit
          have := hmono (hbelow g' hfit)
          have := (nextGroups_le_iff hfit.1).mpr hfit
          omega
        · omega
        · omega
    · rw [if_neg hsmall]
      refine .inr ⟨rfl, fun r hr => ?_⟩
      have := @blocksNeeded_mono bs tableBlocks payload g r (hbelow r hr.fit)
      have := hr.small
      omega

theorem settleGroups_first (ht : 64 ≤ tableBlocks) (extra : Nat) :
    (∃ r, settleGroups bs (bs.bytes * 8) tableBlocks payload minBlocks (2 ^ 32 + extra) 1 = .ok r ∧
      GroupCount bs tableBlocks payload minBlocks r) ∨
    (settleGroups bs (bs.bytes * 8) tableBlocks payload minBlocks (2 ^ 32 + extra) 1 =
        .error overflow ∧ ∀ r, ¬ GroupCount bs tableBlocks payload minBlocks r) :=
  settleGroups_spec ht le_rfl (.inl (by unfold nextGroups; omega)) (fun _ h => h.1) (by omega)
    (by norm_num)

/-- Where no group count is settled on, none that fits can be added up in a `u32`. -/
theorem needs_overflow (h : ∀ g, ¬ GroupCount bs tableBlocks payload minBlocks g)
    (hfit : GroupsFit bs tableBlocks payload minBlocks g) :
    2 ^ 32 ≤ blocksNeeded bs tableBlocks payload g := by
  classical
  by_contra hsmall
  have hex : ∃ g, GroupsFit bs tableBlocks payload minBlocks g := ⟨g, hfit⟩
  have hneed := @blocksNeeded_mono bs tableBlocks payload _ _ (Nat.find_min' hex hfit)
  exact h (Nat.find hex) ⟨Nat.find_spec hex, by omega, fun _ => Nat.find_min' hex⟩
end

/-- For every table `allocate_inodes` can ask for, the loop of `estimate_block_groups` ends:
with the least number of groups that holds the header, the payload, the tables and the least
size asked for, or in an overflow that no sufficient number of groups avoids. -/
theorem estimate_settles_least (bs : BlockSize) (next : UInt32) (payload : Nat)
    (minSize : UInt64) (extra : Nat) :
    let tableBlocks := inodeTableBlocks bs (tableSize bs next.toNat)
    let minBlocks := divCeil minSize.toNat bs.bytes
    let loop := settleGroups bs (bs.bytes * 8) tableBlocks payload minBlocks (2 ^ 32 + extra) 1
    (∃ g, loop = .ok g ∧ IsLeast {g | GroupsFit bs tableBlocks payload minBlocks g} g) ∨
      (loop = .error overflow ∧ ∀ g, GroupsFit bs tableBlocks payload minBlocks g →
        2 ^ 32 ≤ blocksNeeded bs tableBlocks payload g) := by
  obtain ⟨k, hk, _, hslots, _⟩ := tableSize_spec bs next.toNat_lt
  have htable : 64 ≤ inodeTableBlocks bs (tableSize bs next.toNat) := by
    rw [hslots, inodeTableBlocks_eq]
    omega
  rcases @settleGroups_first bs _ payload (divCeil minSize.toNat bs.bytes) htable extra with
    ⟨g, hg, hcount⟩ | ⟨hg, hnone⟩
  · exact .inl ⟨g, hg, hcount.fit, fun _ => hcount.least _⟩
  · exact .inr ⟨hg, fun _ => needs_overflow hnone⟩

def slots (fs : FileSystemBuilder) : Nat := tableSize fs.blockSize (nextInode fs.nodes)
def tableBlocks (fs : FileSystemBuilder) : Nat := inodeTableBlocks fs.blockSize (slots fs)
def minBlocks (fs : FileSystemBuilder) : Nat := divCeil fs.minSize.toNat fs.blockSize.bytes

/-- The sizes of the image can be computed, and `groups` is its number of block groups. -/
structure Sized (fs : FileSystemBuilder) (groups : Nat) : Prop where
  inodes : nextInode fs.nodes < 2 ^ 32
  attrs : AttrsMeasured fs
  groups : GroupCount fs.blockSize (tableBlocks fs) (payload fs) (minBlocks fs) groups

theorem Sized.unique (h : Sized fs g) (h' : Sized fs g') : g = g' :=
  h.groups.unique h'.groups

theorem Sized.payload_lt (h : Sized fs g) : payload fs < 2 ^ 32 := by
  have := h.groups.small
  unfold blocksNeeded at this
  omega

def allocated (fs : FileSystemBuilder) (out : Sink) (groups : Nat) : Finalizer :=
  { fs, out
    inodes := (List.range fs.nodes.length).map (inodeNumber fs.nodes)
    inodeTable := List.replicate (slots fs) Inode256.zeroed
    blockGroups := groups
    inodesPerGroup := slots fs
    blocksPerGroup := fs.blockSize.bytes * 8 }

theorem slots_spec (h : nextInode fs.nodes < 2 ^ 32) :
    ∃ k, 1 ≤ k ∧ k ≤ 32 ∧ slots fs = k * (fs.blockSize.bytes / 4) ∧ tableBlocks fs = 64 * k ∧
      (max (nextInode fs.nodes - 1) 11 ≤ slots fs ∨ slots fs = 8 * fs.blockSize.bytes) := by
  obtain ⟨k, h1, h2, h3, h4⟩ := tableSize_spec fs.blockSize h
  exact ⟨k, h1, h2, h3, by rw [tableBlocks, slots, h3, inodeTableBlocks_eq], h4⟩

theorem walkTree_allocated (hs : Sound fs) : walkTree fs.nodes (fs.nodes.length + 1)
      { inodes := fixedInodes fs.nodes, next := firstFreeInode + 1, queue := [0] } =
    if nextInode fs.nodes < 2 ^ 32 then
      .ok (toWalk fs.nodes.length (numbering fs.nodes (levelOrder fs.nodes)) [])
    else .error overflow := by
  obtain ⟨r, hr, _⟩ := hs.wf.shape.root
  have hpos := lt_of_get hr
  obtain ⟨hw, hf⟩ := walk_levelOrder hs.wf
  have hstart : toWalk fs.nodes.length (initialNumbering fs.nodes) [0] =
      { inodes := fixedInodes fs.nodes, next := firstFreeInode + 1, queue := [0] } := by
    have hlen : (fixedInodes fs.nodes).length = fs.nodes.length := by simp [fixedInodes]
    simp only [toWalk, initialNumbering, Walk.mk.injEq, and_true]
    apply List.ext_getElem (by simp [hlen])
    intro k h1 h2
    simp [List.getElem?_eq_getElem h2]
  have heq := walkTree_eq hs.wf (w := initialNumbering fs.nodes)
    (by unfold initialNumbering firstFreeInode; norm_num) (q := [0]) (by simpa using hpos) hf
  rw [hw, hstart] at heq
  exact heq

theorem estimateBlockGroups_cases (hs : Sound fs) (h : Renders fs s) (hfs : s.fs = fs)
    (hbpg : s.blocksPerGroup = fs.blockSize.bytes * 8) (hnext : nextInode fs.nodes < 2 ^ 32) :
    (∃ g, estimateBlockGroups s (slots fs) = .ok g ∧ Sized fs g) ∨
      (estimateBlockGroups s (slots fs) = .error overflow ∧ ∀ g, ¬ Sized fs g) := by
  obtain ⟨k, hk1, _, _, htb, _⟩ := slots_spec hnext
  have hmax : max (fs.blockSize.bytes * 8) 1 = fs.blockSize.bytes * 8 := by
    rcases blockSize_cases fs.blockSize with h | h | h <;> omega
  rcases estimatePayloadBlocks_eq hs h hfs with ⟨hattrs, _, hpay⟩ | ⟨hbad, hpay⟩
  · have heq : estimateBlockGroups s (slots fs) = settleGroups fs.blockSize
        (fs.blockSize.bytes * 8) (tableBlocks fs) (payload fs) (minBlocks fs) (2 ^ 32) 1 := by
      rw [estimateBlockGroups, except_bind_ok hpay, hbpg, hmax, hfs]
      rfl
    rw [heq]
    rcases @settleGroups_first fs.blockSize (tableBlocks fs) (payload fs) (minBlocks fs)
      (by omega) 0 with ⟨g, hg, hcount⟩ | ⟨hg, hnone⟩
    · exact .inl ⟨g, hg, hnext, hattrs, hcount⟩
    · exact .inr ⟨hg, fun g h => hnone g h.groups⟩
  · refine .inr ⟨?_, fun g h => hbad ⟨h.attrs, h.payload_lt⟩⟩
    rw [estimateBlockGroups, except_bind_error hpay]

theorem allocateInodes_ends (hs : Sound fs) (out : Sink) :
    Ends allocateInodes { fs, out } (fun _ t => ∃ g, Sized fs g ∧ t = allocated fs out g)
      (fun φ => φ = overflow ∧ ∀ g, ¬ Sized fs g) := by
  obtain ⟨r, hr, _⟩ := hs.wf.shape.root
  have hwalk := walkTree_allocated hs
  rw [allocateInodes, ends_get_bind]
  rw [ends_bind_ok (ofExcept_run (index_ok hr))]
  by_cases hnext : nextInode fs.nodes < 2 ^ 32
  · rw [if_pos hnext] at hwalk
    rw [ends_bind_ok (ofExcept_run hwalk)]
    rcases @estimateBlockGroups_cases fs { allocated fs out 1 with inodeTable := [] } hs
      ⟨⟨rfl, rfl, rfl, rfl⟩, rfl, rfl, rfl⟩ rfl rfl hnext with ⟨g, hg, hsized⟩ | ⟨hg, hnone⟩
    · exact (ends_bind_ok (ofExcept_run hg)).mpr ⟨g, hsized, rfl⟩
    · exact (ends_bind_error (ofExcept_fail hg)).mpr ⟨rfl, hnone⟩
  · rw [if_neg hnext] at hwalk
    rw [ends_bind_error (ofExcept_fail hwalk)]
    exact ⟨rfl, fun g h => hnext h.inodes⟩

end Ext4Sizing
