import Firkin.Ext4InodeTable

/-! # Tables, bitmaps and group descriptors

The inode tables, block bitmaps and inode bitmaps of all groups follow the data region.
The image is rounded up to whole block groups. Its group count is at least the one that
was estimated, and larger only where hard links carry attribute blocks, which the
estimate does not know about. -/
namespace Ext4Bitmaps

open Ext4Types Ext4Builder Ext4BuilderInvariant Ext4BuilderTree ByteImage Ext4Layout List
  Ext4Encoding Ext4Finalizer Ext4InodeAllocation Ext4WriterFrame Ext4Sizing Ext4NodeData
  Ext4DataRegion Ext4InodeTable SerialLayout FaultMonad

section
variable (fs : FileSystemBuilder) (g : Nat)

def groupBlocks : Nat := fs.blockSize.bytes * 8
def blockBitmapStart : Nat := tableStart fs g + tableBlocks fs * g
def inodeBitmapStart : Nat := blockBitmapStart fs g + g

/-- `total_used`: everything that is written out. -/
def usedBlocks : Nat := inodeBitmapStart fs g + g

/-- `total_disk`: whole block groups, as a `u32`. -/
def diskBlocks : Nat :=
  divCeil (max (usedBlocks fs g) (groupBlocks fs * g)) (groupBlocks fs) * groupBlocks fs % 2 ^ 32

def diskGroups : Nat := max (diskBlocks fs g / groupBlocks fs) 1
def firstData : Nat := if fs.blockSize.bytes = 1024 then 1 else 0
def groupFirst (k : Nat) : Nat := firstData fs + k * groupBlocks fs

def blockBits (k : Nat) : List Nat :=
  (List.range (groupBlocks fs)).filter fun l =>
    decide (groupFirst fs k + l < usedBlocks fs g) || decide (groupFirst fs k + l ≥ diskBlocks fs g)

def blockBitmapBytes (k : Nat) : List UInt8 :=
  (blockBits fs g k).foldl setBit (zeros fs.blockSize.bytes)

def freeBlocks (k : Nat) : Nat :=
  let valid := min (diskBlocks fs g - groupFirst fs k) (groupBlocks fs)
  valid - min (usedBlocks fs g - groupFirst fs k) valid
end

variable {fs : FileSystemBuilder} {i g k : Nat}
  {out : Sink} {table : List Inode256} {next pos : Nat}

theorem groupBlocks_cases (fs : FileSystemBuilder) :
    groupBlocks fs = 8192 ∨ groupBlocks fs = 16384 ∨ groupBlocks fs = 32768 := by
  unfold groupBlocks
  rcases blockSize_cases fs.blockSize with h | h | h <;> rw [h] <;> omega

theorem divCeil_scale (hb : 0 < b) (hc : 0 < c) : (x * c + b * c - 1) / (b * c) = divCeil x b := by
  have hbc : 0 < b * c := Nat.mul_pos hb hc
  by_cases hx : x = 0
  · subst hx
    exact Nat.div_eq_of_lt (by omega)
  · have hxc : c ≤ x * c := Nat.le_mul_of_pos_left c (by omega)
    have hsub : x * c - 1 = (c - 1) + (x - 1) * c := by
      rw [Nat.sub_mul]
      omega
    have hdiv : (x * c - 1) / c = x - 1 := by
      rw [hsub, Nat.add_mul_div_right _ _ hc, Nat.div_eq_of_lt (by omega), Nat.zero_add]
    have hsum : x * c + b * c - 1 = (x * c - 1) + b * c := by omega
    rw [divCeil, if_neg hx, hsum, Nat.add_div_right _ hbc, Nat.mul_comm b c,
      ← Nat.div_div_eq_div_mul, hdiv, Nat.add_comm]

theorem minSize_le (h : Sized fs g) :
    fs.minSize.toNat ≤ groupBlocks fs * g * fs.blockSize.bytes := by
  have hfit := h.groups.fit.2.2
  have hpos : 0 < fs.blockSize.bytes := by cases fs.blockSize <;> decide
  rw [minBlocks, divCeil_le hpos, Nat.mul_comm g] at hfit
  exact hfit

theorem totalDiskBlocks_eq (h : Sized fs g) :
    totalDiskBlocks (stage fs g (finished fs g) table next out pos) (usedBlocks fs g) =
      if groupBlocks fs * g < 2 ^ 32 then .ok (diskBlocks fs g) else .error overflow := by
  have hpos : 0 < fs.blockSize.bytes := by cases fs.blockSize <;> decide
  have hgpos : 0 < groupBlocks fs := Nat.mul_pos hpos (by norm_num)
  have hmin := minSize_le h
  have hle : fs.minSize.toNat ≤
      max (usedBlocks fs g) (groupBlocks fs * g) * fs.blockSize.bytes :=
    hmin.trans (Nat.mul_le_mul_right _ (le_max_right _ _))
  change (u32Mul (groupBlocks fs) g >>= fun groupBlocks' => _) = _
  rw [u32Mul_bind]
  by_cases hfit : groupBlocks fs * g < 2 ^ 32
  · rw [if_pos hfit, if_pos hfit]
    change Except.ok ((max (max (usedBlocks fs g) (groupBlocks fs * g) * fs.blockSize.bytes)
      fs.minSize.toNat + groupBlocks fs * fs.blockSize.bytes - 1) /
        (groupBlocks fs * fs.blockSize.bytes) * (groupBlocks fs * fs.blockSize.bytes) /
          fs.blockSize.bytes % 2 ^ 32) = _
    rw [max_eq_left hle, divCeil_scale hgpos hpos, ← Nat.mul_assoc, Nat.mul_div_cancel _ hpos]
    rfl
  · rw [if_neg hfit, if_neg hfit]

def tailStage (fs : FileSystemBuilder) (g : Nat) (table : List Inode256) (out : Sink) (pos : Nat) :
    Finalizer :=
  { stage fs g (finished fs g) table (usedBlocks fs g) out pos with
    blockGroups := diskGroups fs g }

theorem renders_tail : Renders fs (tailStage fs g table out pos) :=
  (@renders_finished fs g out table (usedBlocks fs g) pos).same rfl rfl

theorem diskGroups_bound (hk : k < diskGroups fs g) : (k + 1) * groupBlocks fs < 2 ^ 32 := by
  have hlt : diskBlocks fs g < 2 ^ 32 := Nat.mod_lt _ (by norm_num)
  have hdiv := Nat.div_mul_le_self (diskBlocks fs g) (groupBlocks fs)
  have hcases := groupBlocks_cases fs
  unfold diskGroups at hk
  by_cases hd : k + 1 ≤ diskBlocks fs g / groupBlocks fs
  · have := Nat.mul_le_mul_right (groupBlocks fs) hd
    omega
  · have hk0 : k = 0 := by omega
    subst hk0
    omega

theorem blockBitmap_eq (hk : k < diskGroups fs g) :
    blockBitmap (tailStage fs g table out pos) (usedBlocks fs g) (diskBlocks fs g) k =
      .ok (blockBitmapBytes fs g k, freeBlocks fs g k) := by
  have hbound := diskGroups_bound hk
  have hpos := groupBlocks_cases fs
  rw [Nat.add_mul] at hbound
  have hfirst : firstData fs ≤ 1 := by unfold firstData; split <;> omega
  change (u32Mul k (groupBlocks fs) >>= fun offset => u32Add (firstData fs) offset >>=
    fun first => u32Add first (groupBlocks fs - 1) >>= fun _ => _) = _
  rw [except_bind_ok (u32Mul_ok (by omega)), except_bind_ok (u32Add_ok (by omega)),
    except_bind_ok (u32Add_ok (by omega))]
  rfl

def liveNumber (fs : FileSystemBuilder) (i : Nat) : Option Nat :=
  match fs.nodes[i]? with
  | some n => if n.deleted then none else inodeNumber fs.nodes i
  | none => none

def liveNumbers (fs : FileSystemBuilder) : List Nat :=
  (List.range fs.nodes.length).filterMap (liveNumber fs)

theorem liveNumber_eq_some : liveNumber fs i = some k ↔
    Live fs.nodes i ∧ inodeNumber fs.nodes i = some k := by
  unfold liveNumber Live
  cases hn : fs.nodes[i]? with
  | none => simp
  | some n => cases hd : n.deleted <;> simp [hd]

theorem mem_liveNumbers : k ∈ liveNumbers fs ↔
    ∃ i, Live fs.nodes i ∧ inodeNumber fs.nodes i = some k := by
  rw [liveNumbers, mem_filterMap]
  constructor
  · rintro ⟨i, _, h⟩
    exact ⟨i, liveNumber_eq_some.mp h⟩
  · rintro ⟨i, hl, hk⟩
    exact ⟨i, mem_range.mpr hl.lt, liveNumber_eq_some.mpr ⟨hl, hk⟩⟩

/-- The nodes as `liveInodes` lists them. -/
def liveList (fs : FileSystemBuilder) (g : Nat) : List (Nat × Node) :=
  (List.range fs.nodes.length).filterMap fun i =>
    (liveNumber fs i).bind fun k => ((finished fs g).nodes[i]?).map fun n => (k, n)

theorem liveList_numbers : (liveList fs g).map Prod.fst = liveNumbers fs := by
  rw [liveList, map_filterMap]
  refine filterMap_congr fun i hi => ?_
  rw [finished_get (getElem?_eq_getElem (mem_range.mp hi))]
  cases liveNumber fs i <;> rfl

theorem liveInodes_eq : liveInodes (tailStage fs g table out pos) = .ok (liveList fs g) := by
  have hrend := @renders_tail fs g out table pos
  have hzip : (tailStage fs g table out pos).inodes.zipIdx =
      (range fs.nodes.length).map fun i => (inodeNumber fs.nodes i, i) := by
    rw [hrend.inodes]
    apply ext_getElem (by simp)
    simp
  have hmap : ∀ e ∈ (tailStage fs g table out pos).inodes.zipIdx, (do
      let n ← node (tailStage fs g table out pos) e.2
      pure (if n.deleted then none else e.1.map fun ino => (ino, n)) :
        Except Fault (Option (Nat × Node))) =
      .ok ((liveNumber fs e.2).bind fun k =>
        ((finished fs g).nodes[e.2]?).map fun n => (k, n)) := by
    intro e he
    rw [hzip] at he
    obtain ⟨i, hi, rfl⟩ := mem_map.mp he
    obtain ⟨n, hn⟩ : ∃ n, fs.nodes[i]? = some n :=
      ⟨_, getElem?_eq_getElem (mem_range.mp hi)⟩
    obtain ⟨m, hm, hme⟩ := hrend.get hn
    have hnode : node (tailStage fs g table out pos) i = .ok m := index_ok hm
    have hfin : (finished fs g).nodes[i]? = some m := hm
    rw [except_bind_ok hnode, hfin, liveNumber, hn, (unplaced_fields hme).2.2.2.2.2.2.2.2]
    simp only
    cases hd : n.deleted with
    | true => rfl
    | false => cases inodeNumber fs.nodes i <;> rfl
  rw [liveInodes, except_bind_ok (mapM_ok hmap), hzip, map_map]
  rw [filterMap_map]
  rfl

theorem number_bounds (hs : Sound fs) (hfill : fillFaults fs = []) (hk : k ∈ liveNumbers fs) :
    2 ≤ k ∧ k - 1 < slots fs := by
  obtain ⟨i, hl, hi⟩ := mem_liveNumbers.mp hk
  obtain ⟨⟨m, hm, hmd⟩, ht, hr⟩ := number_resolve hs hl hi
  have hskip : skipped m = false := by
    simp [skipped, hmd, (targetOf_some hm).symm.trans ht]
  obtain ⟨a, ha, hac⟩ := owner_number hs ⟨m, hm, hmd⟩ ht
  have hka : k = a := Option.some.inj (hr.symm.trans ha)
  have hclean := filterMap_eq_nil_iff.mp hfill (resolve fs.nodes i) (mem_range.mpr (lt_of_get hm))
  rw [fillFault, hm] at hclean
  simp only [hskip, Bool.false_eq_true, if_false, hr, Option.getD_some,
    Option.or_eq_none_iff] at hclean
  refine ⟨by omega, ?_⟩
  by_contra hge
  rw [if_neg hge] at hclean
  cases hclean.2

/-- The bits that are set in the inode bitmap of group `k`. -/
def inodeBits (fs : FileSystemBuilder) (k : Nat) : List Nat :=
  (if k = 0 then List.range 10 ++ (liveNumbers fs).map (· - 1) else []) ++
    List.range' (slots fs) (fs.blockSize.bytes * 8 - slots fs)

def inodeBitmapBytes (fs : FileSystemBuilder) (k : Nat) : List UInt8 :=
  (inodeBits fs k).foldl setBit (zeros fs.blockSize.bytes)

theorem foldl_firstBitmap {ipg : Nat} {live : List (Nat × Node)} (h : ∀ e ∈ live, e.1 - 1 < ipg)
    (bitmaps : List Buf) :
    live.foldl (fun bitmaps entry => bitmaps.modify ((entry.1 - 1) / ipg) fun bitmap =>
      setBit bitmap ((entry.1 - 1) % ipg)) bitmaps =
    bitmaps.modify 0 fun bitmap => ((live.map Prod.fst).map (· - 1)).foldl setBit bitmap := by
  induction live generalizing bitmaps with
  | nil => exact (modify_id 0 bitmaps).symm
  | cons e live ih =>
    have he := h e mem_cons_self
    rw [foldl_cons, ih fun d hd => h d (mem_cons_of_mem e hd), Nat.div_eq_of_lt he,
      Nat.mod_eq_of_lt he, modify_modify_eq]
    rfl

theorem liveList_slot (hs : Sound fs) (hfill : fillFaults fs = []) :
    ∀ e ∈ liveList fs g, e.1 - 1 < slots fs := by
  intro e he
  have hmem : e.1 ∈ liveNumbers fs := by
    rw [← @liveList_numbers fs g]
    exact mem_map_of_mem he
  exact (number_bounds hs hfill hmem).2

theorem inodeBitmaps_eq (hs : Sound fs) (hfill : fillFaults fs = []) :
    inodeBitmaps (tailStage fs g table out pos) (liveList fs g) =
      (range (diskGroups fs g)).map (inodeBitmapBytes fs) := by
  have hfold := foldl_firstBitmap (@liveList_slot fs g hs hfill) ((replicate (diskGroups fs g)
    (zeros fs.blockSize.bytes)).modify 0 fun bitmap => (range 10).foldl setBit bitmap)
  rw [liveList_numbers, modify_modify_eq] at hfold
  refine (congrArg (map fun bitmap => (range' (slots fs)
    (fs.blockSize.bytes * 8 - slots fs)).foldl setBit bitmap) hfold).trans ?_
  apply ext_getElem?
  intro k
  rw [getElem?_map, getElem?_map]
  by_cases hk : k < diskGroups fs g
  · rw [getElem?_range hk, getElem?_modify, getElem?_replicate, if_pos hk]
    by_cases h0 : k = 0
    · subst h0
      simp [inodeBitmapBytes, inodeBits, foldl_append]
    · simp [inodeBitmapBytes, inodeBits, h0, Ne.symm h0]
  · rw [getElem?_eq_none (by simpa using hk), getElem?_eq_none (by simpa using hk)]
    rfl

def distinctAbove (numbers : List Nat) : Nat := (numbers.toFinset.filter (10 < ·)).card

theorem distinctAbove_snoc_mem (h : x ∈ numbers) :
    distinctAbove (numbers ++ [x]) = distinctAbove numbers := by
  have hset : (numbers ++ [x]).toFinset = numbers.toFinset := by
    ext y
    simp only [mem_toFinset, mem_append, mem_singleton]
    exact ⟨fun hy => hy.elim id fun he => he ▸ h, .inl⟩
  rw [distinctAbove, hset]
  rfl

theorem distinctAbove_snoc_new (h : x ∉ numbers) :
    distinctAbove (numbers ++ [x]) = distinctAbove numbers + if 10 < x then 1 else 0 := by
  have hset : (numbers ++ [x]).toFinset = insert x numbers.toFinset := by
    simp
  have hx : x ∉ numbers.toFinset := by simpa using h
  rw [distinctAbove, hset, Finset.filter_insert]
  split
  · rw [Finset.card_insert_of_notMem fun hm => hx (Finset.mem_filter.mp hm).1]
    rfl
  · rfl

/-- What has been counted after the entries `pre`. -/
structure Counted (groups : Nat) (pre : List (Nat × Node)) (c : InodeCount) : Prop where
  seen : ∀ x, x ∈ c.seen ↔ x ∈ pre.map Prod.fst
  used : c.used = 10 + distinctAbove (pre.map Prod.fst)
  byGroup : c.usedByGroup = (List.replicate groups 0).set 0 c.used
  dirs : c.dirs = pre.countP fun e => e.2.mode.isDir

theorem countUsed_spec {groups ipg ino : Nat} {c : InodeCount} (hg : 1 ≤ groups)
    (hc : c.usedByGroup = (replicate groups 0).set 0 c.used) (hk : ino - 1 < ipg) :
    (countUsed ipg { c with seen := ino :: c.seen } ino).seen = ino :: c.seen ∧
      (countUsed ipg { c with seen := ino :: c.seen } ino).used =
        c.used + (if 10 < ino then 1 else 0) ∧
      (countUsed ipg { c with seen := ino :: c.seen } ino).usedByGroup =
        (replicate groups 0).set 0 (countUsed ipg { c with seen := ino :: c.seen } ino).used ∧
      (countUsed ipg { c with seen := ino :: c.seen } ino).dirs = c.dirs := by
  unfold countUsed
  by_cases hino : ino > 10
  · rw [if_pos hino, if_pos hino, Nat.div_eq_of_lt hk]
    refine ⟨rfl, rfl, ?_, rfl⟩
    obtain ⟨r, rfl⟩ : ∃ r, groups = r + 1 := ⟨groups - 1, by omega⟩
    simp only [hc, replicate_succ, set_cons_zero, modify_zero_cons]
  · rw [if_neg hino, if_neg hino]
    exact ⟨rfl, rfl, hc, rfl⟩

theorem countInode_step (hg : 1 ≤ groups) (hC : Counted groups pre c) (hd : c.dirs < 2 ^ 16)
    (hk : e.1 - 1 < ipg) (hdup : e.1 ∈ pre.map Prod.fst → e.2.mode.isDir = false) :
    (∃ c', countInode ipg c e = .ok c' ∧ Counted groups (pre ++ [e]) c' ∧ c'.dirs < 2 ^ 16) ∨
    (countInode ipg c e = .error overflow ∧
      ¬ (pre ++ [e]).countP (fun e => e.2.mode.isDir) < 2 ^ 16) := by
  have hmap : (pre ++ [e]).map Prod.fst = pre.map Prod.fst ++ [e.1] := by simp
  have hdirs : (pre ++ [e]).countP (fun e => e.2.mode.isDir) =
      c.dirs + if e.2.mode.isDir then 1 else 0 := by
    rw [countP_append, countP_singleton, hC.dirs]
  unfold countInode
  by_cases hseen : e.1 ∈ c.seen
  · have hmem := (hC.seen e.1).mp hseen
    rw [if_pos hseen]
    refine .inl ⟨c, rfl, ⟨?_, ?_, hC.byGroup, ?_⟩, hd⟩
    · intro x
      rw [hmap, mem_append, mem_singleton, hC.seen]
      exact ⟨.inl, fun h => h.elim id fun he => he ▸ hmem⟩
    · rw [hmap, distinctAbove_snoc_mem hmem]
      exact hC.used
    · rw [hdirs, hdup hmem]
      rfl
  · have hnew : e.1 ∉ pre.map Prod.fst := fun h => hseen ((hC.seen e.1).mpr h)
    obtain ⟨hseen1, hused1, hgroup1, hdirs1⟩ := countUsed_spec hg hC.byGroup hk
    rw [if_neg hseen]
    generalize countUsed ipg { c with seen := e.1 :: c.seen } e.1 = c1
      at hseen1 hused1 hgroup1 hdirs1
    have hseen' : ∀ x, x ∈ c1.seen ↔ x ∈ (pre ++ [e]).map Prod.fst := by
      intro x
      rw [hseen1, hmap, mem_cons, hC.seen, mem_append, mem_singleton]
      exact or_comm
    have hused' : c1.used = 10 + distinctAbove ((pre ++ [e]).map Prod.fst) := by
      rw [hused1, hC.used, hmap, distinctAbove_snoc_new hnew, Nat.add_assoc]
    unfold countDir
    by_cases hdir : e.2.mode.isDir = true
    · rw [if_pos hdir] at hdirs ⊢
      by_cases hfit : c1.dirs + 1 < 2 ^ 16
      · rw [if_pos hfit]
        exact .inl ⟨_, rfl, ⟨hseen', hused', hgroup1, by rw [hdirs, ← hdirs1]⟩, hfit⟩
      · rw [if_neg hfit]
        exact .inr ⟨rfl, by omega⟩
    · rw [if_neg hdir] at hdirs ⊢
      exact .inl ⟨c1, rfl, ⟨hseen', hused', hgroup1, by rw [hdirs, hdirs1]; rfl⟩,
        by rw [hdirs1]; exact hd⟩

/-- The pass over a list in which only its first mention of an inode may be a directory. -/
theorem countInodes_cases (hg : 1 ≤ groups) (hk : ∀ e ∈ live, e.1 - 1 < ipg)
    (hdup : live.Pairwise fun a b => a.1 = b.1 → b.2.mode.isDir = false)
    (hC : Counted groups [] c) :
    (∃ c', live.foldlM (countInode ipg) c = .ok c' ∧ Counted groups live c' ∧
      live.countP (fun e => e.2.mode.isDir) < 2 ^ 16) ∨
    (live.foldlM (countInode ipg) c = .error overflow ∧
      ¬ live.countP (fun e => e.2.mode.isDir) < 2 ^ 16) := by
  suffices H : ∀ (post pre : List (Nat × Node)) (c : InodeCount), live = pre ++ post →
      Counted groups pre c → c.dirs < 2 ^ 16 →
      (∃ c', post.foldlM (countInode ipg) c = .ok c' ∧ Counted groups live c' ∧
        live.countP (fun e => e.2.mode.isDir) < 2 ^ 16) ∨
      (post.foldlM (countInode ipg) c = .error overflow ∧
        ¬ live.countP (fun e => e.2.mode.isDir) < 2 ^ 16) from
    H live [] c rfl hC (by rw [hC.dirs]; norm_num)
  intro post
  induction post with
  | nil =>
    intro pre c he hC hd
    rw [append_nil] at he
    subst he
    exact .inl ⟨c, rfl, hC, by rw [← hC.dirs]; exact hd⟩
  | cons e post ih =>
    intro pre c he hC hd
    have hmem : e ∈ live := by rw [he]; simp
    have hlater : e.1 ∈ pre.map Prod.fst → e.2.mode.isDir = false := by
      intro hin
      obtain ⟨a, ha, hae⟩ := mem_map.mp hin
      rw [he] at hdup
      exact (pairwise_append.mp hdup).2.2 a ha e mem_cons_self hae
    rw [foldlM_cons]
    have hsplit : live = (pre ++ [e]) ++ post := by rw [he]; simp
    rcases countInode_step hg hC hd (hk e hmem) hlater with ⟨c', hc', hC', hd'⟩ | ⟨herr, hbig⟩
    · rw [except_bind_ok hc']
      exact ih (pre ++ [e]) c' hsplit hC' hd'
    · rw [except_bind_error herr]
      refine .inr ⟨rfl, fun hlt => hbig (lt_of_le_of_lt ?_ hlt)⟩
      rw [hsplit]
      exact (sublist_append_left _ _).countP_le

def usedInodes (fs : FileSystemBuilder) : Nat := 10 + distinctAbove (liveNumbers fs)

def isLiveDir (fs : FileSystemBuilder) (i : Nat) : Bool :=
  match fs.nodes[i]? with
  | some n => !n.deleted && n.mode.isDir
  | none => false

def liveDirs (fs : FileSystemBuilder) : Nat :=
  (List.range fs.nodes.length).countP (isLiveDir fs)

theorem finished_mode (hn : fs.nodes[i]? = some n) : ∃ m, (finished fs g).nodes[i]? = some m ∧
    m.mode = n.mode := by
  refine ⟨_, finished_get hn, ?_⟩
  rw [(unplaced_fields (unplaced_attrNode i _)).2.2.2.2.1,
    (unplaced_fields (unplaced_placedNode i n)).2.2.2.2.1]

theorem liveList_dirs (hs : Sound fs) :
    (liveList fs g).countP (fun e => e.2.mode.isDir) = liveDirs fs := by
  rw [liveList, countP_filterMap]
  refine countP_congr fun i hi => ?_
  obtain ⟨n, hn⟩ : ∃ n, fs.nodes[i]? = some n :=
    ⟨_, getElem?_eq_getElem (mem_range.mp hi)⟩
  obtain ⟨m, hm, hmode⟩ := @finished_mode fs i g n hn
  rw [hm, liveNumber, isLiveDir, hn]
  by_cases hd : n.deleted = true
  · simp [hd]
  rw [Bool.not_eq_true] at hd
  by_cases hdir : n.mode.isDir = true
  · obtain ⟨k, hk, _⟩ := owner_number hs ⟨n, hn, hd⟩ (targetOf_dir hs.wf hn hdir)
    simp [hd, hk, hmode]
  · cases inodeNumber fs.nodes i <;> simp [hd, hmode, hdir]

theorem liveList_dup (hs : Sound fs) :
    (liveList fs g).Pairwise fun a b => a.1 = b.1 → b.2.mode.isDir = false := by
  rw [liveList, pairwise_filterMap]
  refine pairwise_lt_range.imp ?_
  intro i j hij a ha b hb hab
  obtain ⟨k, hk, ha⟩ := Option.bind_eq_some_iff.mp ha
  obtain ⟨l, hl, hb⟩ := Option.bind_eq_some_iff.mp hb
  obtain ⟨hi, hik⟩ := liveNumber_eq_some.mp hk
  obtain ⟨⟨n, hn, hd⟩, hjl⟩ := liveNumber_eq_some.mp hl
  obtain ⟨m, hm, hmode⟩ := @finished_mode fs j g n hn
  rw [hm] at hb
  obtain ⟨m', hm', rfl⟩ := Option.map_eq_some_iff.mp ha
  cases hb
  obtain rfl : k = l := hab
  by_contra hdir
  rw [Bool.not_eq_false, hmode] at hdir
  obtain ⟨hr, hrt, hrk⟩ := number_resolve hs hi hik
  obtain ⟨n', hn', _⟩ := hi
  have heq := owner_injective hs hr hrt ⟨n, hn, hd⟩ (targetOf_dir hs.wf hn hdir)
    (hrk.trans hjl.symm)
  have hle := (resolve_spec hs.wf.shape hn').1
  omega

theorem countInodes_tail (hs : Sound fs) (hfill : fillFaults fs = []) :
    (∃ c, countInodes (tailStage fs g table out pos) (liveList fs g) = .ok c ∧
      c.used = usedInodes fs ∧ c.dirs = liveDirs fs ∧ liveDirs fs < 2 ^ 16 ∧
      c.usedByGroup = (replicate (diskGroups fs g) 0).set 0 (usedInodes fs)) ∨
    (countInodes (tailStage fs g table out pos) (liveList fs g) = .error overflow ∧
      ¬ liveDirs fs < 2 ^ 16) := by
  have hstart : Counted (diskGroups fs g) []
      { seen := [], usedByGroup := (replicate (diskGroups fs g) 0).set 0 10, used := 10
        dirs := 0 } :=
    ⟨by simp, rfl, rfl, rfl⟩
  have hcases := countInodes_cases (le_max_right _ _) (@liveList_slot fs g hs hfill)
    (liveList_dup hs) hstart
  rw [liveList_dirs hs] at hcases
  rcases hcases with ⟨c, hc, hC, hlt⟩ | herr
  · refine .inl ⟨c, hc, ?_, hC.dirs.trans (liveList_dirs hs), hlt, ?_⟩
    · rw [hC.used, liveList_numbers]
      rfl
    · rw [hC.byGroup, hC.used, liveList_numbers]
      rfl
  · exact .inr herr

end Ext4Bitmaps
