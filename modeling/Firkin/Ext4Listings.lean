import Firkin.Ext4Estimate

/-! # Directories as a reader sees them

The records of a directory block form a chain, each saying where the next one begins. A
name of 256 bytes or more is written in full, but its length does not fit the byte kept
for it: the reader gets the chain right and the name wrong. -/
namespace Ext4Listings

open Ext4Types Ext4Path Ext4Builder Ext4BuilderInvariant Ext4BuilderReachable ByteImage Ext4Layout
open List
  Ext4Encoding Ext4Finalizer Ext4InodeAllocation Ext4WriterFrame Ext4Sizing Ext4DirectoryBlocks
  Ext4NodeData Ext4DataRegion Ext4Bitmaps Ext4Image Ext4Totality Ext4Estimate FaultMonad

/-- Follow the records to the end of the block; a record that is misaligned, too short for
its name or too long for the block is refused. -/
def readRecords : Nat → List UInt8 → Option (List DirEntrySpec)
  | 0, bytes => if bytes = [] then some [] else none
  | fuel + 1, bytes =>
    let recLen := field bytes 4 2
    let nameLen := field bytes 6 1
    if bytes = [] then some []
    else if recLen % 4 = 0 ∧ 8 + nameLen ≤ recLen ∧ recLen ≤ bytes.length then
      (readRecords fuel (bytes.drop recLen)).map
        ({ inode := field bytes 0 4, name := (bytes.drop 8).take nameLen
           fileType := (bytes.drop 7).headD 0 } :: ·)
    else none

def blockAt (img : Image) (bs k : Nat) : List UInt8 := (List.range bs).map fun j => img (k * bs + j)

/-- The entries in `count` blocks from `start` on. -/
def readDirectory (img : Image) (bs start count : Nat) : Option (List DirEntrySpec) :=
  ((List.range' start count).mapM fun k => readRecords bs (blockAt img bs k)).map List.flatten

/-- What is left of a name whose length is kept in a byte. -/
def cut (e : DirEntrySpec) : DirEntrySpec := { e with name := e.name.take (e.name.length % 256) }

theorem cut_eq (h : e.name.length ≤ 255) : cut e = e := by
  rw [cut, Nat.mod_eq_of_lt (by omega), take_length]

theorem cut_short (e : DirEntrySpec) : (cut e).name.length ≤ 255 :=
  le_trans (length_take_le _ _) (by omega)

section
theorem readRecords_record (hname : 8 + e.name.length ≤ recLen) (h4 : recLen % 4 = 0)
    (hlt : recLen < 65536) (hino : e.inode < 4294967296) :
    readRecords (fuel + 1) (recordBytes e recLen ++ r) = (readRecords fuel r).map (cut e :: ·) := by
  have hmod := Nat.mod_le e.name.length 256
  have hdrop := @List.drop_left' _ _ r _ (length_recordBytes hname)
  have hfields : field (recordBytes e recLen ++ r) 0 4 = e.inode ∧
      field (recordBytes e recLen ++ r) 4 2 = recLen ∧
      field (recordBytes e recLen ++ r) 6 1 = e.name.length % 256 := by
    simp [recordBytes, DirEntryHeader.bytes, le32, le16, field_skip, field_head,
      Nat.mod_eq_of_lt hlt, Nat.mod_eq_of_lt hino]
  have htail : (recordBytes e recLen ++ r).drop 7 =
      e.fileType :: (e.name ++ (zeros (recLen - (8 + e.name.length)) ++ r)) := by
    simp [recordBytes, DirEntryHeader.bytes, le32, le16, leBytes]
  have hname' : (recordBytes e recLen ++ r).drop 8 =
      e.name ++ (zeros (recLen - (8 + e.name.length)) ++ r) := by
    simp [recordBytes, DirEntryHeader.bytes, le32, le16, leBytes]
  have hlen : recLen ≤ (recordBytes e recLen ++ r).length := by
    simp [length_recordBytes hname]
  rw [readRecords, hfields.1, hfields.2.1, hfields.2.2, htail, hname', hdrop,
    if_neg (ne_nil_of_length_pos (by omega)), if_pos ⟨h4, by omega, hlen⟩,
    take_append_of_le_length hmod]
  rfl

theorem readRecords_block (hne : pack ≠ [])
    (h : off + (pack.map entryLen).sum ≤ bs) (hoff : off % 4 = 0) (hbs : bs % 4 = 0)
    (hlt : bs < 65536) (hino : ∀ e ∈ pack, e.inode < 4294967296) (hf : pack.length ≤ fuel) :
    readRecords fuel (blockBytes bs pack off) = some (pack.map cut) := by
  induction pack generalizing off fuel with
  | nil => exact absurd rfl hne
  | cons e rest ih =>
    have hge := entryLen_ge e
    have h4 : entryLen e % 4 = 0 := by unfold entryLen dirEntryMinLen align4; omega
    obtain ⟨fuel, rfl⟩ : ∃ k, fuel = k + 1 := ⟨fuel - 1, by simp at hf; omega⟩
    rw [map_cons, sum_cons] at h
    have he := hino e mem_cons_self
    cases rest with
    | nil =>
      rw [blockBytes, ← append_nil (recordBytes _ _),
        readRecords_record (by omega) (by omega) (by omega) he]
      cases fuel <;> rfl
    | cons e' rest =>
      rw [blockBytes, readRecords_record hge h4 (by omega) he,
        ih (by simp) (by omega) (by omega) (fun d hd => hino d (mem_cons_of_mem _ hd))
          (by simpa using hf)]
      rfl

theorem blockAt_of_holds (h : Holds img (k * bs) l)
    (hl : l.length = bs) : blockAt img bs k = l := by
  apply ext_getElem (by simp [blockAt, hl])
  intro j _ hj
  simpa [blockAt] using h j _ (getElem?_eq_getElem hj)

theorem readDirectory_packs {packs : List (List DirEntrySpec)} {start : Nat}
    (hfit : ∀ pack ∈ packs, pack ≠ [] ∧ (pack.map entryLen).sum ≤ bs ∧
      ∀ e ∈ pack, e.inode < 4294967296)
    (hbs : bs % 4 = 0) (hlt : bs < 65536)
    (h : Holds img (start * bs) (packs.flatMap (blockBytes bs · 0))) :
    readDirectory img bs start packs.length = some (packs.flatten.map cut) := by
  induction packs generalizing start with
  | nil => rfl
  | cons pack packs ih =>
    obtain ⟨hne, hsum, hino⟩ := hfit pack mem_cons_self
    have hlen : (blockBytes bs pack 0).length = bs := length_blockBytes (by omega)
    have hcount : pack.length ≤ bs := by
      refine le_trans ?_ hsum
      rw [← length_map entryLen]
      refine length_le_sum_of_one_le _ fun l hl => ?_
      obtain ⟨e, _, rfl⟩ := mem_map.mp hl
      have := entryLen_ge e
      omega
    rw [flatMap_cons] at h
    have hread : readRecords bs (blockAt img bs start) = some (pack.map cut) := by
      rw [blockAt_of_holds h.left hlen]
      exact readRecords_block hne (by omega) rfl hbs hlt hino hcount
    have hnext := h.right
    rw [hlen, ← Nat.succ_mul] at hnext
    have hrest := ih (fun p hp => hfit p (mem_cons_of_mem _ hp)) hnext
    rw [readDirectory, Option.map_eq_some_iff] at hrest
    obtain ⟨ess, hess, hflat⟩ := hrest
    rw [readDirectory, length_cons, range'_succ, mapM_cons, hread]
    simp [hess, hflat]
end

variable {fs : FileSystemBuilder} {s t : Finalizer} {i : Nat} {n : Node} {out : Sink}

theorem number_lt (hs : Sound fs) (hsized : Sized fs g) :
    (inodeNumber fs.nodes j).getD 0 < 4294967296 := by
  have hnext := hsized.inodes
  cases hk : inodeNumber fs.nodes j with
  | none => simp
  | some k =>
    rw [Option.getD_some]
    by_cases hl : Live fs.nodes j
    · obtain ⟨hl', ht, hk'⟩ := number_resolve hs hl hk
      obtain ⟨k', hk'', hcases⟩ := owner_number hs hl' ht
      cases hk'.symm.trans hk''
      omega
    · by_cases h0 : j = 0
      · subst h0
        cases (inodeNumber_root hs).symm.trans hk
        decide
      · cases (inodeNumber_dead hs.wf hl h0).symm.trans hk

/-- The blocks recorded on a directory read as its entries, with the long names cut. -/
theorem directory_held (hs : Sound fs) (hsized : Sized fs g)
    (hheld : DataHeld fs g (dataOrder fs) bytes) (hn : fs.nodes[i]? = some n)
    (hd : n.deleted = false) (hc : n.content = .directory) :
    ∃ m, (finished fs g).nodes[i]? = some m ∧
      countDirBlocks fs.blockSize.bytes ((entriesOf fs.nodes i).map DirEntrySpec.name) 1 0 =
        .ok (m.endBlock - m.startBlock) ∧
      readDirectory bytes fs.blockSize.bytes m.startBlock (m.endBlock - m.startBlock) =
        some ((entriesOf fs.nodes i).map cut) := by
  have hskip := stored_of_content hs hn hd (by rw [hc]; rintro ⟨⟩)
  obtain ⟨hall, hblocks⟩ := Sized.dir hsized hn hskip hc
  have hflat : (dirPacks fs i).flatten = entriesOf fs.nodes i := packBlocks_flatten le_rfl
  have hdata := hheld i (mem_dataOrder.mpr (lt_of_get hn)) n hn hskip
  rw [nodeData, hc] at hdata
  have hplace : (attrNode fs g i (placedNode fs g i n)).startBlock = dataStart fs g i ∧
      (attrNode fs g i (placedNode fs g i n)).endBlock =
        dataStart fs g i + (dirPacks fs i).length := by
    rw [attrNode, placedNode, hskip, place, hc]
    split <;> exact ⟨rfl, rfl⟩
  refine ⟨_, finished_get hn, ?_, ?_⟩
  · have hcount := @countDirBlocks_ok
      ((entriesOf fs.nodes i).map DirEntrySpec.name) fs.blockSize.bytes 1 0 ?_ (by norm_num)
    · rw [nodeBlocks, hc, hcount] at hblocks
      rw [hcount, hplace.1, hplace.2, Nat.add_sub_cancel_left, ← hblocks]
    · intro name hname
      obtain ⟨e, he, rfl⟩ := mem_map.mp hname
      exact hall e he
  · rw [hplace.1, hplace.2, Nat.add_sub_cancel_left, ← hflat]
    have hbs := blockSize_cases fs.blockSize
    refine readDirectory_packs (fun pack hp => ?_) (by omega) (by omega) hdata
    obtain ⟨hne, hsum⟩ := packBlocks_fits hall hp
    refine ⟨hne, hsum, fun e he => ?_⟩
    have hmem : e ∈ entriesOf fs.nodes i := hflat ▸ mem_flatten_of_mem hp he
    simp only [entriesOf, mem_cons, mem_map] at hmem
    rcases hmem with rfl | rfl | ⟨c, -, rfl⟩ <;> exact number_lt hs hsized

/-- With names of at most 255 bytes a directory takes the blocks counted beforehand, and they
read as `.`, `..` and the children by inode number. -/
theorem directories_read_back (h : Reached fs) (hs : prepare { fs, out } = .ok () s)
    (ht : writeDataRegion s = .ok () t) (hn : fs.nodes[i]? = some n) (hd : n.deleted = false)
    (hc : n.content = .directory) (hname : ∀ c ∈ n.children, (nameOf fs.nodes c).length ≤ 255) :
    ∃ m k, t.fs.nodes[i]? = some m ∧ directoryBlockCount s i = .ok (.ok k) ∧
      m.endBlock - m.startBlock = k ∧
      readDirectory t.out.bytes fs.blockSize.bytes m.startBlock k = some (entriesOf fs.nodes i) ∧
      (listing fs.nodes i).Perm (n.children.filter fun c => (inodeNumber fs.nodes c).isSome) ∧
      (listing fs.nodes i).Pairwise fun a b =>
        (inodeNumber fs.nodes a).getD 0 ≤ (inodeNumber fs.nodes b).getD 0 := by
  have hsound := Reached.sound h
  obtain ⟨g, hsized, ⟨o, p, rfl⟩, o', p', rfl, hheld⟩ := written_region hsound hs ht
  obtain ⟨m, hm, hcount, hread⟩ := directory_held hsound hsized hheld hn hd hc
  have hshort : ∀ e ∈ entriesOf fs.nodes i, e.name.length ≤ 255 := by
    intro e he
    simp only [entriesOf, mem_cons, mem_map] at he
    rcases he with rfl | rfl | ⟨c, hmem, rfl⟩
    · change (str ".").length ≤ 255
      decide
    · change (str "..").length ≤ 255
      decide
    · exact hname c (kids_some hn ▸ (mem_listing.mp hmem).1)
  rw [map_congr_left fun e he => cut_eq (hshort e he), map_id'] at hread
  refine ⟨m, _, hm, ?_, rfl, hread, ?_, ?_⟩
  · rw [renders_stage.directoryBlockCount hsound (lt_of_get hn), hcount]
  · rw [listing, kids_some hn]
    exact perm_insertionSort _ _
  · exact pairwise_insertionSort _ _

theorem directories_read_back_sample : ∃ s t m,
    prepare { fs := built sample, out := blankSink } = .ok () s ∧ writeDataRegion s = .ok () t ∧
    t.fs.nodes[2]? = some m ∧
    readDirectory t.out.bytes (built sample).blockSize.bytes m.startBlock 3 =
      some (entriesOf (built sample).nodes 2) := by
  obtain ⟨s, t, hs, ht, -, hcount, -⟩ := sample_region
  have hdir : (built sample).nodes[2]?.any (fun n => n.deleted = false ∧
      n.content = .directory ∧ ∀ c ∈ n.children, (nameOf (built sample).nodes c).length ≤ 255) =
        true := by decide +kernel
  obtain ⟨n, hn, hdir⟩ := (Option.any_eq_true _ _).mp hdir
  obtain ⟨hd, hc, hname⟩ := of_decide_eq_true hdir
  obtain ⟨m, k, hm, hk, -, hread, -⟩ := directories_read_back sample_reached hs ht hn hd hc hname
  cases hcount.symm.trans hk
  exact ⟨s, t, m, hs, ht, hm, hread⟩

/-- The entries of the parent of `i`, as it was written. -/
def parentEntries (t : Finalizer) (i : Nat) : Option (List DirEntrySpec) := do
  let n ← t.fs.nodes[i]?
  let p ← n.parent
  let m ← t.fs.nodes[p]?
  readDirectory t.out.bytes t.fs.blockSize.bytes m.startBlock (m.endBlock - m.startBlock)

/-- There `i` is found with exactly the name `b`. -/
def Stored (t : Finalizer) (i : Nat) (b : Str) : Prop :=
  ∃ es, parentEntries t i = some es ∧ ∃ e ∈ es, e.name = b ∧ some e.inode = (t.inodes[i]?).join

/-- The node has an inode and its parent was not removed. -/
def Listed (s : Finalizer) (i : Nat) : Prop :=
  (s.inodes[i]?).join ≠ none ∧ ∃ p, parentOf s.fs.nodes i = some p ∧ Live s.fs.nodes p

theorem indexed_child (h : WellFormed fs)
    (hp : fs.pathIndex (normalize path) = some i) (hb : (segments path).getLast? = some b) :
    ∃ n p, fs.nodes[i]? = some n ∧ n.deleted = false ∧ n.name = b ∧ n.parent = some p := by
  obtain ⟨⟨n, hn, hd⟩, hkey⟩ := h.index.sound _ _ hp
  rw [normalize_eq_keyOf] at hkey
  have hpath := keyOf_injective (fun _ => segments_segment)
    (fun s hs => (h.shape.path_segments i s hs).1) hkey
  have hi : i ≠ 0 := by
    rintro rfl
    rw [hpath, h.shape.path_root] at hb
    cases hb
  obtain ⟨⟨p, hq, -⟩, -⟩ := h.shape.child i n hn hi
  rw [hpath, h.shape.path_child hn hq, getLast?_append_of_ne_nil _ (by simp)] at hb
  exact ⟨n, p, hn, hd, Option.some.inj hb, hq⟩

/-- The descriptors of the groups fit into the blocks that were set aside for them before the
data region. -/
abbrev HeaderHolds (s : Finalizer) (groups : Nat) : Prop :=
  firstGdtBlockForSize s.fs.blockSize * s.fs.blockSize.bytes + 32 * groups ≤
    s.nextFreeBlock * s.fs.blockSize.bytes

theorem usedBlocks_le (hfit : TablesFit fs g) (hdisk : diskBlocks fs g ≠ 0) :
    usedBlocks fs g ≤ diskBlocks fs g := by
  have hsize := groupBlocks_cases fs
  have hused := hfit.used
  have hplanned := hfit.disk
  unfold diskBlocks at hdisk ⊢
  generalize groupBlocks fs * g = planned at *
  -- rounding up ends at `2 ^ 32` at the latest, and there the disk would be empty
  have hlow := (divCeil_le (n := max (usedBlocks fs g) planned) (d := groupBlocks fs)
    (by omega)).mp le_rfl
  have hhigh := (divCeil_le (n := max (usedBlocks fs g) planned) (d := groupBlocks fs)
    (k := 2 ^ 32 / groupBlocks fs) (by omega)).mpr
  rcases hsize with hsize | hsize | hsize <;> rw [hsize] at hdisk hlow hhigh ⊢ <;> omega

/-- Then what follows the data region leaves it as it is. -/
theorem tail_leaves_data (hfit : TablesFit fs g) (hg : 1 ≤ g)
    (hroom : 32 * diskGroups fs g ≤ gdtRoom fs g)
    (hlow : headerOf fs.blockSize g * fs.blockSize.bytes ≤ k)
    (hhigh : k < tableStart fs g * fs.blockSize.bytes) :
    applyAll img (tailWrites fs g table) k = img k := by
  have hbs := blockSize_cases fs.blockSize
  have hfirst := firstGdt_cases fs.blockSize
  have hstart : firstGdtBlockForSize fs.blockSize * fs.blockSize.bytes + gdtRoom fs g =
      headerOf fs.blockSize g * fs.blockSize.bytes := by
    rw [gdtRoom, ← Nat.add_mul, headerOf]
    congr 1
    omega
  have hgdt : (gdtBytes fs g).length = gdtRoom fs g := by
    rw [gdtBytes, length_append, length_zeros, length_descriptorsBytes]
    omega
  have hbehind {j : Nat} (hj : tableStart fs g ≤ j) : k < j * fs.blockSize.bytes :=
    lt_of_lt_of_le hhigh (Nat.mul_le_mul_right _ hj)
  have hsuper : 2048 ≤ headerOf fs.blockSize g * fs.blockSize.bytes := by
    unfold headerOf firstGdtBlockForSize
    cases fs.blockSize <;> simp [BlockSize.bytes] <;> omega
  refine applyAll_off fun w hw => ?_
  simp only [tailWrites, tableWrites, mem_append, mem_cons, not_mem_nil, or_false] at hw
  rcases hw with ((rfl | rfl | rfl | rfl) | hw) | rfl
  · exact .inl (hbehind le_rfl)
  · exact .inl (hbehind (Nat.le_add_right _ _))
  · exact .inl (hbehind (by unfold inodeBitmapStart blockBitmapStart; omega))
  · exact .inr (by rw [hgdt]; omega)
  · refine .inl ?_
    unfold lastByte at hw
    split at hw
    · cases hw
    · next hdisk =>
      have hused := usedBlocks_le hfit hdisk
      have hblocks : (tableStart fs g + 1) * fs.blockSize.bytes ≤
          diskBlocks fs g * fs.blockSize.bytes := by
        refine Nat.mul_le_mul_right _ (le_trans ?_ hused)
        unfold usedBlocks inodeBitmapStart blockBitmapStart
        omega
      rw [mem_singleton.mp hw]
      rw [Nat.add_mul] at hblocks
      omega
  · refine .inr ?_
    rw [length_superblock]
    unfold superblockOffset
    omega

/-- What the writer leaves behind, with its data region intact. -/
theorem written_image (hs : Sound fs) (hp : prepare { fs, out } = .ok () s)
    (hw : write fs out = .ok () u) (hroom : HeaderHolds s u.blockGroups) : ∃ g table, Sized fs g ∧
      (∃ o p, s = stage fs g fs (blankTable fs) (headerOf fs.blockSize g) o p) ∧
      u = finalStage fs g table u.out u.pos ∧ DataHeld fs g (dataOrder fs) u.out.bytes := by
  have hregion : ∃ t, writeDataRegion s = .ok () t := by
    obtain ⟨_, s₁, h₁, hrest⟩ := bind_eq_ok.mp hw
    obtain ⟨_, s₂, h₂, hrest⟩ := bind_eq_ok.mp hrest
    obtain ⟨_, t, ht, -⟩ := bind_eq_ok.mp hrest
    cases hp.symm.trans ((bind_of_ok h₁).trans h₂)
    exact ⟨t, ht⟩
  obtain ⟨t, ht⟩ := hregion
  obtain ⟨g, hsized, ⟨o, p, rfl⟩, -⟩ := written_region hs hp ht
  obtain ⟨g', hsized', hclean, ⟨base, table', hheld, -, -, himg⟩, table, -, hfinal⟩ :=
    (run_ends hs out).of_ok hw
  obtain rfl := hsized'.unique hsized
  obtain ⟨hdata, -, -, -, hfit⟩ := faults_eq_nil.mp hclean
  have hblocks : 32 * diskGroups fs g' ≤ gdtRoom fs g' := by
    have hgroups : u.blockGroups = diskGroups fs g' := by rw [hfinal]; rfl
    have hroom : firstGdtBlockForSize fs.blockSize * fs.blockSize.bytes + 32 * u.blockGroups ≤
        headerOf fs.blockSize g' * fs.blockSize.bytes := hroom
    rw [hgroups] at hroom
    rw [gdtRoom, Nat.sub_mul]
    omega
  refine ⟨g', table, hsized, ⟨o, p, rfl⟩, hfinal, fun i hi n hn hskip => ?_⟩
  rw [himg]
  refine (hheld i hi n hn hskip).congr fun k hlow hhigh =>
    tail_leaves_data hfit hsized.groups.fit.1 hblocks ?_ ?_
  · exact le_trans (Nat.mul_le_mul_right _ (Nat.le_add_right _ _)) hlow
  · refine lt_of_lt_of_le hhigh ((data_le hsized hdata hn hskip).trans ?_)
    exact Nat.mul_le_mul_right _ (Nat.le_add_right _ _)

theorem parentEntries_eq (h : Reached fs) (hheld : DataHeld fs g (dataOrder fs) o.bytes)
    (hsized : Sized fs g) (hn : fs.nodes[i]? = some n) (hd : n.deleted = false)
    (hparent : n.parent = some p) :
    ∃ m, fs.nodes[p]? = some m ∧ i ∈ kids fs.nodes p ∧
      parentEntries (finalStage fs g table o q) i =
        some (if m.deleted then [] else (entriesOf fs.nodes p).map cut) := by
  have hsound := Reached.sound h
  obtain ⟨m, hm, hkid, hdir, -⟩ := hsound.wf.tree.up i p ⟨n, hn, hd⟩
    ((parentOf_some hn).trans hparent)
  refine ⟨m, hm, kids_some hm ▸ hkid, ?_⟩
  obtain ⟨n', hn', hne⟩ := (@renders_finished fs g o table (tableStart fs g) q).get hn
  have hentries : ∀ {m'}, (finished fs g).nodes[p]? = some m' →
      parentEntries (finalStage fs g table o q) i =
        readDirectory o.bytes fs.blockSize.bytes m'.startBlock (m'.endBlock - m'.startBlock) := by
    intro m' hm'
    have hn' : (finished fs g).nodes[i]? = some n' := hn'
    change (do
      let n ← (finished fs g).nodes[i]?
      let p ← n.parent
      let m ← (finished fs g).nodes[p]?
      readDirectory o.bytes fs.blockSize.bytes m.startBlock (m.endBlock - m.startBlock)) = _
    simp only [hn', Option.bind_eq_bind, Option.bind_some, (unplaced_fields hne).2.1, hparent, hm']
  cases hdel : m.deleted with
  | true =>
    -- nothing is written for a removed root
    have hfresh := (h.pristine hm).1.blocks
    have hm' : (finished fs g).nodes[p]? = some m := by
      rw [finished_get hm, attrNode, holdsAttrs, hm, placedNode]
      simp [hdel, skipped]
    rw [hentries hm', hfresh.1, hfresh.2]
    rfl
  | false =>
    obtain ⟨m', hm', -, hread⟩ := directory_held hsound hsized hheld hm hdel
      ((hsound.wf.shape.kind p m hm).mpr hdir)
    rw [hentries hm']
    exact hread

def longName : Str := List.replicate 256 97

end Ext4Listings
