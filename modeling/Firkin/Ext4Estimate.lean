import Firkin.Ext4Totality

/-! # The estimate and what is written

`estimate_payload_blocks` passes over hard links, while `write_node_xattrs` gives a hard
link with attributes of its own a block like any other node. The two agree exactly as long
as no hard link needs such a block. -/
namespace Ext4Estimate

open Ext4Types Ext4Builder Ext4BuilderInvariant Ext4BuilderReachable Ext4Layout Ext4Encoding
  Ext4Finalizer Ext4InodeAllocation Ext4WriterFrame Ext4Sizing Ext4DataRegion Ext4Bitmaps Ext4Image
  Ext4Totality SerialLayout FaultMonad

/-- Every hard link with an inode keeps its attributes, if it has any, in the inode. -/
def LinksInline (s : Finalizer) : Prop :=
  ∀ (i : Nat) (n : Node), s.fs.nodes[i]? = some n → n.deleted = false → n.hardlinkTarget ≠ none →
    (s.inodes[i]?).join ≠ none → n.xattrs = [] ∨ xattrsFitInline n.xattrs = .ok true

variable {fs : FileSystemBuilder} {i : Nat}

/-- The attribute blocks the estimate leaves out. -/
def linkAttrCost (fs : FileSystemBuilder) (i : Nat) : Nat :=
  if holdsAttrs fs i ∧ targetOf fs.nodes i ≠ none then 1 else 0

theorem attrCost_split (hs : Sound fs) (i : Nat) :
    attrCost fs i = ownAttrCost fs i + linkAttrCost fs i := by
  cases hn : fs.nodes[i]? with
  | none => simp [attrCost, holdsAttrs, ownAttrCost, linkAttrCost, hn]
  | some n =>
    have htarget : targetOf fs.nodes i = n.hardlinkTarget := by simp [targetOf, hn]
    cases hd : n.deleted with
    | true => simp [attrCost, holdsAttrs, ownAttrCost, linkAttrCost, skipped, hn, hd]
    | false =>
      cases ht : n.hardlinkTarget with
      | some l =>
        simp [attrCost, ownAttrCost, linkAttrCost, skipped, hn, ht, htarget]
      | none =>
        obtain ⟨k, hk, _⟩ := owner_number hs ⟨n, hn, hd⟩ (htarget.trans ht)
        simp only [attrCost, holdsAttrs, ownAttrCost, linkAttrCost, skipped, attrBlocks, hn, hd, ht,
          hk, htarget]
        by_cases hx : n.xattrs = [] <;> by_cases hin : attrNeed n.xattrs ≤ inodeInlineXattrSize <;>
          simp [hx, hin]

theorem tableStart_split (hs : Sound fs) : tableStart fs g = headerOf fs.blockSize g + payload fs +
    total (linkAttrCost fs) (List.range fs.nodes.length) := by
  have hattr : total (attrCost fs) (List.range fs.nodes.length) =
      total (ownAttrCost fs) (List.range fs.nodes.length) +
        total (linkAttrCost fs) (List.range fs.nodes.length) := by
    rw [← total_add]
    exact congrArg (total · _) (funext (attrCost_split hs))
  rw [tableStart, dataEnd, total_perm dataOrder_perm, hattr, payload_eq]
  omega

theorem linksInline_iff (hs : Sound fs) : LinksInline (stage fs g fs table next out pos) ↔
    total (linkAttrCost fs) (List.range fs.nodes.length) = 0 := by
  rw [total, List.sum_eq_zero_iff]
  simp only [List.mem_map, List.mem_range, forall_exists_index, and_imp, forall_apply_eq_imp_iff₂,
    LinksInline, Renders.join (@renders_stage fs g out table next pos) hs]
  have hnode : ∀ i n, fs.nodes[i]? = some n → (linkAttrCost fs i = 0 ↔
      (n.deleted = false → n.hardlinkTarget ≠ none → inodeNumber fs.nodes i ≠ none →
        n.xattrs = [] ∨ xattrsFitInline n.xattrs = .ok true)) := by
    intro i n hn
    have hfits : xattrsFitInline n.xattrs = .ok true ↔
        attrNeed n.xattrs ≤ inodeInlineXattrSize := by
      rw [xattrsFitInline_eq]
      unfold inodeInlineXattrSize
      split
      · simp
      · simp
        omega
    rw [hfits]
    simp only [linkAttrCost, holdsAttrs, hn, ne_eq, decide_not, Bool.and_eq_true,
      Bool.not_eq_eq_eq_not, Bool.not_true, Option.isSome_iff_ne_none, decide_eq_false_iff_not,
      decide_eq_true_eq, targetOf, Option.bind_some, ite_eq_right_iff, one_ne_zero, imp_false,
      not_and, Decidable.not_not, and_imp]
    rw [← Nat.not_le]
    tauto
  constructor
  · intro h i hi
    have hn := List.getElem?_eq_getElem hi
    exact (hnode i _ hn).mpr (h i _ hn)
  · intro h i n hn
    exact (hnode i n hn).mp (h i (lt_of_get hn))

theorem diskGroups_planned (hs : Sound fs) (hsized : Sized fs g) (hfit : TablesFit fs g)
    (hlinks : total (linkAttrCost fs) (List.range fs.nodes.length) = 0) : diskGroups fs g = g := by
  have hpos : 0 < groupBlocks fs := by have := groupBlocks_cases fs; omega
  have hg := hsized.groups.fit.1
  have hneed : usedBlocks fs g ≤ groupBlocks fs * g := by
    have := hsized.groups.fit.2.1
    have hstart := @tableStart_split fs g hs
    have hcomm := Nat.mul_comm g (fs.blockSize.bytes * 8)
    have htable := Nat.mul_comm (tableBlocks fs) g
    unfold blocksNeeded at this
    unfold usedBlocks inodeBitmapStart blockBitmapStart groupBlocks
    rw [Nat.mul_add] at this
    omega
  have hdisk : diskBlocks fs g = groupBlocks fs * g := by
    rw [diskBlocks, max_eq_right hneed]
    have hceil : divCeil (groupBlocks fs * g) (groupBlocks fs) = g := by
      apply Nat.le_antisymm
      · rw [divCeil_le hpos, Nat.mul_comm]
      · by_contra hlt
        have := (divCeil_le (n := groupBlocks fs * g) (k := g - 1) hpos).mp (by omega)
        rw [Nat.mul_comm, Nat.mul_le_mul_right_iff hpos] at this
        omega
    rw [hceil, Nat.mul_comm, Nat.mod_eq_of_lt hfit.disk]
  rw [diskGroups, hdisk, Nat.mul_div_cancel_left g hpos, max_eq_left hg]

/-- The estimate is what `write_data_region` takes, and the number of block groups found in the
end is the one everything was placed by, exactly when no hard link gets an attribute block. -/
theorem estimate_exact_iff (h : Reached fs) (out : Sink) {s t : Finalizer}
    (hs : prepare { fs, out } = .ok () s) (ht : writeDataRegion s = .ok () t) :
    (estimatePayloadBlocks s = .ok (t.nextFreeBlock - s.nextFreeBlock) ∧
      ∀ u, write fs out = .ok () u → u.blockGroups = s.blockGroups) ↔ LinksInline s := by
  have hsound := Reached.sound h
  obtain ⟨g, hsized, ⟨o, p, rfl⟩, o', p', rfl, -⟩ := written_region hsound hs ht
  rw [linksInline_iff hsound]
  have hestimate : estimatePayloadBlocks
      (stage fs g fs (blankTable fs) (headerOf fs.blockSize g) o p) = .ok (payload fs) := by
    rcases estimatePayloadBlocks_eq hsound renders_stage rfl with h | h
    · exact h.2.2
    · exact absurd ⟨hsized.attrs, hsized.payload_lt⟩ h.1
  rw [hestimate, Except.ok.injEq]
  change payload fs = tableStart fs g - headerOf fs.blockSize g ∧ _ ↔ _
  rw [tableStart_split hsound]
  refine ⟨fun h => by omega, fun hlinks => ⟨by omega, fun u hu => ?_⟩⟩
  obtain ⟨g', hsized', hclean, -, table, -, hfinal⟩ := (run_ends hsound out).of_ok hu
  obtain rfl := hsized'.unique hsized
  rw [hfinal]
  exact diskGroups_planned hsound hsized (faults_eq_nil.mp hclean).2.2.2.2 hlinks

/-- The sample before its data region and after. -/
theorem sample_region : ∃ s t, prepare { fs := built sample, out := blankSink } = .ok () s ∧
    writeDataRegion s = .ok () t ∧ s.blockGroups = 1 ∧
    directoryBlockCount s 2 = .ok (.ok 3) ∧
    estimatePayloadBlocks s = .ok (t.nextFreeBlock - s.nextFreeBlock) := by
  obtain ⟨s, hs, hcheck⟩ := @endsIn_ok _ _ (fun s => s.blockGroups = 1 ∧
      directoryBlockCount s 2 = .ok (.ok 3) ∧ endsIn (fun t =>
        estimatePayloadBlocks s = .ok (t.nextFreeBlock - s.nextFreeBlock)) (writeDataRegion s))
    (prepare { fs := built sample, out := blankSink }) (by decide +kernel)
  obtain ⟨hgroups, hcount, hregion⟩ := of_decide_eq_true hcheck
  obtain ⟨t, ht, hestimate⟩ := endsIn_ok hregion
  exact ⟨s, t, hs, ht, hgroups, hcount, of_decide_eq_true hestimate⟩

/-- The attribute of the hard link stays in its inode, and the estimate is exact. -/
theorem estimate_exact_sample : ∃ s, prepare { fs := built sample, out := blankSink } = .ok () s ∧
    LinksInline s := by
  obtain ⟨s, t, hs, ht, hgroups, -, hestimate⟩ := sample_region
  obtain ⟨u, hu, hu'⟩ := sample_written
  refine ⟨s, hs, (estimate_exact_iff sample_reached blankSink hs ht).mp ⟨hestimate, fun v hv => ?_⟩⟩
  cases hu.symm.trans hv
  rw [hu', hgroups]

/-- A hard link with a long attribute: one block more is taken than was estimated. -/
theorem link_attributes_uncounted : ∃ fs s t, Reached fs ∧
    prepare { fs, out := blankSink } = .ok () s ∧ writeDataRegion s = .ok () t ∧
    ∃ k, estimatePayloadBlocks s = .ok k ∧ t.nextFreeBlock - s.nextFreeBlock = k + 1 := by
  let fs := built [.addFile (str "/f") [] 0o644, .addHardlink (str "/g") (str "/f"),
    .setXattr (str "/g") (str "user.a") (List.replicate 100 0)]
  obtain ⟨s, hs, hcheck⟩ := @endsIn_ok _ _ (fun s => endsIn (fun t =>
      estimatePayloadBlocks s = .ok (t.nextFreeBlock - s.nextFreeBlock - 1) ∧
      s.nextFreeBlock < t.nextFreeBlock) (writeDataRegion s))
    (prepare { fs, out := blankSink }) (by decide +kernel)
  obtain ⟨t, ht, hcount⟩ := endsIn_ok hcheck
  obtain ⟨hk, hlt⟩ := of_decide_eq_true hcount
  exact ⟨fs, s, t, built_reached (by decide +kernel), hs, ht, _, hk, by omega⟩

end Ext4Estimate
