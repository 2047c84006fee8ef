import Firkin.Ext4Image

/-! # Whether writing ends in an answer

`write` checks little of what the builder accepted. A symlink target longer than a block,
an attribute name of 256 bytes or an inode past the end of the table is met as an index or
a slice out of range, unless something the writer does report comes first. -/
namespace Ext4Totality

open Ext4Types Ext4Builder Ext4BuilderInvariant Ext4BuilderReachable Ext4Layout Ext4Encoding
  Ext4Finalizer Ext4InodeAllocation Ext4WriterFrame Ext4Sizing Ext4SinkSteps Ext4NodeData
  Ext4DataRegion Ext4InodeTable Ext4Bitmaps Ext4Image FaultMonad

def isPanic : Fault → Bool
  | .panic _ => true
  | .err _ => false

/-- On a sink that works, `write` returns or reports an error, and what it relies on is so. -/
structure Total (fs : FileSystemBuilder) : Prop where
  answers : ∀ out, Reliable out → ∀ φ t, write fs out = .error φ t → isPanic φ = false
  slots : ∀ out, Reliable out → ∀ t, write fs out = .ok () t →
    ∀ ino, some ino ∈ t.inodes → 1 ≤ ino ∧ ino ≤ t.inodeTable.length
  targets : ∀ out, Reliable out → ∀ t, write fs out = .ok () t → ∀ n ∈ t.fs.nodes,
    n.deleted = false → ∀ target, n.content = .symlink target →
      target.length < fastSymlinkMax ∨ target.length ≤ t.fs.blockSize.bytes

/-- The image can be sized, and the first thing the writer stumbles over, if anything, is one
it reports. -/
def Reports (fs : FileSystemBuilder) : Prop :=
  ∃ g, Sized fs g ∧ ∀ φ, (faults fs g).head? = some φ → isPanic φ = false

variable {fs : FileSystemBuilder} {t : Finalizer} {i : Nat} {n : Node} {out : Sink}

theorem number_slot (hs : Sound fs) (hsized : Sized fs g) (hfill : fillFaults fs = [])
    (hi : i < fs.nodes.length) (hk : inodeNumber fs.nodes i = some k) : 1 ≤ k ∧ k ≤ slots fs := by
  by_cases hl : Live fs.nodes i
  · have := number_bounds hs hfill (mem_liveNumbers.mpr ⟨i, hl, hk⟩)
    omega
  · by_cases h0 : i = 0
    · subst h0
      rw [inodeNumber_root hs] at hk
      cases hk
      have := slots_ge hsized.inodes
      unfold rootInode
      omega
    · rw [inodeNumber_dead hs.wf hl h0] at hk
      cases hk

theorem symlink_fits (hdata : dataFaults fs = []) (hs : Sound fs) (hn : fs.nodes[i]? = some n)
    (hd : n.deleted = false) (hc : n.content = .symlink target) :
    target.length ≤ fs.blockSize.bytes := by
  have hskip := stored_of_content hs hn hd (by rw [hc]; rintro ⟨⟩)
  have hclean := List.filterMap_eq_nil_iff.mp hdata i (mem_dataOrder.mpr (lt_of_get hn))
  rw [dataFault_owner hn hskip, nodeFault, hc] at hclean
  by_contra hlong
  have hfault := hclean.symm.trans (if_pos (by omega))
  cases hfault

theorem write_fault (hs : Sound fs) (hout : Reliable out) (h : write fs out = .error φ t) :
    (φ = overflow ∧ ∀ g, ¬ Sized fs g) ∨ ∃ g, Sized fs g ∧ (faults fs g).head? = some φ := by
  rcases (run_ends hs out).of_error h with h | h
  · exact absurd hout h.2
  · exact h

theorem total_of_ok (hs : Sound fs) (h : write fs out = .ok () t) :
    (∀ ino, some ino ∈ t.inodes → 1 ≤ ino ∧ ino ≤ t.inodeTable.length) ∧
    ∀ n ∈ t.fs.nodes, n.deleted = false → ∀ target, n.content = .symlink target →
      target.length ≤ t.fs.blockSize.bytes := by
  obtain ⟨g, hsized, hclean, -, table, hlen, ht⟩ := (run_ends hs out).of_ok h
  obtain ⟨hdata, -, hfill, -⟩ := faults_eq_nil.mp hclean
  have hrend : Renders fs t := by
    rw [ht]
    exact (@renders_tail fs g t.out table t.pos).same rfl rfl
  constructor
  · intro ino hino
    rw [hrend.inodes] at hino
    obtain ⟨i, hi, hk⟩ := List.mem_map.mp hino
    have hbound := number_slot hs hsized hfill (List.mem_range.mp hi) hk
    rw [ht]
    change 1 ≤ ino ∧ ino ≤ table.length
    rwa [hlen]
  · intro m hm hd target hc
    obtain ⟨i, hi⟩ := List.mem_iff_getElem?.mp hm
    have hlt : i < fs.nodes.length := hrend.length ▸ lt_of_get hi
    obtain ⟨m', hm', he⟩ := hrend.get (List.getElem?_eq_getElem hlt)
    cases hi.symm.trans hm'
    obtain ⟨-, -, -, hcon, -, -, -, -, hdel⟩ := unplaced_fields he
    rw [hrend.blockSize]
    exact symlink_fits hdata hs (List.getElem?_eq_getElem hlt) (hdel ▸ hd) (hcon ▸ hc)

def blankSink : Sink := { bytes := fun _ => 0 }

theorem blankSink_reliable : Reliable blankSink := fun _ => rfl

/-- Writing is total exactly for the builders whose first problem the writer reports. -/
theorem write_total_iff (h : Reached fs) : Total fs ↔ Reports fs := by
  have hs := Reached.sound h
  constructor
  · intro htotal
    cases hrun : write fs blankSink with
    | ok a t =>
      obtain ⟨g, hsized, hclean, -⟩ := write_ok hs hrun
      refine ⟨g, hsized, fun φ hφ => ?_⟩
      rw [hclean] at hφ
      cases hφ
    | error φ t =>
      have hanswer := htotal.answers blankSink blankSink_reliable φ t hrun
      rcases write_fault hs blankSink_reliable hrun with ⟨rfl, -⟩ | ⟨g, hsized, hhead⟩
      · cases hanswer
      · refine ⟨g, hsized, fun φ' hφ' => ?_⟩
        cases hhead.symm.trans hφ'
        exact hanswer
  · rintro ⟨g, hsized, hfirst⟩
    refine ⟨fun out hout φ t hrun => ?_, fun out _ t hrun => (total_of_ok hs hrun).1,
      fun out _ t hrun n hn hd target hc => .inr ((total_of_ok hs hrun).2 n hn hd target hc)⟩
    rcases write_fault hs hout hrun with ⟨-, hno⟩ | ⟨g', hsized', hhead⟩
    · exact absurd hsized (hno g)
    · exact hfirst φ (hsized'.unique hsized ▸ hhead)

def built (ops : List Op) : FileSystemBuilder := (runOps ops (.new .k1)).getD (.new .k1)

theorem built_reached (h : (runOps ops (.new .k1)).isSome = true) : Reached (built ops) := by
  obtain ⟨fs, hfs⟩ := Option.isSome_iff_exists.mp h
  exact ⟨.k1, ops, by rw [built, hfs]; rfl⟩

/-- A directory of several blocks with a file, a symlink, a hard link that has an attribute and
files with long names. -/
def sample : List Op :=
  [.addDir (str "/d") 0o755, .addFile (str "/d/f") (List.replicate 1500 7) 0o644,
    .addSymlink (str "/d/l") (str "f"), .addHardlink (str "/d/h") (str "/d/f"),
    .setXattr (str "/d/h") (str "user.a") [1]] ++
  (List.range 9).map fun k =>
    .addFile (str "/d/" ++ List.replicate 200 (UInt8.ofNat (97 + k))) [] 0o644

theorem sample_reached : Reached (built sample) := built_reached (by decide +kernel)

theorem sample_written : ∃ u, write (built sample) blankSink = .ok () u ∧ u.blockGroups = 1 := by
  obtain ⟨u, hu, hgroups⟩ := @endsIn_ok _ _ (·.blockGroups = 1)
    (write (built sample) blankSink) (by decide +kernel)
  exact ⟨u, hu, of_decide_eq_true hgroups⟩

theorem write_total_sample : Total (built sample) := by
  obtain ⟨t, ht, -⟩ := sample_written
  obtain ⟨g, hsized, hclean, -⟩ := write_ok (Reached.sound sample_reached) ht
  refine (write_total_iff sample_reached).mpr ⟨g, hsized, fun φ hφ => ?_⟩
  rw [hclean] at hφ
  cases hφ

/-- A symlink target of 1025 bytes is accepted but does not fit a block of 1024. -/
theorem long_symlink_panics : ∃ fs, Reached fs ∧ ¬ Total fs := by
  let fs := built [.addSymlink (str "/l") (List.replicate 1025 97)]
  obtain ⟨t, ht⟩ := @faultOf_eq_some _ _ _ (write fs blankSink) (.panic .indexOutOfRange)
    (by decide +kernel)
  refine ⟨fs, built_reached (by decide +kernel), fun htotal => ?_⟩
  cases htotal.answers blankSink blankSink_reliable _ t ht

end Ext4Totality
