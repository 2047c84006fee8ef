import Firkin.Ext4InodeAllocation

/-! # What the writer reads of the builder

While `write` runs it only records placements on the nodes. `Renders fs s` says that the
finalizer `s` is at work on the builder `fs`: everything else of the nodes is as `fs` has
it, and the inode numbers are those of `fs`. The listing of a directory depends on
nothing more. -/
namespace Ext4WriterFrame

open Ext4Types Ext4Builder Ext4BuilderInvariant Ext4BuilderRuns Ext4Encoding Ext4Finalizer
open Ext4InodeAllocation FaultMonad

/-- A node without the fields `write` fills in. -/
def unplaced (n : Node) : Node :=
  { n with
    startBlock := 0, endBlock := 0, xattrBlock := none, fileExtents := [], extentLeafBlock := none }

structure Renders (fs : FileSystemBuilder) (s : Finalizer) : Prop where
  config : SameConfig fs s.fs
  keys : s.fs.pathIndex = fs.pathIndex
  nodes : s.fs.nodes.map unplaced = fs.nodes.map unplaced
  inodes : s.inodes = (List.range fs.nodes.length).map (inodeNumber fs.nodes)

variable {fs : FileSystemBuilder} {s : Finalizer} {i : Nat}

theorem Renders.length (h : Renders fs s) : s.fs.nodes.length = fs.nodes.length := by
  simpa using congrArg List.length h.nodes

theorem Renders.blockSize (h : Renders fs s) : s.fs.blockSize = fs.blockSize := h.config.1

theorem Renders.get (h : Renders fs s) (hn : fs.nodes[i]? = some n) :
    ∃ m, s.fs.nodes[i]? = some m ∧ unplaced m = unplaced n := by
  have hi := congrArg (fun l => l[i]?) h.nodes
  simp only [List.getElem?_map, hn] at hi
  exact Option.map_eq_some_iff.mp hi

theorem unplaced_fields (h : unplaced m = unplaced n) :
    m.name = n.name ∧ m.parent = n.parent ∧ m.children = n.children ∧ m.content = n.content ∧
      m.mode = n.mode ∧ m.xattrs = n.xattrs ∧ m.dirLinkCount = n.dirLinkCount ∧
      m.hardlinkTarget = n.hardlinkTarget ∧ m.deleted = n.deleted := by
  simp only [unplaced, Node.mk.injEq] at h
  tauto

theorem Renders.node (h : Renders fs s) (hn : fs.nodes[i]? = some n) :
    ∃ m, node s i = .ok m ∧ unplaced m = unplaced n := by
  obtain ⟨m, hm, he⟩ := h.get hn
  exact ⟨m, index_ok hm, he⟩

theorem Renders.inodeOf (h : Renders fs s) (hi : i < fs.nodes.length) :
    inodeOf s i = .ok (inodeNumber fs.nodes i) := by
  rw [Ext4Finalizer.inodeOf, h.inodes]
  exact index_range_map hi

theorem inodeNumber_out (h : Sound fs) (hi : fs.nodes.length ≤ i) :
    inodeNumber fs.nodes i = none := by
  obtain ⟨r, hr, _⟩ := h.wf.shape.root
  have := lt_of_get hr
  exact inodeNumber_dead h.wf (fun hl => by have := hl.lt; omega) (by omega)

section
variable (h : Renders fs s)
include h

theorem Renders.join (hs : Sound fs) (i : Nat) : (s.inodes[i]?).join = inodeNumber fs.nodes i := by
  rw [h.inodes]
  by_cases hi : i < fs.nodes.length
  · simp [hi]
  · rw [inodeNumber_out hs (by omega)]
    simp [hi]

theorem Renders.update (hfs : t.fs = s.fs.updateNode i f)
    (hino : t.inodes = s.inodes) (hf : ∀ n, unplaced (f n) = unplaced n) : Renders fs t where
  config := by rw [hfs]; exact h.config
  keys := by rw [hfs]; exact h.keys
  nodes := by
    rw [hfs, ← h.nodes]
    apply List.ext_getElem?
    intro k
    simp only [FileSystemBuilder.updateNode, List.getElem?_map]
    by_cases hk : i = k
    · rw [hk, List.getElem?_modify_eq]
      cases s.fs.nodes[k]? with
      | none => rfl
      | some m => exact congrArg some (hf m)
    · rw [List.getElem?_modify_ne _ _ hk]
  inodes := hino.trans h.inodes

theorem Renders.same (hfs : t.fs = s.fs) (hino : t.inodes = s.inodes) : Renders fs t :=
  ⟨hfs ▸ h.config, hfs ▸ h.keys, hfs ▸ h.nodes, hino.trans h.inodes⟩

theorem Renders.bare (i : Nat) : s.fs.nodes[i]?.map bare = fs.nodes[i]?.map bare := by
  have hcomp : ∀ n, Ext4BuilderRuns.bare (unplaced n) = Ext4BuilderRuns.bare n := fun _ => rfl
  have hi := congrArg (fun l => l[i]?.map Ext4BuilderRuns.bare) h.nodes
  simpa only [List.getElem?_map, Option.map_map, Function.comp_def, hcomp] using hi

theorem Renders.wellFormed (wf : WellFormed fs) : WellFormed s.fs :=
  bare_wellFormed wf h.bare h.keys

section
variable (wf : WellFormed fs) (hi : i < fs.nodes.length)
include wf hi

theorem Renders.nodePath : nodePath s.fs.nodes i = nodePath fs.nodes i := by
  by_cases h0 : i = 0
  · subst h0
    rfl
  · rw [(h.wellFormed wf).shape.nodePath_eq h0 (by rw [h.length]; exact hi),
      wf.shape.nodePath_eq h0 hi, bare_pathOf h.bare]

theorem Renders.nodePathOf : nodePathOf s i = .ok ((Ext4Builder.nodePath fs.nodes i).getD []) := by
  obtain ⟨key, hkey, _⟩ := wf.shape.removedKey_eq hi
  rw [Ext4Finalizer.nodePathOf, h.nodePath wf hi, hkey]
  rfl

theorem Renders.askNodePath :
    askNodePath i s = .ok ((Ext4Builder.nodePath fs.nodes i).getD []) s := by
  exact ofExcept_run (h.nodePathOf wf hi)
end

end

def listing (nodes : List Node) (i : Nat) : List Nat :=
  ((kids nodes i).filter fun c => (inodeNumber nodes c).isSome).insertionSort fun a b =>
    (inodeNumber nodes a).getD 0 ≤ (inodeNumber nodes b).getD 0

theorem mem_listing : c ∈ listing nodes i ↔ c ∈ kids nodes i ∧ (inodeNumber nodes c).isSome := by
  rw [listing, (List.perm_insertionSort _ _).mem_iff, List.mem_filter]

theorem Renders.sortedLiveChildren (h : Renders fs s) (hs : Sound fs) (hi : i < fs.nodes.length) :
    Ext4Finalizer.sortedLiveChildren s i = .ok (listing fs.nodes i) := by
  have hn := List.getElem?_eq_getElem hi
  obtain ⟨m, hm, he⟩ := h.node hn
  have hk : m.children = kids fs.nodes i := by
    rw [(unplaced_fields he).2.2.1, kids_some hn]
  have hfilter : ∀ c ∈ kids fs.nodes i, (do
      let n ← Ext4Finalizer.node s c
      let ino ← Ext4Finalizer.inodeOf s c
      pure (!n.deleted && ino.isSome) : Except Fault Bool) =
        .ok (inodeNumber fs.nodes c).isSome := by
    intro c hc
    obtain ⟨n, hn, hd⟩ := (mem_kids hs.wf hc).1
    obtain ⟨k, hk, hke⟩ := h.node hn
    rw [except_bind_ok hk, except_bind_ok (h.inodeOf (lt_of_get hn)),
      (unplaced_fields hke).2.2.2.2.2.2.2.2, hd]
    rfl
  rw [Ext4Finalizer.sortedLiveChildren, except_bind_ok hm, hk, except_bind_ok (filterM_ok hfilter)]
  simp only [h.join hs]
  rfl

/-- The directory entries of a node, `.` and `..` first. -/
def entriesOf (nodes : List Node) (i : Nat) : List DirEntrySpec :=
  let up := ((parentOf nodes i).getD i)
  { inode := (inodeNumber nodes i).getD 0, name := str "."
    fileType := (FileMode.dir 0o755).dirEntryType } ::
  { inode := (inodeNumber nodes up).getD 0, name := str ".."
    fileType := (FileMode.dir 0o755).dirEntryType } ::
  (listing nodes i).map fun c =>
    { inode := (inodeNumber nodes c).getD 0, name := nameOf nodes c
      fileType := ((nodes[c]?.map Node.mode).getD (FileMode.dir 0)).dirEntryType }

theorem names_entriesOf (i : Nat) : (entriesOf nodes i).map DirEntrySpec.name =
    str "." :: str ".." :: (listing nodes i).map (nameOf nodes) := by
  simp [entriesOf]

theorem unwrap_some (h : o = some k) : unwrap o = .ok (o.getD 0) := by
  rw [h]
  rfl

/-- A directory that is written out has an inode, and so has its parent. -/
theorem parent_number (h : Sound fs) (hl : Live fs.nodes i) :
    ∃ k, inodeNumber fs.nodes ((parentOf fs.nodes i).getD i) = some k := by
  by_cases hi : i = 0
  · subst hi
    rw [h.wf.shape.parent_root]
    exact ⟨_, inodeNumber_root h⟩
  obtain ⟨n, hn, hd⟩ := hl
  obtain ⟨⟨p, hp, _⟩, _⟩ := h.wf.shape.child i n hn hi
  rw [parentOf_some hn, hp]
  by_cases hp0 : p = 0
  · exact ⟨_, hp0 ▸ inodeNumber_root h⟩
  · obtain ⟨m, hm, _, hdir, hdel⟩ := h.wf.tree.up i p ⟨n, hn, hd⟩ ((parentOf_some hn).trans hp)
    obtain ⟨k, hk, _⟩ := owner_number h ⟨m, hm, hdel.resolve_right hp0⟩ (targetOf_dir h.wf hm hdir)
    exact ⟨k, hk⟩

theorem Renders.dirEntries (h : Renders fs s) (hs : Sound fs) (hl : Live fs.nodes i)
    (hk : inodeNumber fs.nodes i = some k) :
    Ext4Finalizer.dirEntries s i = .ok (entriesOf fs.nodes i) := by
  obtain ⟨n, hn, hd⟩ := hl
  have hi := lt_of_get hn
  obtain ⟨m, hm, he⟩ := h.node hn
  obtain ⟨u, hu⟩ := parent_number hs ⟨n, hn, hd⟩
  have hup : m.parent.getD i = (parentOf fs.nodes i).getD i := by
    rw [(unplaced_fields he).2.1, parentOf_some hn]
  have hupi : (parentOf fs.nodes i).getD i < fs.nodes.length := by
    cases hp : parentOf fs.nodes i with
    | none => exact hi
    | some p =>
      have := hs.wf.shape.ordered i p hp
      simp only [Option.getD_some]
      omega
  have hmap : ∀ c ∈ listing fs.nodes i, (do
      let inode ← unwrap (← Ext4Finalizer.inodeOf s c)
      let c ← Ext4Finalizer.node s c
      pure { inode, name := c.name, fileType := c.mode.dirEntryType : DirEntrySpec } :
        Except Fault DirEntrySpec) =
      .ok { inode := (inodeNumber fs.nodes c).getD 0, name := nameOf fs.nodes c
            fileType := ((fs.nodes[c]?.map Node.mode).getD (FileMode.dir 0)).dirEntryType } := by
    intro c hc
    obtain ⟨hkid, hsome⟩ := mem_listing.mp hc
    obtain ⟨j, hj⟩ := Option.isSome_iff_exists.mp hsome
    obtain ⟨d, hdn, _⟩ := (mem_kids hs.wf hkid).1
    obtain ⟨e, hen, hee⟩ := h.node hdn
    obtain ⟨e1, _, _, _, e5, _⟩ := unplaced_fields hee
    rw [except_bind_ok (h.inodeOf (lt_of_get hdn)), except_bind_ok (unwrap_some hj),
      except_bind_ok hen, nameOf_some hdn, hdn, e1, e5]
    rfl
  rw [Ext4Finalizer.dirEntries, except_bind_ok (h.inodeOf hi), except_bind_ok (unwrap_some hk),
    except_bind_ok hm, hup, except_bind_ok (h.inodeOf hupi), except_bind_ok (unwrap_some hu),
    except_bind_ok (h.sortedLiveChildren hs hi), except_bind_ok (mapM_ok hmap)]
  rfl

theorem Renders.directoryBlockCount (h : Renders fs s) (hs : Sound fs)
    (hi : i < fs.nodes.length) : directoryBlockCount s i =
      .ok (countDirBlocks fs.blockSize.bytes ((entriesOf fs.nodes i).map DirEntrySpec.name)
        1 0) := by
  have hmap : ∀ c ∈ listing fs.nodes i, (do
      let n ← Ext4Finalizer.node s c
      pure n.name : Except Fault Str) = .ok (nameOf fs.nodes c) := by
    intro c hc
    obtain ⟨d, hdn, _⟩ := (mem_kids hs.wf (mem_listing.mp hc).1).1
    obtain ⟨e, hen, hee⟩ := h.node hdn
    rw [except_bind_ok hen, nameOf_some hdn, (unplaced_fields hee).1]
    rfl
  rw [Ext4Finalizer.directoryBlockCount, except_bind_ok (h.sortedLiveChildren hs hi),
    except_bind_ok (mapM_ok hmap), h.blockSize, names_entriesOf]
  rfl

end Ext4WriterFrame
