import Firkin.Ext4BuilderInsert

/-! # Whole runs of builder methods

What each public method does to a well-formed builder, and what therefore holds after
any sequence of calls. A call that returns an error leaves the builder as it was; the
only panic is the overflow of a link count, which ends the run. -/
namespace Ext4BuilderRuns

open Ext4Types Ext4Path Ext4Builder Ext4BuilderInvariant Ext4BuilderDelete Ext4BuilderInsert
open FaultMonad

variable {fs fs' : FileSystemBuilder} {path : Str} {idx : Nat} {n : Node}

section
theorem removePath_absent (h : fs.pathIndex (normalize path) = none) :
    removePath path fs = .ok () fs := by
  rw [removePath, bind_of_ok (run_get fs), h]
  rfl

theorem removePath_present (wf : WellFormed fs) (h : fs.pathIndex (normalize path) = some idx) :
    ∃ fs', removePath path fs = .ok () fs' ∧ Cut fs fs' (Subtree fs.nodes idx) := by
  rw [removePath, bind_of_ok (run_get fs), h]
  exact runDeleteSubtree_unlink wf (wf.index.sound _ _ h).1

theorem clearDir_absent (h : fs.pathIndex (normalize path) = none) :
    clearDir path fs = .ok () fs := by
  rw [clearDir, bind_of_ok (run_get fs), h]
  rfl

theorem clearDir_leaf (h : fs.pathIndex (normalize path) = some idx)
    (hn : fs.nodes[idx]? = some n) (hd : n.mode.isDir = false) :
    clearDir path fs = .error (.err (.pathConflict path)) fs := by
  rw [clearDir, bind_of_ok (run_get fs), h]
  simp only
  rw [bind_of_ok (getNode_ok hn), hd]
  rfl

theorem clearDir_dir (wf : WellFormed fs) (h : fs.pathIndex (normalize path) = some idx)
    (hn : fs.nodes[idx]? = some n) (hd : n.mode.isDir = true) :
    ∃ fs', clearDir path fs = .ok () fs' ∧ Cut fs fs' (Inner fs.nodes idx) := by
  obtain ⟨⟨m, hm, hl⟩, _⟩ := wf.index.sound _ _ h
  cases hn.symm.trans hm
  obtain ⟨fs₂, he, hc⟩ := clearChildren_ok wf hn hl
  have hlt : idx < fs.nodes.length := lt_of_get hn
  have hlt₂ : idx < fs₂.nodes.length := by
    have := hc.static.length
    rw [updateNode_length] at this
    omega
  refine ⟨_, ?_, hc⟩
  rw [clearDir, bind_of_ok (run_get fs), h]
  simp only
  rw [bind_of_ok (getNode_ok hn), if_pos hd, bind_of_ok (modifyNode_ok hlt), bind_of_ok he,
    modifyNode_ok hlt₂]
end

section
variable {perm : UInt16}

theorem addDir_root (h : segments path = []) (habs : fs.pathIndex [] = none) :
    addDir path perm fs = .error (.err (.invalidFilename path)) fs := by
  have hk : normalize path = [] := by rw [normalize_eq_keyOf, h, keyOf_nil]
  rw [addDir, addDirInternal, bind_of_error]
  rw [bind_of_ok (run_get fs), hk, habs]
  simp only
  rw [bind_of_error (ensureParentWith_root h)]

section
variable (h : fs.pathIndex (normalize path) = some idx) (hn : fs.nodes[idx]? = some n)
include h hn

theorem addDir_existing (hd : n.mode.isDir = true) : addDir path perm fs = .ok () fs := by
  rw [addDir, addDirInternal, bind_of_ok (t := fs) (a := idx)]
  · rfl
  · rw [bind_of_ok (run_get fs), h]
    simp only
    rw [bind_of_ok (getNode_ok hn), if_pos hd]
    rfl

theorem addDir_leaf (hd : n.mode.isDir = false) :
    addDir path perm fs = .error (.err (.pathConflict path)) fs := by
  rw [addDir, addDirInternal, bind_of_error]
  rw [bind_of_ok (run_get fs), h]
  simp only
  rw [bind_of_ok (getNode_ok hn), hd]
  rfl
end

theorem addDir_invalid (h : segments path = q ++ [b])
    (hb : invalidBase b = true) (habs : fs.pathIndex (normalize path) = none) :
    addDir path perm fs = .error (.err (.invalidFilename path)) fs := by
  rw [addDir, addDirInternal, bind_of_error]
  rw [bind_of_ok (run_get fs), habs]
  simp only
  rw [bind_of_error (ensureParentWith_invalid h hb)]

/-- The node `add_dir` makes when the path is new. -/
def dirNode (perm : UInt16) (b : Str) (p : Nat) : Node := madeDir p b (FileMode.dir perm) 0 0 0

theorem addDir_absent (perm : UInt16) (wf : WellFormed fs) (h : segments path = q ++ [b])
    (hb : invalidBase b = false) (habs : fs.pathIndex (keyOf (q ++ [b])) = none) :
    ∃ r, DirOutcome fs q (dirNode perm b) r ∧
      addDir path perm fs = match r with
        | .ok _ fs' => .ok () fs'
        | .error e fs' => .error e fs' := by
  have hpar : ParentOutcome fs q (ensureParentWith
      (fun p => addDirInternal (path.length + 1) p (FileMode.dir 0o755) 0 0 0) path fs) :=
    ensureParent_outcome wf h hb
  refine ⟨_, addDirInternal_absent (path.length + 1) wf h hb habs (FileMode.dir perm) (by simp)
    0 0 0 hpar, ?_⟩
  rw [addDir, run_bind]
  cases addDirInternal (path.length + 1 + 1) path (FileMode.dir perm) 0 0 0 fs <;> rfl
end

section
/-- The node `add_leaf_node` makes. -/
def plainNode (content : NodeContent) (mode : FileMode) (p : Nat) (b : Str) : Node :=
  { name := b, parent := some p, content, mode, dirLinkCount := 0 }

/-- The node `add_hardlink` makes for a target of mode `mode`. -/
def linkNode (target : Nat) (mode : FileMode) (p : Nat) (b : Str) : Node :=
  { name := b, parent := some p, content := .hardlink, mode, dirLinkCount := 0
    hardlinkTarget := some target }

theorem leafNode_plain (hd : content ≠ .directory)
    (hh : content ≠ .hardlink) (hm : mode.isDir = false) :
    LeafNode fs (plainNode content mode) where
  hang := fun _ _ => ⟨rfl, rfl, rfl, rfl⟩
  leaf := fun _ _ => ⟨hm, hd⟩
  link := fun _ _ => by simp [plainNode, hh]
  target := fun _ _ t ht => by cases ht

theorem leafNode_hardlink (hn : fs.nodes[target]? = some n) (hm : n.mode.isDir = false) :
    LeafNode fs (linkNode target n.mode) where
  hang := fun _ _ => ⟨rfl, rfl, rfl, rfl⟩
  leaf := fun _ _ => ⟨hm, by simp [linkNode]⟩
  link := fun _ _ => by simp [linkNode]
  target := fun _ _ t ht => by
    cases ht
    exact ⟨n, hn, rfl⟩

theorem addLeafNode_outcome (wf : WellFormed fs) (path : Str)
    (hd : content ≠ .directory) (hh : content ≠ .hardlink)
    (hm : mode.isDir = false) :
    LeafOutcome fs path (plainNode content mode) (addLeafNode path content mode fs) :=
  insertLeaf_outcome wf path hm (leafNode_plain hd hh hm)

theorem addHardlink_absent (h : fs.pathIndex (normalize target) = none) :
    addHardlink link target fs = .error (.err (.invalidHardlinkTarget target)) fs := by
  rw [addHardlink, bind_of_ok (run_get fs), h]
  rfl

theorem addHardlink_dir (h : fs.pathIndex (normalize target) = some idx)
    (hn : fs.nodes[idx]? = some n) (hd : n.mode.isDir = true) :
    addHardlink link target fs = .error (.err (.invalidHardlinkTarget target)) fs := by
  rw [addHardlink, bind_of_ok (run_get fs), h]
  simp only
  rw [bind_of_ok (getNode_ok hn), if_pos hd]
  rfl

theorem addHardlink_outcome (link : Str) (wf : WellFormed fs)
    (h : fs.pathIndex (normalize target) = some idx) (hn : fs.nodes[idx]? = some n)
    (hd : n.mode.isDir = false) :
    LeafOutcome fs link (linkNode idx n.mode) (addHardlink link target fs) := by
  rw [addHardlink, bind_of_ok (run_get fs), h]
  simp only
  rw [bind_of_ok (getNode_ok hn), hd]
  exact insertLeaf_outcome wf link hd (leafNode_hardlink hn hd)
end

def bare (n : Node) : Node :=
  { n with
    xattrs := [], uid := 0, gid := 0, inode := none, startBlock := 0, endBlock := 0
    xattrBlock := none, fileExtents := [], extentLeafBlock := none }

theorem bare_fields (h : bare m = bare n) :
    m.name = n.name ∧ m.parent = n.parent ∧ m.children = n.children ∧ m.content = n.content ∧
      m.mode = n.mode ∧ m.dirLinkCount = n.dirLinkCount ∧ m.hardlinkTarget = n.hardlinkTarget ∧
      m.deleted = n.deleted := by
  simp only [bare, Node.mk.injEq] at h
  tauto

section
variable {nodes nodes' : List Node} (h : ∀ i : Nat, nodes'[i]?.map bare = nodes[i]?.map bare)
include h

theorem bare_some {i : Nat} {n' : Node} (hn : nodes'[i]? = some n') :
    ∃ n, nodes[i]? = some n ∧ bare n' = bare n := by
  have hi := h i
  rw [hn] at hi
  obtain ⟨n, hn, he⟩ := Option.map_eq_some_iff.mp hi.symm
  exact ⟨n, hn, he.symm⟩

theorem bare_parentOf (i : Nat) : parentOf nodes' i = parentOf nodes i := by
  have hp : ∀ l : List Node, parentOf l i = (l[i]?.map bare).bind Node.parent := by
    intro l
    cases hl : l[i]? <;> simp [parentOf, hl, bare]
  rw [hp, hp, h]

theorem bare_pathOf (i : Nat) : pathOf nodes' i = pathOf nodes i := by
  have hn : ∀ (l : List Node) (j : Nat), nameOf l j = ((l[j]?.map bare).map Node.name).getD [] := by
    intro l j
    cases hl : l[j]? <;> simp [nameOf, hl, bare]
  apply ParentForest.path_congr
  intro j _
  exact ⟨bare_parentOf h j, by rw [hn, hn, h]⟩

theorem bare_live (i : Nat) : Live nodes' i ↔ Live nodes i := by
  have hl : ∀ l : List Node, Live l i ↔ ∃ n, l[i]?.map bare = some n ∧ n.deleted = false := by
    intro l
    cases hl : l[i]? <;> simp [Live, hl, bare]
  rw [hl, hl, h]

theorem bare_dirChildren (hn : n'.children = n.children) :
    dirChildren nodes' n' = dirChildren nodes n := by
  have hm : ∀ (l : List Node) (c : Nat), (l[c]?.map fun m => m.mode.isDir).getD false =
      ((l[c]?.map bare).map fun m => m.mode.isDir).getD false := by
    intro l c
    cases hl : l[c]? <;> simp [bare]
  unfold dirChildren
  congr 1
  funext c
  rw [hm, hm, h]

theorem bare_shape (hs : Shape nodes) : Shape nodes' := by
  have hplace : ∀ {m n : Node}, bare m = bare n → SamePlace m n := by
    intro m n he
    obtain ⟨e1, e2, _, e4, e5, _, e7, _⟩ := bare_fields he
    exact ⟨e1, e2, e4, e5, e7⟩
  refine hs.extend (fun i n hn => ?_) fun i m hm => .inl ?_
  · obtain ⟨m, hm, he⟩ := bare_some (fun i => (h i).symm) hn
    exact ⟨m, hm, hplace he.symm⟩
  · obtain ⟨n, hn, he⟩ := bare_some h hm
    exact ⟨n, hn, hplace he⟩

theorem bare_linked (ht : Linked nodes) : Linked nodes' where
  nodup := by
    intro i n' hn'
    obtain ⟨n, hn, he⟩ := bare_some h hn'
    rw [(bare_fields he).2.2.1]
    exact ht.nodup i n hn
  down := by
    intro i n' c hn' hc
    obtain ⟨n, hn, he⟩ := bare_some h hn'
    rw [(bare_fields he).2.2.1] at hc
    rw [bare_live h, bare_parentOf h]
    exact ht.down i n c hn hc
  up := by
    intro c i hl hp
    rw [bare_live h] at hl
    rw [bare_parentOf h] at hp
    obtain ⟨n, hn, hc, hdir, hdel⟩ := ht.up c i hl hp
    obtain ⟨n', hn', he⟩ := bare_some (fun i => (h i).symm) hn
    obtain ⟨_, _, e3, _, e5, _, _, e8⟩ := bare_fields he
    exact ⟨n', hn', e3 ▸ hc, e5 ▸ hdir, e8 ▸ hdel⟩
  links := by
    intro i n' hn' hl hd
    obtain ⟨n, hn, he⟩ := bare_some h hn'
    obtain ⟨_, _, e3, _, e5, e6, _, e8⟩ := bare_fields he
    rw [e6, bare_dirChildren h e3]
    exact ht.links i n hn (e8 ▸ hl) (e5 ▸ hd)
end

theorem bare_wellFormed (wf : WellFormed fs)
    (h : ∀ i : Nat, fs'.nodes[i]?.map bare = fs.nodes[i]?.map bare)
    (hidx : fs'.pathIndex = fs.pathIndex) : WellFormed fs' where
  shape := bare_shape h wf.shape
  index :=
    ⟨fun k i hk => by
      rw [bare_live h, bare_pathOf h]
      exact wf.index.sound k i (hidx ▸ hk),
    fun i hl => by
      rw [bare_live h] at hl
      rw [bare_pathOf h, hidx]
      exact wf.index.complete i hl⟩
  tree := bare_linked h wf.tree

theorem setXattr_absent (h : fs.pathIndex (normalize path) = none) :
    setXattr path name value fs = .error (.err (.pathConflict path)) fs := by
  rw [setXattr, bind_of_ok (run_get fs), h]
  rfl

theorem setXattr_present (wf : WellFormed fs) (h : fs.pathIndex (normalize path) = some idx) :
    setXattr path name value fs =
      .ok () (fs.updateNode idx fun n => { n with xattrs := n.xattrs ++ [⟨name, value⟩] }) := by
  rw [setXattr, bind_of_ok (run_get fs), h]
  exact modifyNode_ok (wf.index.sound _ _ h).1.lt

def Typed (n : Node) : Prop :=
  match n.content with
  | .directory => n.mode.isDir = true
  | .file bytes => (∃ perm, n.mode = FileMode.regular perm) ∧ bytes.length ≤ maxFileSize
  | .symlink target => n.mode = FileMode.symlink 0o777 ∧ target.length ≤ maxSymlinkLen
  | .whiteout => n.mode = FileMode.charDevice 0
  | .hardlink => n.mode.isDir = false

/-- No method fills in what `write` will fill in. -/
structure Fresh (n : Node) : Prop where
  owner : n.uid = 0 ∧ n.gid = 0
  blocks : n.startBlock = 0 ∧ n.endBlock = 0
  unwritten : n.xattrBlock = none ∧ n.fileExtents = [] ∧ n.extentLeafBlock = none
  typed : Typed n

def anchor (n : Node) : Node := { static n with xattrs := [] }

theorem anchor_of_static (h : static m = static n) : anchor m = anchor n := by
  rw [anchor, anchor, h]

theorem anchor_fields (h : anchor m = anchor n) :
    m.name = n.name ∧ m.parent = n.parent ∧ m.content = n.content ∧ m.mode = n.mode ∧
      m.hardlinkTarget = n.hardlinkTarget ∧ m.inode = n.inode := by
  simp only [anchor, Node.mk.injEq] at h
  tauto

theorem fresh_of_anchor (h : anchor m = anchor n) (hf : Fresh n) : Fresh m := by
  simp only [anchor, static, Node.mk.injEq] at h
  obtain ⟨-, -, -, hc, hm, hu, hg, -, -, hs, he, -, -, hx, hx', hl, -⟩ := h
  exact ⟨⟨hu.trans hf.owner.1, hg.trans hf.owner.2⟩, ⟨hs.trans hf.blocks.1, he.trans hf.blocks.2⟩,
    ⟨hx.trans hf.unwritten.1, hx'.trans hf.unwritten.2.1, hl.trans hf.unwritten.2.2⟩,
    by rw [Typed, hc, hm]; exact hf.typed⟩

theorem fresh_madeDir (p : Nat) (b : Str) (perm : UInt16) (ino : Nat) :
    Fresh (madeDir p b (FileMode.dir perm) 0 0 ino) :=
  ⟨⟨rfl, rfl⟩, ⟨rfl, rfl⟩, ⟨rfl, rfl, rfl⟩, FileMode.isDir_dir perm⟩

/-- `n'` is `n` at a later time. -/
def Later (n n' : Node) : Prop :=
  anchor n' = anchor n ∧ n.xattrs <+: n'.xattrs ∧ (n.deleted = true → n'.deleted = true)

theorem Later.trans (h : Later a b) (k : Later b c) : Later a c :=
  ⟨k.1.trans h.1, h.2.1.trans k.2.1, fun hd => k.2.2 (h.2.2 hd)⟩

theorem later_of_static (h : static n' = static n)
    (hd : n.deleted = true → n'.deleted = true) : Later n n' :=
  ⟨anchor_of_static h, by rw [(static_fields h).2.2.2.2.2.1], hd⟩

/-- What a successful call may do to the arena: nodes are only added, marked or given
attributes. -/
structure Evolves (fs fs' : FileSystemBuilder) : Prop where
  wf : WellFormed fs'
  blockSize : fs'.blockSize = fs.blockSize
  old : ∀ (i : Nat) (n : Node), fs.nodes[i]? = some n → ∃ n', fs'.nodes[i]? = some n' ∧ Later n n'
  new : ∀ (i : Nat) (n : Node), fs.nodes.length ≤ i → fs'.nodes[i]? = some n →
    Fresh n ∧ n.inode = none

theorem Evolves.refl (wf : WellFormed fs) : Evolves fs fs :=
  ⟨wf, rfl, fun _ n hn => ⟨n, hn, rfl, List.prefix_rfl, id⟩, fun i _ hi hn => by
    have := lt_of_get hn
    omega⟩

theorem Evolves.length_le (h : Evolves fs fs') : fs.nodes.length ≤ fs'.nodes.length := by
  by_contra hlt
  obtain ⟨n', hn', _⟩ := h.old fs'.nodes.length _ (List.getElem?_eq_getElem (by omega))
  have := lt_of_get hn'
  omega

theorem Evolves.trans (h : Evolves a b) (k : Evolves b c) : Evolves a c where
  wf := k.wf
  blockSize := k.blockSize.trans h.blockSize
  old := by
    intro i n hn
    obtain ⟨n', hn', hl⟩ := h.old i n hn
    obtain ⟨n'', hn'', hl'⟩ := k.old i n' hn'
    exact ⟨n'', hn'', hl.trans hl'⟩
  new := by
    intro i n hi hn
    by_cases hb : b.nodes.length ≤ i
    · exact k.new i n hb hn
    · obtain ⟨m, hm⟩ : ∃ m, b.nodes[i]? = some m := ⟨_, List.getElem?_eq_getElem (by omega)⟩
      obtain ⟨n', hn', hl⟩ := k.old i m hm
      cases hn.symm.trans hn'
      obtain ⟨hf, hino⟩ := h.new i m hi hm
      exact ⟨fresh_of_anchor hl.1 hf, (anchor_fields hl.1).2.2.2.2.2.trans hino⟩

theorem evolves_cut (wf : WellFormed fs) (h : Cut fs fs' S)
    (hclosed : ∀ c i, parentOf fs.nodes c = some i → S i → Live fs.nodes c → S c) :
    Evolves fs fs' where
  wf := h.wellFormed wf hclosed
  blockSize := h.config.1
  old := by
    intro i n hn
    obtain ⟨n', hn', he⟩ := h.static.some hn
    refine ⟨n', hn', later_of_static he fun hd => ?_⟩
    by_cases hs : S i
    · exact (h.inside i n' hs hn').1
    · rw [(h.outside i n n' hs hn hn').1, hd]
  new := by
    intro i n hi hn
    have := lt_of_get hn
    rw [h.static.length] at this
    omega

theorem evolves_grown (wf' : WellFormed fs') (h : Grown fs fs' q) : Evolves fs fs' where
  wf := wf'
  blockSize := h.config.1
  old := by
    intro i n hn
    obtain ⟨n', hn', he, hd⟩ := h.old i n hn
    exact ⟨n', hn', later_of_static he fun hn => hd.trans hn⟩
  new := by
    intro i n hi hn
    obtain ⟨_, ⟨p, b, he⟩, _⟩ := h.new i n hi hn
    exact ⟨fresh_of_anchor (anchor_of_static he) (fresh_madeDir p b 0o755 0),
      (static_fields he).2.2.2.2.2.2⟩

theorem evolves_attach (wf : WellFormed fs) (h : Attachable fs p nd)
    (hf : Fresh nd) (hino : nd.inode = none) : Evolves fs (attach fs p nd) where
  wf := attach_wellFormed h wf
  blockSize := rfl
  old := by
    intro i n hn
    obtain ⟨n', hn', he, hd⟩ := attach_old h hn
    exact ⟨n', hn', later_of_static he fun hn => hd.trans hn⟩
  new := by
    intro i n hi hn
    rcases attach_cases_static h hn with ⟨_, rfl⟩ | ⟨m, hm, _⟩
    · exact ⟨hf, hino⟩
    · have := lt_of_get hm
      omega

def Settled (fs : FileSystemBuilder) : EStateM.Result Fault FileSystemBuilder Unit → Prop
  | .ok _ fs' => Evolves fs fs'
  | .error (.err _) fs' => fs' = fs
  | .error (.panic e) _ => e = .arithmeticOverflow

section
variable (wf : WellFormed fs)
include wf

theorem evolves_vacated (h : Vacated fs fs' q) : Evolves fs fs' := by
  rcases h with ⟨_, rfl⟩ | ⟨idx, n, hk, hn, hd, hc⟩
  · exact .refl wf
  · obtain ⟨⟨m, hm, hl⟩, _⟩ := wf.index.sound _ _ hk
    cases hn.symm.trans hm
    exact evolves_cut wf (hc.congr fun i => (subtree_leaf wf hn hl hd i).symm)
      fun c i => subtree_closed

theorem settled_leaf (h : LeafOutcome fs path node r)
    (hf : ∀ p b, Fresh (node p b) ∧ (node p b).inode = none) : Settled fs r := by
  match r, h with
  | .ok _ _, ⟨q, b, fs₀, fs₁, p, _, _, _, hv, wf₀, hg, wf₁, _, ha, rfl⟩ =>
    exact ((evolves_vacated wf hv).trans (evolves_grown wf₁ hg)).trans
      (evolves_attach wf₁ ha (hf p b).1 (hf p b).2)
  | .error (.err _) _, h => exact h.1
  | .error (.panic _) _, h => exact h

theorem settled_addDir (path : Str) (perm : UInt16) : Settled fs (addDir path perm fs) := by
  cases hk : fs.pathIndex (normalize path) with
  | some idx =>
    obtain ⟨n, hn, _⟩ := (wf.index.sound _ _ hk).1
    cases hd : n.mode.isDir with
    | true => rw [addDir_existing hk hn hd]; exact .refl wf
    | false => rw [addDir_leaf hk hn hd]; exact rfl
  | none =>
    rcases List.eq_nil_or_concat (segments path) with h | ⟨q, b, h⟩
    · rw [addDir_root h (by rwa [normalize_eq_keyOf, h] at hk)]
      exact rfl
    · rw [List.concat_eq_append] at h
      cases hb : invalidBase b with
      | true => rw [addDir_invalid h hb hk]; exact rfl
      | false =>
        rw [normalize_eq_keyOf, h] at hk
        obtain ⟨r, hr, he⟩ := addDir_absent perm wf h hb hk
        rw [he]
        match r, hr with
        | .ok _ _, ⟨fs₁, p, wf₁, hg, _, _, ha, _, rfl⟩ =>
          exact (evolves_grown wf₁ hg).trans (evolves_attach wf₁ ha (fresh_madeDir p b perm 0) rfl)
        | .error (.err _) _, hr => exact hr.1
        | .error (.panic _) _, hr => exact hr

theorem settled_addLeafNode (path : Str) (hd : content ≠ .directory) (hh : content ≠ .hardlink)
    (hm : mode.isDir = false) (ht : ∀ p b, Typed (plainNode content mode p b)) :
    Settled fs (addLeafNode path content mode fs) :=
  settled_leaf wf (addLeafNode_outcome wf path hd hh hm)
    fun p b => ⟨⟨⟨rfl, rfl⟩, ⟨rfl, rfl⟩, ⟨rfl, rfl, rfl⟩, ht p b⟩, rfl⟩

theorem settled_addHardlink (link target : Str) : Settled fs (addHardlink link target fs) := by
  cases hk : fs.pathIndex (normalize target) with
  | none => rw [addHardlink_absent hk]; exact rfl
  | some idx =>
    obtain ⟨n, hn, _⟩ := (wf.index.sound _ _ hk).1
    cases hd : n.mode.isDir with
    | true => rw [addHardlink_dir hk hn hd]; exact rfl
    | false =>
      exact settled_leaf wf (addHardlink_outcome link wf hk hn hd)
        fun _ _ => ⟨⟨⟨rfl, rfl⟩, ⟨rfl, rfl⟩, ⟨rfl, rfl, rfl⟩, hd⟩, rfl⟩

theorem settled_removePath (path : Str) : Settled fs (removePath path fs) := by
  cases hk : fs.pathIndex (normalize path) with
  | none => rw [removePath_absent hk]; exact .refl wf
  | some idx =>
    obtain ⟨fs', he, hc⟩ := removePath_present wf hk
    rw [he]
    exact evolves_cut wf hc fun c i => subtree_closed

theorem settled_clearDir (path : Str) : Settled fs (clearDir path fs) := by
  cases hk : fs.pathIndex (normalize path) with
  | none => rw [clearDir_absent hk]; exact .refl wf
  | some idx =>
    obtain ⟨n, hn, _⟩ := (wf.index.sound _ _ hk).1
    cases hd : n.mode.isDir with
    | false => rw [clearDir_leaf hk hn hd]; exact rfl
    | true =>
      obtain ⟨fs', he, hc⟩ := clearDir_dir wf hk hn hd
      rw [he]
      exact evolves_cut wf hc (inner_closed wf)

theorem settled_setXattr (path name : Str) (value : List UInt8) :
    Settled fs (setXattr path name value fs) := by
  cases hk : fs.pathIndex (normalize path) with
  | none => rw [setXattr_absent hk]; exact rfl
  | some idx =>
    rw [setXattr_present wf hk]
    refine ⟨bare_wellFormed wf (fun i => ?_) rfl, rfl, fun i n hn => ?_, fun i n hi hn => ?_⟩
    · rw [updateNode_get]
      split
      · cases fs.nodes[i]? <;> rfl
      · rfl
    · rw [updateNode_get, hn]
      split
      · exact ⟨_, rfl, rfl, List.prefix_append _ _, id⟩
      · exact ⟨n, rfl, rfl, List.prefix_rfl, id⟩
    · have := lt_of_get hn
      rw [updateNode_length] at this
      omega

/-- One call: it evolves the builder, or fails and leaves it alone, or overflows. -/
theorem settled_run (op : Op) : Settled fs (op.run fs) := by
  cases op with
  | addDir path perm => exact settled_addDir wf path perm
  | addFile path content perm =>
    rw [Op.run, addFile]
    split
    · exact rfl
    · exact settled_addLeafNode wf path (by simp) (by simp) (by simp)
        fun _ _ => ⟨⟨perm, rfl⟩, by omega⟩
  | addSymlink path target =>
    rw [Op.run, addSymlink]
    split
    · exact rfl
    · exact settled_addLeafNode wf path (by simp) (by simp) (by simp) fun _ _ => ⟨rfl, by omega⟩
  | addWhiteout path =>
    rw [Op.run, addWhiteout]
    cases hm : whiteoutMarkerPath path with
    | error e => exact rfl
    | ok marker =>
      exact settled_addLeafNode wf marker (by simp) (by simp) (by simp) fun _ _ => rfl
  | addOpaqueDir path =>
    exact settled_addLeafNode wf _ (by simp) (by simp) (by simp) fun _ _ => ⟨⟨0, rfl⟩, by simp⟩
  | addHardlink link target => exact settled_addHardlink wf link target
  | setXattr path name value => exact settled_setXattr wf path name value
  | removePath path => exact settled_removePath wf path
  | clearDir path => exact settled_clearDir wf path
  | withMinSize | withUuid | withTimestamp =>
    exact ⟨⟨wf.shape, ⟨wf.index.sound, wf.index.complete⟩, wf.tree⟩, rfl,
      (Evolves.refl wf).old, (Evolves.refl wf).new⟩
end

end Ext4BuilderRuns
