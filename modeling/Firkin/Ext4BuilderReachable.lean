import Firkin.Ext4BuilderTree

/-! # Reachable builders

Any sequence of method calls, failed ones included, is a run of the tree operations.
What holds of the fresh builder and is kept by one call holds of every reachable one. -/
namespace Ext4BuilderReachable

open Ext4Types Ext4Path Ext4Builder Ext4BuilderInvariant Ext4BuilderDelete Ext4BuilderInsert
open FileSystemBuilder Ext4BuilderRuns Ext4BuilderTree PathTree FaultMonad

/-- The tree operation of a method; `id` names the inode a new leaf gets. -/
def treeOp {ι : Type} (id : ι) : Op → FsTree ι → Option (FsTree ι)
  | .addDir path perm, T => PathTree.addDir parentMode (segments path) (FileMode.dir perm) T
  | .addFile path content perm, T =>
    addLeaf parentMode (segments path) ⟨id, FileMode.regular perm, some (.file content)⟩ T
  | .addSymlink path target, T =>
    addLeaf parentMode (segments path) ⟨id, FileMode.symlink 0o777, some (.symlink target)⟩ T
  | .addWhiteout path, T =>
    match whiteoutMarkerPath path with
    | .ok marker =>
      addLeaf parentMode (segments marker) ⟨id, FileMode.charDevice 0, some .whiteout⟩ T
    | .error _ => none
  | .addOpaqueDir path, T =>
    addLeaf parentMode (segments (opaqueDirMarkerPath path))
      ⟨id, FileMode.regular 0, some (.file [])⟩ T
  | .addHardlink link target, T => addLink parentMode (segments link) (segments target) T
  | .removePath path, T => some (remove (segments path) T)
  | .clearDir path, T => clear (segments path) T
  | .setXattr _ _ _, T => some T
  | .withMinSize _, T => some T
  | .withUuid _, T => some T
  | .withTimestamp _, T => some T

variable {fs fs' : FileSystemBuilder}

theorem removePath_refines (wf : WellFormed fs) (h : removePath path fs = .ok () fs') :
    treeOf fs' = remove (segments path) (treeOf fs) := by
  have hsegs : ∀ s ∈ segments path, Segment s := fun s hs => segments_segment hs
  cases hk : fs.pathIndex (Ext4Path.normalize path) with
  | none =>
    rw [removePath_absent hk] at h
    cases h
    rw [normalize_eq_keyOf, ← lookup_of_segments hsegs] at hk
    funext r
    rw [remove, if_neg]
    rintro ⟨hne, _⟩
    exact hne (by rw [treeOf, hk, Option.bind_none])
  | some idx =>
    obtain ⟨fs₁, he, hc⟩ := removePath_present wf hk
    cases h.symm.trans he
    rw [normalize_eq_keyOf, ← lookup_of_segments hsegs] at hk
    exact treeOf_remove wf hk hc

theorem clearDir_refines (wf : WellFormed fs) (h : clearDir path fs = .ok () fs') :
    clear (segments path) (treeOf fs) = some (treeOf fs') := by
  have hsegs : ∀ s ∈ segments path, Segment s := fun s hs => segments_segment hs
  cases hk : fs.pathIndex (Ext4Path.normalize path) with
  | none =>
    rw [clearDir_absent hk] at h
    cases h
    rw [normalize_eq_keyOf, ← lookup_of_segments hsegs] at hk
    rw [clear, treeOf, hk, Option.bind_none]
  | some idx =>
    obtain ⟨n, hn, _⟩ := (wf.index.sound _ _ hk).1
    cases hd : n.mode.isDir with
    | false => rw [clearDir_leaf hk hn hd] at h; cases h
    | true =>
      obtain ⟨fs₁, he, hc⟩ := clearDir_dir wf hk hn hd
      cases h.symm.trans he
      rw [normalize_eq_keyOf, ← lookup_of_segments hsegs] at hk
      exact treeOf_clear wf hk hn hd hc

theorem setXattr_refines (wf : WellFormed fs)
    (h : setXattr path name value fs = .ok () fs') : treeOf fs' = treeOf fs := by
  cases hk : fs.pathIndex (Ext4Path.normalize path) with
  | none => rw [setXattr_absent hk] at h; cases h
  | some idx =>
    rw [setXattr_present wf hk] at h
    cases h
    funext r
    refine treeOf_of_lookup (fun i hi => ⟨hi, entryOf_congr wf.shape fun j _ => ?_⟩) id
    rw [updateNode_get]
    split
    · cases fs.nodes[j]? <;> rfl
    · rfl

def MakesInode : Op → Prop
  | .addFile _ _ _ | .addSymlink _ _ | .addWhiteout _ | .addOpaqueDir _ => True
  | _ => False

/-- Every successful call is its tree operation; a new inode is the last node. -/
theorem run_refines (wf : WellFormed fs) (h : op.run fs = .ok () fs') :
    treeOp (fs'.nodes.length - 1) op (treeOf fs) = some (treeOf fs') ∧
      (MakesInode op → fs.nodes.length < fs'.nodes.length) := by
  cases op with
  | addDir path perm => exact ⟨addDir_refines wf h, False.elim⟩
  | addFile path content perm =>
    rw [Op.run, addFile] at h
    split at h
    · cases h
    · have := addLeafNode_refines wf (by simp) (by simp) (by simp) h
      exact ⟨this.1, fun _ => this.2⟩
  | addSymlink path target =>
    rw [Op.run, addSymlink] at h
    split at h
    · cases h
    · have := addLeafNode_refines wf (by simp) (by simp) (by simp) h
      exact ⟨this.1, fun _ => this.2⟩
  | addWhiteout path =>
    rw [Op.run, addWhiteout] at h
    cases hm : whiteoutMarkerPath path with
    | error e => rw [hm] at h; cases h
    | ok marker =>
      rw [hm] at h
      have := addLeafNode_refines wf (by simp) (by simp) (by simp) h
      exact ⟨by rw [treeOp, hm]; exact this.1, fun _ => this.2⟩
  | addOpaqueDir path =>
    have := addLeafNode_refines wf (by simp) (by simp) (by simp) h
    exact ⟨this.1, fun _ => this.2⟩
  | addHardlink link target => exact ⟨addHardlink_refines wf h, False.elim⟩
  | setXattr path name value => exact ⟨by rw [treeOp, setXattr_refines wf h], False.elim⟩
  | removePath path => exact ⟨by rw [treeOp, removePath_refines wf h], False.elim⟩
  | clearDir path => exact ⟨clearDir_refines wf h, False.elim⟩
  | withMinSize | withUuid | withTimestamp => cases h; exact ⟨rfl, False.elim⟩

def afterCall : EStateM.Result Fault FileSystemBuilder Unit → Option FileSystemBuilder
  | .ok _ fs => some fs
  | .error (.err _) fs => some fs
  | .error (.panic _) _ => none

def runOps : List Op → FileSystemBuilder → Option FileSystemBuilder
  | [], fs => some fs
  | op :: ops, fs => (afterCall (op.run fs)).bind (runOps ops)

/-- An invariant of single successful calls is one of runs: failed calls change nothing. -/
theorem runOps_induction (P : FileSystemBuilder → Prop) (ok : Op → Prop)
    (hstep : ∀ fs op fs', WellFormed fs → P fs → ok op → op.run fs = .ok () fs' → P fs')
    (hops : ∀ op ∈ ops, ok op) (wf : WellFormed fs) (hP : P fs)
    (h : runOps ops fs = some fs') : WellFormed fs' ∧ P fs' := by
  induction ops generalizing fs with
  | nil => cases h; exact ⟨wf, hP⟩
  | cons op ops ih =>
    have hset := settled_run wf op
    simp only [runOps] at h
    cases hr : op.run fs with
    | ok u fs₁ =>
      rw [hr] at h hset
      exact ih (fun o ho => hops o (List.mem_cons_of_mem _ ho)) hset.wf
        (hstep fs op fs₁ wf hP (hops op List.mem_cons_self) hr) h
    | error e fs₁ =>
      rw [hr] at h hset
      match e, hset with
      | .err _, hset =>
        obtain rfl : fs₁ = fs := hset
        exact ih (fun o ho => hops o (List.mem_cons_of_mem _ ho)) wf hP h
      | .panic _, _ => cases h

theorem runOps_evolves (wf : WellFormed fs) (h : runOps ops fs = some fs') : Evolves fs fs' := by
  refine (runOps_induction (Evolves fs) (fun _ => True) ?_ (by simp) wf (.refl wf) h).2
  intro fs₁ op fs₂ wf₁ hP _ hr
  have := settled_run wf₁ op
  rw [hr] at this
  exact hP.trans this

def lostFoundNode : Node :=
  madeDir 0 (str "lost+found") (FileMode.dir 0o700) 0 0 lostFoundInode

theorem new_nodes : (new bs).nodes =
    [{ rootNode with children := [1], dirLinkCount := 3 }, lostFoundNode] := rfl

theorem rootOnly_wellFormed (bs : BlockSize) : WellFormed (rootOnly bs) := by
  have hget : ∀ (i : Nat) (n : Node), (rootOnly bs).nodes[i]? = some n → i = 0 ∧ n = rootNode := by
    intro i n hn
    cases i with
    | zero => exact ⟨rfl, (Option.some.inj hn).symm⟩
    | succ i => cases hn
  have hlive : ∀ i, Live (rootOnly bs).nodes i ↔ i = 0 := by
    intro i
    constructor
    · rintro ⟨n, hn, _⟩
      exact (hget i n hn).1
    · rintro rfl
      exact ⟨rootNode, rfl, rfl⟩
  have hshape : Shape (rootOnly bs).nodes :=
    ⟨⟨rootNode, rfl, rfl, rfl, FileMode.isDir_dir _⟩,
      fun i n hn hi => absurd (hget i n hn).1 hi,
      fun i n hn => by obtain ⟨_, rfl⟩ := hget i n hn; simp [rootNode],
      fun i n hn => by obtain ⟨_, rfl⟩ := hget i n hn; simp [rootNode],
      fun i n t hn ht => by obtain ⟨_, rfl⟩ := hget i n hn; cases ht⟩
  refine ⟨hshape, ⟨fun k i hk => ?_, fun i hi => ?_⟩, ⟨fun i n hn => ?_, fun i n c hn hc => ?_,
    fun c i hl hp => ?_, fun i n hn _ _ => ?_⟩⟩
  · simp only [rootOnly] at hk
    split at hk
    · next hnil =>
      cases hk
      exact ⟨(hlive 0).mpr rfl, by rw [hshape.path_root, hnil, keyOf_nil]⟩
    · cases hk
  · obtain rfl := (hlive i).mp hi
    rw [hshape.path_root]
    rfl
  · obtain ⟨_, rfl⟩ := hget i n hn
    simp [rootNode]
  · obtain ⟨_, rfl⟩ := hget i n hn
    cases hc
  · obtain rfl := (hlive c).mp hl
    cases hp
  · obtain ⟨_, rfl⟩ := hget i n hn
    rfl

theorem lostFound_attachable (bs : BlockSize) : Attachable (rootOnly bs) 0 lostFoundNode :=
  madeDir_attachable (isParent_root (rootOnly_wellFormed bs).shape)
    ⟨⟨by decide, by decide⟩, by decide⟩ rfl _ (FileMode.isDir_dir _) 0 0 lostFoundInode

theorem new_eq_attach : new bs = attach (rootOnly bs) 0 lostFoundNode := by
  rw [attach, (rootOnly_wellFormed bs).shape.path_root]
  rfl

theorem new_wellFormed (bs : BlockSize) : WellFormed (new bs) := by
  rw [new_eq_attach]
  exact attach_wellFormed (lostFound_attachable bs) (rootOnly_wellFormed bs)

/-- `Reached fs`: some sequence of calls on a fresh builder leads to `fs`. -/
def Reached (fs : FileSystemBuilder) : Prop :=
  ∃ bs ops, runOps ops (FileSystemBuilder.new bs) = some fs

theorem Reached.evolves (h : Reached fs) : Evolves (new fs.blockSize) fs := by
  obtain ⟨bs, ops, hrun⟩ := h
  have he := runOps_evolves (new_wellFormed bs) hrun
  have hbs : fs.blockSize = bs := he.blockSize
  rw [hbs]
  exact he

theorem Reached.wellFormed (h : Reached fs) : WellFormed fs := h.evolves.wf

theorem Reached.pristine (h : Reached fs) (hn : fs.nodes[i]? = some n) :
    Fresh n ∧ n.inode = if i = 1 then some lostFoundInode else none := by
  have he := h.evolves
  have hlen : (new fs.blockSize).nodes.length = 2 := by rw [new_nodes]; rfl
  by_cases hi : 2 ≤ i
  · rw [if_neg (by omega)]
    exact he.new i n (by omega) hn
  · obtain ⟨m, hm⟩ : ∃ m, (new fs.blockSize).nodes[i]? = some m :=
      ⟨_, List.getElem?_eq_getElem (by omega)⟩
    obtain ⟨n', hn', hl⟩ := he.old i m hm
    cases hn.symm.trans hn'
    rw [new_nodes] at hm
    have hino := (anchor_fields hl.1).2.2.2.2.2
    obtain rfl | rfl : i = 0 ∨ i = 1 := by omega
    · cases hm
      exact ⟨fresh_of_anchor hl.1 ⟨⟨rfl, rfl⟩, ⟨rfl, rfl⟩, ⟨rfl, rfl, rfl⟩, FileMode.isDir_dir _⟩,
        hino⟩
    · cases hm
      exact ⟨fresh_of_anchor hl.1 (fresh_madeDir 0 _ 0o700 lostFoundInode), hino⟩

def KeepsRoot : Op → Prop
  | .removePath path => segments path ≠ []
  | _ => True

theorem addLeaf_root {p : List Str} {a : Leaf Nat}
    (h : addLeaf parentMode p a T = some T') (hr : T [] ≠ none) : T' [] ≠ none := by
  obtain ⟨_, _, _, rfl⟩ := addLeaf_eq h
  exact plant_ne_none hr

theorem treeOp_root {id : Nat} (hop : KeepsRoot op)
    (h : treeOp id op T = some T') (hr : T [] ≠ none) : T' [] ≠ none := by
  cases op with
  | addDir path perm =>
    rcases addDir_cases h with ⟨_, rfl⟩ | ⟨_, _, _, rfl⟩
    · exact hr
    · exact plant_ne_none hr
  | addFile | addSymlink => exact addLeaf_root h hr
  | addWhiteout path =>
    rw [treeOp] at h
    split at h
    · exact addLeaf_root h hr
    · cases h
  | addOpaqueDir path => exact addLeaf_root h hr
  | addHardlink link target =>
    obtain ⟨a, _, ha⟩ := addLink_eq h
    exact addLeaf_root ha hr
  | removePath path =>
    cases h
    rw [remove_off]
    · exact hr
    · exact fun hpre => hop (List.prefix_nil.mp hpre)
  | clearDir path =>
    rcases clear_cases h with ⟨_, rfl⟩ | ⟨_, rfl⟩
    · exact hr
    · rw [hollow, if_neg]
      · exact hr
      · exact fun hc => hc.2 (List.prefix_nil.mp hc.1).symm
  | setXattr | withMinSize | withUuid | withTimestamp => cases h; exact hr

theorem root_live_iff (wf : WellFormed fs) : treeOf fs [] ≠ none ↔ Live fs.nodes 0 := by
  rw [Ne, treeOf_eq_none wf]
  constructor
  · intro h
    by_contra hl
    refine h fun i hi hp => hl ?_
    exact path_eq_nil wf.shape hi.lt hp ▸ hi
  · exact fun hl h => h 0 hl wf.shape.path_root

theorem runOps_root (hops : ∀ op ∈ ops, KeepsRoot op)
    (h : runOps ops (new bs) = some fs) : Live fs.nodes 0 := by
  have hnew : Live (new bs).nodes 0 := ⟨_, rfl, rfl⟩
  refine (runOps_induction (fun fs => Live fs.nodes 0) KeepsRoot ?_ hops
    (new_wellFormed bs) hnew h).2
  intro fs₁ op fs₂ wf hl hop hr
  have hset := settled_run wf op
  rw [hr] at hset
  exact (root_live_iff hset.wf).mp
    (treeOp_root hop (run_refines wf hr).1 ((root_live_iff wf).mpr hl))

def liveChildDirs (nodes : List Node) (i : Nat) : Nat :=
  (List.range nodes.length).countP fun c =>
    match nodes[c]? with
    | some m => !m.deleted && m.mode.isDir && m.parent == some i
    | none => false

structure Represented (fs : FileSystemBuilder) : Prop where
  root : fs.pathIndex [] = some 0
  key_live : ∀ k i, fs.pathIndex k = some i → Live fs.nodes i
  live_key : ∀ i, Live fs.nodes i → ∃! k, fs.pathIndex k = some i
  key_path : ∀ k i, fs.pathIndex k = some i →
    nodePath fs.nodes i = some (if k = [] then str "/" else k)
  one_parent : ∀ (i : Nat) (n : Node), fs.nodes[i]? = some n → n.deleted = false → i ≠ 0 →
    ∃ (p : Nat) (m : Node), n.parent = some p ∧ fs.nodes[p]? = some m ∧ m.deleted = false ∧
      m.mode.isDir = true ∧ m.children.count i = 1 ∧
      ∀ (p' : Nat) (m' : Node), fs.nodes[p']? = some m' → m'.deleted = false →
        i ∈ m'.children → p' = p
  live_children : ∀ (i : Nat) (n : Node), fs.nodes[i]? = some n → n.deleted = false →
    ∀ c ∈ n.children, Live fs.nodes c
  sibling_names : ∀ (i : Nat) (n : Node), fs.nodes[i]? = some n → n.deleted = false →
    (n.children.map (nameOf fs.nodes)).Nodup
  link_count : ∀ (i : Nat) (n : Node), fs.nodes[i]? = some n → n.deleted = false →
    n.mode.isDir = true → n.dirLinkCount = 2 + liveChildDirs fs.nodes i

variable {i : Nat} {n : Node}

theorem dirChildren_eq (wf : WellFormed fs) (hn : fs.nodes[i]? = some n) :
    dirChildren fs.nodes n = liveChildDirs fs.nodes i := by
  rw [dirChildren, liveChildDirs, List.countP_eq_length_filter, List.countP_eq_length_filter]
  refine List.Perm.length_eq ((List.perm_ext_iff_of_nodup ?_ ?_).mpr fun c => ?_)
  · exact (wf.tree.nodup i n hn).filter _
  · exact List.nodup_range.filter _
  · rw [List.mem_filter, List.mem_filter, List.mem_range]
    constructor
    · rintro ⟨hc, hd⟩
      obtain ⟨⟨m, hm, hl⟩, hp⟩ := wf.tree.down i n c hn hc
      rw [parentOf_some hm] at hp
      simp only [hm, Option.map_some, Option.getD_some] at hd
      exact ⟨lt_of_get hm, by simp [hm, hl, hd, hp]⟩
    · rintro ⟨hlt, hc⟩
      have hm := List.getElem?_eq_getElem hlt
      simp only [hm, Bool.and_eq_true, Bool.not_eq_true', beq_iff_eq] at hc
      obtain ⟨⟨hl, hd⟩, hp⟩ := hc
      obtain ⟨n', hn', hmem, _⟩ := wf.tree.up c i ⟨_, hm, hl⟩ ((parentOf_some hm).trans hp)
      cases hn.symm.trans hn'
      exact ⟨hmem, by simp [hm, hd]⟩

theorem child_names_nodup (wf : WellFormed fs) (hn : fs.nodes[i]? = some n) :
    (n.children.map (nameOf fs.nodes)).Nodup := by
  refine (List.nodup_map_iff_inj_on (wf.tree.nodup i n hn)).mpr fun c hc d hd he => ?_
  obtain ⟨hlc, hpc⟩ := wf.tree.down i n c hn hc
  obtain ⟨hld, hpd⟩ := wf.tree.down i n d hn hd
  obtain ⟨m, hm, _⟩ := hlc
  obtain ⟨k, hk, _⟩ := hld
  rw [parentOf_some hm] at hpc
  rw [parentOf_some hk] at hpd
  have hpath : pathOf fs.nodes c = pathOf fs.nodes d := by
    rw [wf.shape.path_child hm hpc, wf.shape.path_child hk hpd, ← nameOf_some hm, ← nameOf_some hk,
      he]
  have h1 := wf.index.complete c (wf.tree.down i n c hn hc).1
  have h2 := wf.index.complete d (wf.tree.down i n d hn hd).1
  rw [hpath, h2] at h1
  exact (Option.some.inj h1).symm

theorem represented_of_wellFormed (wf : WellFormed fs) (hroot : Live fs.nodes 0) :
    Represented fs where
  root := by
    have := wf.index.complete 0 hroot
    rwa [wf.shape.path_root] at this
  key_live := fun k i hk => (wf.index.sound k i hk).1
  live_key := fun i hl => ⟨_, wf.index.complete i hl, fun k hk => (wf.index.sound k i hk).2⟩
  key_path := by
    intro k i hk
    obtain ⟨hl, rfl⟩ := wf.index.sound k i hk
    by_cases hi : i = 0
    · subst hi
      simp [wf.shape.path_root, nodePath]
    · rw [wf.shape.nodePath_eq hi hl.lt, if_neg]
      rw [keyOf_eq_nil]
      exact wf.shape.path_ne_nil hi hl.lt
  one_parent := by
    intro i n hn hl hi
    obtain ⟨⟨p, hp, _⟩, _⟩ := wf.shape.child i n hn hi
    obtain ⟨m, hm, hmem, hdir, hdel⟩ := wf.tree.up i p ⟨n, hn, hl⟩ ((parentOf_some hn).trans hp)
    refine ⟨p, m, hp, hm, ?_, hdir, List.count_eq_one_of_mem (wf.tree.nodup p m hm) hmem, ?_⟩
    · rcases hdel with hdel | rfl
      · exact hdel
      · obtain ⟨r, hr, hrd⟩ := hroot
        cases hm.symm.trans hr
        exact hrd
    · intro p' m' hm' _ hmem'
      have := (wf.tree.down p' m' i hm' hmem').2
      rw [parentOf_some hn, hp] at this
      exact (Option.some.inj this).symm
  live_children := fun i n hn _ c hc => (wf.tree.down i n c hn hc).1
  sibling_names := fun _ _ hn _ => child_names_nodup wf hn
  link_count := by
    intro i n hn hl hd
    rw [wf.tree.links i n hn hl hd, dirChildren_eq wf hn]

/-- After any calls that never remove the root, the three structures agree. -/
theorem run_represents (bs : BlockSize) (ops : List Op) (fs : FileSystemBuilder)
    (hops : ∀ op ∈ ops, KeepsRoot op) (h : runOps ops (FileSystemBuilder.new bs) = some fs) :
    Represented fs :=
  represented_of_wellFormed (runOps_evolves (new_wellFormed bs) h).wf (runOps_root hops h)

def mixedCalls : List Op :=
  [.addFile (str "/a/b/f") [1, 2] 0o644, .addHardlink (str "/g") (str "/a/b/f"),
    .addDir (str "/g/x") 0o755, .removePath (str "/a/b"), .clearDir (str "/")]

theorem run_represents_mixed :
    ∃ fs, runOps mixedCalls (FileSystemBuilder.new .k1) = some fs ∧ Represented fs := by
  have hrun : (runOps mixedCalls (new .k1)).isSome = true := by decide +kernel
  obtain ⟨fs, h⟩ := Option.isSome_iff_exists.mp hrun
  refine ⟨fs, h, run_represents .k1 mixedCalls fs ?_ h⟩
  simp only [mixedCalls, List.forall_mem_cons, KeepsRoot, true_and]
  exact ⟨by decide, by simp⟩

/-- A call that returns an error leaves the builder as it was: no ancestor was made and no leaf
removed on the way. -/
theorem failed_call_changes_nothing (h : Reached fs) (op : Op) {e : Ext4Error}
    {fs' : FileSystemBuilder} (hr : op.run fs = .error (.err e) fs') : fs' = fs := by
  have hset := settled_run h.wellFormed op
  rw [hr] at hset
  exact hset

/-- The parents of `/a/b/c` cannot be made, since `/a` is a file. -/
theorem failed_call_below_file : ∃ fs, Reached fs ∧
    (Op.addFile (str "/a/b/c") [] 0o644).run fs = .error (.err (.pathConflict (str "/a"))) fs := by
  let ops : List Op := [.addFile (str "/a") [1] 0o644]
  have hrun : (runOps ops (new .k1)).any (fun fs =>
      faultOf ((Op.addFile (str "/a/b/c") [] 0o644).run fs) ==
        some (.err (.pathConflict (str "/a")))) = true := by decide +kernel
  obtain ⟨fs, hfs, hop⟩ := (Option.any_eq_true _ _).mp hrun
  have hreached : Reached fs := ⟨.k1, ops, hfs⟩
  obtain ⟨fs', hr⟩ := faultOf_eq_some (beq_iff_eq.mp hop)
  obtain rfl := failed_call_changes_nothing hreached _ hr
  exact ⟨_, hreached, hr⟩

end Ext4BuilderReachable
