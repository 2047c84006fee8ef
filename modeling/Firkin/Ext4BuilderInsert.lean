import Firkin.Ext4BuilderDelete

/-! # Inserting nodes

Every `add_*` method ends by pushing one node, hanging it under its parent and
indexing it. `attach` is that step; `mkdir -p` is a chain of such steps. -/
namespace Ext4BuilderInsert

open Ext4Types Ext4Path Ext4Builder Ext4BuilderInvariant Ext4BuilderDelete ParentForest FaultMonad
open List FileMode

variable {fs fs' : FileSystemBuilder} {p i : Nat} {n nd : Node} {q : List Str}

/-- What the parent of a new node `idx` becomes. -/
def hangChild (idx : Nat) (isDir : Bool) (q : Node) : Node :=
  { q with
    children := q.children ++ [idx]
    dirLinkCount := if isDir then q.dirLinkCount + 1 else q.dirLinkCount }

def attach (fs : FileSystemBuilder) (p : Nat) (nd : Node) : FileSystemBuilder :=
  ({ fs with nodes := fs.nodes ++ [nd] }.updateNode p
    (hangChild fs.nodes.length nd.mode.isDir)).insertKey
    (keyOf (pathOf fs.nodes p ++ [nd.name])) fs.nodes.length

structure Attachable (fs : FileSystemBuilder) (p : Nat) (nd : Node) : Prop where
  parent : ∃ m : Node, fs.nodes[p]? = some m ∧ m.mode.isDir = true ∧ (m.deleted = false ∨ p = 0)
  hang : nd.parent = some p
  name : ProperName nd.name
  absent : fs.pathIndex (keyOf (pathOf fs.nodes p ++ [nd.name])) = none
  children : nd.children = []
  live : nd.deleted = false
  kind : nd.content = .directory ↔ nd.mode.isDir = true
  links : nd.mode.isDir = true → nd.dirLinkCount = 2
  link : nd.content = .hardlink ↔ nd.hardlinkTarget ≠ none
  target : ∀ t, nd.hardlinkTarget = some t → ∃ m : Node, fs.nodes[t]? = some m ∧ m.mode = nd.mode

section
variable (h : Attachable fs p nd)
include h

theorem Attachable.parent_lt : p < fs.nodes.length := by
  obtain ⟨m, hm, _⟩ := h.parent
  exact lt_of_get hm

theorem attach_get_new : (attach fs p nd).nodes[fs.nodes.length]? = some nd := by
  have := h.parent_lt
  change (({ fs with nodes := fs.nodes ++ [nd] } : FileSystemBuilder).updateNode p _).nodes[_]? = _
  rw [updateNode_get_ne (by omega)]
  simp

theorem attach_get_parent (hn : fs.nodes[p]? = some n) :
    (attach fs p nd).nodes[p]? = some (hangChild fs.nodes.length nd.mode.isDir n) := by
  have := h.parent_lt
  apply updateNode_get_self
  simpa [getElem?_append_left this] using hn
end

theorem attach_get_old (hi : i < fs.nodes.length) (hp : p ≠ i) :
    (attach fs p nd).nodes[i]? = fs.nodes[i]? := by
  change (({ fs with nodes := fs.nodes ++ [nd] } : FileSystemBuilder).updateNode p _).nodes[_]? = _
  rw [updateNode_get_ne hp]
  exact getElem?_append_left hi

@[simp] theorem attach_length (p : Nat) : (attach fs p nd).nodes.length = fs.nodes.length + 1 := by
  simp [attach, FileSystemBuilder.insertKey]

theorem attach_pathIndex (p : Nat) (k : Str) :
    (attach fs p nd).pathIndex k =
      if k = keyOf (pathOf fs.nodes p ++ [nd.name]) then some fs.nodes.length
      else fs.pathIndex k := rfl

section
variable (h : Attachable fs p nd)
include h

/-- Old nodes keep everything but their children list and link count. -/
theorem attach_old (hn : fs.nodes[i]? = some n) :
    ∃ n', (attach fs p nd).nodes[i]? = some n' ∧ static n' = static n ∧
      n'.deleted = n.deleted := by
  have hi : i < fs.nodes.length := lt_of_get hn
  by_cases hp : p = i
  · subst hp
    exact ⟨_, attach_get_parent h hn, rfl, rfl⟩
  · exact ⟨n, by rw [attach_get_old hi hp, hn], rfl, rfl⟩

theorem attach_cases (hn' : (attach fs p nd).nodes[i]? = some n') :
    (i = fs.nodes.length ∧ n' = nd) ∨
    (i = p ∧ ∃ n, fs.nodes[i]? = some n ∧ n' = hangChild fs.nodes.length nd.mode.isDir n) ∨
    (i ≠ p ∧ fs.nodes[i]? = some n') := by
  have hlt : i < fs.nodes.length + 1 := by
    simpa using (lt_of_get hn')
  by_cases hnew : i = fs.nodes.length
  · subst hnew
    rw [attach_get_new h] at hn'
    exact .inl ⟨rfl, (Option.some.inj hn').symm⟩
  · have hi : i < fs.nodes.length := by omega
    by_cases hp : p = i
    · subst hp
      have hn := getElem?_eq_getElem hi
      rw [attach_get_parent h hn] at hn'
      exact .inr (.inl ⟨rfl, _, hn, (Option.some.inj hn').symm⟩)
    · rw [attach_get_old hi hp] at hn'
      exact .inr (.inr ⟨Ne.symm hp, hn'⟩)

theorem attach_cases_static (hn' : (attach fs p nd).nodes[i]? = some n') :
    (i = fs.nodes.length ∧ n' = nd) ∨
    ∃ n, fs.nodes[i]? = some n ∧ static n' = static n ∧ n'.deleted = n.deleted := by
  rcases attach_cases h hn' with h | ⟨_, n, hn, rfl⟩ | ⟨_, hn⟩
  · exact .inl h
  · exact .inr ⟨n, hn, rfl, rfl⟩
  · exact .inr ⟨n', hn, rfl, rfl⟩

theorem attach_parentOf (hi : i < fs.nodes.length) :
    parentOf (attach fs p nd).nodes i = parentOf fs.nodes i := by
  have hn := getElem?_eq_getElem hi
  obtain ⟨n', hn', he, _⟩ := attach_old h hn
  rw [parentOf_some hn', parentOf_some hn, (static_fields he).2.1]

theorem attach_pathOf (hi : i < fs.nodes.length) :
    pathOf (attach fs p nd).nodes i = pathOf fs.nodes i := by
  apply path_congr
  intro j hj
  have hn := getElem?_eq_getElem (show j < fs.nodes.length by omega)
  obtain ⟨n', hn', he, _⟩ := attach_old h hn
  exact ⟨attach_parentOf h (by omega),
    by rw [nameOf_some hn', nameOf_some hn, (static_fields he).1]⟩

theorem attach_shape (hs : Shape fs.nodes) : Shape (attach fs p nd).nodes := by
  refine hs.extend (fun i n hn => ?_) fun i m hm => ?_
  · obtain ⟨m, hm, he, _⟩ := attach_old h hn
    exact ⟨m, hm, samePlace_of_static he⟩
  · rcases attach_cases_static h hm with ⟨rfl, rfl⟩ | ⟨n, hn, he, _⟩
    · refine .inr ⟨fun _ => ⟨⟨p, h.hang, h.parent_lt⟩, h.name⟩, h.kind, h.link, fun t ht => ?_⟩
      obtain ⟨k, hk, hmode⟩ := h.target t ht
      obtain ⟨k', hk', hke, _⟩ := attach_old h hk
      exact ⟨lt_of_get hk, k', hk', by rw [(static_fields hke).2.2.2.1, hmode]⟩
    · exact .inl ⟨n, hn, samePlace_of_static he⟩

theorem attach_pathOf_new (hs : Shape fs.nodes) :
    pathOf (attach fs p nd).nodes fs.nodes.length = pathOf fs.nodes p ++ [nd.name] := by
  rw [(attach_shape h hs).path_child (attach_get_new h) h.hang, attach_pathOf h h.parent_lt]

theorem attach_live (i : Nat) :
    Live (attach fs p nd).nodes i ↔ Live fs.nodes i ∨ i = fs.nodes.length := by
  constructor
  · rintro ⟨n', hn', hd⟩
    rcases attach_cases_static h hn' with ⟨hi, _⟩ | ⟨n, hn, _, he⟩
    · exact .inr hi
    · exact .inl ⟨n, hn, he ▸ hd⟩
  · rintro (⟨n, hn, hd⟩ | rfl)
    · obtain ⟨n', hn', _, he⟩ := attach_old h hn
      exact ⟨n', hn', he.trans hd⟩
    · exact ⟨nd, attach_get_new h, h.live⟩

private theorem attach_dirChildren (m : Node) (hm : ∀ c ∈ m.children, c < fs.nodes.length) :
    dirChildren (attach fs p nd).nodes m = dirChildren fs.nodes m := by
  apply countP_congr
  intro c hc
  have hn := getElem?_eq_getElem (hm c hc)
  obtain ⟨n', hn', he, _⟩ := attach_old h hn
  simp [hn, hn', (static_fields he).2.2.2.1]

theorem attach_wellFormed (wf : WellFormed fs) : WellFormed (attach fs p nd) where
  shape := attach_shape h wf.shape
  index := by
    have hnew := attach_pathOf_new h wf.shape
    constructor
    · intro k i hk
      rw [attach_pathIndex] at hk
      split at hk
      · next he =>
        cases hk
        exact ⟨(attach_live h _).mpr (.inr rfl), by rw [hnew, he]⟩
      · obtain ⟨hl, hkey⟩ := wf.index.sound k i hk
        exact ⟨(attach_live h i).mpr (.inl hl), by rw [attach_pathOf h hl.lt, hkey]⟩
    · intro i hi
      rw [attach_pathIndex]
      rcases (attach_live h i).mp hi with hl | rfl
      · have hidx := wf.index.complete i hl
        rw [attach_pathOf h hl.lt, if_neg, hidx]
        intro he
        rw [he, h.absent] at hidx
        cases hidx
      · rw [hnew, if_pos rfl]
  tree := by
    have hold : ∀ i (n : Node), fs.nodes[i]? = some n → ∀ c ∈ n.children, c < fs.nodes.length :=
      fun i n hn c hc => (wf.tree.down i n c hn hc).1.lt
    constructor
    · intro i n' hn'
      rcases attach_cases h hn' with ⟨_, rfl⟩ | ⟨_, n, hn, rfl⟩ | ⟨_, hn⟩
      · rw [h.children]; exact nodup_nil
      · have hnd := wf.tree.nodup i n hn
        refine List.Nodup.append hnd (by simp) ?_
        intro c hc hc'
        have := hold i n hn c hc
        simp only [mem_singleton] at hc'
        omega
      · exact wf.tree.nodup i n' hn
    · intro i n' c hn' hc
      have old : ∀ n, fs.nodes[i]? = some n → c ∈ n.children →
          Live (attach fs p nd).nodes c ∧ parentOf (attach fs p nd).nodes c = some i := by
        intro n hn hc
        obtain ⟨hl, hpc⟩ := wf.tree.down i n c hn hc
        exact ⟨(attach_live h c).mpr (.inl hl), by rw [attach_parentOf h hl.lt, hpc]⟩
      rcases attach_cases h hn' with ⟨_, rfl⟩ | ⟨rfl, n, hn, rfl⟩ | ⟨_, hn⟩
      · rw [h.children] at hc; cases hc
      · rcases mem_append.mp hc with hc | hc
        · exact old n hn hc
        · rw [mem_singleton.mp hc]
          exact ⟨(attach_live h _).mpr (.inr rfl), by rw [parentOf_some (attach_get_new h), h.hang]⟩
      · exact old n' hn hc
    · intro c i hc hpc
      rcases (attach_live h c).mp hc with hl | rfl
      · rw [attach_parentOf h hl.lt] at hpc
        obtain ⟨n, hn, hmem, hdir, hdel⟩ := wf.tree.up c i hl hpc
        by_cases hp : p = i
        · subst hp
          exact ⟨_, attach_get_parent h hn, mem_append_left _ hmem, hdir, hdel⟩
        · exact ⟨n, by rw [attach_get_old (lt_of_get hn) hp, hn], hmem, hdir, hdel⟩
      · rw [parentOf_some (attach_get_new h), h.hang] at hpc
        cases hpc
        obtain ⟨m, hm, hdir, hdel⟩ := h.parent
        exact ⟨_, attach_get_parent h hm, by simp [hangChild], hdir, hdel⟩
    · intro i n' hn' hd hdir
      rcases attach_cases h hn' with ⟨_, rfl⟩ | ⟨rfl, n, hn, rfl⟩ | ⟨_, hn⟩
      · rw [h.links hdir]; simp [dirChildren, h.children]
      · have hl := wf.tree.links i n hn hd hdir
        have hsame := attach_dirChildren h n (hold i n hn)
        simp only [dirChildren, hangChild] at hl hsame ⊢
        rw [countP_append, countP_singleton, attach_get_new h]
        simp only [Option.map_some, Option.getD_some]
        split <;> omega
      · rw [attach_dirChildren h n' (hold i n' hn)]
        exact wf.tree.links i n' hn hd hdir
end

/-- `p` can take children at path `q`; the root can even when it is a tombstone. -/
def IsParent (fs : FileSystemBuilder) (p : Nat) (q : List Str) : Prop :=
  pathOf fs.nodes p = q ∧
    ∃ m : Node, fs.nodes[p]? = some m ∧ m.mode.isDir = true ∧ (m.deleted = false ∨ p = 0)

/-- Every named ancestor along `q` is a directory or missing, and can be made if missing. -/
def Passable (fs : FileSystemBuilder) (q : List Str) : Prop :=
  (∀ s ∈ q, ProperName s) ∧
    ∀ r, r <+: q → ∀ i, fs.pathIndex (keyOf r) = some i →
      ∃ m : Node, fs.nodes[i]? = some m ∧ m.mode.isDir = true

/-- The node `add_dir_internal` makes. -/
def madeDir (p : Nat) (name : Str) (mode : FileMode) (uid gid fixedInode : Nat) : Node :=
  { name, parent := some p, content := .directory, mode, uid, gid
    inode := fixedInodeOpt fixedInode, dirLinkCount := 2 }

/-- `fs'` is `fs` with the missing directories along `q` made. -/
structure Grown (fs fs' : FileSystemBuilder) (q : List Str) : Prop where
  length : fs.nodes.length ≤ fs'.nodes.length
  old : ∀ (i : Nat) (n : Node), fs.nodes[i]? = some n →
    ∃ n', fs'.nodes[i]? = some n' ∧ static n' = static n ∧ n'.deleted = n.deleted
  new : ∀ (i : Nat) (n : Node), fs.nodes.length ≤ i → fs'.nodes[i]? = some n →
    n.deleted = false ∧ (∃ p b, static n = static (madeDir p b (FileMode.dir 0o755) 0 0 0)) ∧
    pathOf fs'.nodes i <+: q
  index : ∀ k i, fs.pathIndex k = some i → fs'.pathIndex k = some i
  config : SameConfig fs fs'

theorem Grown.refl (fs : FileSystemBuilder) (q : List Str) : Grown fs fs q :=
  ⟨le_rfl, fun _ n hn => ⟨n, hn, rfl, rfl⟩, fun i _ hi hn => by
    have := (lt_of_get hn); omega, fun _ _ h => h, rfl, rfl, rfl, rfl⟩

theorem Grown.pathOf (h : Grown fs fs' q) (hi : i < fs.nodes.length) :
    pathOf fs'.nodes i = pathOf fs.nodes i := by
  apply path_congr
  intro j hj
  have hn := getElem?_eq_getElem (show j < fs.nodes.length by omega)
  obtain ⟨n', hn', he, _⟩ := h.old j _ hn
  exact ⟨by rw [parentOf_some hn', parentOf_some hn, (static_fields he).2.1],
    by rw [nameOf_some hn', nameOf_some hn, (static_fields he).1]⟩

theorem Grown.live (h : Grown fs fs' q) (hi : i < fs.nodes.length) :
    Live fs'.nodes i ↔ Live fs.nodes i := by
  have hn := getElem?_eq_getElem hi
  obtain ⟨n', hn', _, he⟩ := h.old i _ hn
  simp [Live, hn, hn', he]

theorem madeDir_attachable (hp : IsParent fs p q) (hb : ProperName b)
    (habs : fs.pathIndex (keyOf (q ++ [b])) = none) (mode : FileMode) (hm : mode.isDir = true)
    (uid gid ino : Nat) : Attachable fs p (madeDir p b mode uid gid ino) where
  parent := hp.2
  hang := rfl
  name := hb
  absent := by rw [hp.1]; exact habs
  children := rfl
  live := rfl
  kind := by simp [madeDir, hm]
  links := fun _ => rfl
  link := by simp [madeDir]
  target := by simp [madeDir]

theorem Grown.attach (wf : WellFormed fs') (h : Grown fs fs' q) (hp : IsParent fs' p q)
    (hb : ProperName b) (habs : fs'.pathIndex (keyOf (q ++ [b])) = none) :
    Grown fs (attach fs' p (madeDir p b (dir 0o755) 0 0 0)) (q ++ [b]) := by
  have ha := madeDir_attachable hp hb habs (dir 0o755) (by simp) 0 0 0
  refine ⟨by rw [attach_length]; have := h.length; omega, ?_, ?_, ?_, h.config⟩
  · intro i n hn
    obtain ⟨n', hn', he, hd⟩ := h.old i n hn
    obtain ⟨n'', hn'', he', hd'⟩ := attach_old ha hn'
    exact ⟨n'', hn'', he'.trans he, hd'.trans hd⟩
  · intro i n hi hn
    rcases attach_cases_static ha hn with ⟨rfl, rfl⟩ | ⟨m, hm, he, hd⟩
    · refine ⟨rfl, ⟨p, b, rfl⟩, ?_⟩
      rw [attach_pathOf_new ha wf.shape, hp.1]
      exact prefix_rfl
    · obtain ⟨h1, ⟨p', b', h2⟩, h3⟩ := h.new i m hi hm
      refine ⟨hd.trans h1, ⟨p', b', he.trans h2⟩, ?_⟩
      rw [attach_pathOf ha (lt_of_get hm)]
      exact h3.trans (prefix_append _ _)
  · intro k i hk
    have hk' := h.index k i hk
    rw [attach_pathIndex, if_neg, hk']
    intro he
    rw [he, hp.1] at hk'
    rw [show (madeDir p b (dir 0o755) 0 0 0).name = b from rfl, habs] at hk'
    cases hk'

/-- How `ensure_parent` ends at the ancestors `q`: a usable parent, or an error that
changed nothing, or a link count out of `u16`. -/
def ParentOutcome (fs : FileSystemBuilder) (q : List Str) :
    EStateM.Result Fault FileSystemBuilder Nat → Prop
  | .ok p fs' => WellFormed fs' ∧ Grown fs fs' q ∧ IsParent fs' p q ∧ Passable fs q
  | .error (.err _) fs' => fs' = fs ∧ ¬ Passable fs q
  | .error (.panic e) _ => e = .arithmeticOverflow

theorem lookup_sound (wf : WellFormed fs) (hr : ∀ s ∈ r, Segment s)
    (h : fs.pathIndex (keyOf r) = some i) : Live fs.nodes i ∧ pathOf fs.nodes i = r := by
  obtain ⟨hl, hk⟩ := wf.index.sound _ i h
  exact ⟨hl, (keyOf_injective hr (fun s hs => (wf.shape.path_segments i s hs).1) hk).symm⟩

theorem path_eq_nil (hs : Shape fs.nodes) (hi : i < fs.nodes.length)
    (h : pathOf fs.nodes i = []) : i = 0 := by
  by_contra hne
  exact hs.path_ne_nil hne hi h

theorem above_dir (wf : WellFormed fs) (hb : Below (parentOf fs.nodes) a i)
    (hi : ∃ m : Node, fs.nodes[i]? = some m ∧ m.mode.isDir = true ∧ (m.deleted = false ∨ i = 0)) :
    ∃ m : Node, fs.nodes[a]? = some m ∧ m.mode.isDir = true ∧ (m.deleted = false ∨ a = 0) := by
  induction hb with
  | refl => exact hi
  | @step j r hr _ ih =>
    obtain ⟨m, hm, _, hd⟩ := hi
    rcases hd with hd | rfl
    · obtain ⟨k, hk, _, hkdir, hkd⟩ := wf.tree.up j r ⟨m, hm, hd⟩ hr
      exact ih ⟨k, hk, hkdir, hkd⟩
    · rw [wf.shape.parent_root] at hr
      cases hr

theorem passable_of_parent (wf : WellFormed fs) (hp : IsParent fs p q) : Passable fs q := by
  obtain ⟨hpath, hdir⟩ := hp
  refine ⟨fun s hs => wf.shape.path_segments p s (hpath ▸ hs), fun r hr i hi => ?_⟩
  rw [← hpath] at hr
  obtain ⟨a, ha, hpa⟩ := exists_below_of_prefix wf.shape.ordered hr
  change pathOf fs.nodes a = r at hpa
  have hseg : ∀ s ∈ r, Segment s := fun s hs => (wf.shape.path_segments a s (hpa ▸ hs)).1
  obtain ⟨hl, hpi⟩ := lookup_sound wf hseg hi
  obtain ⟨m, hm, hmd, hlive⟩ := above_dir wf ha hdir
  rcases hlive with hlive | rfl
  · have hidx := wf.index.complete a ⟨m, hm, hlive⟩
    rw [hpa, hi] at hidx
    cases hidx
    exact ⟨m, hm, hmd⟩
  · rw [wf.shape.path_root] at hpa
    have : i = 0 := path_eq_nil wf.shape hl.lt (by rw [hpi, hpa])
    exact ⟨m, this ▸ hm, hmd⟩

theorem keyOf_ne_slash (hr : ∀ s ∈ r, Segment s) : keyOf r ≠ [slash] := by
  cases r with
  | nil => simp
  | cons s r =>
    have := (hr s (by simp)).1
    simp [this]

section
variable {path : Str} {b : Str} {addDir : Str → BuilderM Nat}

theorem ensureParentWith_root (h : segments path = []) :
    ensureParentWith addDir path fs = .error (.err (.invalidFilename path)) fs := by
  simp [ensureParentWith, normalize_eq_keyOf, h, run_throw]

private theorem ensureParentWith_unfold (h : segments path = q ++ [b]) :
    ensureParentWith addDir path fs =
      (if invalidBase b then throw (.err (.invalidFilename path))
      else if keyOf q = [] then pure 0
      else do
        match (← get).pathIndex (keyOf q) with
        | some idx =>
          let node ← getNode idx
          if node.mode.isDir then pure idx else throw (.err (.pathConflict (keyOf q)))
        | none => addDir (keyOf q) : BuilderM Nat) fs := by
  have hseg : ∀ s ∈ q ++ [b], Segment s := fun s hs => segments_segment (h ▸ hs)
  have hne : keyOf (q ++ [b]) ≠ [] := by rw [ne_eq]; simp
  rw [ensureParentWith, normalize_eq_keyOf, h, splitParent_keyOf q (hseg b (by simp))]
  exact congrFun (if_neg (by simp only [hne, keyOf_ne_slash hseg, or_self, not_false_eq_true])) fs

theorem ensureParentWith_invalid (h : segments path = q ++ [b]) (hb : invalidBase b = true) :
    ensureParentWith addDir path fs = .error (.err (.invalidFilename path)) fs := by
  rw [ensureParentWith_unfold h, if_pos hb]
  rfl

theorem isParent_root (hs : Shape fs.nodes) : IsParent fs 0 [] := by
  obtain ⟨r, hr, _, _, hd⟩ := hs.root
  exact ⟨hs.path_root, r, hr, hd, .inr rfl⟩

theorem ensureParentWith_outcome (wf : WellFormed fs) (h : segments path = q ++ [b])
    (hb : invalidBase b = false)
    (hadd : q ≠ [] → fs.pathIndex (keyOf q) = none → ParentOutcome fs q (addDir (keyOf q) fs)) :
    ParentOutcome fs q (ensureParentWith addDir path fs) := by
  have hseg : ∀ s ∈ q, Segment s := fun s hs => segments_segment (p := path) (by simp [h, hs])
  rw [ensureParentWith_unfold h, if_neg (by simp [hb])]
  by_cases hq : q = []
  · subst hq
    exact ⟨wf, Grown.refl fs [], isParent_root wf.shape,
      passable_of_parent wf (isParent_root wf.shape)⟩
  · rw [if_neg (by rwa [keyOf_eq_nil]), bind_of_ok (run_get fs)]
    cases hidx : fs.pathIndex (keyOf q) with
    | none => exact hadd hq hidx
    | some idx =>
      obtain ⟨⟨m, hm, hd⟩, hpath⟩ := lookup_sound wf hseg hidx
      simp only
      rw [bind_of_ok (getNode_ok hm)]
      by_cases hdir : m.mode.isDir = true
      · have hp : IsParent fs idx q := ⟨hpath, m, hm, hdir, .inl hd⟩
        rw [if_pos hdir]
        exact ⟨wf, Grown.refl fs q, hp, passable_of_parent wf hp⟩
      · rw [if_neg hdir]
        refine ⟨rfl, fun hpass => ?_⟩
        obtain ⟨m', hm', hdir'⟩ := hpass.2 q prefix_rfl idx hidx
        cases hm.symm.trans hm'
        exact hdir hdir'

theorem basename_ok (h : segments path = q ++ [b]) (hb : invalidBase b = false) :
    basename path = .ok b := by
  have hseg : Segment b := segments_segment (p := path) (by simp [h])
  simp only [basename]
  rw [normalize_eq_keyOf, h, splitParent_keyOf q hseg]
  simp [hb]

theorem attachNode_ok (nd : Node) (hp : IsParent fs p q) (hmode : nd.mode.isDir = countLink) :
    (attachNode p nd countLink (keyOf (q ++ [nd.name])) fs =
        .ok fs.nodes.length (attach fs p nd)) ∨
      (countLink = true ∧
        ∃ fs', attachNode p nd countLink (keyOf (q ++ [nd.name])) fs =
          .error (.panic .arithmeticOverflow) fs') := by
  obtain ⟨hpath, m, hm, _⟩ := hp
  have hlt : p < fs.nodes.length := lt_of_get hm
  set fs₁ : FileSystemBuilder := { fs with nodes := fs.nodes ++ [nd] }
  have hm₁ : fs₁.nodes[p]? = some m := by
    simpa [fs₁, getElem?_append_left hlt] using hm
  have hlt₁ : p < fs₁.nodes.length := by simp [fs₁]; omega
  have hpush : pushNode nd fs = .ok fs.nodes.length fs₁ := rfl
  have hatt : ∀ g : Node → Node, g m = hangChild fs.nodes.length nd.mode.isDir m →
      (fs₁.updateNode p g).insertKey (keyOf (q ++ [nd.name])) fs.nodes.length =
        attach fs p nd := by
    intro g hg
    rw [attach, hpath, updateNode_congr hm₁ hg]
  rw [attachNode, bind_of_ok hpush, bind_of_ok (modifyNode_ok hlt₁)]
  cases countLink with
  | false =>
    left
    simp only [Bool.false_eq_true, if_false]
    rw [bind_of_ok (run_modify _), hatt _ (by simp [hangChild, hmode])]
    rfl
  | true =>
    simp only [if_true]
    by_cases hov : m.dirLinkCount + 1 < 2 ^ 16
    · left
      rw [bind_of_ok (getNode_ok (updateNode_get_self hm₁)), bind_of_ok (checkedAdd_ok hov),
        bind_of_ok (modifyNode_ok (by simpa using hlt₁)), bind_of_ok (run_modify _),
        updateNode_updateNode, hatt _ (by simp [hangChild, hmode])]
      rfl
    · right
      exact ⟨trivial, _, by rw [bind_of_ok (getNode_ok (updateNode_get_self hm₁)),
        bind_of_error (by rw [checkedAdd, if_neg hov]; rfl)]⟩

theorem grown_absent (wf : WellFormed fs') (h : Grown fs fs' q)
    (hq : ∀ s ∈ q ++ [b], Segment s) (habs : fs.pathIndex (keyOf (q ++ [b])) = none)
    (wf₀ : WellFormed fs) : fs'.pathIndex (keyOf (q ++ [b])) = none := by
  cases hk : fs'.pathIndex (keyOf (q ++ [b])) with
  | none => rfl
  | some i =>
    obtain ⟨hl, hpath⟩ := lookup_sound wf hq hk
    by_cases hi : i < fs.nodes.length
    · have := wf₀.index.complete i ((h.live hi).mp hl)
      rw [← h.pathOf hi, hpath, habs] at this
      cases this
    · obtain ⟨n, hn, _⟩ := hl
      have hpre := (h.new i n (by omega) hn).2.2
      rw [hpath] at hpre
      have := hpre.length_le
      simp at this

/-- How `add_dir_internal` ends at `q ++ [b]` when that path is not indexed yet. -/
def DirOutcome (fs : FileSystemBuilder) (q : List Str) (made : Nat → Node) :
    EStateM.Result Fault FileSystemBuilder Nat → Prop
  | .ok idx fs' => ∃ fs₁ p, WellFormed fs₁ ∧ Grown fs fs₁ q ∧ IsParent fs₁ p q ∧ Passable fs q ∧
      Attachable fs₁ p (made p) ∧ idx = fs₁.nodes.length ∧ fs' = attach fs₁ p (made p)
  | .error (.err _) fs' => fs' = fs ∧ ¬ Passable fs q
  | .error (.panic e) _ => e = .arithmeticOverflow

theorem addDirInternal_absent (fuel : Nat) (wf : WellFormed fs) (h : segments path = q ++ [b])
    (hb : invalidBase b = false) (habs : fs.pathIndex (keyOf (q ++ [b])) = none)
    (mode : FileMode) (hmode : mode.isDir = true) (uid gid ino : Nat)
    (hpar : ParentOutcome fs q (ensureParentWith
      (fun p => addDirInternal fuel p (dir 0o755) 0 0 0) path fs)) :
    DirOutcome fs q (fun p => madeDir p b mode uid gid ino)
      (addDirInternal (fuel + 1) path mode uid gid ino fs) := by
  have hseg : ∀ s ∈ q ++ [b], Segment s := fun s hs => segments_segment (h ▸ hs)
  rw [addDirInternal, bind_of_ok (run_get fs), normalize_eq_keyOf, h, habs]
  simp only
  cases hr : ensureParentWith (fun p => addDirInternal fuel p (dir 0o755) 0 0 0) path fs with
  | error e fs' =>
    rw [bind_of_error hr]
    rw [hr] at hpar
    cases e <;> exact hpar
  | ok p fs₁ =>
    rw [hr] at hpar
    obtain ⟨wf₁, hg, hp, hpass⟩ := hpar
    have habs₁ := grown_absent wf₁ hg hseg habs wf
    have ha := madeDir_attachable hp ⟨hseg b (by simp), hb⟩ habs₁ mode hmode uid gid ino
    have htail := attachNode_ok (madeDir p b mode uid gid ino) hp hmode
    rw [bind_of_ok hr, basename_ok h hb]
    change DirOutcome fs q _ (attachNode p (madeDir p b mode uid gid ino) true
      (keyOf (q ++ [(madeDir p b mode uid gid ino).name])) fs₁)
    rcases htail with he | ⟨_, fs', he⟩
    · rw [he]
      exact ⟨fs₁, p, wf₁, hg, hp, hpass, ha, rfl, rfl⟩
    · rw [he]
      rfl

theorem addDirInternal_parent (wf : WellFormed fs) (hseg : ∀ s ∈ q, Segment s)
    (hq : q ≠ []) (hf : q.length ≤ fuel) (habs : fs.pathIndex (keyOf q) = none) :
    ParentOutcome fs q (addDirInternal fuel (keyOf q) (dir 0o755) 0 0 0 fs) := by
  induction fuel generalizing q with
  | zero => exact absurd (eq_nil_of_length_eq_zero (by omega)) hq
  | succ fuel ih =>
    obtain ⟨r, b, rfl⟩ := (eq_nil_or_concat q).resolve_left hq
    rw [concat_eq_append] at *
    have hs : segments (keyOf (r ++ [b])) = r ++ [b] := segments_keyOf hseg
    cases hb : invalidBase b with
    | true =>
      rw [addDirInternal, bind_of_ok (run_get fs), normalize_eq_keyOf, hs, habs]
      simp only
      rw [bind_of_error (ensureParentWith_invalid hs hb)]
      refine ⟨rfl, fun hpass => ?_⟩
      have := (hpass.1 b (by simp)).2
      cases hb.symm.trans this
    | false =>
      have hpar : ParentOutcome fs r (ensureParentWith
          (fun p => addDirInternal fuel p (dir 0o755) 0 0 0) (keyOf (r ++ [b])) fs) :=
        ensureParentWith_outcome wf hs hb fun hr habs' =>
          ih (fun s hs => hseg s (by simp [hs])) hr (by simp at hf; omega) habs'
      have hout := addDirInternal_absent fuel wf hs hb habs (dir 0o755) (by simp) 0 0 0 hpar
      cases hr : addDirInternal (fuel + 1) (keyOf (r ++ [b])) (dir 0o755) 0 0 0 fs with
      | ok idx fs' =>
        rw [hr] at hout
        obtain ⟨fs₁, p, wf₁, hg, hp, hpass, ha, rfl, rfl⟩ := hout
        have hname : ProperName b := ⟨hseg b (by simp), hb⟩
        have wf' := attach_wellFormed ha wf₁
        have hnew : IsParent (attach fs₁ p (madeDir p b (dir 0o755) 0 0 0))
            fs₁.nodes.length (r ++ [b]) := by
          refine ⟨?_, _, attach_get_new ha, by simp [madeDir], .inl rfl⟩
          rw [attach_pathOf_new ha wf₁.shape, hp.1]
          rfl
        refine ⟨wf', Grown.attach wf₁ hg hp hname (grown_absent wf₁ hg hseg habs wf), hnew, ?_⟩
        refine ⟨fun s hs => ?_, fun t ht i hi => ?_⟩
        · rcases mem_append.mp hs with hs | hs
          · exact hpass.1 s hs
          · rw [mem_singleton.mp hs]; exact hname
        · rcases prefix_concat_iff.mp ht with rfl | ht
          · rw [habs] at hi; cases hi
          · exact hpass.2 t ht i hi
      | error e fs' =>
        rw [hr] at hout
        cases e with
        | err e =>
          refine ⟨hout.1, fun hpass => hout.2 ⟨fun s hs => hpass.1 s (by simp [hs]), ?_⟩⟩
          exact fun t ht => hpass.2 t (ht.trans (prefix_append _ _))
        | panic e => exact hout

theorem length_segments_le (path : Str) : (segments path).length ≤ path.length + 1 := by
  have : (splitSlash path).length ≤ path.length + 1 := by
    induction path with
    | nil => simp [splitSlash]
    | cons c cs ih =>
      simp only [splitSlash]
      split
      · simp; omega
      · split
        · simp
        · next he => rw [he] at ih; simp at ih ⊢; omega
  exact (length_filter_le _ _).trans this

theorem ensureParent_outcome (wf : WellFormed fs) (h : segments path = q ++ [b])
    (hb : invalidBase b = false) : ParentOutcome fs q (ensureParent path fs) := by
  refine ensureParentWith_outcome wf h hb fun hq habs =>
    addDirInternal_parent wf (fun s hs => segments_segment (p := path) (by simp [h, hs])) hq ?_ habs
  have := length_segments_le path
  rw [h] at this
  simp at this
  omega
end

/-- `fs₀` is `fs` with the leaf at `r` taken out, if there was one. -/
def Vacated (fs fs₀ : FileSystemBuilder) (r : List Str) : Prop :=
  (fs.pathIndex (keyOf r) = none ∧ fs₀ = fs) ∨
  ∃ idx n, fs.pathIndex (keyOf r) = some idx ∧ fs.nodes[idx]? = some n ∧ n.mode.isDir = false ∧
    Cut fs fs₀ (fun i => i = idx)

theorem Vacated.absent (h : Vacated fs fs₀ r) : fs₀.pathIndex (keyOf r) = none := by
  rcases h with ⟨hk, rfl⟩ | ⟨idx, n, hk, -, -, hcut⟩
  · exact hk
  · cases hk₀ : fs₀.pathIndex (keyOf r) with
    | none => rfl
    | some i =>
      obtain ⟨hi, hne⟩ := (hcut.index _ i).mp hk₀
      rw [hk] at hi
      exact absurd (Option.some.inj hi).symm hne

theorem Vacated.same (h : Vacated fs fs₀ r) {t : Nat}
    (hn : fs.nodes[t]? = some n) : ∃ m, fs₀.nodes[t]? = some m ∧ static m = static n := by
  rcases h with ⟨-, rfl⟩ | ⟨_, _, -, -, -, hcut⟩
  · exact ⟨n, hn, rfl⟩
  · exact hcut.static.some hn

/-- `add_leaf_node` and `add_hardlink` end with the new leaf in place, with an error that
changed nothing, or with a link count out of `u16`. An error means that the path is the
root or names a directory, or that its parents cannot be made. -/
def LeafOutcome (fs : FileSystemBuilder) (path : Str) (node : Nat → Str → Node) :
    EStateM.Result Fault FileSystemBuilder Unit → Prop
  | .ok _ fs' => ∃ q b fs₀ fs₁ p, segments path = q ++ [b] ∧ ProperName b ∧
      Passable fs q ∧ Vacated fs fs₀ (q ++ [b]) ∧ WellFormed fs₀ ∧ Grown fs₀ fs₁ q ∧
      WellFormed fs₁ ∧ IsParent fs₁ p q ∧ Attachable fs₁ p (node p b) ∧
      fs' = attach fs₁ p (node p b)
  | .error (.err _) fs' => fs' = fs ∧ ∀ q b, segments path = q ++ [b] → ProperName b →
      Passable fs q → ∃ i n, fs.pathIndex (keyOf (q ++ [b])) = some i ∧
        fs.nodes[i]? = some n ∧ n.mode.isDir = true
  | .error (.panic e) _ => e = .arithmeticOverflow

theorem subtree_leaf (wf : WellFormed fs) (hn : fs.nodes[idx]? = some n)
    (hl : n.deleted = false) (hd : n.mode.isDir = false) (i : Nat) :
    Subtree fs.nodes idx i ↔ i = idx := by
  refine (below_children (prunable_of_wellFormed wf ⟨n, hn, hl⟩) hn i).trans
    (or_iff_left fun ⟨⟨c, hc, _⟩, _⟩ => ?_)
  obtain ⟨hlive, hparent⟩ := wf.tree.down idx n c hn hc
  obtain ⟨m, hm, _, hmdir, _⟩ := wf.tree.up c idx hlive hparent
  cases hn.symm.trans hm
  cases hd.symm.trans hmdir

theorem removeExistingLeaf_absent {path : Str} (mode : FileMode)
    (h : fs.pathIndex (normalize path) = none) : removeExistingLeaf path mode fs = .ok () fs := by
  rw [removeExistingLeaf, bind_of_ok (run_get fs), h]
  rfl

theorem removeExistingLeaf_leaf {path : Str} {mode : FileMode} {idx : Nat} (wf : WellFormed fs)
    (h : fs.pathIndex (normalize path) = some idx) (hn : fs.nodes[idx]? = some n)
    (hl : n.deleted = false) (hd : n.mode.isDir = false) (hm : mode.isDir = false) :
    ∃ fs₀, removeExistingLeaf path mode fs = .ok () fs₀ ∧ Cut fs fs₀ (fun i => i = idx) ∧
      WellFormed fs₀ := by
  obtain ⟨fs₀, he, hc⟩ := runDeleteSubtree_unlink wf ⟨n, hn, hl⟩
  refine ⟨fs₀, ?_, hc.congr (subtree_leaf wf hn hl hd), hc.wellFormed wf fun c i => subtree_closed⟩
  rw [removeExistingLeaf, bind_of_ok (run_get fs), h]
  simp only
  rw [bind_of_ok (getNode_ok hn), if_neg (by simp [hd, hm]), he]

theorem removeExistingLeaf_dir {path : Str} {mode : FileMode} {idx : Nat}
    (h : fs.pathIndex (normalize path) = some idx) (hn : fs.nodes[idx]? = some n)
    (hd : n.mode.isDir = true) (hm : mode.isDir = false) :
    removeExistingLeaf path mode fs = .error (.err (.pathConflict path)) fs := by
  rw [removeExistingLeaf, bind_of_ok (run_get fs), h]
  simp only
  rw [bind_of_ok (getNode_ok hn), if_pos (by simp [hd, hm])]
  rfl

/-- A new leaf that points nowhere, or at an existing node of the same mode. -/
structure LeafNode (fs : FileSystemBuilder) (node : Nat → Str → Node) : Prop where
  hang : ∀ p b, (node p b).parent = some p ∧ (node p b).name = b ∧ (node p b).children = [] ∧
    (node p b).deleted = false
  leaf : ∀ p b, (node p b).mode.isDir = false ∧ (node p b).content ≠ .directory
  link : ∀ p b, (node p b).content = .hardlink ↔ (node p b).hardlinkTarget ≠ none
  target : ∀ p b t, (node p b).hardlinkTarget = some t →
    ∃ m : Node, fs.nodes[t]? = some m ∧ m.mode = (node p b).mode

theorem LeafNode.attachable (h : LeafNode fs node)
    (hsame : ∀ (t : Nat) (m : Node), fs.nodes[t]? = some m →
      ∃ m', fs'.nodes[t]? = some m' ∧ static m' = static m) (hp : IsParent fs' p q)
    (hb : ProperName b) (habs : fs'.pathIndex (keyOf (q ++ [b])) = none) :
    Attachable fs' p (node p b) where
  parent := hp.2
  hang := (h.hang p b).1
  name := by rw [(h.hang p b).2.1]; exact hb
  absent := by rw [(h.hang p b).2.1, hp.1]; exact habs
  children := (h.hang p b).2.2.1
  live := (h.hang p b).2.2.2
  kind := by simp [(h.leaf p b).1, (h.leaf p b).2]
  links := by simp [(h.leaf p b).1]
  link := h.link p b
  target := by
    intro t ht
    obtain ⟨m, hm, hmode⟩ := h.target p b t ht
    obtain ⟨m', hm', he⟩ := hsame t m hm
    exact ⟨m', hm', by rw [(static_fields he).2.2.2.1, hmode]⟩

theorem cut_leaf_parent (wf : WellFormed fs) (hn : fs.nodes[idx]? = some n)
    (hl : n.deleted = false) (hc : Cut fs fs' (fun i => i = idx))
    (hpath : pathOf fs.nodes idx = q ++ [b]) :
    ∃ p, IsParent fs p q ∧ IsParent fs' p q := by
  have hi : idx ≠ 0 := by
    rintro rfl
    rw [wf.shape.path_root] at hpath
    simp at hpath
  obtain ⟨⟨p, hp, hlt⟩, _⟩ := wf.shape.child idx n hn hi
  obtain ⟨m, hm, _, hmdir, hmd⟩ := wf.tree.up idx p ⟨n, hn, hl⟩ (by rw [parentOf_some hn, hp])
  have hpq : pathOf fs.nodes p = q := by
    have := wf.shape.path_child hn hp
    rw [hpath] at this
    exact (append_inj' this rfl).1.symm
  obtain ⟨m', hm', he⟩ := hc.static.some hm
  have hout := hc.outside p m m' (by omega) hm hm'
  exact ⟨p, ⟨hpq, m, hm, hmdir, hmd⟩, by rw [hc.static.pathOf, hpq], m', hm',
    by rw [(static_fields he).2.2.2.1, hmdir], by rwa [hout.1]⟩

/-- Once the path is free, the leaf is put in place, or its parents cannot be made. -/
theorem insertLeaf_vacated {path : Str} {b : Str} (wf₀ : WellFormed fs₀)
    (h : segments path = q ++ [b]) (hb : ProperName b) (hnode : LeafNode fs node)
    (hrem : removeExistingLeaf path mode fs = .ok () fs₀) (hvac : Vacated fs fs₀ (q ++ [b]))
    (hpass : Passable fs₀ q → Passable fs q) :
    LeafOutcome fs path node (insertLeaf path mode node fs) ∨
      ∃ e, insertLeaf path mode node fs = .error (.err e) fs₀ ∧ ¬Passable fs₀ q := by
  have hout := ensureParent_outcome wf₀ h hb.2
  rw [insertLeaf, bind_of_ok hrem]
  cases hr : ensureParent path fs₀ with
  | error e fs' =>
    rw [bind_of_error hr]
    rw [hr] at hout
    cases e with
    | err e => exact .inr ⟨e, by rw [hout.1], hout.2⟩
    | panic e => exact .inl hout
  | ok p fs₁ =>
    rw [hr] at hout
    obtain ⟨wf₁, hg, hp, hpass₀⟩ := hout
    have hseg : ∀ s ∈ q ++ [b], Segment s := fun s hs => segments_segment (h ▸ hs)
    have habs := grown_absent wf₁ hg hseg hvac.absent wf₀
    have ha := hnode.attachable (fun t m hm => by
      obtain ⟨m₀, hm₀, he₀⟩ := hvac.same hm
      obtain ⟨m', hm', he, _⟩ := hg.old t m₀ hm₀
      exact ⟨m', hm', he.trans he₀⟩) hp hb habs
    rw [bind_of_ok hr, basename_ok h hb.2, bind_of_ok (show liftResult _ fs₁ = .ok b fs₁ from rfl),
      normalize_eq_keyOf, h]
    have htail := attachNode_ok (node p b) hp (hnode.leaf p b).1
    rw [(hnode.hang p b).2.1] at htail
    rcases htail with he | ⟨hf, _⟩
    · rw [bind_of_ok he]
      exact .inl ⟨q, b, fs₀, fs₁, p, h, hb, hpass hpass₀, hvac, wf₀, hg, wf₁, hp, ha, rfl⟩
    · cases hf

theorem insertLeaf_outcome (wf : WellFormed fs) (path : Str)
    (hmode : mode.isDir = false) (hnode : LeafNode fs node) :
    LeafOutcome fs path node (insertLeaf path mode node fs) := by
  rcases eq_nil_or_concat (segments path) with h | ⟨q, b, h⟩
  · -- the root itself: either it is a directory or the parent lookup fails
    have hroot : ∀ q b, segments path ≠ q ++ [b] := by simp [h]
    cases hk : fs.pathIndex (normalize path) with
    | none =>
      rw [insertLeaf, bind_of_ok (removeExistingLeaf_absent mode hk), ensureParent,
        bind_of_error (ensureParentWith_root h)]
      exact ⟨rfl, fun q b hs => absurd hs (hroot q b)⟩
    | some idx =>
      rw [normalize_eq_keyOf, h] at hk
      obtain ⟨⟨n, hn, hl⟩, hp⟩ := lookup_sound wf (by simp) hk
      have h0 : idx = 0 := path_eq_nil wf.shape (lt_of_get hn) hp
      obtain ⟨r, hr, _, _, hdir⟩ := wf.shape.root
      rw [← h0, hn] at hr
      cases hr
      rw [insertLeaf, bind_of_error (removeExistingLeaf_dir
        (by rw [normalize_eq_keyOf, h]; exact hk) hn hdir hmode)]
      exact ⟨rfl, fun q b hs => absurd hs (hroot q b)⟩
  · rw [concat_eq_append] at h
    have hseg : ∀ s ∈ q ++ [b], Segment s := fun s hs => segments_segment (h ▸ hs)
    have hkey : normalize path = keyOf (q ++ [b]) := by rw [normalize_eq_keyOf, h]
    have hsplit : ∀ q' b', segments path = q' ++ [b'] → q' = q ∧ b' = b := by
      intro q' b' h'
      rw [h] at h'
      obtain ⟨h1, h2⟩ := append_inj' h' rfl
      exact ⟨h1.symm, (singleton_inj.mp h2).symm⟩
    cases hk : fs.pathIndex (keyOf (q ++ [b])) with
    | none =>
      have hrem := removeExistingLeaf_absent mode (hkey ▸ hk)
      cases hb : invalidBase b with
      | true =>
        rw [insertLeaf, bind_of_ok hrem, ensureParent,
          bind_of_error (ensureParentWith_invalid h hb)]
        refine ⟨rfl, fun q' b' hs hpb => ?_⟩
        obtain ⟨_, rfl⟩ := hsplit q' b' hs
        rw [hpb.2] at hb
        cases hb
      | false =>
        have hpb : ProperName b := ⟨hseg b (by simp), hb⟩
        rcases insertLeaf_vacated wf h hpb hnode hrem (.inl ⟨hk, rfl⟩) id with hout | ⟨e, he, hno⟩
        · exact hout
        · rw [he]
          refine ⟨rfl, fun q' b' hs _ hpass => ?_⟩
          obtain ⟨rfl, _⟩ := hsplit q' b' hs
          exact absurd hpass hno
    | some idx =>
      obtain ⟨⟨n, hn, hl⟩, hpath⟩ := lookup_sound wf hseg hk
      cases hdir : n.mode.isDir with
      | true =>
        rw [insertLeaf, bind_of_error (removeExistingLeaf_dir (by rw [hkey, hk]) hn hdir hmode)]
        refine ⟨rfl, fun q' b' hs _ _ => ?_⟩
        obtain ⟨rfl, rfl⟩ := hsplit q' b' hs
        exact ⟨idx, n, hk, hn, hdir⟩
      | false =>
        obtain ⟨fs₀, hrem, hcut, wf₀⟩ :=
          removeExistingLeaf_leaf wf (by rw [hkey, hk]) hn hl hdir hmode
        obtain ⟨p₀, hp₀, hp₀'⟩ := cut_leaf_parent wf hn hl hcut hpath
        have hpb : ProperName b := wf.shape.path_segments idx b (by simp [hpath])
        rcases insertLeaf_vacated wf₀ h hpb hnode hrem (.inr ⟨idx, n, hk, hn, hdir, hcut⟩)
          (fun _ => passable_of_parent wf hp₀) with hout | ⟨e, -, hno⟩
        · exact hout
        · exact absurd (passable_of_parent wf₀ hp₀') hno

end Ext4BuilderInsert
