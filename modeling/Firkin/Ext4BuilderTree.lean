import Firkin.Ext4BuilderRuns
import Firkin.PathTree

/-! # The tree a builder stands for

A live directory is its mode; a live leaf is the node at the end of its chain of hard
links, with that node's content. Each method is one of the closed-form tree operations. -/
namespace Ext4BuilderTree

open Ext4Types Ext4Path Ext4Builder Ext4BuilderInvariant Ext4BuilderDelete Ext4BuilderInsert Node
open Option
open Ext4BuilderRuns ParentForest PathTree

/-- The node a chain of hard links ends at. Targets are older than their links. -/
def resolveFrom (nodes : List Node) : Nat → Nat → Nat
  | 0, i => i
  | fuel + 1, i =>
    match nodes[i]?.bind Node.hardlinkTarget with
    | some t => resolveFrom nodes fuel t
    | none => i

def resolve (nodes : List Node) (i : Nat) : Nat := resolveFrom nodes i i

structure Leaf (ι : Type) where
  id : ι
  mode : FileMode
  content : Option NodeContent
  deriving DecidableEq

abbrev FsTree (ι : Type) := Tree Str FileMode (Leaf ι)

def entryOf (nodes : List Node) (i : Nat) : Option (Entry FileMode (Leaf Nat)) :=
  nodes[i]?.map fun n =>
    if n.mode.isDir then .dir n.mode
    else .leaf ⟨resolve nodes i, n.mode, nodes[resolve nodes i]?.map Node.content⟩

instance (s : Str) : Decidable (Segment s) := inferInstanceAs (Decidable (_ ∧ _))

def lookup (fs : FileSystemBuilder) (p : List Str) : Option Nat :=
  if ∀ s ∈ p, Segment s then fs.pathIndex (keyOf p) else none

def treeOf (fs : FileSystemBuilder) : FsTree Nat := fun p =>
  (lookup fs p).bind (entryOf fs.nodes)

variable {fs fs' : FileSystemBuilder} {nodes : List Node} {i p : Nat} {n : Node}
  {q r : List Str} {path : Str}

section
theorem resolveFrom_none (h : nodes[i]?.bind hardlinkTarget = none) :
    resolveFrom nodes fuel i = i := by
  cases fuel with
  | zero => rfl
  | succ fuel => simp [resolveFrom, h]

theorem resolveFrom_enough (hs : Shape nodes) (fuel' i : Nat) (hf : i ≤ fuel)
    (hf' : i ≤ fuel') : resolveFrom nodes fuel i = resolveFrom nodes fuel' i := by
  induction fuel generalizing fuel' i with
  | zero =>
    obtain rfl : i = 0 := by omega
    have h0 : nodes[0]?.bind hardlinkTarget = none := by
      cases h : nodes[0]?.bind hardlinkTarget with
      | none => rfl
      | some t =>
        obtain ⟨n, hn, ht⟩ := bind_eq_some_iff.mp h
        have := (hs.target 0 n t hn ht).1
        omega
    rw [resolveFrom_none h0, resolveFrom_none h0]
  | succ fuel ih =>
    cases h : nodes[i]?.bind hardlinkTarget with
    | none => rw [resolveFrom_none h, resolveFrom_none h]
    | some t =>
      obtain ⟨n, hn, ht⟩ := bind_eq_some_iff.mp h
      have hlt := (hs.target i n t hn ht).1
      cases fuel' with
      | zero => omega
      | succ fuel' =>
        rw [resolveFrom, resolveFrom, h]
        exact ih fuel' t (by omega) (by omega)

theorem resolve_plain (hn : nodes[i]? = some n) (h : n.hardlinkTarget = none) :
    resolve nodes i = i :=
  resolveFrom_none (by simp [hn, h])

section
variable (hs : Shape nodes) (hn : nodes[i]? = some n)
include hs hn

theorem resolve_link (h : n.hardlinkTarget = some t) : resolve nodes i = resolve nodes t := by
  have hlt := (hs.target i n t hn h).1
  obtain ⟨fuel, rfl⟩ : ∃ fuel, i = fuel + 1 := ⟨i - 1, by omega⟩
  rw [resolve, resolveFrom, hn, bind_some, h]
  exact resolveFrom_enough hs _ t (by omega) le_rfl

/-- A chain of hard links ends at an older node of the same mode that is no hard link. -/
theorem resolve_spec :
    resolve nodes i ≤ i ∧ ∃ m, nodes[resolve nodes i]? = some m ∧ m.mode = n.mode ∧
      m.hardlinkTarget = none := by
  induction i using Nat.strong_induction_on generalizing n with
  | _ i ih =>
    cases h : n.hardlinkTarget with
    | none => rw [resolve_plain hn h]; exact ⟨le_rfl, n, hn, rfl, h⟩
    | some t =>
      obtain ⟨hlt, m, hm, hmode⟩ := hs.target i n t hn h
      obtain ⟨hle, k, hk, hkm, hkt⟩ := ih t hlt hm
      rw [resolve_link hs hn h]
      exact ⟨by omega, k, hk, hkm.trans hmode, hkt⟩
end

theorem resolve_congr (hs : Shape nodes)
    (h : ∀ j, j ≤ i → nodes'[j]?.map anchor = nodes[j]?.map anchor) :
    resolve nodes' i = resolve nodes i := by
  have hbind : ∀ j, j ≤ i → nodes'[j]?.bind hardlinkTarget =
      nodes[j]?.bind hardlinkTarget := by
    intro j hj
    have hp : ∀ l : List Node, l[j]?.bind hardlinkTarget =
        (l[j]?.map anchor).bind hardlinkTarget := by
      intro l
      cases l[j]? <;> rfl
    rw [hp, hp, h j hj]
  have key : ∀ fuel j, j ≤ i → resolveFrom nodes' fuel j = resolveFrom nodes fuel j := by
    intro fuel
    induction fuel with
    | zero => intro j _; rfl
    | succ fuel ih =>
      intro j hj
      rw [resolveFrom, resolveFrom, hbind j hj]
      cases ht : nodes[j]?.bind hardlinkTarget with
      | none => rfl
      | some t =>
        obtain ⟨n, hn, hl⟩ := bind_eq_some_iff.mp ht
        have := (hs.target j n t hn hl).1
        exact ih t (by omega)
  exact key i i le_rfl

theorem entryOf_congr (hs : Shape nodes)
    (h : ∀ j, j ≤ i → nodes'[j]?.map anchor = nodes[j]?.map anchor) :
    entryOf nodes' i = entryOf nodes i := by
  have hr := resolve_congr hs h
  have hcontent : ∀ l : List Node, ∀ j : Nat, l[j]?.map content =
      (l[j]?.map anchor).map content := by
    intro l j
    cases l[j]? <;> rfl
  have hmode : ∀ l : List Node, l[i]?.map mode = (l[i]?.map anchor).map mode := by
    intro l
    cases l[i]? <;> rfl
  have hi : nodes'[i]?.map mode = nodes[i]?.map mode := by
    rw [hmode, hmode, h i le_rfl]
  cases hn : nodes[i]? with
  | none =>
    rw [hn, map_none, map_eq_none_iff] at hi
    simp [entryOf, hn, hi]
  | some n =>
    rw [hn, map_some, map_eq_some_iff] at hi
    obtain ⟨n', hn', he⟩ := hi
    have hle := (resolve_spec hs hn).1
    simp only [entryOf, hn, hn', map_some, he, hr]
    rw [hcontent nodes', h _ hle, ← hcontent]
end

section
theorem lookup_of_segments (h : ∀ s ∈ r, Segment s) : lookup fs r = fs.pathIndex (keyOf r) :=
  if_pos h

theorem lookup_iff (wf : WellFormed fs) :
    lookup fs r = some i ↔ Live fs.nodes i ∧ pathOf fs.nodes i = r := by
  constructor
  · intro h
    unfold lookup at h
    split at h
    · next hseg => exact lookup_sound wf hseg h
    · cases h
  · rintro ⟨hl, rfl⟩
    rw [lookup_of_segments fun s hs => (wf.shape.path_segments i s hs).1]
    exact wf.index.complete i hl

theorem treeOf_live (wf : WellFormed fs) (hl : Live fs.nodes i) :
    treeOf fs (pathOf fs.nodes i) = entryOf fs.nodes i := by
  rw [treeOf, (lookup_iff wf).mpr ⟨hl, rfl⟩, bind_some]

theorem treeOf_eq_none (wf : WellFormed fs) :
    treeOf fs r = none ↔ ∀ i, Live fs.nodes i → pathOf fs.nodes i ≠ r := by
  constructor
  · rintro h i hl rfl
    rw [treeOf_live wf hl] at h
    obtain ⟨n, hn, _⟩ := hl
    simp [entryOf, hn] at h
  · intro h
    cases hk : lookup fs r with
    | none => simp [treeOf, hk]
    | some i =>
      obtain ⟨hl, hp⟩ := (lookup_iff wf).mp hk
      exact absurd hp (h i hl)

theorem entryOf_dir (hn : nodes[i]? = some n) (hd : n.mode.isDir = true) :
    entryOf nodes i = some (.dir n.mode) := by
  simp [entryOf, hn, hd]

theorem entryOf_leaf (hn : nodes[i]? = some n) (hd : n.mode.isDir = false) :
    entryOf nodes i =
      some (.leaf ⟨resolve nodes i, n.mode, nodes[resolve nodes i]?.map content⟩) := by
  simp [entryOf, hn, hd]

/-- Two builders with the same live paths and the same nodes there stand for one tree. -/
theorem treeOf_of_lookup (h : ∀ i, lookup fs' r = some i → lookup fs r = some i ∧
      entryOf fs'.nodes i = entryOf fs.nodes i)
    (h' : lookup fs' r = none → lookup fs r = none) : treeOf fs' r = treeOf fs r := by
  unfold treeOf
  cases hk : lookup fs' r with
  | none => rw [h' hk]; rfl
  | some i =>
    obtain ⟨h1, h2⟩ := h i hk
    rw [h1, bind_some, bind_some, h2]
end

theorem anchor_of_sameStatic (h : SameStatic nodes nodes') (j : Nat) :
    nodes'[j]?.map anchor = nodes[j]?.map anchor := by
  have hp : ∀ l : List Node, l[j]?.map anchor =
      (l[j]?.map static).map fun n => { n with xattrs := [] } := by
    intro l
    cases l[j]? <;> rfl
  rw [hp, hp, h.get]

section
variable (wf : WellFormed fs)
include wf

theorem treeOf_cut (h : Cut fs fs' S) (r : List Str) :
    treeOf fs' r = none ∧ (∃ i, lookup fs r = some i ∧ S i) ∨
      treeOf fs' r = treeOf fs r ∧ ∀ i, lookup fs r = some i → ¬ S i := by
  have hidx : ∀ i, lookup fs' r = some i ↔ lookup fs r = some i ∧ ¬ S i := by
    intro i
    unfold lookup
    split
    · exact h.index _ i
    · simp
  by_cases hS : ∃ i, lookup fs r = some i ∧ S i
  · obtain ⟨i, hi, hs⟩ := hS
    refine .inl ⟨?_, i, hi, hs⟩
    cases hk : lookup fs' r with
    | none => simp [treeOf, hk]
    | some j =>
      obtain ⟨hj, hns⟩ := (hidx j).mp hk
      cases hi.symm.trans hj
      exact absurd hs hns
  · refine .inr ⟨treeOf_of_lookup (fun i hi => ⟨((hidx i).mp hi).1, ?_⟩) fun hn => ?_,
      fun i hi hs => hS ⟨i, hi, hs⟩⟩
    · exact entryOf_congr wf.shape fun j _ => anchor_of_sameStatic h.static j
    · cases hk : lookup fs r with
      | none => rfl
      | some i =>
        rw [(hidx i).mpr ⟨hk, fun hs => hS ⟨i, hk, hs⟩⟩] at hn
        cases hn

theorem below_iff_path (ha : Live fs.nodes idx) (hi : Live fs.nodes i) :
    Below (parentOf fs.nodes) idx i ↔ pathOf fs.nodes idx <+: pathOf fs.nodes i := by
  constructor
  · exact fun h => h.prefix_path wf.shape.ordered _
  · intro h
    obtain ⟨a, hb, hp⟩ := exists_below_of_prefix wf.shape.ordered h
    have hla : Live fs.nodes a := by
      by_cases hia : i = a
      · exact hia ▸ hi
      have hup : ∃ m : Node, fs.nodes[a]? = some m ∧ m.mode.isDir = true ∧
          (m.deleted = false ∨ a = 0) := by
        cases hb with
        | refl => exact absurd rfl hia
        | step hq hbq =>
          obtain ⟨m, hm, _, hd, hdel⟩ := wf.tree.up i _ hi hq
          exact above_dir wf hbq ⟨m, hm, hd, hdel⟩
      obtain ⟨m, hm, _, hdel | rfl⟩ := hup
      · exact ⟨m, hm, hdel⟩
      · have h0 : idx = 0 := by
          apply path_eq_nil wf.shape ha.lt
          rw [← hp]
          exact wf.shape.path_root
        exact h0 ▸ ha
    have h1 := wf.index.complete a hla
    have h2 := wf.index.complete idx ha
    rw [show pathOf fs.nodes a = pathOf fs.nodes idx from hp, h2] at h1
    cases h1
    exact hb

theorem treeOf_remove (hk : lookup fs q = some idx)
    (h : Cut fs fs' (Subtree fs.nodes idx)) : treeOf fs' = remove q (treeOf fs) := by
  obtain ⟨hl, hp⟩ := (lookup_iff wf).mp hk
  have hsome : treeOf fs q ≠ none := by
    rw [← hp, Ne, treeOf_eq_none wf]
    exact fun hall => hall idx hl rfl
  funext r
  rw [remove]
  rcases treeOf_cut wf h r with ⟨hnone, i, hi, hs⟩ | ⟨hsame, hout⟩
  · obtain ⟨hli, rfl⟩ := (lookup_iff wf).mp hi
    rw [hnone, if_pos ⟨hsome, hp ▸ (below_iff_path wf hl hli).mp hs.1⟩]
  · rw [hsame]
    split
    · next hc =>
      rw [treeOf_eq_none wf]
      rintro i hli rfl
      exact hout i ((lookup_iff wf).mpr ⟨hli, rfl⟩)
        ⟨(below_iff_path wf hl hli).mpr (hp ▸ hc.2), hli⟩
    · rfl

theorem treeOf_clear (hk : lookup fs q = some idx)
    (hn : fs.nodes[idx]? = some n) (hd : n.mode.isDir = true)
    (h : Cut fs fs' (Inner fs.nodes idx)) : clear q (treeOf fs) = some (treeOf fs') := by
  obtain ⟨hl, hp⟩ := (lookup_iff wf).mp hk
  have hq : treeOf fs q = some (.dir n.mode) := by
    rw [← hp, treeOf_live wf hl, entryOf_dir hn hd]
  rw [clear, hq]
  refine congrArg some (funext fun r => ?_)
  rw [hollow]
  rcases treeOf_cut wf h r with ⟨hnone, i, hi, hs⟩ | ⟨hsame, hout⟩
  · obtain ⟨hli, rfl⟩ := (lookup_iff wf).mp hi
    have hne : pathOf fs.nodes i ≠ q := by
      intro he
      rw [he, hk] at hi
      exact hs.2 (some.inj hi).symm
    rw [hnone, if_pos ⟨hp ▸ (below_iff_path wf hl hli).mp hs.1.1, hne⟩]
  · rw [hsame]
    split
    · next hc =>
      symm
      rw [treeOf_eq_none wf]
      rintro i hli rfl
      refine hout i ((lookup_iff wf).mpr ⟨hli, rfl⟩)
        ⟨⟨(below_iff_path wf hl hli).mpr (hp ▸ hc.1), hli⟩, ?_⟩
      rintro rfl
      exact hc.2 hp
    · rfl
end

def parentMode : FileMode := FileMode.dir 0o755

theorem Grown_anchor (h : Grown fs fs' q) (hi : i < fs.nodes.length) (j : Nat) (hj : j ≤ i) :
    fs'.nodes[j]?.map anchor = fs.nodes[j]?.map anchor := by
  have hn := List.getElem?_eq_getElem (show j < fs.nodes.length by omega)
  obtain ⟨n', hn', he, _⟩ := h.old j _ hn
  rw [hn, hn', map_some, map_some, anchor_of_static he]

theorem treeOf_grown (wf : WellFormed fs) (wf' : WellFormed fs') (h : Grown fs fs' q)
    (hp : IsParent fs' p q) :
    treeOf fs' r = match treeOf fs r with
      | some x => some x
      | none => if r ≠ [] ∧ r <+: q then some (.dir parentMode) else none := by
  cases hk : lookup fs' r with
  | some i =>
    obtain ⟨hl, rfl⟩ := (lookup_iff wf').mp hk
    by_cases hi : i < fs.nodes.length
    · have hl₀ := (h.live hi).mp hl
      have he : treeOf fs (pathOf fs'.nodes i) = entryOf fs.nodes i := by
        rw [h.pathOf hi, treeOf_live wf hl₀]
      obtain ⟨n, hn, _⟩ := hl₀
      rw [treeOf_live wf' hl, he, entryOf_congr wf.shape (Grown_anchor h hi)]
      simp [entryOf, hn]
    · obtain ⟨n, hn, hd⟩ := hl
      obtain ⟨_, ⟨p', b', hs⟩, hpre⟩ := h.new i n (by omega) hn
      have hnone : treeOf fs (pathOf fs'.nodes i) = none := by
        rw [treeOf_eq_none wf]
        intro j hj hpath
        have hkey := h.index _ _ (wf.index.complete j hj)
        rw [hpath, wf'.index.complete i ⟨n, hn, hd⟩] at hkey
        have := hj.lt
        have := some.inj hkey
        omega
      have hne : pathOf fs'.nodes i ≠ [] :=
        wf'.shape.path_ne_nil (by rintro rfl; have := h.length; have := wf.shape.root; grind)
          (lt_of_get hn)
      have hmode : n.mode = parentMode := (static_fields hs).2.2.2.1
      rw [treeOf_live wf' ⟨n, hn, hd⟩, hnone, if_pos ⟨hne, hpre⟩,
        entryOf_dir hn (by rw [hmode]; exact FileMode.isDir_dir _), hmode]
  | none =>
    have hnone : lookup fs r = none := by
      cases hk₀ : lookup fs r with
      | none => rfl
      | some i =>
        obtain ⟨hl, hpath⟩ := (lookup_iff wf).mp hk₀
        rw [(lookup_iff wf').mpr ⟨(h.live hl.lt).mpr hl, (h.pathOf hl.lt).trans hpath⟩] at hk
        cases hk
    rw [treeOf, treeOf, hk, hnone, bind_none, bind_none]
    rw [if_neg]
    rintro ⟨hr, hpre⟩
    rw [← hp.1] at hpre
    obtain ⟨a, hb, hpa⟩ := exists_below_of_prefix wf'.shape.ordered hpre
    obtain ⟨m, hm, _, hdel | rfl⟩ := above_dir wf' hb hp.2
    · rw [(lookup_iff wf').mpr ⟨⟨m, hm, hdel⟩, hpa⟩] at hk
      cases hk
    · exact hr (hpa ▸ wf'.shape.path_root)

theorem attach_anchor (h : Attachable fs p nd) (hi : i < fs.nodes.length) (j : Nat) (hj : j ≤ i) :
    (attach fs p nd).nodes[j]?.map anchor = fs.nodes[j]?.map anchor := by
  have hn := List.getElem?_eq_getElem (show j < fs.nodes.length by omega)
  obtain ⟨n', hn', he, _⟩ := attach_old h hn
  rw [hn, hn', map_some, map_some, anchor_of_static he]

theorem treeOf_attach (wf : WellFormed fs) (h : Attachable fs p nd) (hp : pathOf fs.nodes p = q) :
    treeOf (attach fs p nd) r =
      if r = q ++ [nd.name] then entryOf (attach fs p nd).nodes fs.nodes.length
      else treeOf fs r := by
  have wf' := attach_wellFormed h wf
  have hnew := attach_pathOf_new h wf.shape
  rw [hp] at hnew
  split
  · next hr =>
    rw [hr, ← hnew, treeOf_live wf' ((attach_live h _).mpr (.inr rfl))]
  · next hr =>
    refine treeOf_of_lookup (fun i hi => ?_) fun hn => ?_
    · obtain ⟨hl, hpath⟩ := (lookup_iff wf').mp hi
      rcases (attach_live h i).mp hl with hl₀ | rfl
      · rw [attach_pathOf h hl₀.lt] at hpath
        exact ⟨(lookup_iff wf).mpr ⟨hl₀, hpath⟩, entryOf_congr wf.shape (attach_anchor h hl₀.lt)⟩
      · exact absurd (hpath.symm.trans hnew) hr
    · cases hk : lookup fs r with
      | none => rfl
      | some i =>
        obtain ⟨hl, hpath⟩ := (lookup_iff wf).mp hk
        rw [(lookup_iff wf').mpr ⟨(attach_live h i).mpr (.inl hl),
          (attach_pathOf h hl.lt).trans hpath⟩] at hn
        cases hn

theorem prefix_init_iff : r <+: q ++ [b] ∧ r ≠ q ++ [b] ↔ r <+: q := by
  rw [List.prefix_concat_iff]
  constructor
  · rintro ⟨h | h, hne⟩
    · exact absurd h hne
    · exact h
  · intro h
    refine ⟨.inr h, fun he => ?_⟩
    have := h.length_le
    rw [he] at this
    simp at this

/-- The directories above a new node and the node itself, in one operation. -/
theorem treeOf_plant (wf : WellFormed fs)
    (wf₁ : WellFormed fs₁) (hg : Grown fs fs₁ q) (hp : IsParent fs₁ p q)
    (ha : Attachable fs₁ p nd) (hT : ∀ r, r ≠ q ++ [nd.name] → treeOf fs r = T r)
    (he : entryOf (attach fs₁ p nd).nodes fs₁.nodes.length = some e) :
    treeOf (attach fs₁ p nd) = plant parentMode T (q ++ [nd.name]) e := by
  funext r
  rw [treeOf_attach wf₁ ha hp.1, plant]
  split
  · exact he
  · next hr =>
    rw [treeOf_grown wf wf₁ hg hp, hT r hr]
    have : (r ≠ [] ∧ r <+: q) ↔ (r ≠ [] ∧ r <+: q ++ [nd.name]) := by
      rw [← prefix_init_iff (b := nd.name)]
      exact ⟨fun h => ⟨h.1, h.2.1⟩, fun h => ⟨h.1, h.2, hr⟩⟩
    cases T r <;> simp [this]

theorem passable_tree (h : Ext4BuilderInsert.Passable fs q) (b : Str) :
    PathTree.Passable (treeOf fs) (q ++ [b]) := by
  intro r hr hne
  rintro ⟨a, ha⟩
  have hpre := prefix_init_iff.mp ⟨(List.mem_inits _ _).mp hr, hne⟩
  cases hk : lookup fs r with
  | none => simp [treeOf, hk] at ha
  | some i =>
    have hseg : ∀ s ∈ r, Segment s := fun s hs => (h.1 s (hpre.subset hs)).1
    rw [lookup_of_segments hseg] at hk
    obtain ⟨m, hm, hd⟩ := h.2 r hpre i hk
    rw [treeOf, lookup_of_segments hseg, hk, bind_some, entryOf_dir hm hd] at ha
    cases ha

section
variable (wf : WellFormed fs)
include wf

/-- Where nothing or a leaf was replaced, the rest of the tree is untouched. -/
theorem treeOf_vacated (h : Vacated fs fs₀ q) (hseg : ∀ s ∈ q, Segment s) :
    (∀ r, r ≠ q → treeOf fs₀ r = treeOf fs r) ∧ ¬ IsDir (treeOf fs) q := by
  rcases h with ⟨hk, rfl⟩ | ⟨idx, n, hk, hn, hd, hc⟩
  · refine ⟨fun _ _ => rfl, ?_⟩
    rintro ⟨d, hd⟩
    simp [treeOf, lookup_of_segments hseg, hk] at hd
  · rw [← lookup_of_segments hseg] at hk
    refine ⟨fun r hr => ?_, ?_⟩
    · rcases treeOf_cut wf hc r with ⟨_, i, hi, rfl⟩ | ⟨hsame, _⟩
      · obtain ⟨_, h1⟩ := (lookup_iff wf).mp hi
        obtain ⟨_, h2⟩ := (lookup_iff wf).mp hk
        exact absurd (h1.symm.trans h2) hr
      · exact hsame
    · rintro ⟨d, hdir⟩
      rw [treeOf, hk, bind_some, entryOf_leaf hn hd] at hdir
      cases hdir

theorem addLeaf_refines (h : LeafOutcome fs path node (.ok () fs'))
    (ha : ∀ (fs₁ : FileSystemBuilder) p b, Evolves fs fs₁ → Attachable fs₁ p (node p b) →
      fs' = attach fs₁ p (node p b) →
      entryOf fs'.nodes fs₁.nodes.length = some (.leaf a) ∧ (node p b).name = b) :
    addLeaf parentMode (segments path) a (treeOf fs) = some (treeOf fs') := by
  obtain ⟨q, b, fs₀, fs₁, p, hseg, hb, hpass, hv, wf₀, hg, wf₁, hp, hatt, rfl⟩ := h
  have hsegs : ∀ s ∈ q ++ [b], Segment s := fun s hs => segments_segment (hseg ▸ hs)
  have hevo : Evolves fs fs₁ := (evolves_vacated wf hv).trans (evolves_grown wf₁ hg)
  obtain ⟨he, hname⟩ := ha fs₁ p b hevo hatt rfl
  obtain ⟨hT, hnd⟩ := treeOf_vacated wf hv hsegs
  rw [hseg, addLeaf, if_pos ⟨by simp, hnd, passable_tree hpass b⟩]
  rw [treeOf_plant wf₀ wf₁ hg hp hatt (T := treeOf fs) (by rwa [hname]) he, hname]

theorem addLeafNode_refines {path : Str} {content} {mode : FileMode}
    (hd : content ≠ .directory) (hh : content ≠ .hardlink) (hm : mode.isDir = false)
    (h : addLeafNode path content mode fs = .ok () fs') :
    addLeaf parentMode (segments path) ⟨fs'.nodes.length - 1, mode, some content⟩ (treeOf fs) =
      some (treeOf fs') ∧ fs.nodes.length < fs'.nodes.length := by
  have hout := addLeafNode_outcome wf path hd hh hm
  rw [h] at hout
  refine ⟨addLeaf_refines wf hout fun fs₁ p b _ hatt he => ⟨?_, rfl⟩, ?_⟩
  · subst he
    have hnew := attach_get_new hatt
    rw [entryOf_leaf hnew hm, resolve_plain hnew rfl, hnew]
    simp [plainNode]
  · obtain ⟨q, b, fs₀, fs₁, p, _, _, _, hv, _, hg, wf₁, _, _, rfl⟩ := hout
    have h1 := (evolves_vacated wf hv).length_le
    have h2 := hg.length
    rw [attach_length]
    omega

theorem addHardlink_refines (h : addHardlink link target fs = .ok () fs') :
    addLink parentMode (segments link) (segments target) (treeOf fs) = some (treeOf fs') := by
  have hsegs : ∀ s ∈ segments target, Segment s := fun s hs => segments_segment hs
  cases hk : fs.pathIndex (normalize target) with
  | none => rw [addHardlink_absent hk] at h; cases h
  | some idx =>
    obtain ⟨n, hn, hl⟩ := (wf.index.sound _ _ hk).1
    cases hd : n.mode.isDir with
    | true => rw [addHardlink_dir hk hn hd] at h; cases h
    | false =>
      have hout := addHardlink_outcome link wf hk hn hd
      rw [h] at hout
      rw [normalize_eq_keyOf, ← lookup_of_segments hsegs] at hk
      have ht : treeOf fs (segments target) = some (.leaf ⟨resolve fs.nodes idx, n.mode,
          fs.nodes[resolve fs.nodes idx]?.map content⟩) := by
        rw [treeOf, hk, bind_some, entryOf_leaf hn hd]
      rw [addLink, ht]
      refine addLeaf_refines wf hout fun fs₁ p b hevo hatt he => ⟨?_, rfl⟩
      subst he
      have hnew := attach_get_new hatt
      have hs := attach_shape hatt hevo.wf.shape
      have hlt : idx < fs.nodes.length := lt_of_get hn
      have hkeep : ∀ j, j ≤ idx → (attach fs₁ p (linkNode idx n.mode p b)).nodes[j]?.map anchor =
          fs.nodes[j]?.map anchor := by
        intro j hj
        obtain ⟨m, hm⟩ : ∃ m, fs.nodes[j]? = some m := ⟨_, List.getElem?_eq_getElem (by omega)⟩
        obtain ⟨m', hm', hla⟩ := hevo.old j m hm
        have hlt' := hevo.length_le
        rw [attach_anchor hatt (i := idx) (by omega) j hj, hm, hm', map_some, map_some, hla.1]
      have hr : resolve (attach fs₁ p (linkNode idx n.mode p b)).nodes fs₁.nodes.length =
          resolve fs.nodes idx := by
        rw [resolve_link hs hnew rfl, resolve_congr wf.shape hkeep]
      obtain ⟨hle, m, hm, _⟩ := resolve_spec wf.shape hn
      have hc := hkeep _ hle
      rw [hm, map_some, map_eq_some_iff] at hc
      obtain ⟨m', hm', he'⟩ := hc
      rw [entryOf_leaf hnew hd, hr, hm, hm', map_some, (anchor_fields he').2.2.1]
      rfl

theorem addDir_refines (h : Ext4Builder.addDir path perm fs = .ok () fs') :
    PathTree.addDir parentMode (segments path) (FileMode.dir perm) (treeOf fs) =
      some (treeOf fs') := by
  have hsegs : ∀ s ∈ segments path, Segment s := fun s hs => segments_segment hs
  cases hk : fs.pathIndex (normalize path) with
  | some idx =>
    obtain ⟨n, hn, _⟩ := (wf.index.sound _ _ hk).1
    cases hd : n.mode.isDir with
    | false => rw [addDir_leaf hk hn hd] at h; cases h
    | true =>
      rw [addDir_existing hk hn hd] at h
      cases h
      rw [normalize_eq_keyOf, ← lookup_of_segments hsegs] at hk
      rw [PathTree.addDir, treeOf, hk, bind_some, entryOf_dir hn hd]
  | none =>
    rcases List.eq_nil_or_concat (segments path) with hp | ⟨q, b, hp⟩
    · rw [addDir_root hp (by rwa [normalize_eq_keyOf, hp] at hk)] at h
      cases h
    · rw [List.concat_eq_append] at hp
      cases hb : invalidBase b with
      | true => rw [addDir_invalid hp hb hk] at h; cases h
      | false =>
        rw [normalize_eq_keyOf, hp] at hk
        obtain ⟨r, hr, he⟩ := addDir_absent perm wf hp hb hk
        rw [h] at he
        cases r with
        | error e u => cases he
        | ok idx u =>
          obtain ⟨fs₁, p, wf₁, hg, hpar, hpass, ha, _, rfl⟩ := hr
          cases he
          have hnone : treeOf fs (q ++ [b]) = none := by
            rw [treeOf, lookup_of_segments (hp ▸ hsegs), hk, bind_none]
          rw [PathTree.addDir, hp, hnone]
          rw [if_pos ⟨by simp, passable_tree hpass b⟩]
          refine congrArg some (Eq.symm ?_)
          exact treeOf_plant wf wf₁ hg hpar ha (fun _ _ => rfl)
            (entryOf_dir (attach_get_new ha) (FileMode.isDir_dir perm))
end

end Ext4BuilderTree
