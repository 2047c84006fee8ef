import Firkin.Ext4Builder
import Firkin.ParentForest

/-! # The representation invariant of the builder

The arena is a forest whose root is node 0. Tombstones keep their name and parent,
so the path of a node never changes; the index and the children lists describe the
live part. The root itself may be a tombstone, because `remove_path("/")` is
accepted; its children list stays in use after that. -/
namespace Ext4BuilderInvariant

open Ext4Types Ext4Path Ext4Builder ParentForest Option

def parentOf (nodes : List Node) (i : Nat) : Option Nat := nodes[i]?.bind Node.parent
def nameOf (nodes : List Node) (i : Nat) : Str := (nodes[i]?.map Node.name).getD []
def pathOf (nodes : List Node) (i : Nat) : List Str := path (parentOf nodes) (nameOf nodes) i
def Live (nodes : List Node) (i : Nat) : Prop := ∃ n, nodes[i]? = some n ∧ n.deleted = false

/-- The part of a node no builder method ever rewrites, `set_xattr` apart. -/
def static (n : Node) : Node := { n with children := [], dirLinkCount := 0, deleted := false }

def dirChildren (nodes : List Node) (n : Node) : Nat :=
  n.children.countP fun c => (nodes[c]?.map fun m => m.mode.isDir).getD false

def SameConfig (fs fs' : FileSystemBuilder) : Prop :=
  fs'.blockSize = fs.blockSize ∧ fs'.uuid = fs.uuid ∧ fs'.fsTimestamp = fs.fsTimestamp ∧
    fs'.minSize = fs.minSize

structure Shape (nodes : List Node) : Prop where
  root : ∃ r : Node, nodes[0]? = some r ∧ r.name = [] ∧ r.parent = none ∧ r.mode.isDir = true
  child : ∀ (i : Nat) (n : Node), nodes[i]? = some n → i ≠ 0 →
    (∃ q, n.parent = some q ∧ q < i) ∧ ProperName n.name
  kind : ∀ (i : Nat) (n : Node), nodes[i]? = some n → (n.content = .directory ↔ n.mode.isDir = true)
  link : ∀ (i : Nat) (n : Node), nodes[i]? = some n →
    (n.content = .hardlink ↔ n.hardlinkTarget ≠ none)
  target : ∀ (i : Nat) (n : Node) t, nodes[i]? = some n → n.hardlinkTarget = some t →
    t < i ∧ ∃ m : Node, nodes[t]? = some m ∧ m.mode = n.mode

structure Indexed (fs : FileSystemBuilder) : Prop where
  sound : ∀ k i, fs.pathIndex k = some i → Live fs.nodes i ∧ k = keyOf (pathOf fs.nodes i)
  complete : ∀ i, Live fs.nodes i → fs.pathIndex (keyOf (pathOf fs.nodes i)) = some i

structure Linked (nodes : List Node) : Prop where
  nodup : ∀ (i : Nat) (n : Node), nodes[i]? = some n → n.children.Nodup
  down : ∀ (i : Nat) (n : Node) c, nodes[i]? = some n → c ∈ n.children →
    Live nodes c ∧ parentOf nodes c = some i
  up : ∀ c i, Live nodes c → parentOf nodes c = some i →
    ∃ n : Node, nodes[i]? = some n ∧ c ∈ n.children ∧ n.mode.isDir = true ∧
      (n.deleted = false ∨ i = 0)
  links : ∀ (i : Nat) (n : Node), nodes[i]? = some n → n.deleted = false → n.mode.isDir = true →
    n.dirLinkCount = 2 + dirChildren nodes n

structure WellFormed (fs : FileSystemBuilder) : Prop where
  shape : Shape fs.nodes
  index : Indexed fs
  tree : Linked fs.nodes

theorem SameConfig.trans (h : SameConfig a b) (k : SameConfig b c) : SameConfig a c :=
  ⟨k.1.trans h.1, k.2.1.trans h.2.1, k.2.2.1.trans h.2.2.1, k.2.2.2.trans h.2.2.2⟩

variable {nodes nodes' : List Node} {i : Nat} {n : Node}

theorem parentOf_some (h : nodes[i]? = some n) : parentOf nodes i = n.parent := by
  simp [parentOf, h]

theorem nameOf_some (h : nodes[i]? = some n) : nameOf nodes i = n.name := by
  simp [nameOf, h]

theorem Live.lt (h : Live nodes i) : i < nodes.length := by
  obtain ⟨n, hn, _⟩ := h
  exact lt_of_get hn

section
variable (h : Shape nodes)
include h

theorem Shape.ordered : Ordered (parentOf nodes) := by
  intro i q hq
  cases hn : nodes[i]? with
  | none => simp [parentOf, hn] at hq
  | some n =>
    rw [parentOf_some hn] at hq
    by_cases hi : i = 0
    · subst hi
      obtain ⟨r, hr, _, hp, _⟩ := h.root
      cases hn.symm.trans hr
      cases hp.symm.trans hq
    · obtain ⟨⟨q', hq', hlt⟩, _⟩ := h.child i n hn hi
      cases hq.symm.trans hq'
      exact hlt

theorem Shape.parent_root : parentOf nodes 0 = none := by
  obtain ⟨r, hr, _, hp, _⟩ := h.root
  rw [parentOf_some hr, hp]

theorem Shape.path_root : pathOf nodes 0 = [] :=
  ParentForest.path_root _ h.parent_root

theorem Shape.path_child (hn : nodes[i]? = some n)
    (hq : n.parent = some q) : pathOf nodes i = pathOf nodes q ++ [n.name] := by
  rw [pathOf, ParentForest.path_child h.ordered _ ((parentOf_some hn).trans hq), nameOf_some hn]
  rfl

theorem Shape.path_segments (i : Nat) : ∀ s ∈ pathOf nodes i, ProperName s := by
  induction i using Nat.strong_induction_on with
  | _ i ih =>
    cases hq : parentOf nodes i with
    | none => simp [pathOf, ParentForest.path_root _ hq]
    | some q =>
      cases hn : nodes[i]? with
      | none => simp [parentOf, hn] at hq
      | some n =>
        rw [parentOf_some hn] at hq
        have hlt := h.ordered i q ((parentOf_some hn).trans hq)
        have hi : i ≠ 0 := by omega
        rw [h.path_child hn hq]
        intro s hs
        rcases List.mem_append.mp hs with hs | hs
        · exact ih q hlt s hs
        · rw [List.mem_singleton.mp hs]
          exact (h.child i n hn hi).2

theorem Shape.path_ne_nil (hi : i ≠ 0) (hlt : i < nodes.length) : pathOf nodes i ≠ [] := by
  have hn := List.getElem?_eq_getElem hlt
  obtain ⟨⟨q, hq, _⟩, _⟩ := h.child i _ hn hi
  rw [h.path_child hn hq]
  simp

theorem Shape.nodePathParts_eq (fuel i : Nat) (hf : i < fuel) (hlt : i < nodes.length) :
    nodePathParts nodes fuel (some i) = some (pathOf nodes i).reverse := by
  induction fuel generalizing i with
  | zero => omega
  | succ fuel ih =>
    have hn := List.getElem?_eq_getElem hlt
    simp only [nodePathParts, hn, bind_eq_bind, bind_some]
    by_cases hi : i = 0
    · subst hi
      obtain ⟨r, hr, hname, hp, _⟩ := h.root
      rw [hn] at hr
      rw [some.inj hr, hp, hname, h.path_root]
      simp [nodePathParts]
    · obtain ⟨⟨q, hq, hqi⟩, hname⟩ := h.child i _ hn hi
      rw [h.path_child hn hq, hq, ih q (by omega) (by omega)]
      simp [hname.1.1]
end

theorem slash_intercalate (s : Str) (segs : List Str) :
    str "/" ++ List.intercalate (str "/") (s :: segs) = keyOf (s :: segs) := by
  induction segs generalizing s with
  | nil => simp [keyOf]; rfl
  | cons t segs ih =>
    have he : List.intercalate (str "/") (s :: t :: segs) =
        s ++ (str "/" ++ List.intercalate (str "/") (t :: segs)) := by
      simp [List.intercalate]
    rw [he, ih]
    simp [show str "/" = [slash] from rfl]

theorem Shape.nodePath_eq (h : Shape nodes) (hi : i ≠ 0) (hlt : i < nodes.length) :
    nodePath nodes i = some (keyOf (pathOf nodes i)) := by
  obtain ⟨s, segs, hs⟩ := List.exists_cons_of_ne_nil (h.path_ne_nil hi hlt)
  simp only [nodePath, if_neg hi, h.nodePathParts_eq nodes.length i hlt hlt, bind_eq_bind,
    bind_some, List.reverse_reverse, hs]
  exact congrArg some (slash_intercalate s segs)

theorem Shape.removedKey_eq (h : Shape nodes) (hlt : i < nodes.length) :
    ∃ key, nodePath nodes i = some key ∧
      (if key = str "/" then [] else key) = keyOf (pathOf nodes i) := by
  by_cases hi : i = 0
  · subst hi
    exact ⟨str "/", by simp [nodePath], by simp [h.path_root]⟩
  · refine ⟨_, h.nodePath_eq hi hlt, if_neg ?_⟩
    obtain ⟨s, segs, hs⟩ := List.exists_cons_of_ne_nil (h.path_ne_nil hi hlt)
    have hseg := (h.path_segments i s (by simp [hs])).1
    rw [hs]
    intro he
    rw [show str "/" = [slash] from rfl] at he
    simp [hseg.1] at he

theorem static_fields (h : static m = static n) :
    m.name = n.name ∧ m.parent = n.parent ∧ m.content = n.content ∧ m.mode = n.mode ∧
      m.hardlinkTarget = n.hardlinkTarget ∧ m.xattrs = n.xattrs ∧ m.inode = n.inode := by
  simp only [static, Node.mk.injEq] at h
  tauto

def SameStatic (nodes nodes' : List Node) : Prop := nodes'.map static = nodes.map static

theorem SameStatic.length (h : SameStatic nodes nodes') : nodes'.length = nodes.length := by
  simpa using congrArg List.length h

theorem SameStatic.symm (h : SameStatic nodes nodes') : SameStatic nodes' nodes := Eq.symm h

theorem SameStatic.trans (h : SameStatic a b) (k : SameStatic b c) :
    SameStatic a c := Eq.trans k h

section
variable (h : SameStatic nodes nodes')
include h

theorem SameStatic.get (i : Nat) : nodes'[i]?.map static = nodes[i]?.map static := by
  have := congrArg (fun l => l[i]?) h
  simpa [List.getElem?_map] using this

theorem SameStatic.some (hn : nodes[i]? = some n) :
    ∃ m, nodes'[i]? = some m ∧ static m = static n := by
  have hg := h.get i
  rw [hn, map_some, map_eq_some_iff] at hg
  exact hg

theorem SameStatic.parentOf : parentOf nodes' = parentOf nodes := by
  funext i
  cases hn : nodes[i]? with
  | none =>
    have hg := h.get i
    rw [hn, map_none, map_eq_none_iff] at hg
    simp [Ext4BuilderInvariant.parentOf, hn, hg]
  | some n =>
    obtain ⟨m, hm, he⟩ := h.some hn
    rw [parentOf_some hn, parentOf_some hm, (static_fields he).2.1]

theorem SameStatic.nameOf : nameOf nodes' = nameOf nodes := by
  funext i
  cases hn : nodes[i]? with
  | none =>
    have hg := h.get i
    rw [hn, map_none, map_eq_none_iff] at hg
    simp [Ext4BuilderInvariant.nameOf, hn, hg]
  | some n =>
    obtain ⟨m, hm, he⟩ := h.some hn
    rw [nameOf_some hn, nameOf_some hm, (static_fields he).1]

theorem SameStatic.pathOf (i : Nat) : pathOf nodes' i = pathOf nodes i := by
  rw [Ext4BuilderInvariant.pathOf, h.parentOf, h.nameOf]
  rfl
end

/-- The fields that a node's place in the tree rests on. -/
def SamePlace (m n : Node) : Prop :=
  m.name = n.name ∧ m.parent = n.parent ∧ m.content = n.content ∧ m.mode = n.mode ∧
    m.hardlinkTarget = n.hardlinkTarget

theorem samePlace_of_static (h : static m = static n) : SamePlace m n := by
  obtain ⟨e1, e2, e3, e4, e5, _⟩ := static_fields h
  exact ⟨e1, e2, e3, e4, e5⟩

structure Fits (nodes : List Node) (i : Nat) (n : Node) : Prop where
  child : i ≠ 0 → (∃ q, n.parent = some q ∧ q < i) ∧ ProperName n.name
  kind : n.content = .directory ↔ n.mode.isDir = true
  link : n.content = .hardlink ↔ n.hardlinkTarget ≠ none
  target : ∀ t, n.hardlinkTarget = some t → t < i ∧ ∃ m : Node, nodes[t]? = some m ∧ m.mode = n.mode

/-- Old nodes keep their place and new ones fit in. -/
theorem Shape.extend (hs : Shape nodes)
    (hold : ∀ (i : Nat) n, nodes[i]? = some n → ∃ m, nodes'[i]? = some m ∧ SamePlace m n)
    (hnew : ∀ (i : Nat) m, nodes'[i]? = some m →
      (∃ n, nodes[i]? = some n ∧ SamePlace m n) ∨ Fits nodes' i m) : Shape nodes' := by
  have hfits : ∀ (i : Nat) m, nodes'[i]? = some m → Fits nodes' i m := by
    intro i m hm
    rcases hnew i m hm with ⟨n, hn, e1, e2, e3, e4, e5⟩ | hfits
    · refine ⟨?_, ?_, ?_, fun t ht => ?_⟩
      · rw [e1, e2]
        exact hs.child i n hn
      · rw [e3, e4]
        exact hs.kind i n hn
      · rw [e3, e5]
        exact hs.link i n hn
      · obtain ⟨hlt, k, hk, hmode⟩ := hs.target i n t hn (e5 ▸ ht)
        obtain ⟨k', hk', _, _, _, he, _⟩ := hold t k hk
        exact ⟨hlt, k', hk', by rw [he, hmode, e4]⟩
    · exact hfits
  obtain ⟨r, hr, h1, h2, h3⟩ := hs.root
  obtain ⟨m, hm, e1, e2, _, e4, _⟩ := hold 0 r hr
  exact ⟨⟨m, hm, e1.trans h1, e2.trans h2, by rw [e4, h3]⟩, fun i n hn => (hfits i n hn).child,
    fun i n hn => (hfits i n hn).kind, fun i n hn => (hfits i n hn).link,
    fun i n t hn => (hfits i n hn).target t⟩

theorem SameStatic.shape (h : SameStatic nodes nodes') (hs : Shape nodes) : Shape nodes' :=
  hs.extend (fun _ _ hn => (h.some hn).imp fun _ hm => hm.imp_right samePlace_of_static)
    fun _ _ hm => .inl ((h.symm.some hm).imp fun _ hn =>
      hn.imp_right fun he => samePlace_of_static he.symm)

end Ext4BuilderInvariant
