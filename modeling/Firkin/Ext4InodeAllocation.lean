import Firkin.LevelOrder
import Firkin.Ext4BuilderReachable
import Firkin.Ext4Finalizer

/-! # Inode numbers

`allocate_inodes` walks the live tree breadth first. Nodes that own an inode are
numbered from 12 on in level order; a hard link borrows whatever its target has when
the link is visited, so it gets nothing from a target that comes later. -/
namespace Ext4InodeAllocation

open Ext4Types Ext4Builder Ext4BuilderInvariant Ext4BuilderRuns Ext4BuilderTree List
  Ext4BuilderReachable Ext4Layout Ext4Encoding Ext4Finalizer LevelOrder FaultMonad

/-- What `write` may assume of a builder. -/
structure Sound (fs : FileSystemBuilder) : Prop where
  wf : WellFormed fs
  typed : ∀ (i : Nat) (n : Node), fs.nodes[i]? = some n → Typed n
  owner : ∀ (i : Nat) (n : Node), fs.nodes[i]? = some n → n.uid = 0 ∧ n.gid = 0
  fixed : ∀ (i : Nat) (n : Node), fs.nodes[i]? = some n →
    n.inode = if i = 1 then some lostFoundInode else none
  lostFound : ∃ n, fs.nodes[1]? = some n ∧ n.mode.isDir = true

variable {fs : FileSystemBuilder} {nodes : List Node} {c i : Nat} {n : Node}

theorem Reached.sound (h : Reached fs) : Sound fs where
  wf := h.wellFormed
  typed := fun _ _ hn => (h.pristine hn).1.typed
  owner := fun _ _ hn => (h.pristine hn).1.owner
  fixed := fun _ _ hn => (h.pristine hn).2
  lostFound := by
    obtain ⟨n, hn, hl⟩ := h.evolves.old 1 lostFoundNode rfl
    exact ⟨n, hn, by rw [(anchor_fields hl.1).2.2.2.1]; exact FileMode.isDir_dir _⟩

def kids (nodes : List Node) (i : Nat) : List Nat := (nodes[i]?.map Node.children).getD []
def levelOrder (nodes : List Node) : List Nat := levels (kids nodes) nodes.length [0]

theorem kids_some (h : nodes[i]? = some n) : kids nodes i = n.children := by
  rw [kids, h]
  rfl

section
variable (wf : WellFormed fs)
include wf

theorem mem_kids (h : c ∈ kids fs.nodes p) : Live fs.nodes c ∧ parentOf fs.nodes c = some p := by
  cases hn : fs.nodes[p]? with
  | none => simp [kids, hn] at h
  | some n =>
    rw [kids_some hn] at h
    exact wf.tree.down p n c hn h

theorem kids_nodup (p : Nat) : (kids fs.nodes p).Nodup := by
  cases hn : fs.nodes[p]? with
  | none => simp [kids, hn]
  | some n =>
    rw [kids_some hn]
    exact wf.tree.nodup p n hn

theorem kids_parent (p c : Nat) (h : c ∈ kids fs.nodes p) : parentOf fs.nodes c = some p :=
  (mem_kids wf h).2

theorem le_of_mem_level (h : c ∈ level (kids fs.nodes) k [0]) : k ≤ c := by
  induction k generalizing c with
  | zero => omega
  | succ k ih =>
    obtain ⟨p, hp, hc⟩ := parent_of_level (kids_parent wf) h
    have := ih hp
    have := wf.shape.ordered c p hc
    omega

theorem live_of_mem_level (h : c ∈ level (kids fs.nodes) (k + 1) [0]) : Live fs.nodes c := by
  rw [level_succ] at h
  obtain ⟨p, _, hc⟩ := mem_flatMap.mp h
  exact (mem_kids wf hc).1

theorem mem_level_of_live (hl : Live fs.nodes c) (hc : c ≠ 0) :
    ∃ k, c ∈ level (kids fs.nodes) (k + 1) [0] := by
  induction c using Nat.strong_induction_on with
  | _ c ih =>
    obtain ⟨n, hn, hd⟩ := hl
    obtain ⟨⟨p, hp, hlt⟩, _⟩ := wf.shape.child c n hn hc
    obtain ⟨m, hm, hmem, _, hlive⟩ := wf.tree.up c p ⟨n, hn, hd⟩ ((parentOf_some hn).trans hp)
    have hkid : c ∈ kids fs.nodes p := by rwa [kids_some hm]
    by_cases hp0 : p = 0
    · subst hp0
      exact ⟨0, by simpa [level] using hkid⟩
    · obtain ⟨k, hk⟩ := ih p hlt ⟨m, hm, hlive.resolve_right hp0⟩ hp0
      refine ⟨k + 1, ?_⟩
      rw [level_succ]
      exact mem_flatMap.mpr ⟨p, hk, hkid⟩

theorem mem_levelOrder : c ∈ levelOrder fs.nodes ↔ Live fs.nodes c ∧ c ≠ 0 := by
  rw [levelOrder, mem_levels]
  constructor
  · rintro ⟨k, _, hk⟩
    have := le_of_mem_level wf hk
    exact ⟨live_of_mem_level wf hk, by omega⟩
  · rintro ⟨hl, hc⟩
    obtain ⟨k, hk⟩ := mem_level_of_live wf hl hc
    have := le_of_mem_level wf hk
    have := hl.lt
    exact ⟨k, by omega, hk⟩

theorem levelOrder_nodup : (0 :: levelOrder fs.nodes).Nodup :=
  levels_nodup (kids_parent wf) (kids_nodup wf) wf.shape.parent_root

theorem levelOrder_length : (0 :: levelOrder fs.nodes).length ≤ fs.nodes.length := by
  obtain ⟨r, hr, _⟩ := wf.shape.root
  have hsub : (0 :: levelOrder fs.nodes) ⊆ range fs.nodes.length := by
    intro c hc
    rw [mem_range]
    rcases mem_cons.mp hc with rfl | hc
    · exact lt_of_get hr
    · exact ((mem_levelOrder wf).mp hc).1.lt
  simpa using ((levelOrder_nodup wf).subperm hsub).length_le

theorem level_exhausted : level (kids fs.nodes) fs.nodes.length [0] = [] := by
  rw [eq_nil_iff_forall_not_mem]
  intro c hc
  have hle := le_of_mem_level wf hc
  obtain ⟨r, hr, _⟩ := wf.shape.root
  have hpos := lt_of_get hr
  obtain ⟨k, hk⟩ : ∃ k, fs.nodes.length = k + 1 := ⟨fs.nodes.length - 1, by omega⟩
  rw [hk] at hc
  have := (live_of_mem_level wf hc).lt
  omega

theorem walk_levelOrder : walk (kids fs.nodes) (fs.nodes.length + 1) [0] = levelOrder fs.nodes ∧
      Finishes (kids fs.nodes) (fs.nodes.length + 1) [0] := by
  have hlen := levelOrder_length wf
  refine walk_eq_levels (level_exhausted wf) _ ?_
  simp only [levelOrder] at hlen
  simpa using Nat.le_succ_of_le hlen
end

structure Numbering where
  ino : Nat → Option Nat
  next : Nat

def Numbering.visit (nodes : List Node) (w : Numbering) (c : Nat) : Numbering :=
  match w.ino c with
  | some _ => w
  | none =>
    match nodes[c]?.bind Node.hardlinkTarget with
    | some t => { w with ino := Function.update w.ino c (w.ino t) }
    | none => { ino := Function.update w.ino c (some w.next), next := w.next + 1 }

def initialNumbering (nodes : List Node) : Numbering where
  ino := fun i => (fixedInodes nodes)[i]?.join
  next := firstFreeInode + 1

def numbering (nodes : List Node) (order : List Nat) : Numbering :=
  order.foldl (Numbering.visit nodes) (initialNumbering nodes)

def inodeNumber (nodes : List Node) (i : Nat) : Option Nat :=
  (numbering nodes (levelOrder nodes)).ino i

def nextInode (nodes : List Node) : Nat := (numbering nodes (levelOrder nodes)).next

def toWalk (size : Nat) (w : Numbering) (queue : List Nat) : Walk where
  inodes := (List.range size).map w.ino
  next := w.next
  queue := queue

theorem index_ok {α : Type} {l} {a : α} (h : l[i]? = some a) : index l i = .ok a := by
  rw [index, h]

theorem index_range_map {α : Type} {f : Nat → α} {size : Nat} (h : i < size) :
    index ((range size).map f) i = .ok (f i) :=
  index_ok (by simp [h])

theorem range_map_set {α : Type} {f} (size : Nat) (v : α) :
    ((range size).map f).set i v = (range size).map (Function.update f i v) := by
  apply ext_getElem (by simp)
  intro k h1 h2
  simp only [getElem_set, getElem_map, getElem_range, Function.update_apply]
  by_cases hk : k = i
  · rw [if_pos hk.symm, if_pos hk]
  · rw [if_neg (Ne.symm hk), if_neg hk]

theorem visit_next_mono (nodes : List Node) (w : Numbering) (c : Nat) :
    w.next ≤ (w.visit nodes c).next := by
  unfold Numbering.visit
  split
  · exact le_rfl
  · split
    · exact le_rfl
    · exact Nat.le_succ _

theorem foldl_next_mono (nodes : List Node) (w : Numbering) (order : List Nat) :
    w.next ≤ (order.foldl (Numbering.visit nodes) w).next := by
  induction order generalizing w with
  | nil => exact le_rfl
  | cons c order ih => exact (visit_next_mono nodes w c).trans (ih _)

theorem visitChild_eq (wf : WellFormed fs) (hl : Live fs.nodes c) {w : Numbering}
    (hw : w.next < 2 ^ 32) {q} :
    visitChild fs.nodes (toWalk fs.nodes.length w q) c =
      if (w.visit fs.nodes c).next < 2 ^ 32 then
        .ok (toWalk fs.nodes.length (w.visit fs.nodes c) (q ++ [c]))
      else .error (.panic .arithmeticOverflow) := by
  obtain ⟨n, hn, hd⟩ := hl
  have hlt := lt_of_get hn
  have hino : index (toWalk fs.nodes.length w q).inodes c = .ok (w.ino c) := index_range_map hlt
  rw [visitChild, except_bind_ok (index_ok hn), hd]
  simp only [Bool.false_eq_true, if_false]
  cases hc : w.ino c with
  | some k =>
    have hv : w.visit fs.nodes c = w := by simp [Numbering.visit, hc]
    rw [except_bind_ok (hino.trans (by rw [hc])), hv, if_pos hw]
    rfl
  | none =>
    rw [except_bind_ok (hino.trans (by rw [hc]))]
    cases ht : n.hardlinkTarget with
    | some t =>
      obtain ⟨htc, _⟩ := wf.shape.target c n t hn ht
      have hborrow : index (toWalk fs.nodes.length w q).inodes t = .ok (w.ino t) :=
        index_range_map (htc.trans hlt)
      have hv : w.visit fs.nodes c = { w with ino := Function.update w.ino c (w.ino t) } := by
        simp [Numbering.visit, hc, hn, ht]
      simp only [hv, if_pos hw]
      rw [except_bind_ok hborrow]
      simp only [toWalk, range_map_set]
      rfl
    | none =>
      have hv : w.visit fs.nodes c =
          { ino := Function.update w.ino c (some w.next), next := w.next + 1 } := by
        simp [Numbering.visit, hc, hn, ht]
      simp only [hv]
      by_cases hfit : w.next + 1 < 2 ^ 32
      · have hadd : u32Add (toWalk fs.nodes.length w q).next 1 = .ok (w.next + 1) := if_pos hfit
        rw [if_pos hfit, except_bind_ok hadd]
        simp only [toWalk, range_map_set]
        rfl
      · have hadd : u32Add (toWalk fs.nodes.length w q).next 1 =
            .error (.panic .arithmeticOverflow) := if_neg hfit
        rw [if_neg hfit, except_bind_error hadd]

variable {order : List Nat}

theorem visitChildren_eq (wf : WellFormed fs)
    (hl : ∀ c ∈ order, Live fs.nodes c) (hw : w.next < 2 ^ 32) (q : List Nat) :
    order.foldlM (visitChild fs.nodes) (toWalk fs.nodes.length w q) =
      if (order.foldl (Numbering.visit fs.nodes) w).next < 2 ^ 32 then
        .ok (toWalk fs.nodes.length (order.foldl (Numbering.visit fs.nodes) w) (q ++ order))
      else .error (.panic .arithmeticOverflow) := by
  induction order generalizing w q with
  | nil =>
    rw [foldl_nil, if_pos hw, append_nil]
    rfl
  | cons c order ih =>
    have hmono := foldl_next_mono fs.nodes (w.visit fs.nodes c) order
    rw [foldlM_cons, visitChild_eq wf (hl c mem_cons_self) hw]
    by_cases hfit : (w.visit fs.nodes c).next < 2 ^ 32
    · rw [if_pos hfit, except_bind_ok rfl, ih (fun d hd => hl d (mem_cons_of_mem c hd)) hfit,
        foldl_cons,
        append_assoc, singleton_append]
    · rw [if_neg hfit, except_bind_error rfl, foldl_cons, if_neg (by omega)]

theorem walkTree_eq (wf : WellFormed fs) (hw : w.next < 2 ^ 32)
    (hq : ∀ x ∈ q, x < fs.nodes.length) (hf : Finishes (kids fs.nodes) fuel q) :
    walkTree fs.nodes fuel (toWalk fs.nodes.length w q) =
      if ((walk (kids fs.nodes) fuel q).foldl (Numbering.visit fs.nodes) w).next < 2 ^ 32 then
        .ok (toWalk fs.nodes.length
          ((walk (kids fs.nodes) fuel q).foldl (Numbering.visit fs.nodes) w) [])
      else .error (.panic .arithmeticOverflow) := by
  induction fuel generalizing w q with
  | zero =>
    cases q with
    | nil =>
      rw [walk, foldl_nil, if_pos hw]
      rfl
    | cons x q => exact hf.elim
  | succ fuel ih =>
    cases q with
    | nil =>
      rw [walk, foldl_nil, if_pos hw]
      rfl
    | cons x q =>
      obtain ⟨n, hx⟩ : ∃ n, fs.nodes[x]? = some n :=
        ⟨_, getElem?_eq_getElem (hq x mem_cons_self)⟩
      have hk : n.children = kids fs.nodes x := (kids_some hx).symm
      have hlive : ∀ c ∈ kids fs.nodes x, Live fs.nodes c := fun c hc => (mem_kids wf hc).1
      have hmono := foldl_next_mono fs.nodes
        ((kids fs.nodes x).foldl (Numbering.visit fs.nodes) w)
        (walk (kids fs.nodes) fuel (q ++ kids fs.nodes x))
      have hstep := visitChildren_eq wf hlive hw q
      have hunfold : walkTree fs.nodes (fuel + 1) (toWalk fs.nodes.length w (x :: q)) =
          ((kids fs.nodes x).foldlM (visitChild fs.nodes) (toWalk fs.nodes.length w q) >>=
            walkTree fs.nodes fuel) := by
        rw [← hk]
        exact except_bind_ok (index_ok hx)
      rw [hunfold, hstep, walk, foldl_append]
      by_cases hfit : ((kids fs.nodes x).foldl (Numbering.visit fs.nodes) w).next < 2 ^ 32
      · rw [if_pos hfit, except_bind_ok rfl, ih hfit ?_ hf]
        intro y hy
        rcases mem_append.mp hy with hy | hy
        · exact hq y (mem_cons_of_mem x hy)
        · exact (hlive y hy).lt
      · rw [if_neg hfit, except_bind_error rfl, if_neg (by omega)]

def targetOf (nodes : List Node) (i : Nat) : Option Nat := nodes[i]?.bind Node.hardlinkTarget

def isPlain (nodes : List Node) (i : Nat) : Bool :=
  ((initialNumbering nodes).ino i).isNone && (targetOf nodes i).isNone

theorem visit_ino_ne (w : Numbering) (h : i ≠ c) : (w.visit nodes c).ino i = w.ino i := by
  unfold Numbering.visit
  split
  · rfl
  · split <;> exact Function.update_of_ne h _ _

theorem foldl_ino_notMem (w : Numbering) (h : i ∉ order) :
    (order.foldl (Numbering.visit nodes) w).ino i = w.ino i := by
  induction order generalizing w with
  | nil => rfl
  | cons c order ih =>
    rw [mem_cons, not_or] at h
    rw [foldl_cons, ih _ h.2, visit_ino_ne w h.1]

theorem numbering_notMem (nodes : List Node) (h : i ∉ order) :
    (numbering nodes order).ino i = (initialNumbering nodes).ino i :=
  foldl_ino_notMem _ h

theorem numbering_append : numbering nodes (pre ++ post) =
    post.foldl (Numbering.visit nodes) (numbering nodes pre) :=
  foldl_append

theorem numbering_next (hnd : order.Nodup) :
    (numbering nodes order).next = 12 + order.countP (isPlain nodes) := by
  induction order using reverseRecOn with
  | nil => rfl
  | append_singleton pre c ih =>
    have hc : c ∉ pre := fun h => (disjoint_of_nodup_append hnd) h mem_cons_self
    have hini := numbering_notMem nodes hc
    rw [numbering_append, foldl_cons, foldl_nil, countP_append, countP_singleton, isPlain,
      Numbering.visit, hini]
    have ih := ih hnd.of_append_left
    cases h1 : (initialNumbering nodes).ino c with
    | some k => simp [ih]
    | none =>
      cases h2 : nodes[c]?.bind Node.hardlinkTarget with
      | some t => simp [ih, targetOf, h2]
      | none =>
        simp only [targetOf, h2, Option.isNone_none, Bool.and_self, if_true]
        omega

section
/-! The number of a node is settled when the walk comes to it. -/

variable {pre post : List Nat}

section
variable (hnd : (pre ++ c :: post).Nodup)
include hnd

theorem numbering_at :
    (numbering nodes (pre ++ c :: post)).ino c = ((numbering nodes pre).visit nodes c).ino c := by
  have hc : c ∉ post := (nodup_cons.mp (nodup_append.mp hnd).2.1).1
  rw [numbering_append, foldl_cons, foldl_ino_notMem _ hc]

theorem numbering_before (ht : t ∈ pre) :
    (numbering nodes (pre ++ c :: post)).ino t = (numbering nodes pre).ino t := by
  rw [numbering_append]
  exact foldl_ino_notMem _ (disjoint_of_nodup_append hnd ht)

theorem notMem_before : c ∉ pre := fun h =>
  disjoint_of_nodup_append hnd h mem_cons_self

theorem numbering_fixed (h : (initialNumbering nodes).ino c = some k) :
    (numbering nodes (pre ++ c :: post)).ino c = some k := by
  have hini := numbering_notMem nodes (notMem_before hnd)
  rw [numbering_at hnd, Numbering.visit, hini, h]
  exact hini.trans h

theorem numbering_plain (h : isPlain nodes c = true) :
    (numbering nodes (pre ++ c :: post)).ino c = some (12 + pre.countP (isPlain nodes)) := by
  have hini := numbering_notMem nodes (notMem_before hnd)
  simp only [isPlain, targetOf, Bool.and_eq_true, Option.isNone_iff_eq_none] at h
  rw [numbering_at hnd, Numbering.visit, hini, h.1]
  simp only [h.2, Function.update_self, numbering_next (nodup_append.mp hnd).1]

theorem numbering_link
    (h : (initialNumbering nodes).ino c = none) (ht : targetOf nodes c = some t) :
    (numbering nodes (pre ++ c :: post)).ino c = (numbering nodes pre).ino t := by
  have hini := numbering_notMem nodes (notMem_before hnd)
  rw [targetOf] at ht
  rw [numbering_at hnd, Numbering.visit, hini, h]
  simp only [ht, Function.update_self]
end

end

theorem initial_root (h : Sound fs) : (initialNumbering fs.nodes).ino 0 = some rootInode := by
  obtain ⟨r, hr, _⟩ := h.wf.shape.root
  simp [initialNumbering, fixedInodes, hr]

theorem initial_some (hn : fs.nodes[i]? = some n) (hi : i ≠ 0) :
    (initialNumbering fs.nodes).ino i = if n.deleted then none else n.inode := by
  simp [initialNumbering, fixedInodes, hn, hi]

theorem initial_out (hi : fs.nodes.length ≤ i) : (initialNumbering fs.nodes).ino i = none := by
  simp [initialNumbering, fixedInodes, getElem?_eq_none hi]

theorem initial_live (h : Sound fs) (hn : fs.nodes[i]? = some n) (hd : n.deleted = false)
    (hi : i ≠ 0) :
    (initialNumbering fs.nodes).ino i = if i = 1 then some lostFoundInode else none := by
  rw [initial_some hn hi, hd, h.fixed i n hn]
  simp

theorem targetOf_some (hn : nodes[i]? = some n) : targetOf nodes i = n.hardlinkTarget := by
  rw [targetOf, hn]
  rfl

theorem targetOf_dir (wf : WellFormed fs) (hn : fs.nodes[i]? = some n) (hd : n.mode.isDir = true) :
    targetOf fs.nodes i = none := by
  rw [targetOf_some hn]
  by_contra hne
  have hdir := (wf.shape.kind i n hn).mpr hd
  rw [(wf.shape.link i n hn).mpr hne] at hdir
  cases hdir

theorem targetOf_root (wf : WellFormed fs) : targetOf fs.nodes 0 = none := by
  obtain ⟨r, hr, _, _, hd⟩ := wf.shape.root
  exact targetOf_dir wf hr hd

theorem targetOf_lostFound (h : Sound fs) : targetOf fs.nodes 1 = none := by
  obtain ⟨n, hn, hd⟩ := h.lostFound
  exact targetOf_dir h.wf hn hd

theorem link_not_dir (wf : WellFormed fs) (hn : fs.nodes[i]? = some n)
    (ht : n.hardlinkTarget = some t) : n.mode.isDir = false := by
  by_contra hdir
  have := targetOf_dir wf hn (by simpa using hdir)
  rw [targetOf_some hn, ht] at this
  cases this

section
variable (h : Sound fs)
include h

theorem link_index (ht : targetOf fs.nodes i = some t) : i ≠ 0 ∧ i ≠ 1 := by
  constructor
  · rintro rfl
    rw [targetOf_root h.wf] at ht
    cases ht
  · rintro rfl
    rw [targetOf_lostFound h] at ht
    cases ht

theorem leaf_index (hn : fs.nodes[i]? = some n) (hd : n.mode.isDir = false) : i ≠ 0 ∧ i ≠ 1 := by
  constructor
  · rintro rfl
    obtain ⟨r, hr, _, _, hrd⟩ := h.wf.shape.root
    rw [hn] at hr
    rw [Option.some.inj hr, hrd] at hd
    cases hd
  · rintro rfl
    obtain ⟨r, hr, hrd⟩ := h.lostFound
    rw [hn] at hr
    rw [Option.some.inj hr, hrd] at hd
    cases hd

theorem inodeNumber_root : inodeNumber fs.nodes 0 = some rootInode := by
  have h0 : 0 ∉ levelOrder fs.nodes := (nodup_cons.mp (levelOrder_nodup h.wf)).1
  rw [inodeNumber, numbering_notMem _ h0, initial_root h]
end

theorem inodeNumber_dead (wf : WellFormed fs) (hl : ¬ Live fs.nodes i) (hi : i ≠ 0) :
    inodeNumber fs.nodes i = none := by
  have hm : i ∉ levelOrder fs.nodes := fun hm => hl ((mem_levelOrder wf).mp hm).1
  rw [inodeNumber, numbering_notMem _ hm]
  cases hn : fs.nodes[i]? with
  | none => exact initial_out (getElem?_eq_none_iff.mp hn)
  | some n =>
    rw [initial_some hn hi, if_pos]
    by_contra hd
    exact hl ⟨n, hn, by simpa using hd⟩

theorem exists_position (wf : WellFormed fs) (hl : Live fs.nodes i) (hi : i ≠ 0) :
    ∃ pre post, levelOrder fs.nodes = pre ++ i :: post ∧ (pre ++ i :: post).Nodup := by
  obtain ⟨pre, post, he⟩ := append_of_mem ((mem_levelOrder wf).mpr ⟨hl, hi⟩)
  exact ⟨pre, post, he, he ▸ (nodup_cons.mp (levelOrder_nodup wf)).2⟩

theorem inodeNumber_lostFound (h : Sound fs) (hl : Live fs.nodes 1) :
    inodeNumber fs.nodes 1 = some lostFoundInode := by
  obtain ⟨pre, post, he, hnd⟩ := exists_position h.wf hl (by omega)
  obtain ⟨n, hn, hd⟩ := hl
  rw [inodeNumber, he]
  exact numbering_fixed hnd (initial_live h hn hd (by omega))

theorem isPlain_iff (h : Sound fs) (hl : Live fs.nodes i) (hi : i ≠ 0) :
    isPlain fs.nodes i = true ↔ i ≠ 1 ∧ targetOf fs.nodes i = none := by
  obtain ⟨n, hn, hd⟩ := hl
  rw [isPlain, initial_live h hn hd hi]
  by_cases h1 : i = 1 <;> simp [h1]

theorem inodeNumber_plain (h : Sound fs) (hl : Live fs.nodes i) (hi : i ≠ 0) (h1 : i ≠ 1)
    (ht : targetOf fs.nodes i = none) : ∃ pre post, levelOrder fs.nodes = pre ++ i :: post ∧
      inodeNumber fs.nodes i = some (12 + pre.countP (isPlain fs.nodes)) := by
  obtain ⟨pre, post, he, hnd⟩ := exists_position h.wf hl hi
  refine ⟨pre, post, he, ?_⟩
  rw [inodeNumber, he]
  exact numbering_plain hnd ((isPlain_iff h hl hi).mpr ⟨h1, ht⟩)

theorem nextInode_eq (wf : WellFormed fs) :
    nextInode fs.nodes = 12 + (levelOrder fs.nodes).countP (isPlain fs.nodes) :=
  numbering_next (nodup_cons.mp (levelOrder_nodup wf)).2

section
variable (h : Sound fs)
include h

theorem owner_number (hl : Live fs.nodes i) (ht : targetOf fs.nodes i = none) :
    ∃ k, inodeNumber fs.nodes i = some k ∧
      (i = 0 ∧ k = 2 ∨ i = 1 ∧ k = 11 ∨ i ≠ 0 ∧ i ≠ 1 ∧ 12 ≤ k ∧ k < nextInode fs.nodes) := by
  by_cases hi : i = 0
  · subst hi
    exact ⟨2, inodeNumber_root h, .inl ⟨rfl, rfl⟩⟩
  by_cases h1 : i = 1
  · subst h1
    exact ⟨11, inodeNumber_lostFound h hl, .inr (.inl ⟨rfl, rfl⟩)⟩
  obtain ⟨pre, post, he, hk⟩ := inodeNumber_plain h hl hi h1 ht
  refine ⟨_, hk, .inr (.inr ⟨hi, h1, by omega, ?_⟩)⟩
  rw [nextInode_eq h.wf, he, countP_append, countP_cons, if_pos ((isPlain_iff h hl hi).mpr ⟨h1,
    ht⟩)]
  omega

theorem plain_lt (hij : Precedes (levelOrder fs.nodes) i j)
    (hi : isPlain fs.nodes i = true) (hj : isPlain fs.nodes j = true)
    (ha : inodeNumber fs.nodes i = some a) (hb : inodeNumber fs.nodes j = some b) : a < b := by
  obtain ⟨pre, post, he, hm⟩ := hij
  have hnd := (nodup_cons.mp (levelOrder_nodup h.wf)).2
  have hbj := numbering_plain (he ▸ hnd) hj
  rw [inodeNumber, he] at hb
  rw [hb] at hbj
  obtain ⟨s, t, rfl⟩ := append_of_mem hm
  rw [append_assoc, cons_append] at he
  have hai := numbering_plain (he ▸ hnd) hi
  rw [inodeNumber, he] at ha
  rw [ha] at hai
  simp only [Option.some.injEq, countP_append, countP_cons, hi, if_true] at hai hbj
  omega

theorem owner_injective (hi : Live fs.nodes i) (hti : targetOf fs.nodes i = none)
    (hj : Live fs.nodes j) (htj : targetOf fs.nodes j = none)
    (he : inodeNumber fs.nodes i = inodeNumber fs.nodes j) : i = j := by
  obtain ⟨a, ha, hac⟩ := owner_number h hi hti
  obtain ⟨b, hb, hbc⟩ := owner_number h hj htj
  have hab : a = b := Option.some.inj (ha.symm.trans (he.trans hb))
  by_cases hsmall : i ≤ 1 ∨ j ≤ 1
  · omega
  have hi0 : i ≠ 0 := by omega
  have hj0 : j ≠ 0 := by omega
  have hpi : isPlain fs.nodes i = true := (isPlain_iff h hi hi0).mpr ⟨by omega, hti⟩
  have hpj : isPlain fs.nodes j = true := (isPlain_iff h hj hj0).mpr ⟨by omega, htj⟩
  by_contra hne
  obtain ⟨pre, post, hord, _⟩ := exists_position h.wf hi hi0
  have hjm : j ∈ pre ++ i :: post := hord ▸ (mem_levelOrder h.wf).mpr ⟨hj, hj0⟩
  rcases mem_append.mp hjm with hm | hm
  · have := plain_lt h ⟨pre, post, hord, hm⟩ hpj hpi hb ha
    omega
  · rcases mem_cons.mp hm with hm | hm
    · exact hne hm.symm
    · obtain ⟨s, t, rfl⟩ := append_of_mem hm
      have := plain_lt h ⟨pre ++ i :: s, t, by rw [hord]; simp, by simp⟩ hpi hpj ha hb
      omega

section
variable (hl : Live fs.nodes i) (ht : targetOf fs.nodes i = some t)
include hl ht

theorem inodeNumber_link (hb : Precedes (levelOrder fs.nodes) t i) :
    inodeNumber fs.nodes i = inodeNumber fs.nodes t := by
  obtain ⟨hi0, hi1⟩ := link_index h ht
  obtain ⟨pre, post, he, hm⟩ := hb
  have hnd : (pre ++ i :: post).Nodup := he ▸ (nodup_cons.mp (levelOrder_nodup h.wf)).2
  obtain ⟨n, hn, hd⟩ := hl
  have hini := initial_live h hn hd hi0
  rw [if_neg hi1] at hini
  rw [inodeNumber, inodeNumber, he, numbering_link hnd hini ht, numbering_before hnd hm]

theorem inodeNumber_link_none (hb : ¬ Precedes (levelOrder fs.nodes) t i) :
    inodeNumber fs.nodes i = none := by
  obtain ⟨hi0, hi1⟩ := link_index h ht
  obtain ⟨pre, post, he, hnd⟩ := exists_position h.wf hl hi0
  have htm : t ∉ pre := fun hm => hb ⟨pre, post, he, hm⟩
  obtain ⟨n, hn, hd⟩ := hl
  have hini := initial_live h hn hd hi0
  rw [if_neg hi1] at hini
  rw [inodeNumber, he, numbering_link hnd hini ht, numbering_notMem _ htm]
  rw [targetOf_some hn] at ht
  obtain ⟨_, m, hm, hmode⟩ := h.wf.shape.target i n t hn ht
  obtain ⟨ht0, ht1⟩ := leaf_index h hm (by rw [hmode]; exact link_not_dir h.wf hn ht)
  rw [initial_some hm ht0, h.fixed t m hm, if_neg ht1]
  simp
end

/-- The inode of a node is that of the node its chain of links ends at. -/
theorem number_resolve (hl : Live fs.nodes i) (hk : inodeNumber fs.nodes i = some k) :
    Live fs.nodes (resolve fs.nodes i) ∧ targetOf fs.nodes (resolve fs.nodes i) = none ∧
      inodeNumber fs.nodes (resolve fs.nodes i) = some k := by
  induction i using Nat.strong_induction_on with
  | _ i ih =>
    obtain ⟨n, hn, hd⟩ := hl
    cases ht : n.hardlinkTarget with
    | none =>
      rw [resolve_plain hn ht]
      exact ⟨⟨n, hn, hd⟩, (targetOf_some hn).trans ht, hk⟩
    | some t =>
      have hto : targetOf fs.nodes i = some t := (targetOf_some hn).trans ht
      rw [resolve_link h.wf.shape hn ht]
      by_cases hb : Precedes (levelOrder fs.nodes) t i
      · rw [inodeNumber_link h ⟨n, hn, hd⟩ hto hb] at hk
        exact ih t (h.wf.shape.target i n t hn ht).1 ((mem_levelOrder h.wf).mp hb.left).1 hk
      · rw [inodeNumber_link_none h ⟨n, hn, hd⟩ hto hb] at hk
        cases hk
end

end Ext4InodeAllocation
