import Firkin.Ext4BuilderInvariant

/-! # Deleting a subtree

`delete_subtree` empties children lists before it recurses, so the invariant is
broken while it runs. What carries the recursion is local: below the node being
deleted the children lists and the index are still faithful. -/
namespace Ext4BuilderDelete

open Ext4Types Ext4Path Ext4Builder Ext4BuilderInvariant ParentForest FaultMonad FileSystemBuilder
open List

variable {fs fs' : FileSystemBuilder} {i idx : Nat} {n : Node}

theorem getNode_ok (h : fs.nodes[i]? = some n) : getNode i fs = .ok n fs := by
  simp [getNode, run_bind, h]

theorem modifyNode_ok (h : i < fs.nodes.length) :
    modifyNode i f fs = .ok () (fs.updateNode i f) := by
  rw [modifyNode, bind_of_ok (getNode_ok (getElem?_eq_getElem h))]
  rfl

theorem askNodePath_ok (h : nodePath fs.nodes i = some key) : askNodePath i fs = .ok key fs := by
  simp [askNodePath, run_bind, h]

theorem updateNode_get (fs : FileSystemBuilder) (i j : Nat) (f : Node → Node) :
    (fs.updateNode i f).nodes[j]? = if i = j then fs.nodes[j]?.map f else fs.nodes[j]? := by
  simp only [updateNode, getElem?_modify]
  by_cases h : i = j <;> simp [h]

theorem updateNode_get_self (h : fs.nodes[i]? = some n) :
    (fs.updateNode i f).nodes[i]? = some (f n) := by
  simp [updateNode_get, h]

theorem updateNode_get_ne (h : i ≠ j) : (fs.updateNode i f).nodes[j]? = fs.nodes[j]? := by
  simp [updateNode_get, h]

@[simp] theorem updateNode_length (fs : FileSystemBuilder) (i : Nat) :
    (fs.updateNode i f).nodes.length = fs.nodes.length := by
  simp [updateNode]

@[simp] theorem updateNode_pathIndex (fs : FileSystemBuilder) (i : Nat) (f : Node → Node) :
    (fs.updateNode i f).pathIndex = fs.pathIndex := rfl

theorem updateNode_static (hf : ∀ n, static (f n) = static n) :
    SameStatic fs.nodes (fs.updateNode i f).nodes := by
  apply ext_getElem?
  intro j
  rw [getElem?_map, getElem?_map, updateNode_get]
  split
  · cases fs.nodes[j]? <;> simp [hf]
  · rfl

/-- `fs'` is `fs` with exactly the nodes of `S` turned into tombstones. -/
structure Pruned (fs fs' : FileSystemBuilder) (S : Nat → Prop) : Prop where
  static : SameStatic fs.nodes fs'.nodes
  outside : ∀ i, ¬ S i → fs'.nodes[i]? = fs.nodes[i]?
  inside : ∀ (i : Nat) (n : Node), S i → fs'.nodes[i]? = some n → n.deleted = true ∧ n.children = []
  index : ∀ k i, fs'.pathIndex k = some i ↔ fs.pathIndex k = some i ∧ ¬ S i
  config : SameConfig fs fs'

/-- Below `idx` the children lists and the index still describe the live nodes. -/
structure Prunable (fs : FileSystemBuilder) (idx : Nat) : Prop where
  shape : Shape fs.nodes
  live : Live fs.nodes idx
  sound : ∀ k i, fs.pathIndex k = some i → k = keyOf (pathOf fs.nodes i)
  complete : ∀ i, Below (parentOf fs.nodes) idx i → Live fs.nodes i →
    fs.pathIndex (keyOf (pathOf fs.nodes i)) = some i
  nodup : ∀ (i : Nat) (n : Node), Below (parentOf fs.nodes) idx i → fs.nodes[i]? = some n →
    n.deleted = false → n.children.Nodup
  down : ∀ (i : Nat) (n : Node) c, Below (parentOf fs.nodes) idx i → fs.nodes[i]? = some n →
    n.deleted = false → c ∈ n.children → Live fs.nodes c ∧ parentOf fs.nodes c = some i
  up : ∀ c i, Below (parentOf fs.nodes) idx i → Live fs.nodes c → parentOf fs.nodes c = some i →
    ∃ n : Node, fs.nodes[i]? = some n ∧ n.deleted = false ∧ c ∈ n.children

theorem prunable_of_wellFormed (h : WellFormed fs) (hl : Live fs.nodes idx) : Prunable fs idx where
  shape := h.shape
  live := hl
  sound := fun k i hk => (h.index.sound k i hk).2
  complete := fun i _ hi => h.index.complete i hi
  nodup := fun i n _ hn _ => h.tree.nodup i n hn
  down := fun i n c _ hn _ hc => h.tree.down i n c hn hc
  up := by
    intro c i hb hc hp
    obtain ⟨n, hn, hmem, _, hdel⟩ := h.tree.up c i hc hp
    refine ⟨n, hn, ?_, hmem⟩
    rcases hdel with hdel | rfl
    · exact hdel
    · have h0 := hb.of_root h.shape.parent_root
      subst h0
      obtain ⟨m, hm, hlive⟩ := hl
      rw [hn] at hm
      rwa [Option.some.inj hm]

theorem Prunable.frame (h : Prunable fs idx) (hs : SameStatic fs.nodes fs'.nodes)
    (hsame : ∀ i, Below (parentOf fs.nodes) idx i → fs'.nodes[i]? = fs.nodes[i]?)
    (hsub : ∀ k i, fs'.pathIndex k = some i → fs.pathIndex k = some i)
    (hkeep : ∀ k i, fs.pathIndex k = some i → Below (parentOf fs.nodes) idx i →
      fs'.pathIndex k = some i) : Prunable fs' idx := by
  have hlive : ∀ i, Below (parentOf fs.nodes) idx i → (Live fs'.nodes i ↔ Live fs.nodes i) := by
    intro i hb
    simp only [Live, hsame i hb]
  refine ⟨hs.shape h.shape, (hlive idx .refl).mpr h.live, ?_, ?_, ?_, ?_, ?_⟩
  · intro k i hk
    rw [hs.pathOf]
    exact h.sound k i (hsub k i hk)
  · intro i hb hi
    rw [hs.parentOf] at hb
    rw [hs.pathOf]
    exact hkeep _ _ (h.complete i hb ((hlive i hb).mp hi)) hb
  · intro i n hb hn hd
    rw [hs.parentOf] at hb
    exact h.nodup i n hb (hsame i hb ▸ hn) hd
  · intro i n c hb hn hd hc
    rw [hs.parentOf] at hb ⊢
    obtain ⟨hl, hp⟩ := h.down i n c hb (hsame i hb ▸ hn) hd hc
    exact ⟨(hlive c (.step hp hb)).mpr hl, hp⟩
  · intro c i hb hc hp
    rw [hs.parentOf] at hb hp
    obtain ⟨n, hn, hd, hmem⟩ := h.up c i hb ((hlive c (.step hp hb)).mp hc) hp
    exact ⟨n, by rw [hsame i hb, hn], hd, hmem⟩

theorem Prunable.child (h : Prunable fs idx) (hn : fs.nodes[idx]? = some n)
    (hd : n.deleted = false) (hc : c ∈ n.children) : Prunable fs c := by
  obtain ⟨hl, hp⟩ := h.down idx n c .refl hn hd hc
  have hb : ∀ {i}, Below (parentOf fs.nodes) c i → Below (parentOf fs.nodes) idx i :=
    fun hi => (Below.step hp .refl).trans hi
  exact ⟨h.shape, hl, h.sound, fun i hi => h.complete i (hb hi), fun i n hi => h.nodup i n (hb hi),
    fun i n c hi => h.down i n c (hb hi), fun c i hi => h.up c i (hb hi)⟩

variable {S : Nat → Prop}

theorem Pruned.frame_prunable (h : Pruned fs fs' S) (hp : Prunable fs idx)
    (hdis : ∀ i, Below (parentOf fs.nodes) idx i → ¬ S i) : Prunable fs' idx :=
  hp.frame h.static (fun i hb => h.outside i (hdis i hb)) (fun k i hk => ((h.index k i).mp hk).1)
    (fun k i hk hb => (h.index k i).mpr ⟨hk, hdis i hb⟩)

theorem Pruned.refl (fs : FileSystemBuilder) : Pruned fs fs (fun _ => False) :=
  ⟨rfl, fun _ _ => rfl, fun _ _ h => h.elim, fun _ _ => by simp, ⟨rfl, rfl, rfl, rfl⟩⟩

theorem Pruned.trans (h : Pruned fs fs₁ S) (k : Pruned fs₁ fs₂ T) :
    Pruned fs fs₂ (fun i => S i ∨ T i) where
  static := h.static.trans k.static
  outside := by
    intro i hi
    rw [k.outside i (fun ht => hi (.inr ht)), h.outside i (fun hs => hi (.inl hs))]
  inside := by
    intro i n hi hn
    by_cases ht : T i
    · exact k.inside i n ht hn
    · rw [k.outside i ht] at hn
      exact h.inside i n (hi.resolve_right ht) hn
  index := by
    intro key i
    rw [k.index, h.index, not_or, and_assoc]
  config := h.config.trans k.config

theorem Pruned.congr (h : Pruned fs fs' S) (hst : ∀ i, S i ↔ T i) : Pruned fs fs' T := by
  have : S = T := funext fun i => propext (hst i)
  exact this ▸ h

theorem Pruned.live_iff (h : Pruned fs fs' S) (i : Nat) :
    Live fs'.nodes i ↔ Live fs.nodes i ∧ ¬ S i := by
  by_cases hi : S i
  · simp only [hi, not_true_eq_false, and_false, iff_false]
    rintro ⟨n, hn, hd⟩
    rw [(h.inside i n hi hn).1] at hd
    cases hd
  · simp [Live, h.outside i hi, hi]

private theorem forM_pruned (del : Nat → BuilderM Unit)
    (hdel : ∀ (fs : FileSystemBuilder) c, fs.nodes.length = len → Prunable fs c →
      parentOf fs.nodes c = some p → ∃ fs', del c fs = .ok () fs' ∧
        Pruned fs fs' (fun i => Below (parentOf fs.nodes) c i ∧ Live fs.nodes i))
    (cs : List Nat) (hnd : cs.Nodup) (fs : FileSystemBuilder) (hlen : fs.nodes.length = len)
    (hcs : ∀ c ∈ cs, Prunable fs c ∧ parentOf fs.nodes c = some p) :
    ∃ fs', cs.forM del fs = .ok () fs' ∧
      Pruned fs fs' (fun i => (∃ c ∈ cs, Below (parentOf fs.nodes) c i) ∧ Live fs.nodes i) := by
  induction cs generalizing fs with
  | nil => exact ⟨fs, rfl, (Pruned.refl fs).congr (by simp)⟩
  | cons c cs ih =>
    obtain ⟨hc, hpc⟩ := hcs c (by simp)
    obtain ⟨fs₁, h₁, hp₁⟩ := hdel fs c hlen hc hpc
    obtain ⟨hnotin, hnd⟩ := nodup_cons.mp hnd
    have hord := hc.shape.ordered
    have hpar := hp₁.static.parentOf
    have hrest : ∀ d ∈ cs, Prunable fs₁ d ∧ parentOf fs₁.nodes d = some p := by
      intro d hd
      obtain ⟨hd₁, hpd⟩ := hcs d (by simp [hd])
      have hne : d ≠ c := fun e => hnotin (e ▸ hd)
      refine ⟨hp₁.frame_prunable hd₁ ?_, hpar ▸ hpd⟩
      intro i hb hi
      exact Below.siblings_disjoint hord hpd hpc hne hb hi.1
    obtain ⟨fs₂, h₂, hp₂⟩ := ih hnd fs₁ (hp₁.static.length.trans hlen) hrest
    refine ⟨fs₂, ?_, (hp₁.trans hp₂).congr ?_⟩
    · change (del c >>= fun _ => cs.forM del) fs = _
      rw [bind_of_ok h₁, h₂]
    · intro i
      rw [hpar, hp₁.live_iff]
      constructor
      · rintro (⟨hb, hl⟩ | ⟨⟨d, hd, hb⟩, hl, _⟩)
        · exact ⟨⟨c, by simp, hb⟩, hl⟩
        · exact ⟨⟨d, by simp [hd], hb⟩, hl⟩
      · rintro ⟨⟨d, hd, hb⟩, hl⟩
        by_cases hci : Below (parentOf fs.nodes) c i
        · exact .inl ⟨hci, hl⟩
        · rcases mem_cons.mp hd with rfl | hd
          · exact absurd hb hci
          · exact .inr ⟨⟨d, hd, hb⟩, hl, fun h => hci h.1⟩

section
variable (h : Prunable fs idx) (hn : fs.nodes[idx]? = some n)
include h hn

private theorem emptied_prunable (hd : n.deleted = false) (hc : c ∈ n.children) :
    Prunable (fs.updateNode idx fun n => { n with children := [] }) c := by
  obtain ⟨_, hp⟩ := h.down idx n c .refl hn hd hc
  have hlt := h.shape.ordered c idx hp
  refine (h.child hn hd hc).frame (updateNode_static fun _ => rfl) ?_ (fun _ _ hk => hk)
    (fun _ _ hk _ => hk)
  intro i hb
  exact updateNode_get_ne (by have := hb.le h.shape.ordered; omega)

theorem below_children (i : Nat) : Below (parentOf fs.nodes) idx i ∧ Live fs.nodes i ↔
      i = idx ∨ ((∃ c ∈ n.children, Below (parentOf fs.nodes) c i) ∧ Live fs.nodes i) := by
  obtain ⟨n', hn', hd⟩ := h.live
  cases hn.symm.trans hn'
  constructor
  · rintro ⟨hb, hl⟩
    by_cases hi : i = idx
    · exact .inl hi
    · obtain ⟨c, hc, hci⟩ := hb.cases_child hi
      -- the ancestors of a live node inside the subtree are live
      have hup : ∀ j, Below (parentOf fs.nodes) c j → Live fs.nodes j → Live fs.nodes c := by
        intro j hj
        induction hj with
        | refl => exact id
        | @step j q hq hcq ih =>
          intro hlj
          obtain ⟨m, hm, hmd, _⟩ := h.up j q ((Below.step hc .refl).trans hcq) hlj hq
          exact ih ⟨m, hm, hmd⟩
      obtain ⟨m, hm, _, hmem⟩ := h.up c idx .refl (hup i hci hl) hc
      cases hn.symm.trans hm
      exact .inr ⟨⟨c, hmem, hci⟩, hl⟩
  · rintro (rfl | ⟨⟨c, hc, hb⟩, hl⟩)
    · exact ⟨.refl, h.live⟩
    · exact ⟨(Below.step (h.down idx n c .refl hn hd hc).2 .refl).trans hb, hl⟩

private theorem Pruned.seal (hp : Pruned (fs.updateNode idx fun n => { n with children := [] }) fs₂
      (fun i => (∃ c ∈ n.children, Below (parentOf fs.nodes) c i) ∧ Live fs.nodes i)) :
    Pruned fs ((fs₂.removeKey (keyOf (pathOf fs.nodes idx))).updateNode idx
      fun n => { n with deleted := true })
      (fun i => Below (parentOf fs.nodes) idx i ∧ Live fs.nodes i) := by
  obtain ⟨n', hn', hd⟩ := h.live
  cases hn.symm.trans hn'
  set fs₁ := fs.updateNode idx fun n => { n with children := [] }
  have hst₁ : SameStatic fs.nodes fs₁.nodes := updateNode_static fun _ => rfl
  have hidx : fs₁.nodes[idx]? = some { n with children := [] } := updateNode_get_self hn
  have hself : ¬ ((∃ c ∈ n.children, Below (parentOf fs.nodes) c idx) ∧ Live fs.nodes idx) := by
    rintro ⟨⟨c, hc, hb⟩, _⟩
    have h1 := hb.le h.shape.ordered
    have h2 := h.shape.ordered c idx (h.down idx n c .refl hn hd hc).2
    omega
  have hmark : fs₂.nodes[idx]? = some { n with children := [] } := by
    rw [hp.outside idx hself, hidx]
  constructor
  · exact (hst₁.trans hp.static).trans (updateNode_static fun _ => rfl)
  · intro i hi
    rw [below_children h hn, not_or] at hi
    rw [updateNode_get_ne (Ne.symm hi.1)]
    exact (hp.outside i hi.2).trans (updateNode_get_ne (Ne.symm hi.1))
  · intro i m hi hm
    rcases (below_children h hn i).mp hi with rfl | hi
    · rw [updateNode_get_self (show (fs₂.removeKey _).nodes[_]? = some _ from hmark)] at hm
      cases hm
      exact ⟨rfl, rfl⟩
    · have hne : i ≠ idx := fun e => hself (e ▸ hi)
      rw [updateNode_get_ne (Ne.symm hne)] at hm
      exact hp.inside i m hi hm
  · intro k i
    have hbc := below_children h hn i
    simp only [updateNode_pathIndex, removeKey]
    by_cases hk : k = keyOf (pathOf fs.nodes idx)
    · subst hk
      have hc := h.complete idx .refl h.live
      simp only [↓reduceIte, reduceCtorEq, hc, Option.some.injEq, false_iff, not_and]
      rintro rfl hns
      exact hns .refl h.live
    · rw [if_neg hk, hp.index, hbc, not_or]
      constructor
      · rintro ⟨hki, hni⟩
        exact ⟨hki, fun e => hk (e ▸ h.sound k i hki), hni⟩
      · rintro ⟨hki, _, hni⟩
        exact ⟨hki, hni⟩
  · exact hp.config
end

theorem live_emptied (hn : fs.nodes[idx]? = some n) {i} :
    Live (fs.updateNode idx fun n => { n with children := [] }).nodes i ↔ Live fs.nodes i := by
  simp only [Live, updateNode_get]
  by_cases hi : idx = i
  · subst hi
    simp [hn]
  · simp [hi]

/-- Everything but the unlinking, which only concerns the parent. -/
theorem deleteSubtree_eq (fuel : Nat) (b : Bool) (h : Prunable fs idx)
    (hn : fs.nodes[idx]? = some n) (hf : fs.nodes.length - idx < fuel) :
    ∃ fs', deleteSubtree fuel idx b fs = (if b then unlinkNode idx n else pure ()) fs' ∧
      Pruned fs fs' (fun i => Below (parentOf fs.nodes) idx i ∧ Live fs.nodes i) := by
  induction fuel generalizing fs idx n b with
  | zero => omega
  | succ fuel ih =>
    obtain ⟨n', hn', hd⟩ := h.live
    cases hn.symm.trans hn'
    have hlt : idx < fs.nodes.length := lt_of_get hn
    set fs₁ := fs.updateNode idx fun n => { n with children := [] } with hfs₁
    have hst₁ : SameStatic fs.nodes fs₁.nodes := updateNode_static fun _ => rfl
    obtain ⟨fs₂, h₂, hp₂⟩ := forM_pruned (fun child => deleteSubtree fuel child false)
      (p := idx) (fun gs c hlen hc hpc => by
        obtain ⟨m, hm, _⟩ := hc.live
        exact ih false hc hm (by
          have := hc.shape.ordered c idx hpc
          omega)) n.children (h.nodup idx n .refl hn hd) fs₁ (updateNode_length fs idx) (by
        intro c hc
        refine ⟨emptied_prunable h hn hd hc, ?_⟩
        rw [hst₁.parentOf]
        exact (h.down idx n c .refl hn hd hc).2)
    have hp₂' := hp₂.congr (T := fun i =>
      (∃ c ∈ n.children, Below (parentOf fs.nodes) c i) ∧ Live fs.nodes i)
      (fun i => by rw [hst₁.parentOf, live_emptied hn])
    have hst₂ : SameStatic fs.nodes fs₂.nodes := hst₁.trans hp₂.static
    obtain ⟨key, hkey, hrem⟩ := (hst₂.shape h.shape).removedKey_eq (i := idx)
      (by rw [hst₂.length]; exact hlt)
    rw [hst₂.pathOf] at hrem
    refine ⟨_, ?_, Pruned.seal h hn hp₂'⟩
    rw [deleteSubtree, bind_of_ok (getNode_ok hn), if_neg (by simp [hd]),
      bind_of_ok (modifyNode_ok hlt), bind_of_ok h₂, bind_of_ok (askNodePath_ok hkey),
      bind_of_ok (run_modify _), hrem,
      bind_of_ok (modifyNode_ok (by simpa [removeKey, hst₂.length] using hlt))]

/-- `fs'` is `fs` without the live nodes of `S`, link counts included. -/
structure Cut (fs fs' : FileSystemBuilder) (S : Nat → Prop) : Prop where
  static : SameStatic fs.nodes fs'.nodes
  inside : ∀ (i : Nat) (n : Node), S i → fs'.nodes[i]? = some n → n.deleted = true ∧ n.children = []
  outside : ∀ (i : Nat) (n n' : Node), ¬ S i → fs.nodes[i]? = some n → fs'.nodes[i]? = some n' →
    n'.deleted = n.deleted ∧ n'.children.Sublist n.children ∧
    (∀ c, c ∈ n'.children ↔ c ∈ n.children ∧ ¬ S c) ∧
    (n.deleted = false → n.mode.isDir = true →
      n'.dirLinkCount + dirChildren fs.nodes n = n.dirLinkCount + dirChildren fs'.nodes n')
  index : ∀ k i, fs'.pathIndex k = some i ↔ fs.pathIndex k = some i ∧ ¬ S i
  config : SameConfig fs fs'

theorem Cut.live_iff (h : Cut fs fs' S) (i : Nat) : Live fs'.nodes i ↔ Live fs.nodes i ∧ ¬ S i := by
  by_cases hi : S i
  · simp only [hi, not_true_eq_false, and_false, iff_false]
    rintro ⟨n, hn, hd⟩
    rw [(h.inside i n hi hn).1] at hd
    cases hd
  · simp only [hi, not_false_eq_true, and_true]
    constructor
    · rintro ⟨n', hn', hd⟩
      obtain ⟨n, hn, _⟩ := h.static.symm.some hn'
      exact ⟨n, hn, (h.outside i n n' hi hn hn').1 ▸ hd⟩
    · rintro ⟨n, hn, hd⟩
      obtain ⟨n', hn', _⟩ := h.static.some hn
      exact ⟨n', hn', (h.outside i n n' hi hn hn').1.trans hd⟩

theorem Cut.congr (h : Cut fs fs' S) (hst : ∀ i, S i ↔ T i) : Cut fs fs' T := by
  have : S = T := funext fun i => propext (hst i)
  exact this ▸ h

theorem Cut.wellFormed (h : Cut fs fs' S) (wf : WellFormed fs)
    (hclosed : ∀ c i, parentOf fs.nodes c = some i → S i → Live fs.nodes c → S c) :
    WellFormed fs' where
  shape := h.static.shape wf.shape
  index := by
    constructor
    · intro k i hk
      obtain ⟨hk, hi⟩ := (h.index k i).mp hk
      obtain ⟨hl, hkey⟩ := wf.index.sound k i hk
      exact ⟨(h.live_iff i).mpr ⟨hl, hi⟩, by rw [h.static.pathOf]; exact hkey⟩
    · intro i hi
      obtain ⟨hl, hi⟩ := (h.live_iff i).mp hi
      rw [h.static.pathOf]
      exact (h.index _ i).mpr ⟨wf.index.complete i hl, hi⟩
  tree := by
    constructor
    · intro i n' hn'
      by_cases hi : S i
      · rw [(h.inside i n' hi hn').2]; exact nodup_nil
      · obtain ⟨n, hn, _⟩ := h.static.symm.some hn'
        exact (wf.tree.nodup i n hn).sublist (h.outside i n n' hi hn hn').2.1
    · intro i n' c hn' hc
      by_cases hi : S i
      · rw [(h.inside i n' hi hn').2] at hc
        cases hc
      · obtain ⟨n, hn, _⟩ := h.static.symm.some hn'
        obtain ⟨hc, hSc⟩ := ((h.outside i n n' hi hn hn').2.2.1 c).mp hc
        obtain ⟨hl, hp⟩ := wf.tree.down i n c hn hc
        exact ⟨(h.live_iff c).mpr ⟨hl, hSc⟩, by rw [h.static.parentOf, hp]⟩
    · intro c i hc hp
      rw [h.static.parentOf] at hp
      obtain ⟨hl, hSc⟩ := (h.live_iff c).mp hc
      have hi : ¬ S i := fun hi => hSc (hclosed c i hp hi hl)
      obtain ⟨n, hn, hmem, hdir, hdel⟩ := wf.tree.up c i hl hp
      obtain ⟨n', hn', he⟩ := h.static.some hn
      obtain ⟨hd, _, hch, _⟩ := h.outside i n n' hi hn hn'
      refine ⟨n', hn', (hch c).mpr ⟨hmem, hSc⟩, ?_, by rwa [hd]⟩
      rw [(static_fields he).2.2.2.1, hdir]
    · intro i n' hn' hd hdir
      have hi : ¬ S i := fun hi => by rw [(h.inside i n' hi hn').1] at hd; cases hd
      obtain ⟨n, hn, he⟩ := h.static.symm.some hn'
      obtain ⟨hdel, _, _, hlinks⟩ := h.outside i n n' hi hn hn'
      have hdir' : n.mode.isDir = true := by rw [(static_fields he).2.2.2.1, hdir]
      have hold := wf.tree.links i n hn (hdel ▸ hd) hdir'
      have := hlinks (hdel ▸ hd) hdir'
      omega

/-- The live nodes of the subtree at `idx`. -/
def Subtree (nodes : List Node) (idx i : Nat) : Prop := Below (parentOf nodes) idx i ∧ Live nodes i

theorem subtree_closed (hp : parentOf fs.nodes c = some i)
    (hi : Subtree fs.nodes idx i) (hc : Live fs.nodes c) : Subtree fs.nodes idx c :=
  ⟨.step hp hi.1, hc⟩

private theorem subtree_up (wf : WellFormed fs) (hl : Live fs.nodes idx)
    (hc : Subtree fs.nodes idx c) (hne : c ≠ idx) (hp : parentOf fs.nodes c = some i) :
    Subtree fs.nodes idx i := by
  have hb := hc.1.parent hne hp
  obtain ⟨n, hn, hd, _⟩ := (prunable_of_wellFormed wf hl).up c i hb hc.2 hp
  exact ⟨hb, n, hn, hd⟩

private theorem dirChildren_static (h : SameStatic fs.nodes fs'.nodes) (n : Node) :
    dirChildren fs'.nodes n = dirChildren fs.nodes n := by
  unfold dirChildren
  congr 1
  funext c
  have hg := h.get c
  cases hn : fs.nodes[c]? with
  | none =>
    rw [hn, Option.map_none, Option.map_eq_none_iff] at hg
    simp [hg]
  | some m =>
    obtain ⟨m', hm', he⟩ := h.some hn
    simp [hm', (static_fields he).2.2.2.1]

/-- A pruned state loses no child outside the subtree, except the subtree's root. -/
private theorem pruned_cut_at (wf : WellFormed fs) (hl : Live fs.nodes idx)
    (hp : Pruned fs fs₁ (Subtree fs.nodes idx)) (hi : ¬ Subtree fs.nodes idx i)
    (hn' : fs₁.nodes[i]? = some n') (hpar : parentOf fs.nodes idx ≠ some i) :
    fs.nodes[i]? = some n' ∧ ∀ c ∈ n'.children, ¬ Subtree fs.nodes idx c := by
  rw [hp.outside i hi] at hn'
  refine ⟨hn', fun c hc hs => ?_⟩
  have hpc := (wf.tree.down i n' c hn' hc).2
  by_cases hne : c = idx
  · exact hpar (hne ▸ hpc)
  · exact hi (subtree_up wf hl hs hne hpc)

private theorem parent_not_subtree (wf : WellFormed fs)
    (hp : parentOf fs.nodes idx = some p) : ¬ Subtree fs.nodes idx p := by
  rintro ⟨hb, _⟩
  have h1 := hb.le wf.shape.ordered
  have h2 := wf.shape.ordered idx p hp
  omega

private theorem countP_filter_ne (l : List Nat) (hnd : l.Nodup) (a : Nat) (ha : a ∈ l)
    (q : Nat → Bool) :
    l.countP q = (l.filter (· ≠ a)).countP q + (if q a then 1 else 0) := by
  induction l with
  | nil => cases ha
  | cons b l ih =>
    obtain ⟨hb, hnd⟩ := nodup_cons.mp hnd
    by_cases hab : b = a
    · subst hab
      have : l.filter (· ≠ b) = l := by
        rw [filter_eq_self]
        intro c hc
        simpa using fun e : c = b => hb (e ▸ hc)
      rw [filter_cons_of_neg (by simp), this, countP_cons]
    · have := ih hnd ((mem_cons.mp ha).resolve_left (Ne.symm hab))
      rw [filter_cons_of_pos (by simpa using hab), countP_cons, countP_cons]
      omega

def dropChild (idx : Nat) (n q : Node) : Node :=
  { q with
    children := q.children.filter (· ≠ idx)
    dirLinkCount := if n.mode.isDir ∧ q.dirLinkCount > 2 then q.dirLinkCount - 1
      else q.dirLinkCount }

theorem updateNode_updateNode (fs : FileSystemBuilder) (i : Nat) (f g : Node → Node) :
    (fs.updateNode i f).updateNode i g = fs.updateNode i (g ∘ f) := by
  simp only [updateNode, mk.injEq, and_true, true_and]
  apply ext_getElem?
  intro j
  simp only [getElem?_modify, Option.map_eq_map, Option.map_map, Function.comp_def]
  by_cases h : i = j <;> simp [h]

theorem updateNode_congr (h : fs.nodes[i]? = some n) (hfg : f n = g n) :
    fs.updateNode i f = fs.updateNode i g := by
  simp only [updateNode, mk.injEq, and_true, true_and]
  apply ext_getElem?
  intro j
  simp only [getElem?_modify]
  by_cases hij : i = j
  · subst hij; simp [h, hfg]
  · simp [hij]

theorem unlinkNode_ok (hpar : n.parent = some p) (hm : fs.nodes[p]? = some m) :
    unlinkNode idx n fs = .ok () (fs.updateNode p (dropChild idx n)) := by
  have hplt : p < fs.nodes.length := lt_of_get hm
  rw [unlinkNode, hpar]
  simp only
  rw [bind_of_ok (modifyNode_ok hplt), bind_of_ok (getNode_ok (updateNode_get_self hm))]
  by_cases hc : n.mode.isDir ∧ m.dirLinkCount > 2
  · rw [if_pos hc, modifyNode_ok (by simpa using hplt), updateNode_updateNode]
    congr 1
    exact updateNode_congr hm (by simp [dropChild, hc])
  · rw [if_neg hc]
    change EStateM.Result.ok () _ = _
    congr 1
    exact updateNode_congr hm (by simp [dropChild, hc])

theorem runDeleteSubtree_unlink (wf : WellFormed fs) (hl : Live fs.nodes idx) :
    ∃ fs', runDeleteSubtree idx true fs = .ok () fs' ∧ Cut fs fs' (Subtree fs.nodes idx) := by
  obtain ⟨n, hn, hd⟩ := hl
  have hl : Live fs.nodes idx := ⟨n, hn, hd⟩
  obtain ⟨fs₁, he, hp⟩ := deleteSubtree_eq (fs.nodes.length + 1) true
    (prunable_of_wellFormed wf hl) hn (by omega)
  have hrun : runDeleteSubtree idx true fs = unlinkNode idx n fs₁ := by
    rw [runDeleteSubtree, bind_of_ok (run_get fs), he]
    rfl
  cases hpar : n.parent with
  | none =>
    refine ⟨fs₁, by rw [hrun, unlinkNode, hpar]; rfl, hp.static, hp.inside, ?_, hp.index, hp.config⟩
    intro i m m' hi hm hm'
    have hne : parentOf fs.nodes idx ≠ some i := by rw [parentOf_some hn, hpar]; simp
    obtain ⟨hm₂, hch⟩ := pruned_cut_at wf hl hp hi hm' hne
    cases hm.symm.trans hm₂
    refine ⟨rfl, List.Sublist.refl _, fun c => ⟨fun hc => ⟨hc, hch c hc⟩, fun hc => hc.1⟩, ?_⟩
    intro _ _
    rw [dirChildren_static hp.static]
  | some p =>
    have hidxp : parentOf fs.nodes idx = some p := by rw [parentOf_some hn, hpar]
    have hpS := parent_not_subtree wf hidxp
    obtain ⟨m, hm, hmem, hmdir, _⟩ := wf.tree.up idx p hl hidxp
    have hm₁ : fs₁.nodes[p]? = some m := by rw [hp.outside p hpS, hm]
    have hst : SameStatic fs₁.nodes (fs₁.updateNode p (dropChild idx n)).nodes :=
      updateNode_static fun _ => rfl
    refine ⟨fs₁.updateNode p (dropChild idx n), by rw [hrun, unlinkNode_ok hpar hm₁],
      hp.static.trans hst, ?_, ?_, hp.index, hp.config⟩
    · intro i k hi hk
      have hne : p ≠ i := fun e => hpS (by rw [e]; exact hi)
      rw [updateNode_get_ne hne] at hk
      exact hp.inside i k hi hk
    · intro i k k' hi hk hk'
      by_cases hip : p = i
      · subst hip
        cases hm.symm.trans hk
        rw [updateNode_get_self hm₁] at hk'
        cases hk'
        have hnd := wf.tree.nodup p m hm
        refine ⟨rfl, filter_sublist, fun c => ?_, fun hdel hdir => ?_⟩
        · simp only [dropChild, mem_filter, decide_eq_true_eq]
          constructor
          · rintro ⟨hc, hne⟩
            refine ⟨hc, fun hs => hi (subtree_up wf hl hs hne (wf.tree.down p m c hm hc).2)⟩
          · rintro ⟨hc, hs⟩
            exact ⟨hc, fun e => hs (by rw [e]; exact ⟨.refl, hl⟩)⟩
        · rw [dirChildren_static (hp.static.trans hst)]
          have hlinks := wf.tree.links p m hm hdel hdir
          have hcount := countP_filter_ne m.children hnd idx hmem
            (fun c => (fs.nodes[c]?.map fun m => m.mode.isDir).getD false)
          simp only [hn, Option.map_some, Option.getD_some] at hcount
          simp only [dropChild, dirChildren] at hlinks ⊢
          by_cases hdir : n.mode.isDir = true
          · simp only [hdir, true_and]
            rw [if_pos hdir] at hcount
            rw [if_pos (by omega)]
            omega
          · rw [if_neg (fun h => hdir h.1)]
            rw [if_neg hdir] at hcount
            omega
      · rw [updateNode_get_ne hip] at hk'
        obtain ⟨hk₂, hch⟩ := pruned_cut_at wf hl hp hi hk'
          (by rw [hidxp]; exact fun e => hip (Option.some.inj e))
        cases hk.symm.trans hk₂
        refine ⟨rfl, List.Sublist.refl _, fun c => ⟨fun hc => ⟨hc, hch c hc⟩, fun hc => hc.1⟩, ?_⟩
        intro _ _
        rw [dirChildren_static (hp.static.trans hst)]

/-- The live nodes strictly below `idx`. -/
def Inner (nodes : List Node) (idx i : Nat) : Prop := Subtree nodes idx i ∧ i ≠ idx

theorem inner_closed (wf : WellFormed fs) (c i : Nat) (hp : parentOf fs.nodes c = some i)
    (hi : Inner fs.nodes idx i) (hc : Live fs.nodes c) : Inner fs.nodes idx c := by
  refine ⟨subtree_closed hp hi.1 hc, fun e => ?_⟩
  have h1 := hi.1.1.le wf.shape.ordered
  have h2 := wf.shape.ordered c i hp
  omega

theorem clearChildren_ok (wf : WellFormed fs) (hn : fs.nodes[idx]? = some n)
    (hd : n.deleted = false) :
    ∃ fs₂, n.children.forM (fun child => runDeleteSubtree child false)
        (fs.updateNode idx fun n => { n with children := [] }) = .ok () fs₂ ∧
      Cut fs (fs₂.updateNode idx fun n => { n with dirLinkCount := 2 })
        (Inner fs.nodes idx) := by
  have hl : Live fs.nodes idx := ⟨n, hn, hd⟩
  have hpr := prunable_of_wellFormed wf hl
  set fs₁ := fs.updateNode idx fun n => { n with children := [] } with hfs₁
  have hst₁ : SameStatic fs.nodes fs₁.nodes := updateNode_static fun _ => rfl
  obtain ⟨fs₂, h₂, hp₂⟩ := forM_pruned (fun child => runDeleteSubtree child false)
    (p := idx) (fun gs c hlen hc hpc => by
      obtain ⟨m, hm, _⟩ := hc.live
      obtain ⟨gs', he, hp⟩ := deleteSubtree_eq (gs.nodes.length + 1) false hc hm (by omega)
      exact ⟨gs', by rw [runDeleteSubtree, bind_of_ok (run_get gs), he]; rfl, hp⟩)
    n.children (wf.tree.nodup idx n hn) fs₁ rfl (by
      intro c hc
      refine ⟨emptied_prunable hpr hn hd hc, ?_⟩
      rw [hst₁.parentOf]
      exact (wf.tree.down idx n c hn hc).2)
  have hp₃ := hp₂.congr (T := Inner fs.nodes idx) (fun i => by
    rw [hst₁.parentOf, live_emptied hn]
    constructor
    · intro hi
      refine ⟨(below_children hpr hn i).mpr (.inr hi), fun e => ?_⟩
      obtain ⟨⟨c, hc, hb⟩, _⟩ := hi
      have h1 := hb.le wf.shape.ordered
      have h2 := wf.shape.ordered c idx (wf.tree.down idx n c hn hc).2
      omega
    · rintro ⟨hi, hne⟩
      exact ((below_children hpr hn i).mp hi).resolve_left hne)
  have hself : ¬ Inner fs.nodes idx idx := fun h => h.2 rfl
  have hst₂ : SameStatic fs.nodes
      (fs₂.updateNode idx fun n => { n with dirLinkCount := 2 }).nodes :=
    (hst₁.trans hp₃.static).trans (updateNode_static fun _ => rfl)
  have hn₂ : fs₂.nodes[idx]? = some { n with children := [] } := by
    rw [hp₃.outside idx hself]
    exact updateNode_get_self hn
  refine ⟨fs₂, h₂, hst₂, ?_, ?_, hp₃.index, hp₃.config⟩
  · intro i m hi hm
    rw [updateNode_get_ne (Ne.symm hi.2)] at hm
    exact hp₃.inside i m hi hm
  · intro i m m' hi hm hm'
    by_cases hidx : idx = i
    · subst hidx
      cases hn.symm.trans hm
      rw [updateNode_get_self hn₂] at hm'
      cases hm'
      refine ⟨rfl, nil_sublist _, fun c => ?_, fun _ hdir => ?_⟩
      · simp only [not_mem_nil, false_iff, not_and, not_not]
        intro hc
        obtain ⟨hlc, hpc⟩ := wf.tree.down idx n c hn hc
        refine ⟨⟨.step hpc .refl, hlc⟩, fun e => ?_⟩
        have := wf.shape.ordered c idx hpc
        omega
      · have := wf.tree.links idx n hn hd hdir
        simp only [dirChildren, countP_nil] at this ⊢
        omega
    · rw [updateNode_get_ne hidx, hp₃.outside i hi, updateNode_get_ne hidx, hm] at hm'
      cases hm'
      refine ⟨rfl, List.Sublist.refl _, fun c => ?_, fun _ _ => by rw [dirChildren_static hst₂]⟩
      refine ⟨fun hc => ⟨hc, fun hs => ?_⟩, fun hc => hc.1⟩
      have hpc := (wf.tree.down i m c hm hc).2
      exact hi ⟨subtree_up wf hl hs.1 hs.2 hpc, Ne.symm hidx⟩

end Ext4BuilderDelete
