import Firkin.Ext4Layers

/-! # Markers and the order of entries in a layer

The markers of a layer are meant for the layers below it: they come first, whatever
their place in the archive. `extract_layer` applies them when it meets them. Moving a
marker to the front changes nothing as long as it hides nothing that came before it in
its own layer. -/
namespace Ext4LayerOrder

open Ext4Types Ext4Path Ext4Builder Ext4BuilderInvariant Ext4BuilderRuns Ext4BuilderTree List Option
open Ext4BuilderReachable Ext4Layers PathTree FaultMonad

variable {ι : Type}

def isMarker : Action → Bool
  | .clear _ => true
  | .whiteout _ _ => true
  | _ => false

def target : Action → List Str
  | .clear d => d
  | .whiteout parent name => parent ++ if name = [] then [] else [name]
  | _ => []

def Hides : Action → List Str → Prop
  | .clear d, p => d <+: p ∧ p ≠ d
  | .whiteout parent name, p => target (.whiteout parent name) <+: p
  | _, _ => False

/-- A marker whose target is there: only such a marker takes anything away. -/
def Effective (T : FsTree ι) : Action → Prop
  | .clear d => IsDir T d
  | .whiteout parent name => T (target (.whiteout parent name)) ≠ none
  | _ => False

def touches : Action → List (List Str)
  | .dir path _ => [path]
  | .file path _ _ => [path]
  | .symlink path _ => [path]
  | .link path t => [path, t]
  | _ => []

def applyAll (T : FsTree ι) : List (ι × Action) → Option (FsTree ι)
  | [] => some T
  | x :: xs => (x.2.onTree x.1 T).bind (applyAll · xs)

/-- The markers of a layer, then its other entries, each in their order. -/
def markersFirst (xs : List (ι × Action)) : List (ι × Action) :=
  xs.filter (isMarker ·.2) ++ xs.filter (!isMarker ·.2)

variable {T T' T₁ : FsTree ι} {i : ι} {a m : Action} {p : List Str}
  {xs : List (ι × Action)}

theorem applyAll_append : applyAll T (xs ++ ys) = (applyAll T xs).bind (applyAll · ys) := by
  induction xs generalizing T with
  | nil => rfl
  | cons x xs ih =>
    simp only [cons_append, applyAll]
    cases x.2.onTree x.1 T with
    | none => rfl
    | some T₁ => exact ih

theorem applyAll_snoc (h : applyAll T (xs ++ [x]) = some T') :
    ∃ T₁, applyAll T xs = some T₁ ∧ x.2.onTree x.1 T₁ = some T' := by
  rw [applyAll_append, bind_eq_some_iff] at h
  obtain ⟨T₁, h1, h2⟩ := h
  refine ⟨T₁, h1, ?_⟩
  simpa [applyAll] using h2

theorem closed_onTree (hT : Closed T) (h : a.onTree i T = some T') : Closed T' := by
  have hleaf : ∀ {q : List Str} {l : Leaf ι}, addLeaf parentMode q l T = some T' →
      Closed T' := by
    intro q l hl
    obtain ⟨_, hd, hp, rfl⟩ := addLeaf_eq hl
    exact hT.plant hp hd
  cases a with
  | root perm => cases h; exact hT
  | clear d =>
    rcases clear_cases h with ⟨_, rfl⟩ | ⟨_, rfl⟩
    · exact hT
    · exact hT.hollow
  | whiteout parent name => cases h; exact hT.remove
  | dir path perm =>
    rcases addDir_cases h with ⟨_, rfl⟩ | ⟨hn, _, hp, rfl⟩
    · exact hT
    · refine hT.plant hp ?_
      rintro ⟨d, hd⟩
      cases hn.symm.trans hd
  | file | symlink => exact hleaf h
  | link path t =>
    obtain ⟨l, _, hl⟩ := addLink_eq h
    exact hleaf hl

theorem closed_applyAll (hT : Closed T) (h : applyAll T xs = some T') : Closed T' := by
  induction xs generalizing T with
  | nil => cases h; exact hT
  | cons x xs ih =>
    obtain ⟨T₁, h1, h2⟩ := bind_eq_some_iff.mp h
    exact ih (closed_onTree hT h1) h2

section
variable (ha : isMarker a = false) (h : a.onTree i T = some T')
include ha h

/-- Entries other than markers put something in place and take nothing away. -/
theorem entry_plants : T' = T ∧ (∀ q ∈ touches a, T q ≠ none) ∨
      ∃ q e, T' = plant parentMode T q e ∧ ¬ IsDir T q ∧
        ∀ r ∈ touches a, r = q ∨ T r ≠ none := by
  cases a with
  | root perm => cases h; exact .inl ⟨rfl, by simp [touches]⟩
  | clear d => cases ha
  | whiteout parent name => cases ha
  | dir path perm =>
    rcases addDir_cases h with ⟨⟨d, hd⟩, rfl⟩ | ⟨hn, _, _, rfl⟩
    · exact .inl ⟨rfl, by simp [touches, hd]⟩
    · refine .inr ⟨path, _, rfl, ?_, by simp [touches]⟩
      rintro ⟨d, hd⟩
      cases hn.symm.trans hd
  | file path content perm =>
    obtain ⟨_, hd, _, rfl⟩ := addLeaf_eq h
    exact .inr ⟨path, _, rfl, hd, by simp [touches]⟩
  | symlink path t =>
    obtain ⟨_, hd, _, rfl⟩ := addLeaf_eq h
    exact .inr ⟨path, _, rfl, hd, by simp [touches]⟩
  | link path t =>
    obtain ⟨l, ht, hl⟩ := addLink_eq h
    obtain ⟨_, hd, _, rfl⟩ := addLeaf_eq hl
    exact .inr ⟨path, _, rfl, hd, by simp [touches, ht]⟩

theorem entry_keeps (hp : T p ≠ none) : T' p ≠ none := by
  rcases entry_plants ha h with ⟨rfl, _⟩ | ⟨q, e, rfl, _⟩
  · exact hp
  · exact plant_ne_none hp

theorem entry_keeps_dir (hp : IsDir T p) : IsDir T' p := by
  rcases entry_plants ha h with ⟨rfl, _⟩ | ⟨q, e, rfl, hq, _⟩
  · exact hp
  · obtain ⟨d, hd⟩ := hp
    refine ⟨d, plant_some ?_ hd⟩
    rintro rfl
    exact hq ⟨d, hd⟩

theorem entry_touches (hp : p ∈ touches a) : T' p ≠ none := by
  rcases entry_plants ha h with ⟨rfl, ht⟩ | ⟨q, e, rfl, _, ht⟩
  · exact ht p hp
  · rcases ht p hp with rfl | hne
    · simp
    · exact plant_ne_none hne

theorem effective_mono (he : Effective T m) : Effective T' m := by
  cases m with
  | clear d => exact entry_keeps_dir ha h he
  | whiteout parent name => exact entry_keeps ha h he
  | root | dir | file | symlink | link => exact he
end

theorem entries_touch (ho : ∀ x ∈ xs, isMarker x.2 = false) (h : applyAll T xs = some T')
    (hx : x ∈ xs) (hp : p ∈ touches x.2) : T' p ≠ none := by
  induction xs using reverseRecOn generalizing T' with
  | nil => cases hx
  | append_singleton xs y ih =>
    obtain ⟨T₁, h1, h2⟩ := applyAll_snoc h
    have hy := ho y (by simp)
    rcases mem_append.mp hx with hx | hx
    · exact entry_keeps hy h2 (ih (fun z hz => ho z (by simp [hz])) h1 hx)
    · obtain rfl := mem_singleton.mp hx
      exact entry_touches hy h2 hp

private theorem commute_clear (ha : isMarker a = false) (hT : Closed T)
    (h1 : a.onTree i T = some T₁) (hd : IsDir T₁ d) (hs : ∀ p ∈ touches a, ¬ (d <+: p ∧ p ≠ d)) :
    ∃ T', PathTree.clear d T = some T' ∧ a.onTree i T' = some (hollow d T₁) := by
  have hleaf : ∀ {q : List Str} {l : Leaf ι}, addLeaf parentMode q l T = some T₁ →
      ¬ (d <+: q ∧ q ≠ d) → IsDir T d ∧ ¬ d <+: q := by
    intro q l hl hq
    obtain ⟨_, _, _, rfl⟩ := addLeaf_eq hl
    have hne : q ≠ d := by
      rintro rfl
      obtain ⟨x, hx⟩ := hd
      cases plant_self.symm.trans hx
    have hpre : ¬ d <+: q := fun h => hq ⟨h, hne⟩
    obtain ⟨x, hx⟩ := hd
    exact ⟨⟨x, by rwa [plant_off hpre] at hx⟩, hpre⟩
  cases a with
  | root perm =>
    cases h1
    exact ⟨_, clear_dir hd, rfl⟩
  | clear d => cases ha
  | whiteout parent name => cases ha
  | dir path perm =>
    have hpath := hs path (by simp [touches])
    rcases addDir_cases h1 with ⟨hx, rfl⟩ | ⟨hn, h0, hpass, rfl⟩
    · refine ⟨_, clear_dir hd, PathTree.addDir_existing ?_⟩
      by_cases he : path = d
      · subst he
        obtain ⟨x, hx⟩ := hd
        exact ⟨x, by rw [hollow_self, hx]⟩
      · obtain ⟨x, hx⟩ := hx
        exact ⟨x, by rw [hollow_off fun h => hpath ⟨h, he⟩, hx]⟩
    · by_cases he : path = d
      · subst he
        exact ⟨T, clear_absent hn, by rw [h1, hollow_planted hT hn h0]⟩
      · have hpre : ¬ d <+: path := fun h => hpath ⟨h, he⟩
        obtain ⟨x, hx⟩ := hd
        rw [plant_off hpre] at hx
        exact ⟨_, clear_dir ⟨x, hx⟩, cuts_hollow.addDir h1 hpre⟩
  | file path content perm =>
    obtain ⟨hT', hpre⟩ := hleaf h1 (hs path (by simp [touches]))
    exact ⟨_, clear_dir hT', cuts_hollow.addLeaf h1 hpre⟩
  | symlink path t =>
    obtain ⟨hT', hpre⟩ := hleaf h1 (hs path (by simp [touches]))
    exact ⟨_, clear_dir hT', cuts_hollow.addLeaf h1 hpre⟩
  | link path t =>
    obtain ⟨l, ht, hl⟩ := addLink_eq h1
    obtain ⟨⟨x, hx⟩, hpre⟩ := hleaf hl (hs path (by simp [touches]))
    have hne : t ≠ d := by
      rintro rfl
      cases ht.symm.trans hx
    have htpre : ¬ d <+: t := fun h => hs t (by simp [touches]) ⟨h, hne⟩
    exact ⟨_, clear_dir ⟨x, hx⟩, cuts_hollow.addLink h1 hpre htpre⟩

private theorem commute_remove (ha : isMarker a = false)
    (h1 : a.onTree i T = some T₁) (hs : ∀ p ∈ touches a, ¬ t <+: p) :
    a.onTree i (PathTree.remove t T) = some (PathTree.remove t T₁) := by
  cases a with
  | root perm => cases h1; rfl
  | clear d => cases ha
  | whiteout parent name => cases ha
  | dir path perm => exact cuts_remove.addDir h1 (hs path (by simp [touches]))
  | file path content perm => exact cuts_remove.addLeaf h1 (hs path (by simp [touches]))
  | symlink path u => exact cuts_remove.addLeaf h1 (hs path (by simp [touches]))
  | link path u =>
    exact cuts_remove.addLink h1 (hs path (by simp [touches])) (hs u (by simp [touches]))

/-- A marker that hides nothing the entry before it touches may come first. -/
theorem commute (ha : isMarker a = false) (hm : isMarker m = true) (hT : Closed T)
    (h1 : a.onTree i T = some T₁) (h2 : m.onTree j T₁ = some T₂)
    (hs : Effective T₁ m → ∀ p ∈ touches a, ¬ Hides m p) :
    ∃ T', m.onTree j T = some T' ∧ a.onTree i T' = some T₂ := by
  have habs : ∀ t, T₁ t = none → T t = none := by
    intro t ht
    by_contra hne
    exact entry_keeps ha h1 hne ht
  cases m with
  | clear d =>
    rcases clear_cases h2 with ⟨hn, rfl⟩ | ⟨hd, rfl⟩
    · exact ⟨T, clear_absent (habs d hn), h1⟩
    · exact commute_clear ha hT h1 hd (hs hd)
  | whiteout parent name =>
    cases h2
    refine ⟨_, rfl, ?_⟩
    by_cases hn : T₁ (target (.whiteout parent name)) = none
    · change T₁ (parent ++ if name = [] then [] else [name]) = none at hn
      rw [remove_absent hn, remove_absent (habs _ hn)]
      exact h1
    · exact commute_remove ha h1 (hs hn)
  | root | dir | file | symlink | link => cases hm

theorem marker_to_front (ho : ∀ x ∈ xs, isMarker x.2 = false) (hm : isMarker m = true)
    (hT : Closed T) (h1 : applyAll T xs = some T₁) (h2 : m.onTree j T₁ = some T₂)
    (hs : Effective T₁ m → ∀ x ∈ xs, ∀ p ∈ touches x.2, ¬ Hides m p) :
    ∃ T', m.onTree j T = some T' ∧ applyAll T' xs = some T₂ := by
  induction xs using reverseRecOn generalizing T₁ T₂ with
  | nil => cases h1; exact ⟨T₂, h2, rfl⟩
  | append_singleton xs x ih =>
    obtain ⟨U, hU, hx⟩ := applyAll_snoc h1
    have hxm := ho x (by simp)
    obtain ⟨V, hV, hxV⟩ := commute hxm hm (closed_applyAll hT hU) hx h2 fun he => hs he x (by simp)
    obtain ⟨T', hT', hrest⟩ := ih (fun y hy => ho y (by simp [hy])) hU hV
      fun he y hy => hs (effective_mono hxm hx he) y (by simp [hy])
    refine ⟨T', hT', ?_⟩
    rw [applyAll_append, hrest, bind_some, applyAll, hxV]
    rfl

/-- Each marker of the run, when it takes something away, spares what the entries before
it in the layer touch. -/
def Spares (T : FsTree ι) (xs : List (ι × Action)) : Prop :=
  ∀ pre x post T₁, xs = pre ++ x :: post → isMarker x.2 = true → applyAll T pre = some T₁ →
    Effective T₁ x.2 → ∀ y ∈ pre, isMarker y.2 = false → ∀ p ∈ touches y.2, ¬ Hides x.2 p

/-- A layer that spares its own entries is its markers, then its entries. -/
theorem applyAll_markersFirst (hT : Closed T) (hs : Spares T xs)
    (h : applyAll T xs = some T') : applyAll T (markersFirst xs) = some T' := by
  induction xs using reverseRecOn generalizing T' with
  | nil => exact h
  | append_singleton xs x ih =>
    obtain ⟨U, hU, hx⟩ := applyAll_snoc h
    have hs' : Spares T xs := fun pre y post T₁ he =>
      hs pre y (post ++ [x]) T₁ (by rw [he]; simp)
    have hU' := ih hs' hU
    rw [markersFirst, applyAll_append, bind_eq_some_iff] at hU'
    obtain ⟨M, hM, hO⟩ := hU'
    cases hmx : isMarker x.2 with
    | false =>
      have he : markersFirst (xs ++ [x]) = markersFirst xs ++ [x] := by
        simp [markersFirst, hmx]
      rw [he, applyAll_append, markersFirst, applyAll_append, hM, bind_some, hO,
        bind_some, applyAll, hx]
      rfl
    | true =>
      have ho : ∀ y ∈ xs.filter (!isMarker ·.2), isMarker y.2 = false := by simp
      obtain ⟨M', hM', hO'⟩ := marker_to_front ho hmx (closed_applyAll hT hM) hO hx
        fun heff y hy => hs xs x [] U rfl hmx hU heff y (mem_of_mem_filter hy) (ho y hy)
      have he : markersFirst (xs ++ [x]) =
          xs.filter (isMarker ·.2) ++ ([x] ++ xs.filter (!isMarker ·.2)) := by
        simp [markersFirst, hmx]
      rw [he, applyAll_append, hM, bind_some, applyAll_append, applyAll, hM']
      exact hO'

theorem hidden_gone (h : m.onTree j T = some T') (he : Effective T m) (hp : Hides m p) :
    T' p = none := by
  cases m with
  | clear d =>
    rcases clear_cases h with ⟨hn, _⟩ | ⟨_, rfl⟩
    · obtain ⟨x, hx⟩ := he
      cases hn.symm.trans hx
    · exact if_pos hp
  | whiteout parent name =>
    cases h
    exact if_pos ⟨he, hp⟩
  | root | dir | file | symlink | link => exact he.elim

/-- With the marker in front, what the entries touch is there at the end. -/
theorem markersFirst_touch (hx : isMarker x.2 = true)
    (h : applyAll T (markersFirst (xs ++ [x])) = some T') (hy : y ∈ xs)
    (hym : isMarker y.2 = false) (hp : p ∈ touches y.2) : T' p ≠ none := by
  have he : markersFirst (xs ++ [x]) =
      (xs.filter (isMarker ·.2) ++ [x]) ++ xs.filter (!isMarker ·.2) := by
    simp [markersFirst, hx]
  rw [he, applyAll_append, bind_eq_some_iff] at h
  obtain ⟨M, _, hO⟩ := h
  exact entries_touch (by simp) hO (mem_filter.mpr ⟨hy, by simp [hym]⟩) hp

/-- Extraction stops at a refused entry, which therefore asks for nothing. -/
def actionOf (e : Option TarEntry) : Action :=
  match entryAction e with
  | .ok a => a
  | .error _ => .root none

def layerActions : Layer → List Action
  | .ok entries => entries.map actionOf
  | .error _ => []

/-- A leaf made by the entry at position `k` of the whole stack is tagged with `k`, one
that was there before with its old inode. -/
def tagged (k : Nat) : List Action → List ((Nat ⊕ Nat) × Action)
  | [] => []
  | a :: as => (.inr k, a) :: tagged (k + 1) as

/-- The meaning of a stack: per layer, its markers on the tree below it, then its other
entries. -/
def specStack (k : Nat) (T : FsTree (Nat ⊕ Nat)) : List (List Action) → Option (FsTree (Nat ⊕ Nat))
  | [] => some T
  | as :: rest =>
    (applyAll T (markersFirst (tagged k as))).bind fun T' => specStack (k + as.length) T' rest

def Leaf.rename {α β : Type} (f : α → β) (x : Leaf α) : Leaf β := ⟨f x.id, x.mode, x.content⟩

def baseTree (fs : FileSystemBuilder) : FsTree (Nat ⊕ Nat) :=
  mapLeaf (Leaf.rename .inl) (treeOf fs)

def specTree (fs₀ : FileSystemBuilder) (layers : List Layer) : Option (FsTree (Nat ⊕ Nat)) :=
  specStack 0 (baseTree fs₀) (layers.map layerActions)

def view (T : FsTree ι) : Tree Str FileMode (FileMode × Option NodeContent) :=
  mapLeaf (fun x => (x.mode, x.content)) T

/-- The builder's tree is `T`: the same paths, types, modes and contents, and the same
paths share an inode. -/
structure Matches (fs : FileSystemBuilder) (T : FsTree ι) : Prop where
  view_eq : view (treeOf fs) = view T
  links : ∀ p q x y x' y', treeOf fs p = some (.leaf x) → treeOf fs q = some (.leaf y) →
    T p = some (.leaf x') → T q = some (.leaf y') → (x.id = y.id ↔ x'.id = y'.id)

/-- Whatever part of the stack has been extracted, the tree is what the layers mean. -/
def FollowsLayers (fs₀ : FileSystemBuilder) (layers : List Layer) : Prop :=
  ∀ done pre post rest fs, layers = done ++ .ok (pre ++ post) :: rest →
    writeLayersRaw (done ++ [.ok pre]) fs₀ = .ok () fs →
    ∃ T, specTree fs₀ (done ++ [.ok pre]) = some T ∧ Matches fs T

/-- No marker that takes something away hides the path, or the link target, of an earlier
entry of its own layer. -/
def MarkersSpare (fs₀ : FileSystemBuilder) (layers : List Layer) : Prop :=
  ∀ done pre e post rest fs m, layers = done ++ .ok (pre ++ e :: post) :: rest →
    writeLayersRaw (done ++ [.ok pre]) fs₀ = .ok () fs → entryAction e = .ok m →
    isMarker m = true → Effective (treeOf fs) m →
    ∀ e' ∈ pre, ∀ a, entryAction e' = .ok a → isMarker a = false → ∀ p ∈ touches a, ¬ Hides m p

section
variable {fs : FileSystemBuilder} {f : Nat → Nat ⊕ Nat} {k : Nat} {S : FsTree (Nat ⊕ Nat)}

/-- `S` is the builder's tree with its inodes renamed, one to one, below position `k`. -/
structure Tracks (f : Nat → Nat ⊕ Nat) (k : Nat) (fs : FileSystemBuilder)
    (S : FsTree (Nat ⊕ Nat)) : Prop where
  tree : S = mapLeaf (Leaf.rename f) (treeOf fs)
  inj : ∀ p q x y, treeOf fs p = some (.leaf x) → treeOf fs q = some (.leaf y) →
    f x.id = f y.id → x.id = y.id
  fresh : ∀ p x n, treeOf fs p = some (.leaf x) → f x.id = .inr n → n < k

theorem tracks_base (fs : FileSystemBuilder) : Tracks .inl 0 fs (baseTree fs) where
  tree := rfl
  inj := fun _ _ _ _ _ _ h => Sum.inl.inj h
  fresh := fun _ _ _ _ h => by cases h

theorem leaf_id_lt (wf : WellFormed fs) (h : treeOf fs p = some (.leaf x)) :
    x.id < fs.nodes.length := by
  cases hk : lookup fs p with
  | none => simp [treeOf, hk] at h
  | some i =>
    obtain ⟨⟨n, hn, _⟩, _⟩ := (lookup_iff wf).mp hk
    rw [treeOf, hk, bind_some] at h
    cases hd : n.mode.isDir with
    | true => rw [entryOf_dir hn hd] at h; cases h
    | false =>
      rw [entryOf_leaf hn hd] at h
      cases h
      have h1 := (resolve_spec wf.shape hn).1
      have h2 := lt_of_get hn
      change resolve fs.nodes i < fs.nodes.length
      omega

theorem onTree_rename {α β : Type} (g : α → β) (a : Action) (id : α) (T : FsTree α) :
    a.onTree (g id) (mapLeaf (Leaf.rename g) T) =
      (a.onTree id T).map (mapLeaf (Leaf.rename g)) := by
  cases a with
  | root perm => rfl
  | clear d => exact mapLeaf_clear
  | whiteout parent name => exact congrArg some mapLeaf_remove
  | dir path perm => exact mapLeaf_addDir
  | file path content perm =>
    exact mapLeaf_addLeaf (T := T) (f := Leaf.rename g)
      (a := ⟨id, FileMode.regular perm, some (.file content)⟩)
  | symlink path t =>
    exact mapLeaf_addLeaf (T := T) (f := Leaf.rename g)
      (a := ⟨id, FileMode.symlink 0o777, some (.symlink t)⟩)
  | link path t => exact mapLeaf_addLink

theorem onTree_id (ha : ¬ a.MakesInode) (i j : ι) : a.onTree i T = a.onTree j T := by
  cases a with
  | file | symlink => exact absurd trivial ha
  | root | clear | whiteout | dir | link => rfl

theorem onTree_leaves {id : ι} (h : a.onTree id T = some T')
    (hx : T' p = some (.leaf x)) : (∃ q, T q = some (.leaf x)) ∨ (a.MakesInode ∧ x.id = id) := by
  have hplant : ∀ {q : List Str} {e : Entry FileMode (Leaf ι)},
      plant parentMode T q e p = some (.leaf x) → e = .leaf x ∨ T p = some (.leaf x) := by
    intro q e hq
    by_cases hpq : p = q
    · rw [hpq, plant_self] at hq
      exact .inl (some.inj hq)
    · right
      cases hT : T p with
      | some z => rw [plant_some hpq hT] at hq; exact hq
      | none =>
        rw [plant, if_neg hpq, hT] at hq
        simp only at hq
        split at hq <;> cases hq
  cases a with
  | root perm => cases h; exact .inl ⟨p, hx⟩
  | clear d => exact .inl ⟨p, clear_some h hx⟩
  | whiteout parent name => cases h; exact .inl ⟨p, remove_some hx⟩
  | dir path perm =>
    rcases addDir_cases h with ⟨_, rfl⟩ | ⟨_, _, _, rfl⟩
    · exact .inl ⟨p, hx⟩
    · rcases hplant hx with h | h
      · cases h
      · exact .inl ⟨p, h⟩
  | file | symlink =>
    obtain ⟨_, _, _, rfl⟩ := addLeaf_eq h
    rcases hplant hx with h | h
    · cases h; exact .inr ⟨trivial, rfl⟩
    · exact .inl ⟨p, h⟩
  | link path t =>
    obtain ⟨l, ht, hl⟩ := addLink_eq h
    obtain ⟨_, _, _, rfl⟩ := addLeaf_eq hl
    rcases hplant hx with h | h
    · cases h; exact .inl ⟨t, ht⟩
    · exact .inl ⟨p, h⟩

/-- One action on the builder is the same action on the renamed tree. -/
theorem tracks_step (wf : WellFormed fs) (ha : a.Proper) (hS : Tracks f k fs S)
    (hr : a.run fs = .ok () fs') :
    ∃ f' S', a.onTree (.inr k) S = some S' ∧ Tracks f' (k + 1) fs' S' := by
  obtain ⟨hT, hmake⟩ := action_refines ha wf hr
  let f' : Nat → Nat ⊕ Nat := fun i => if i < fs.nodes.length then f i else .inr k
  have hf' : ∀ p x, treeOf fs p = some (.leaf x) → f' x.id = f x.id :=
    fun p x hx => if_pos (leaf_id_lt wf hx)
  have hsame : mapLeaf (Leaf.rename f') (treeOf fs) = mapLeaf (Leaf.rename f) (treeOf fs) := by
    funext q
    unfold mapLeaf
    cases hq : treeOf fs q with
    | none => rfl
    | some e =>
      cases e with
      | dir d => rfl
      | leaf x => simp only [map_some, Entry.map, Leaf.rename, hf' q x hq]
  have hnew : a.MakesInode → f' (fs'.nodes.length - 1) = .inr k := by
    intro hm
    have := hmake hm
    exact if_neg (by omega)
  have hon : a.onTree (.inr k) S = some (mapLeaf (Leaf.rename f') (treeOf fs')) := by
    have hmap := onTree_rename f' a (fs'.nodes.length - 1) (treeOf fs)
    rw [hT, hsame, ← hS.tree, map_some] at hmap
    by_cases hm : a.MakesInode
    · rw [← hnew hm, hmap]
    · rw [onTree_id hm _ (f' (fs'.nodes.length - 1)), hmap]
  -- every leaf of the new tree is an old one or the new one
  have hcases : ∀ p x, treeOf fs' p = some (.leaf x) →
      (∃ q, treeOf fs q = some (.leaf x)) ∨ (f' x.id = .inr k ∧ fs.nodes.length ≤ x.id ∧
        x.id = fs'.nodes.length - 1) := by
    intro p x hx
    rcases onTree_leaves hT hx with h | ⟨hm, hid⟩
    · exact .inl h
    · have := hmake hm
      exact .inr ⟨by rw [hid, hnew hm], by omega, hid⟩
  refine ⟨f', _, hon, rfl, ?_, ?_⟩
  · intro p q x y hx hy he
    rcases hcases p x hx with ⟨p', hx'⟩ | ⟨hxk, _, hxid⟩
    · rcases hcases q y hy with ⟨q', hy'⟩ | ⟨hyk, _, _⟩
      · rw [hf' p' x hx', hf' q' y hy'] at he
        exact hS.inj p' q' x y hx' hy' he
      · rw [hf' p' x hx', hyk] at he
        have := hS.fresh p' x k hx' he
        omega
    · rcases hcases q y hy with ⟨q', hy'⟩ | ⟨_, _, hyid⟩
      · rw [hxk, hf' q' y hy'] at he
        have := hS.fresh q' y k hy' he.symm
        omega
      · rw [hxid, hyid]
  · intro p x n hx hn
    rcases hcases p x hx with ⟨p', hx'⟩ | ⟨hxk, _, _⟩
    · rw [hf' p' x hx'] at hn
      have := hS.fresh p' x n hx' hn
      omega
    · cases hxk.symm.trans hn
      omega

theorem Tracks.matches (h : Tracks f k fs S) : Matches fs S where
  view_eq := by
    rw [h.tree]
    funext q
    unfold view mapLeaf
    cases treeOf fs q with
    | none => rfl
    | some e => cases e <;> rfl
  links := by
    intro p q x y x' y' hx hy hx' hy'
    rw [h.tree, mapLeaf_leaf hx] at hx'
    rw [h.tree, mapLeaf_leaf hy] at hy'
    cases hx'
    cases hy'
    exact ⟨fun e => congrArg f e, fun e => h.inj p q x y hx hy e⟩

theorem tagged_append (k : Nat) :
    tagged k (as ++ bs) = tagged k as ++ tagged (k + as.length) bs := by
  induction as generalizing k with
  | nil => rfl
  | cons a as ih =>
    rw [cons_append, tagged, tagged, ih, length_cons, cons_append,
      show k + (as.length + 1) = k + 1 + as.length by omega]

theorem tagged_split (h : tagged k as = pre ++ x :: post) :
    ∃ as₁ as₂, as = as₁ ++ x.2 :: as₂ ∧ pre = tagged k as₁ := by
  induction pre generalizing k as with
  | nil =>
    cases as with
    | nil => cases h
    | cons a as =>
      cases h
      exact ⟨[], as, rfl, rfl⟩
  | cons y pre ih =>
    cases as with
    | nil => cases h
    | cons a as =>
      obtain ⟨hy, hrest⟩ := cons.inj h
      obtain ⟨as₁, as₂, rfl, rfl⟩ := ih hrest
      exact ⟨a :: as₁, as₂, rfl, by rw [← hy]; rfl⟩

theorem mem_tagged (h : x ∈ tagged k as) : x.2 ∈ as := by
  induction as generalizing k with
  | nil => cases h
  | cons a as ih =>
    rcases mem_cons.mp h with rfl | h
    · exact mem_cons_self
    · exact mem_cons_of_mem _ (ih h)

theorem actionOf_eq (h : entryAction e = .ok a) : actionOf e = a := by
  simp [actionOf, h]

theorem marker_action (h : isMarker (actionOf e) = true) : entryAction e = .ok (actionOf e) := by
  unfold actionOf at h ⊢
  cases he : entryAction e with
  | error x => rw [he] at h; cases h
  | ok a => rfl

/-- Extracting entries is applying their actions, in the order of the archive. -/
theorem tracks_entries (wf : WellFormed fs)
    (hS : Tracks f k fs S) (hr : entries.forM extractEntry fs = .ok () fs') :
    ∃ f' S', applyAll S (tagged k (layerActions (.ok entries))) = some S' ∧
      Tracks f' (k + (layerActions (.ok entries)).length) fs' S' := by
  induction entries using reverseRecOn generalizing fs' with
  | nil =>
    rw [forM_nil_ok.mp hr]
    exact ⟨f, S, rfl, hS⟩
  | append_singleton entries e ih =>
    obtain ⟨u, hu, hstep⟩ := extract_snoc.mp hr
    obtain ⟨f₁, S₁, h1, hS₁⟩ := ih hu
    obtain ⟨a, ha, hrun⟩ := extractEntry_ok.mp hstep
    obtain ⟨f', S', h2, hS'⟩ := tracks_step (extractEntries_evolves wf hu).wf
      (entryAction_proper ha) hS₁ hrun
    have hact : layerActions (.ok (entries ++ [e])) = layerActions (.ok entries) ++ [a] := by
      simp [layerActions, actionOf_eq ha]
    rw [hact, tagged_append, applyAll_append, h1, length_append]
    refine ⟨f', S', ?_, hS'⟩
    simp only [tagged, applyAll, h2, bind_some]
end

section
variable {fs fs' fs₀ : FileSystemBuilder} {k : Nat}
  {S : FsTree (Nat ⊕ Nat)} {layers : List Layer}

theorem closed_treeOf (wf : WellFormed fs) : Closed (treeOf fs) := by
  intro r b h
  cases hk : lookup fs (r ++ [b]) with
  | none => exact absurd (by simp [treeOf, hk]) h
  | some i =>
    obtain ⟨hl, hp⟩ := (lookup_iff wf).mp hk
    have hi : i ≠ 0 := by
      rintro rfl
      rw [wf.shape.path_root] at hp
      simp at hp
    obtain ⟨n, hn, _⟩ := id hl
    obtain ⟨⟨q, hq, _⟩, _⟩ := wf.shape.child i n hn hi
    have hpath := wf.shape.path_child hn hq
    rw [hp] at hpath
    obtain ⟨rfl, _⟩ := append_inj' hpath rfl
    obtain ⟨m, hm, _, hd, hdel | rfl⟩ := wf.tree.up i q hl ((parentOf_some hn).trans hq)
    · exact .inr ⟨m.mode, by rw [treeOf_live wf ⟨m, hm, hdel⟩, entryOf_dir hm hd]⟩
    · exact .inl wf.shape.path_root

theorem closed_mapLeaf {α β : Type} {g : Leaf α → Leaf β} {T : FsTree α} (h : Closed T) :
    Closed (mapLeaf g T) := by
  intro r b hne
  rcases h r b fun hn => hne (mapLeaf_eq_none.mpr hn) with h0 | hd
  · exact .inl h0
  · exact .inr (mapLeaf_isDir.mpr hd)

theorem Tracks.closed (wf : WellFormed fs) (h : Tracks f k fs S) : Closed S := by
  rw [h.tree]
  exact closed_mapLeaf (closed_treeOf wf)

theorem Tracks.effective (h : Tracks f k fs S) : Effective S m ↔ Effective (treeOf fs) m := by
  rw [h.tree]
  cases m with
  | clear d => exact mapLeaf_isDir
  | whiteout parent name => exact not_congr mapLeaf_eq_none
  | root | dir | file | symlink | link => exact Iff.rfl

theorem writeLayersRaw_snoc :
    writeLayersRaw (done ++ [.ok entries]) fs = .ok () fs' ↔
      ∃ u, writeLayersRaw done fs = .ok () u ∧ entries.forM extractEntry u = .ok () fs' := by
  simp only [writeLayersRaw, forM_append_ok, forM_cons_ok, forM_nil_ok, extractLayer,
    exists_eq_right']

theorem writeLayersRaw_cons :
    writeLayersRaw (.ok entries :: layers) fs = .ok () fs' ↔
      ∃ u, entries.forM extractEntry fs = .ok () u ∧ writeLayersRaw layers u = .ok () fs' := by
  simp only [writeLayersRaw, forM_cons_ok, extractLayer]

theorem writeLayersRaw_evolves (wf : WellFormed fs) (h : writeLayersRaw layers fs = .ok () fs') :
    Evolves fs fs' :=
  extractEntries_evolves wf (writeLayersRaw_ok.mp h).2

/-- In a layer whose entries are all accepted, the condition on the builder is the one on
the tree. -/
theorem spares_layer (wf : WellFormed fs)
    (hS : Tracks f k fs S) (hr : entries.forM extractEntry fs = .ok () fs')
    (h : MarkersSpare fs (.ok entries :: layers)) :
    Spares S (tagged k (entries.map actionOf)) := by
  intro pre x post T₁ hsplit hm hpre heff y hy hym p hp
  obtain ⟨as₁, as₂, has, rfl⟩ := tagged_split hsplit
  obtain ⟨e₁, e₂, rfl, rfl, h₂⟩ := map_eq_append_iff.mp has
  obtain ⟨e, e₃, rfl, he, rfl⟩ := map_eq_cons_iff.mp h₂
  obtain ⟨u, hu, _⟩ := forM_append_ok.mp hr
  obtain ⟨f₁, S₁, h1, hS₁⟩ := tracks_entries wf hS hu
  rw [show tagged k (layerActions (.ok e₁)) = tagged k (e₁.map actionOf) from rfl, hpre] at h1
  cases h1
  obtain ⟨e', he', hact⟩ := mem_map.mp (mem_tagged hy)
  have hme := marker_action (he ▸ hm)
  obtain ⟨a, ha⟩ : ∃ a, entryAction e' = .ok a := by
    obtain ⟨s₁, s₂, rfl⟩ := append_of_mem he'
    obtain ⟨v, _, hv⟩ := forM_append_ok.mp hu
    obtain ⟨w, hw, _⟩ := forM_cons_ok.mp hv
    obtain ⟨a, ha, _⟩ := extractEntry_ok.mp hw
    exact ⟨a, ha⟩
  rw [actionOf_eq ha] at hact
  rw [← he]
  rw [← hact] at hym hp
  exact h [] e₁ e e₃ layers u _ rfl (writeLayersRaw_snoc.mpr ⟨fs, rfl, hu⟩) hme (he ▸ hm)
    (hS₁.effective.mp (he ▸ heff)) e' he' a ha hym p hp

theorem MarkersSpare.tail
    (h : MarkersSpare fs (.ok entries :: layers)) (hu : entries.forM extractEntry fs = .ok () u) :
    MarkersSpare u layers := by
  intro done pre e post rest v m hsplit hv
  refine h (.ok entries :: done) pre e post rest v m (by rw [hsplit]; rfl) ?_
  exact writeLayersRaw_cons.mpr ⟨u, hu, hv⟩

/-- Extracting a stack whose markers spare their own layer gives what the layers mean. -/
theorem tracks_stack (wf : WellFormed fs) (hS : Tracks f k fs S)
    (hr : writeLayersRaw layers fs = .ok () fs') (h : MarkersSpare fs layers) :
    ∃ f' k' S', specStack k S (layers.map layerActions) = some S' ∧ Tracks f' k' fs' S' := by
  induction layers generalizing fs f k S with
  | nil =>
    cases hr
    exact ⟨f, k, S, rfl, hS⟩
  | cons layer layers ih =>
    cases layer with
    | error what =>
      obtain ⟨u, hu, _⟩ := forM_cons_ok.mp hr
      cases hu
    | ok entries =>
      obtain ⟨u, hu, hrest⟩ := writeLayersRaw_cons.mp hr
      obtain ⟨f₁, S₁, h1, hS₁⟩ := tracks_entries wf hS hu
      have hfirst := applyAll_markersFirst (hS.closed wf) (spares_layer wf hS hu h) h1
      obtain ⟨f', k', S', h2, hS'⟩ := ih (extractEntries_evolves wf hu).wf hS₁ hrest (h.tail hu)
      refine ⟨f', k', S', ?_, hS'⟩
      rw [map_cons, specStack, show layerActions (.ok entries) = entries.map actionOf from rfl,
        hfirst]
      exact h2

theorem MarkersSpare.take (h : MarkersSpare fs (done ++ .ok (pre ++ post) :: rest)) :
    MarkersSpare fs (done ++ [.ok pre]) := by
  intro done' pre' e post' rest' u m hsplit
  rcases eq_nil_or_concat rest' with rfl | ⟨rest'', last, rfl⟩
  · obtain ⟨rfl, hl⟩ := append_inj' hsplit rfl
    cases hl
    exact h done pre' e (post' ++ post) rest u m (by simp)
  · have : done ++ [.ok pre] = (done' ++ .ok (pre' ++ e :: post') :: rest'') ++ [last] := by
      rw [hsplit]; simp
    obtain ⟨rfl, _⟩ := append_inj' this rfl
    exact h done' pre' e post' (rest'' ++ .ok (pre ++ post) :: rest) u m (by simp)

theorem specStack_snoc (h : specStack k S (stack ++ [as]) = some S') :
    ∃ k₁ S₁, applyAll S₁ (markersFirst (tagged k₁ as)) = some S' := by
  induction stack generalizing k S with
  | nil =>
    obtain ⟨S₁, h1, h2⟩ := bind_eq_some_iff.mp h
    cases h2
    exact ⟨k, S, h1⟩
  | cons bs stack ih =>
    obtain ⟨S₁, _, h2⟩ := bind_eq_some_iff.mp h
    exact ih h2

theorem followsLayers_of_spare (wf : WellFormed fs₀) (h : MarkersSpare fs₀ layers) :
    FollowsLayers fs₀ layers := by
  rintro done pre post rest fs rfl hr
  obtain ⟨f, k, S, hspec, hS⟩ := tracks_stack wf (tracks_base fs₀) hr h.take
  exact ⟨S, hspec, hS.matches⟩

theorem effective_runs (wf : WellFormed fs) (hp : m.Proper) (h : Effective (treeOf fs) m) :
    ∃ fs', m.run fs = .ok () fs' := by
  cases m with
  | clear d =>
    obtain ⟨mode, hd⟩ := h
    cases hk : lookup fs d with
    | none => simp [treeOf, hk] at hd
    | some idx =>
      obtain ⟨⟨n, hn, _⟩, _⟩ := (lookup_iff wf).mp hk
      rw [treeOf, hk, bind_some] at hd
      rw [lookup_of_segments fun s hs => (hp s hs).1] at hk
      cases hdir : n.mode.isDir with
      | false => rw [entryOf_leaf hn hdir] at hd; cases hd
      | true =>
        rw [← segments_guestString hp, ← normalize_eq_keyOf] at hk
        obtain ⟨fs', he, _⟩ := clearDir_dir wf hk hn hdir
        exact ⟨fs', he⟩
  | whiteout parent name => exact whiteout_run wf parent name
  | root | dir | file | symlink | link => exact h.elim

theorem spare_of_followsLayers (wf : WellFormed fs₀) (h : FollowsLayers fs₀ layers) :
    MarkersSpare fs₀ layers := by
  rintro done pre e post rest fs m rfl hr hm hmark heff e' he' a ha hnm p hp hhide
  have wf₁ := (writeLayersRaw_evolves wf hr).wf
  obtain ⟨fs', hrun⟩ := effective_runs wf₁ (entryAction_proper hm) heff
  obtain ⟨u, hu, hpre⟩ := writeLayersRaw_snoc.mp hr
  have hall : writeLayersRaw (done ++ [.ok (pre ++ [e])]) fs₀ = .ok () fs' :=
    writeLayersRaw_snoc.mpr ⟨u, hu, extract_snoc.mpr ⟨fs, hpre, extractEntry_ok.mpr ⟨m, hm, hrun⟩⟩⟩
  obtain ⟨T, hspec, hmatch⟩ := h done (pre ++ [e]) post rest fs' (by simp) hall
  -- in the builder the path is gone, in the meaning of the layers it is there
  obtain ⟨hT, _⟩ := action_refines (entryAction_proper hm) wf₁ hrun
  have hgone := hidden_gone hT heff hhide
  rw [specTree, map_append] at hspec
  obtain ⟨k₁, S₁, happ⟩ := specStack_snoc hspec
  rw [show layerActions (.ok (pre ++ [e])) = pre.map actionOf ++ [m] by
    simp [layerActions, actionOf_eq hm], tagged_append] at happ
  obtain ⟨y, hy, hya⟩ : ∃ y ∈ tagged k₁ (pre.map actionOf), y.2 = a := by
    obtain ⟨s₁, s₂, rfl⟩ := append_of_mem he'
    refine ⟨(.inr (k₁ + s₁.length), a), ?_, rfl⟩
    rw [map_append, tagged_append, map_cons, tagged, actionOf_eq ha]
    simp
  have hthere := markersFirst_touch (x := (.inr (k₁ + (pre.map actionOf).length), m)) hmark happ hy
    (by rw [hya]; exact hnm) (by rw [hya]; exact hp)
  have hview := congrFun hmatch.view_eq p
  rw [view, view, mapLeaf, hgone, map_none] at hview
  exact hthere (mapLeaf_eq_none.mp hview.symm)

/-- A stack is extracted as its layers mean it exactly when no marker hides an earlier
entry of its own layer. -/
theorem followsLayers_iff_spare (fs₀ : FileSystemBuilder) (layers : List Layer)
    (hr : Reached fs₀) : FollowsLayers fs₀ layers ↔ MarkersSpare fs₀ layers :=
  ⟨spare_of_followsLayers hr.wellFormed, followsLayers_of_spare hr.wellFormed⟩

def fileThenWhiteout : List (Option TarEntry) :=
  [emptyEntry .file "a" 0o644, emptyEntry .file ".wh.a" 0]

theorem followsLayers_iff_fresh :
    FollowsLayers (FileSystemBuilder.new .k4) [.ok fileThenWhiteout] ↔
      MarkersSpare (FileSystemBuilder.new .k4) [.ok fileThenWhiteout] :=
  followsLayers_iff_spare _ _ ⟨.k4, [], rfl⟩

/-- A whiteout behind a file of the same layer removes that file. -/
theorem whiteout_hides_own_layer :
    ¬ FollowsLayers (FileSystemBuilder.new .k4) [.ok fileThenWhiteout] := by
  intro h
  let layer : Layer := .ok [emptyEntry .file "a" 0o644]
  have hrun : (match writeLayersRaw [layer] (FileSystemBuilder.new .k4) with
      | .ok _ fs => (treeOf fs [str "a"]).isSome
      | .error _ _ => false) = true := by decide +kernel
  cases hfs : writeLayersRaw [layer] (FileSystemBuilder.new .k4) with
  | error e fs => rw [hfs] at hrun; cases hrun
  | ok u fs =>
    rw [hfs] at hrun
    have hlive : treeOf fs [str "a"] ≠ none := isSome_iff_ne_none.mp hrun
    exact spare_of_followsLayers (new_wellFormed .k4) h [] [emptyEntry .file "a" 0o644]
      (emptyEntry .file ".wh.a" 0) [] [] fs (.whiteout [] (str "a")) rfl hfs (by decide +kernel)
      rfl hlive (emptyEntry .file "a" 0o644) (by simp) (.file [str "a"] [] 0o644)
      (by decide +kernel) rfl [str "a"] (by simp [touches]) prefix_rfl
end

end Ext4LayerOrder
