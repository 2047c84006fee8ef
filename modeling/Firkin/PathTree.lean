import Mathlib.Tactic

/-! # Trees as functions of the path

A tree gives every path a directory, a leaf or nothing. Insertion makes the missing
directories above a path, removal takes away everything at or below one. The
operations are closed forms in the path, so that two of them are compared pointwise. -/
namespace PathTree

open Option

inductive Entry (δ l : Type) where
  | dir (d : δ)
  | leaf (a : l)
  deriving DecidableEq

variable {κ δ l m : Type} [DecidableEq κ]

abbrev Tree (κ δ l : Type) := List κ → Option (Entry δ l)
def IsDir (T : Tree κ δ l) (p : List κ) : Prop := ∃ d, T p = some (.dir d)
def IsLeaf (T : Tree κ δ l) (p : List κ) : Prop := ∃ a, T p = some (.leaf a)

instance (T : Tree κ δ l) (p : List κ) : Decidable (IsDir T p) :=
  match h : T p with
  | some (.dir d) => isTrue ⟨d, h⟩
  | some (.leaf _) => isFalse fun ⟨_, hd⟩ => by simp [h] at hd
  | none => isFalse fun ⟨_, hd⟩ => by simp [h] at hd

instance (T : Tree κ δ l) (p : List κ) : Decidable (IsLeaf T p) :=
  match h : T p with
  | some (.leaf a) => isTrue ⟨a, h⟩
  | some (.dir _) => isFalse fun ⟨_, hd⟩ => by simp [h] at hd
  | none => isFalse fun ⟨_, hd⟩ => by simp [h] at hd

/-- No proper ancestor of `p` is a leaf. -/
def Passable (T : Tree κ δ l) (p : List κ) : Prop := ∀ r ∈ p.inits, r ≠ p → ¬ IsLeaf T r

instance (T : Tree κ δ l) (p : List κ) : Decidable (Passable T p) :=
  inferInstanceAs (Decidable (∀ r ∈ p.inits, r ≠ p → ¬ IsLeaf T r))

/-- `e` at `p`, with the missing directories above it. The root is never made. -/
def plant (d₀ : δ) (T : Tree κ δ l) (p : List κ) (e : Entry δ l) : Tree κ δ l := fun r =>
  if r = p then some e
  else match T r with
    | some x => some x
    | none => if r ≠ [] ∧ r <+: p then some (.dir d₀) else none

def addLeaf (d₀ : δ) (p : List κ) (a : l) (T : Tree κ δ l) : Option (Tree κ δ l) :=
  if p ≠ [] ∧ ¬ IsDir T p ∧ Passable T p then some (plant d₀ T p (.leaf a)) else none

def addDir (d₀ : δ) (p : List κ) (d : δ) (T : Tree κ δ l) : Option (Tree κ δ l) :=
  match T p with
  | some (.dir _) => some T
  | some (.leaf _) => none
  | none => if p ≠ [] ∧ Passable T p then some (plant d₀ T p (.dir d)) else none

def addLink (d₀ : δ) (p t : List κ) (T : Tree κ δ l) : Option (Tree κ δ l) :=
  match T t with
  | some (.leaf a) => addLeaf d₀ p a T
  | _ => none

def remove (t : List κ) (T : Tree κ δ l) : Tree κ δ l := fun r =>
  if T t ≠ none ∧ t <+: r then none else T r

/-- `T` without what lies strictly below `t`. -/
def hollow (t : List κ) (T : Tree κ δ l) : Tree κ δ l := fun r =>
  if t <+: r ∧ r ≠ t then none else T r

def clear (t : List κ) (T : Tree κ δ l) : Option (Tree κ δ l) :=
  match T t with
  | some (.leaf _) => none
  | none => some T
  | some (.dir _) => some (hollow t T)

def Entry.map (f : l → m) : Entry δ l → Entry δ m
  | .dir d => .dir d
  | .leaf a => .leaf (f a)

def mapLeaf (f : l → m) (T : Tree κ δ l) : Tree κ δ m := fun p => (T p).map (Entry.map f)

section
variable {d₀ : δ} {T T' : Tree κ δ l} {p r t : List κ} {x : Entry δ l}

@[simp] theorem plant_self : plant d₀ T p e p = some e := if_pos rfl

theorem plant_some (hr : r ≠ p) (h : T r = some x) : plant d₀ T p e r = some x := by
  rw [plant, if_neg hr, h]

theorem remove_some (h : remove t T r = some x) : T r = some x := by
  unfold remove at h
  split at h
  · cases h
  · exact h

theorem hollow_some (h : hollow t T r = some x) : T r = some x := by
  unfold hollow at h
  split at h
  · cases h
  · exact h

theorem clear_cases (h : clear t T = some T') :
    (T t = none ∧ T' = T) ∨ (IsDir T t ∧ T' = hollow t T) := by
  unfold clear at h
  split at h
  · cases h
  · next hn => exact .inl ⟨hn, (some.inj h).symm⟩
  · next hd => exact .inr ⟨⟨_, hd⟩, (some.inj h).symm⟩

theorem clear_some (hc : clear t T = some T') (h : T' r = some x) : T r = some x := by
  rcases clear_cases hc with ⟨_, rfl⟩ | ⟨_, rfl⟩
  · exact h
  · exact hollow_some h

theorem addLeaf_eq (h : addLeaf d₀ p a T = some T') :
    p ≠ [] ∧ ¬ IsDir T p ∧ Passable T p ∧ T' = plant d₀ T p (.leaf a) := by
  unfold addLeaf at h
  split at h
  · next hc => exact ⟨hc.1, hc.2.1, hc.2.2, (some.inj h).symm⟩
  · cases h

theorem addDir_cases (h : addDir d₀ p d T = some T') :
    (IsDir T p ∧ T' = T) ∨
      (T p = none ∧ p ≠ [] ∧ Passable T p ∧ T' = plant d₀ T p (.dir d)) := by
  unfold addDir at h
  split at h
  · next hd => exact .inl ⟨⟨_, hd⟩, (some.inj h).symm⟩
  · cases h
  · next hn =>
    split at h
    · next hc => exact .inr ⟨hn, hc.1, hc.2, (some.inj h).symm⟩
    · cases h

theorem addLink_eq (h : addLink d₀ p t T = some T') :
    ∃ a, T t = some (.leaf a) ∧ addLeaf d₀ p a T = some T' := by
  unfold addLink at h
  split at h
  · next a ha => exact ⟨a, ha, h⟩
  · cases h

theorem plant_dir (h : T r = some (.dir d)) (hd : IsDir (plant d₀ T p (.leaf a)) r) :
    plant d₀ T p (.leaf a) r = some (.dir d) := by
  by_cases hr : r = p
  · subst hr
    obtain ⟨d', hd'⟩ := hd
    simp at hd'
  · exact plant_some hr h

theorem plant_ne_none (h : T r ≠ none) : plant d₀ T p e r ≠ none := by
  obtain ⟨x, hx⟩ := ne_none_iff_exists'.mp h
  by_cases hr : r = p
  · rw [hr]; simp
  · rw [plant_some hr hx]; simp

theorem plant_off (hr : ¬ r <+: p) : plant d₀ T p e r = T r := by
  have hne : r ≠ p := by
    rintro rfl
    exact hr List.prefix_rfl
  rw [plant, if_neg hne]
  cases T r with
  | none => exact if_neg fun h => hr h.2
  | some x => rfl

theorem clear_absent (h : T t = none) : clear t T = some T := by rw [clear, h]

theorem clear_dir (h : IsDir T t) : clear t T = some (hollow t T) := by
  obtain ⟨d, hd⟩ := h
  rw [clear, hd]

theorem remove_absent (h : T t = none) : remove t T = T := by
  funext r
  rw [remove, if_neg fun hc => hc.1 h]

omit [DecidableEq κ] in
theorem passable_of_sub (hsub : ∀ r x, T' r = some x → T r = some x) (h : Passable T p) :
    Passable T' p := fun r hr hne hl => h r hr hne <| by
  obtain ⟨a, ha⟩ := hl
  exact ⟨a, hsub r _ ha⟩

omit [DecidableEq κ] in
theorem not_isDir_of_sub (hsub : ∀ r x, T' r = some x → T r = some x) (h : ¬ IsDir T p) :
    ¬ IsDir T' p := fun ⟨d, hd⟩ => h ⟨d, hsub p _ hd⟩
end

section
variable {d₀ : δ} {T : Tree κ δ l} {p t : List κ}

theorem remove_off (h : ¬ t <+: r) : remove t T r = T r := if_neg fun hc => h hc.2

theorem hollow_off (h : ¬ t <+: r) : hollow t T r = T r := if_neg fun hc => h hc.1

@[simp] theorem hollow_self : hollow t T t = T t := if_neg fun hc => hc.2 rfl

/-- Cutting `T` down strictly within the paths at or below `t` commutes with planting
elsewhere. -/
theorem cut_plant [DecidablePred C] (hC : ∀ r, C r → t <+: r) (hp : ¬ t <+: p) (r : List κ) :
    (if C r then none else plant d₀ T p e r) =
      plant d₀ (fun r => if C r then none else T r) p e r := by
  by_cases hr : C r
  · have hpre : ¬ r <+: p := fun h => hp ((hC r hr).trans h)
    rw [if_pos hr, plant_off hpre, if_pos hr]
  · unfold plant
    simp only [if_neg hr]

theorem remove_plant (hp : ¬ t <+: p) : remove t (plant d₀ T p e) = plant d₀ (remove t T) p e := by
  by_cases hn : T t = none
  · rw [remove_absent hn, remove_absent (by rw [plant_off hp, hn])]
  · funext r
    rw [remove, plant_off hp]
    have hT : remove t T = fun r => if t <+: r then none else T r := by
      funext r
      simp [remove, hn]
    rw [hT, ← cut_plant (C := (t <+: ·)) (fun _ h => h) hp r]
    simp [hn]

theorem hollow_plant (hp : ¬ t <+: p) : hollow t (plant d₀ T p e) = plant d₀ (hollow t T) p e :=
  funext fun r => cut_plant (C := fun r => t <+: r ∧ r ≠ t) (fun _ h => h.1) hp r

theorem addDir_existing (h : IsDir T p) : addDir d₀ p d T = some T := by
  obtain ⟨x, hx⟩ := h
  rw [addDir, hx]

theorem addDir_new (hn : T p = none) (h0 : p ≠ []) (h1 : Passable T p) :
    addDir d₀ p d T = some (plant d₀ T p (.dir d)) := by
  rw [addDir, hn]
  exact if_pos ⟨h0, h1⟩

/-- An operation that takes away some of what is at or below `t`, no matter whether something is
planted elsewhere before or after. -/
structure Cuts (t : List κ) (F : Tree κ δ l → Tree κ δ l) : Prop where
  sub : ∀ {T r x}, F T r = some x → T r = some x
  off : ∀ {T r}, ¬ t <+: r → F T r = T r
  plant : ∀ {d₀ T p e}, ¬ t <+: p → F (plant d₀ T p e) = plant d₀ (F T) p e

theorem cuts_remove : Cuts (δ := δ) (l := l) t (remove t) := ⟨remove_some, remove_off, remove_plant⟩

theorem cuts_hollow : Cuts (δ := δ) (l := l) t (hollow t) := ⟨hollow_some, hollow_off, hollow_plant⟩

section
variable {F : Tree κ δ l → Tree κ δ l} (hF : Cuts t F)
include hF

theorem Cuts.addLeaf (h : addLeaf d₀ p a T = some T₁) (hp : ¬ t <+: p) :
    PathTree.addLeaf d₀ p a (F T) = some (F T₁) := by
  obtain ⟨h0, h1, h2, rfl⟩ := addLeaf_eq h
  have hsub : ∀ r x, F T r = some x → T r = some x := fun _ _ => hF.sub
  rw [PathTree.addLeaf, if_pos ⟨h0, not_isDir_of_sub hsub h1, passable_of_sub hsub h2⟩, hF.plant hp]

theorem Cuts.addDir (h : addDir d₀ p d T = some T₁) (hp : ¬ t <+: p) :
    PathTree.addDir d₀ p d (F T) = some (F T₁) := by
  rcases addDir_cases h with ⟨⟨x, hx⟩, rfl⟩ | ⟨hn, h0, h1, rfl⟩
  · exact addDir_existing ⟨x, by rw [hF.off hp, hx]⟩
  · rw [addDir_new (by rw [hF.off hp, hn]) h0 (passable_of_sub (fun _ _ => hF.sub) h1), hF.plant hp]

theorem Cuts.addLink (h : addLink d₀ p u T = some T₁) (hp : ¬ t <+: p) (hu : ¬ t <+: u) :
    PathTree.addLink d₀ p u (F T) = some (F T₁) := by
  obtain ⟨a, ha, hl⟩ := addLink_eq h
  rw [PathTree.addLink, hF.off hu, ha]
  exact hF.addLeaf hl hp
end
end

/-- Every entry hangs in a directory; the top level needs no root entry. -/
def Closed (T : Tree κ δ l) : Prop := ∀ r b, T (r ++ [b]) ≠ none → r = [] ∨ IsDir T r

section
variable {T : Tree κ δ l}

section
variable (hT : Closed T)
include hT

omit [DecidableEq κ] in
theorem Closed.below_absent (ht : t ≠ []) (hn : T t = none) (hr : t <+: r) : T r = none := by
  obtain ⟨s, rfl⟩ := hr
  induction s using List.reverseRecOn with
  | nil => rwa [List.append_nil]
  | append_singleton s b ih =>
    by_contra hne
    rw [← List.append_assoc] at hne
    rcases hT _ _ hne with h | ⟨d, hd⟩
    · exact ht (List.append_eq_nil_iff.mp h).1
    · cases ih.symm.trans hd

theorem Closed.plant (hp : Passable T p) (hd : ¬ IsDir T p) : Closed (plant d₀ T p e) := by
  have habove : ∀ r, r <+: p → r ≠ p → r = [] ∨ IsDir (PathTree.plant d₀ T p e) r := by
    intro r hr hne
    by_cases h0 : r = []
    · exact .inl h0
    · right
      cases hx : T r with
      | none => exact ⟨d₀, by rw [PathTree.plant, if_neg hne, hx]; exact if_pos ⟨h0, hr⟩⟩
      | some x =>
        cases x with
        | dir d => exact ⟨d, plant_some hne hx⟩
        | leaf a => exact absurd ⟨a, hx⟩ (hp r ((List.mem_inits _ _).mpr hr) hne)
  intro r b h
  by_cases hpre : r ++ [b] <+: p
  · refine habove r ((List.prefix_append _ _).trans hpre) ?_
    rintro rfl
    have := hpre.length_le
    simp at this
  · rw [plant_off hpre] at h
    rcases hT r b h with h0 | ⟨d, hx⟩
    · exact .inl h0
    · refine .inr ⟨d, plant_some ?_ hx⟩
      rintro rfl
      exact hd ⟨d, hx⟩

omit [DecidableEq κ] in
theorem Closed.cut [DecidablePred C] (hC : ∀ r b, C r → C (r ++ [b])) :
    Closed fun r => if C r then none else T r := by
  intro r b h
  have hc : ¬C (r ++ [b]) := fun hc => h (if_pos hc)
  rcases hT r b (fun hn => h ((if_neg hc).trans hn)) with h0 | ⟨d, hd⟩
  · exact .inl h0
  · exact .inr ⟨d, (if_neg (mt (hC r b) hc)).trans hd⟩

theorem Closed.remove : Closed (remove t T) :=
  hT.cut fun _ _ h => ⟨h.1, h.2.trans (List.prefix_append _ _)⟩

theorem Closed.hollow : Closed (hollow t T) := by
  refine hT.cut fun r b h => ⟨h.1.trans (List.prefix_append _ _), fun he => ?_⟩
  have := h.1.length_le
  rw [← he] at this
  simp at this

theorem hollow_planted (hn : T p = none) (h0 : p ≠ []) :
    PathTree.hollow p (PathTree.plant d₀ T p e) = PathTree.plant d₀ T p e := by
  funext r
  unfold PathTree.hollow
  split
  · next hc =>
    have hpre : ¬ r <+: p := by
      intro h
      exact hc.2 (List.IsPrefix.eq_of_length h (le_antisymm h.length_le hc.1.length_le))
    rw [plant_off hpre, hT.below_absent h0 hn hc.1]
  · rfl
end
end

section
variable {T : Tree κ δ l} {p : List κ} {f : l → m}

omit [DecidableEq κ] in
theorem mapLeaf_eq_none : mapLeaf f T p = none ↔ T p = none := by simp [mapLeaf]

omit [DecidableEq κ] in
theorem mapLeaf_dir (h : T p = some (.dir d)) : mapLeaf f T p = some (.dir d) := by
  simp [mapLeaf, h, Entry.map]

omit [DecidableEq κ] in
theorem mapLeaf_leaf (h : T p = some (.leaf a)) : mapLeaf f T p = some (.leaf (f a)) := by
  simp [mapLeaf, h, Entry.map]

omit [DecidableEq κ] in
theorem mapLeaf_isDir : IsDir (mapLeaf f T) p ↔ IsDir T p := by
  unfold IsDir
  cases h : T p with
  | none => simp [mapLeaf, h]
  | some x => cases x <;> simp [mapLeaf, h, Entry.map]

omit [DecidableEq κ] in
theorem mapLeaf_isLeaf : IsLeaf (mapLeaf f T) p ↔ IsLeaf T p := by
  unfold IsLeaf
  cases h : T p with
  | none => simp [mapLeaf, h]
  | some x => cases x <;> simp [mapLeaf, h, Entry.map]

omit [DecidableEq κ] in
theorem mapLeaf_passable : Passable (mapLeaf f T) p ↔ Passable T p := by
  simp only [Passable, mapLeaf_isLeaf]

theorem mapLeaf_plant : mapLeaf f (plant d₀ T p e) = plant d₀ (mapLeaf f T) p (e.map f) := by
  funext r
  by_cases hr : r = p
  · subst hr
    rw [plant_self, mapLeaf, plant_self, map_some]
  · cases h : T r with
    | some x => simp [mapLeaf, plant, hr, h]
    | none =>
      simp only [mapLeaf, plant, if_neg hr, h]
      split <;> rfl

theorem mapLeaf_addLeaf :
    addLeaf d₀ p (f a) (mapLeaf f T) = (addLeaf d₀ p a T).map (mapLeaf f) := by
  simp only [addLeaf, mapLeaf_isDir, mapLeaf_passable]
  split
  · rw [map_some, mapLeaf_plant, Entry.map]
  · rfl

theorem mapLeaf_addDir : addDir d₀ p d (mapLeaf f T) = (addDir d₀ p d T).map (mapLeaf f) := by
  cases h : T p with
  | none =>
    simp only [addDir, h, mapLeaf_eq_none.mpr h, mapLeaf_passable]
    split
    · rw [map_some, mapLeaf_plant, Entry.map]
    · rfl
  | some x =>
    cases x with
    | dir d' => simp only [addDir, h, mapLeaf_dir h, map_some]
    | leaf a => simp only [addDir, h, mapLeaf_leaf h, map_none]

theorem mapLeaf_addLink : addLink d₀ p t (mapLeaf f T) = (addLink d₀ p t T).map (mapLeaf f) := by
  cases h : T t with
  | none => simp only [addLink, h, mapLeaf_eq_none.mpr h, map_none]
  | some x =>
    cases x with
    | dir d' => simp only [addLink, h, mapLeaf_dir h, map_none]
    | leaf a => simp only [addLink, h, mapLeaf_leaf h, mapLeaf_addLeaf]

theorem mapLeaf_remove : remove t (mapLeaf f T) = mapLeaf f (remove t T) := by
  funext r
  by_cases hc : T t ≠ none ∧ t <+: r
  · have hc' : mapLeaf f T t ≠ none ∧ t <+: r := ⟨fun h => hc.1 (mapLeaf_eq_none.mp h), hc.2⟩
    rw [remove, if_pos hc', mapLeaf, remove, if_pos hc, map_none]
  · have hc' : ¬ (mapLeaf f T t ≠ none ∧ t <+: r) :=
      fun h => hc ⟨fun hn => h.1 (mapLeaf_eq_none.mpr hn), h.2⟩
    rw [remove, if_neg hc', mapLeaf, mapLeaf, remove, if_neg hc]

theorem mapLeaf_hollow : hollow t (mapLeaf f T) = mapLeaf f (hollow t T) := by
  funext r
  by_cases hc : t <+: r ∧ r ≠ t
  · rw [hollow, if_pos hc, mapLeaf, hollow, if_pos hc, map_none]
  · rw [hollow, if_neg hc, mapLeaf, mapLeaf, hollow, if_neg hc]

theorem mapLeaf_clear : clear t (mapLeaf f T) = (clear t T).map (mapLeaf f) := by
  cases h : T t with
  | none => rw [clear_absent h, clear_absent (mapLeaf_eq_none.mpr h), map_some]
  | some x =>
    cases x with
    | dir d => rw [clear_dir ⟨d, h⟩, clear_dir ⟨d, mapLeaf_dir h⟩, mapLeaf_hollow, map_some]
    | leaf a => simp only [clear, h, mapLeaf_leaf h, map_none]
end

end PathTree
