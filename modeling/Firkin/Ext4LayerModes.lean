import Firkin.Ext4Layers

/-! # Modes of directories across layers

The last directory entry that names a directory is meant to give it its mode. `add_dir`
leaves an existing directory alone, and an entry for the root is skipped, so the law
holds exactly as long as no entry asks for another mode than the one in place. -/
namespace Ext4LayerModes

open Ext4Types Ext4Path Ext4Builder Ext4BuilderInvariant Ext4BuilderRuns Ext4BuilderTree
open Ext4BuilderReachable Ext4Layers PathTree

variable {fs₀ : FileSystemBuilder}

/-- The directory an action names, with the permission bits it asks for. -/
def names : Action → Option (List Str × UInt16)
  | .root (some perm) => some ([], perm)
  | .dir path perm => some (path, perm)
  | _ => none

/-- After `done`, the directory `p` is live and the last entry naming it, since which it
has been a directory all along, asked for `perm`. -/
def NamedLast (fs₀ : FileSystemBuilder) (done : List (Option TarEntry)) (p : List Str)
    (perm : UInt16) : Prop :=
  ∃ pre e post a, done = pre ++ e :: post ∧ entryAction e = .ok a ∧ names a = some (p, perm) ∧
    (∀ e' ∈ post, ∀ a' perm', entryAction e' = .ok a' → names a' ≠ some (p, perm')) ∧
    ∀ mid fs, mid <+: post → (pre ++ e :: mid).forM extractEntry fs₀ = .ok () fs →
      IsDir (treeOf fs) p

/-- The last writer of a directory's mode wins, in every state reached. -/
def ModesFollow (fs₀ : FileSystemBuilder) (layers : List Layer) : Prop :=
  ∀ done fs p perm, done <+: layerEntries layers → done.forM extractEntry fs₀ = .ok () fs →
    NamedLast fs₀ done p perm → treeOf fs p = some (.dir (FileMode.dir perm))

/-- Every entry that names a directory already there asks for the mode it has. -/
def ModesAgree (fs₀ : FileSystemBuilder) (layers : List Layer) : Prop :=
  ∀ e fs a p perm mode, AppliedIn fs₀ (layerEntries layers) e fs → entryAction e = .ok a →
    names a = some (p, perm) → treeOf fs p = some (.dir mode) → mode = FileMode.dir perm

/-- No action changes the mode of a directory that stays one. -/
theorem onTree_dir_mode {a : Action} {id : Nat} (h : a.onTree id T = some T')
    (hp : T p = some (.dir mode)) (hd : IsDir T' p) : T' p = some (.dir mode) := by
  have hleaf : ∀ {q : List Str} {l : Leaf Nat}, addLeaf parentMode q l T = some T' →
      T' p = some (.dir mode) := by
    intro q l hl
    obtain ⟨_, _, _, rfl⟩ := addLeaf_eq hl
    exact plant_dir hp hd
  have hsub : (∀ x, T' p = some x → T p = some x) → T' p = some (.dir mode) := by
    intro hx
    obtain ⟨d, hd'⟩ := hd
    rw [hd', ← hx _ hd', hp]
  cases a with
  | root perm => cases h; exact hp
  | clear d => exact hsub fun x => clear_some h
  | whiteout parent name => cases h; exact hsub fun x => remove_some
  | dir path perm =>
    rcases addDir_cases h with ⟨_, rfl⟩ | ⟨hn, _, _, rfl⟩
    · exact hp
    · refine plant_some ?_ hp
      rintro rfl
      cases hp.symm.trans hn
  | file | symlink => exact hleaf h
  | link path target =>
    obtain ⟨l, _, hl⟩ := addLink_eq h
    exact hleaf hl

/-- Right after an entry that names a directory, the directory has the mode it asks for or
the one it had. -/
theorem onTree_names {id : Nat} (h : a.onTree id T = some T') (hn : names a = some (p, perm)) :
    T' p = T p ∧ T' = T ∨ T p = none ∧ T' p = some (.dir (FileMode.dir perm)) := by
  cases a with
  | root o =>
    cases h
    exact .inl ⟨rfl, rfl⟩
  | dir path perm' =>
    cases hn
    rcases addDir_cases h with ⟨_, rfl⟩ | ⟨hnone, _, _, rfl⟩
    · exact .inl ⟨rfl, rfl⟩
    · exact .inr ⟨hnone, plant_self⟩
  | clear | whiteout | file | symlink | link => cases hn

theorem modesFollow_of_agree (wf : WellFormed fs₀)
    (h : ModesAgree fs₀ layers) : ModesFollow fs₀ layers := by
  rintro done fs p perm hdone hrun ⟨pre, e, post, a, rfl, ha, hn, _, hdir⟩
  -- the mode is right just after the naming entry and no later entry changes it
  have key : ∀ mid u, mid <+: post → (pre ++ e :: mid).forM extractEntry fs₀ = .ok () u →
      treeOf u p = some (.dir (FileMode.dir perm)) := by
    intro mid
    induction mid using List.reverseRecOn with
    | nil =>
      intro u hmid hu
      have hd := hdir [] u hmid hu
      obtain ⟨v, hv, hs⟩ := extract_snoc.mp hu
      have hin : AppliedIn fs₀ (layerEntries layers) e v :=
        ⟨pre, (List.prefix_append_right_inj pre).mpr (by simp) |>.trans hdone, hv⟩
      obtain ⟨a', ha', hr⟩ := extractEntry_ok.mp hs
      cases ha.symm.trans ha'
      obtain ⟨hT, _⟩ := action_refines (entryAction_proper ha) (hin.wellFormed wf) hr
      rcases onTree_names hT hn with ⟨hp, _⟩ | ⟨_, hp⟩
      · obtain ⟨mode, hm⟩ := hd
        rw [hm, ← h e v a p perm mode hin ha hn (hp ▸ hm)]
      · exact hp
    | append_singleton mid e' ih =>
      intro u hmid hu
      have hd := hdir _ u hmid hu
      rw [show pre ++ e :: (mid ++ [e']) = (pre ++ e :: mid) ++ [e'] by simp] at hu
      obtain ⟨v, hv, hs⟩ := extract_snoc.mp hu
      have hmode := ih v ((List.prefix_append _ _).trans hmid) hv
      obtain ⟨a', ha', hr⟩ := extractEntry_ok.mp hs
      obtain ⟨hT, _⟩ := action_refines (entryAction_proper ha') (extractEntries_evolves wf hv).wf hr
      exact onTree_dir_mode hT hmode hd
  exact key post fs List.prefix_rfl hrun

/-- An entry that names a directory already there is applied and changes nothing. -/
theorem names_existing (hp : a.Proper) (wf : WellFormed fs) (hn : names a = some (p, perm))
    (hd : treeOf fs p = some (.dir mode)) : a.run fs = .ok () fs := by
  cases a with
  | root o => rfl
  | dir path perm' =>
    cases hn
    have hsegs := segments_guestString hp.1
    cases hk : lookup fs p with
    | none => simp [treeOf, hk] at hd
    | some idx =>
      obtain ⟨⟨n, hnode, _⟩, _⟩ := (lookup_iff wf).mp hk
      rw [treeOf, hk, Option.bind_some] at hd
      rw [lookup_of_segments fun s hs => (hp.1 s hs).1] at hk
      cases hdir : n.mode.isDir with
      | false => rw [entryOf_leaf hnode hdir] at hd; cases hd
      | true =>
        exact addDir_existing (by rw [normalize_eq_keyOf, hsegs]; exact hk) hnode hdir
  | clear | whiteout | file | symlink | link => cases hn

theorem agree_of_modesFollow (wf : WellFormed fs₀)
    (h : ModesFollow fs₀ layers) : ModesAgree fs₀ layers := by
  intro e fs a p perm mode hin ha hn hd
  obtain ⟨done, hpre, hr⟩ := id hin
  have hrun := names_existing (entryAction_proper ha) (hin.wellFormed wf) hn hd
  have hall : (done ++ [e]).forM extractEntry fs₀ = .ok () fs :=
    extract_snoc.mpr ⟨fs, hr, extractEntry_ok.mpr ⟨a, ha, hrun⟩⟩
  have hlast : NamedLast fs₀ (done ++ [e]) p perm := by
    refine ⟨done, e, [], a, rfl, ha, hn, by simp, fun mid u hmid hu => ?_⟩
    rw [List.prefix_nil.mp hmid, hall] at hu
    cases hu
    exact ⟨mode, hd⟩
  have := h _ fs p perm hpre hall hlast
  rw [hd] at this
  exact Entry.dir.inj (Option.some.inj this)

/-- Directory modes follow the last entry exactly when the entries agree with what is
there. -/
theorem modesFollow_iff_agree (fs₀ : FileSystemBuilder) (layers : List Layer)
    (hr : Reached fs₀) : ModesFollow fs₀ layers ↔ ModesAgree fs₀ layers :=
  ⟨agree_of_modesFollow hr.wellFormed, modesFollow_of_agree hr.wellFormed⟩

def dirEntry (path : String) (mode : UInt32) : Option TarEntry := emptyEntry .directory path mode

theorem modesFollow_iff_fresh :
    ModesFollow (FileSystemBuilder.new .k4) [.ok [dirEntry "d" 0o755], .ok [dirEntry "d" 0o755]] ↔
      ModesAgree (FileSystemBuilder.new .k4) [.ok [dirEntry "d" 0o755], .ok [dirEntry "d" 0o755]] :=
  modesFollow_iff_agree _ _ ⟨.k4, [], rfl⟩

/-- A directory of mode 0755 in the lower layer keeps it under an entry of mode 0700. -/
theorem upper_mode_ignored :
    ¬ ModesFollow (FileSystemBuilder.new .k4)
      [.ok [dirEntry "d" 0o755], .ok [dirEntry "d" 0o700]] := by
  intro h
  have hrun : (match [dirEntry "d" 0o755].forM extractEntry (FileSystemBuilder.new .k4) with
      | .ok _ fs => decide (treeOf fs [str "d"] = some (.dir (FileMode.dir 0o755)))
      | .error _ _ => false) = true := by decide +kernel
  cases hfs : [dirEntry "d" 0o755].forM extractEntry (FileSystemBuilder.new .k4) with
  | error e fs => rw [hfs] at hrun; cases hrun
  | ok u fs =>
    rw [hfs] at hrun
    have := agree_of_modesFollow (new_wellFormed .k4) h (dirEntry "d" 0o700) fs
      (.dir [str "d"] 0o700) [str "d"] 0o700 (FileMode.dir 0o755)
      ⟨[dirEntry "d" 0o755], List.prefix_rfl, hfs⟩ (by decide +kernel) rfl
      (of_decide_eq_true hrun)
    revert this
    decide

end Ext4LayerModes
