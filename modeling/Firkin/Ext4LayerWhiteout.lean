import Firkin.Ext4Layers

/-! # What a whiteout may remove

A whiteout `<parent>/.wh.<name>` is meant to remove `<parent>/<name>` and what lies below
it. A file called exactly `.wh.` leaves an empty name: the joined path normalises to the
parent itself, and at the top level to the root. -/
namespace Ext4LayerWhiteout

open Ext4Types Ext4Builder Ext4BuilderInvariant Ext4BuilderTree
open Ext4BuilderReachable Ext4Layers PathTree FaultMonad

variable {fs fs' fs₀ : FileSystemBuilder} {entries : List (Option TarEntry)}

/-- The root stays live and indexed, and a whiteout removes nothing outside its target. -/
structure SafeStep (e : Option TarEntry) (fs fs' : FileSystemBuilder) : Prop where
  root_live : Live fs'.nodes 0
  root_indexed : fs'.pathIndex [] = some 0
  target_only : ∀ parent name, entryAction e = .ok (.whiteout parent name) →
    ∀ p, treeOf fs p ≠ none → treeOf fs' p = none → parent ++ [name] <+: p

def Safe (fs₀ : FileSystemBuilder) (entries : List (Option TarEntry)) : Prop :=
  ∀ e fs fs', AppliedIn fs₀ entries e fs → extractEntry e fs = .ok () fs' → SafeStep e fs fs'

/-- No file called just `.wh.` lies in a directory that is live when it is met. -/
def NoEmptyWhiteout (fs₀ : FileSystemBuilder) (entries : List (Option TarEntry)) : Prop :=
  ∀ e fs parent, AppliedIn fs₀ entries e fs → entryAction e = .ok (.whiteout parent []) →
    treeOf fs parent = none

theorem root_indexed_of_live (wf : WellFormed fs) (h : Live fs.nodes 0) :
    fs.pathIndex [] = some 0 := by
  have := wf.index.complete 0 h
  rwa [wf.shape.path_root] at this

theorem action_keeps_root {a : Action} (ha : a.Proper) (wf : WellFormed fs)
    (hlive : Live fs.nodes 0) (hempty : ∀ parent, a = .whiteout parent [] → treeOf fs parent = none)
    (h : a.run fs = .ok () fs') : Live fs'.nodes 0 := by
  have wf' := (action_evolves wf h).wf
  have hroot := (root_live_iff wf).mpr hlive
  obtain ⟨hT, _⟩ := action_refines ha wf h
  rw [onTree_call ha] at hT
  cases hc : a.call with
  | none =>
    rw [hc] at hT
    rw [← root_live_iff wf', ← Option.some.inj hT]
    exact hroot
  | some op =>
    rw [hc] at hT
    refine (root_live_iff wf').mp (treeOp_root ?_ hT hroot)
    cases a with
    | whiteout parent name =>
      cases hc
      intro hnil
      rw [segments_appendGuestPath ha.1 ha.2, List.append_eq_nil_iff] at hnil
      obtain ⟨rfl, hname⟩ := hnil
      have : name = [] := by
        by_contra hne
        simp [hne] at hname
      exact hroot (hempty [] (by rw [this]))
    | root perm => cases hc
    | clear | dir | file | symlink | link => cases hc; trivial

theorem whiteout_target_only (ha : (Action.whiteout parent name).Proper) (wf : WellFormed fs)
    (hempty : name = [] → treeOf fs parent = none)
    (h : (Action.whiteout parent name).run fs = .ok () fs') (p : List Str)
    (hp : treeOf fs p ≠ none) (hp' : treeOf fs' p = none) : parent ++ [name] <+: p := by
  obtain ⟨hT, _⟩ := action_refines ha wf h
  rw [← Option.some.inj hT, remove] at hp'
  have hc : treeOf fs (parent ++ if name = [] then [] else [name]) ≠ none ∧
      (parent ++ if name = [] then [] else [name]) <+: p := by
    by_contra hc
    rw [if_neg hc] at hp'
    exact hp hp'
  by_cases hn : name = []
  · rw [if_pos hn, List.append_nil] at hc
    exact absurd (hempty hn) hc.1
  · rw [if_neg hn] at hc
    exact hc.2

theorem safe_of_noEmptyWhiteout (wf : WellFormed fs₀) (hroot : Live fs₀.nodes 0)
    (h : NoEmptyWhiteout fs₀ entries) : Safe fs₀ entries := by
  -- the root is live in every state the run passes through
  have hlive : ∀ done rest u, entries = done ++ rest → done.forM extractEntry fs₀ = .ok () u →
      Live u.nodes 0 := by
    intro done
    induction done using List.reverseRecOn with
    | nil =>
      intro rest u _ hr
      rwa [forM_nil_ok.mp hr]
    | append_singleton done e ih =>
      intro rest u he hr
      obtain ⟨v, hv, hw⟩ := extract_snoc.mp hr
      have hin : AppliedIn fs₀ entries e v := ⟨done, ⟨rest, he.symm⟩, hv⟩
      obtain ⟨a, ha, hrun⟩ := extractEntry_ok.mp hw
      refine action_keeps_root (entryAction_proper ha) (hin.wellFormed wf)
        (ih (e :: rest) v (by rw [he]; simp) hv) ?_ hrun
      rintro parent rfl
      exact h e v parent hin ha
  intro e fs fs' hin hstep
  obtain ⟨done, ⟨rest, he⟩, hr⟩ := id hin
  have hrun : (done ++ [e]).forM extractEntry fs₀ = .ok () fs' :=
    extract_snoc.mpr ⟨fs, hr, hstep⟩
  have hl := hlive (done ++ [e]) rest fs' he.symm hrun
  have wf' := (extractEntries_evolves wf hrun).wf
  refine ⟨hl, root_indexed_of_live wf' hl, fun parent name ha => ?_⟩
  obtain ⟨a, ha', hrun'⟩ := extractEntry_ok.mp hstep
  cases ha.symm.trans ha'
  exact whiteout_target_only (entryAction_proper ha) (hin.wellFormed wf)
    (fun hn => h e fs parent hin (by rw [ha, hn])) hrun'

theorem noEmptyWhiteout_of_safe (wf : WellFormed fs₀) (h : Safe fs₀ entries) :
    NoEmptyWhiteout fs₀ entries := by
  intro e fs parent hin ha
  by_contra hlive
  have wf₁ := hin.wellFormed wf
  obtain ⟨fs', hrun⟩ := whiteout_run wf₁ parent []
  obtain ⟨hT, _⟩ := action_refines (entryAction_proper ha) wf₁ hrun
  have hgone : treeOf fs' parent = none := by
    rw [← Option.some.inj hT]
    exact if_pos (by simpa using hlive)
  have hsafe := h e fs fs' hin (extractEntry_ok.mpr ⟨_, ha, hrun⟩)
  have := (hsafe.target_only parent [] ha parent hlive hgone).length_le
  simp at this

/-- Layer content is safe exactly when no `.wh.` meets a live parent. -/
theorem safe_iff_noEmptyWhiteout (fs₀ : FileSystemBuilder) (entries : List (Option TarEntry))
    (hr : Reached fs₀) (hroot : Live fs₀.nodes 0) :
    Safe fs₀ entries ↔ NoEmptyWhiteout fs₀ entries :=
  ⟨noEmptyWhiteout_of_safe hr.wellFormed, safe_of_noEmptyWhiteout hr.wellFormed hroot⟩

theorem safe_iff_fresh :
    Safe (FileSystemBuilder.new .k4) [emptyEntry .file "a/.wh.b" 0] ↔
      NoEmptyWhiteout (FileSystemBuilder.new .k4) [emptyEntry .file "a/.wh.b" 0] :=
  safe_iff_noEmptyWhiteout _ _ ⟨.k4, [], rfl⟩ ⟨_, rfl, rfl⟩

/-- One file called `.wh.` at the top of a layer removes the root. -/
theorem empty_whiteout_removes_root :
    ∃ fs, [emptyEntry .file ".wh." 0].forM extractEntry (FileSystemBuilder.new .k4) = .ok () fs ∧
      ¬ Live fs.nodes 0 ∧ fs.pathIndex [] = none := by
  have hrun : (match [emptyEntry .file ".wh." 0].forM extractEntry (FileSystemBuilder.new .k4) with
      | .ok _ fs => (fs.nodes[0]?.all (·.deleted)) && (fs.pathIndex []).isNone
      | .error _ _ => false) = true := by decide +kernel
  cases h : [emptyEntry .file ".wh." 0].forM extractEntry (FileSystemBuilder.new .k4) with
  | error e fs => rw [h] at hrun; cases hrun
  | ok u fs =>
    rw [h] at hrun
    simp only [Bool.and_eq_true, Option.isNone_iff_eq_none] at hrun
    refine ⟨fs, rfl, ?_, hrun.2⟩
    rintro ⟨n, hn, hd⟩
    rw [hn] at hrun
    simp [hd] at hrun

end Ext4LayerWhiteout
