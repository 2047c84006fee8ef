import Firkin.RestartRecovery

/-! # Cleaning markers up

Reconciliation leaves the active VMs alone. Cleaning a list of their markers up succeeds exactly
if every owner is seen running, under its recorded executable, when its marker is reached. -/
namespace RestartCleanup

open Ext4Types DecimalText RestartRecovery FaultMonad List

theorem mapErr_eq_ok {ε ε' α : Type} {f : ε → ε'} {x} {h h' : Host} {a : α} :
    mapErr f x h = .ok a h' ↔ x h = .ok a h' := by
  unfold mapErr
  cases x h <;> simp

section
variable {h h' : Host} {kind : RestartResourceKind} {id : Str}

theorem validateMarkerId_ok {name : Str} (hid : components id = [.normal name]) :
    validateMarkerId kind id h = .ok () h := by
  have hne : id ≠ [] := by
    rintro rfl
    cases hid
  rw [validateMarkerId, if_neg hne, hid]
  rfl

theorem mem_ids_remove {id' : Str} :
    id' ∈ (h.remove id kind).ids other ↔ id' ∈ h.ids other ∧ ¬(kind = other ∧ id' = id) := by
  cases kind <;> cases other <;> simp [Host.remove, Host.ids, mem_filter]
  grind

theorem preserveMarker_ok {name : Str} (hid : components id = [.normal name])
    (hmem : id ∈ h.ids kind) : preserveMarker kind id h = .ok () h := by
  rw [preserveMarker, bind_of_ok (validateMarkerId_ok hid), bind_of_ok (run_get h), if_pos hmem]
  rfl

theorem cleanupMarker_ok {name : Str} (hid : components id = [.normal name])
    (hmem : id ∈ h.ids kind) : cleanupMarker kind id h = .ok () (h.remove id kind) := by
  rw [cleanupMarker, bind_of_ok (validateMarkerId_ok hid), bind_of_ok (run_get h), if_pos hmem]
  rfl

/-- What reconciliation leaves alone: the active VMs and their owners. -/
structure SameVms (h h' : Host) : Prop where
  activeVms : h'.activeVms = h.activeVms
  commands : h'.commands = h.commands
  survives : h'.survives = h.survives

theorem reconcile_ok {name : Str} (hid : components id = [.normal name]) (hmem : id ∈ h.ids kind) :
    ∃ h', reconcile ⟨id, kind⟩ h = .ok () h' ∧ SameVms h h' ∧
      ∀ other, ∀ id' ∈ h.ids other, ¬(kind = other ∧ id' = id) → id' ∈ h'.ids other := by
  have hne : id ≠ [] := by
    rintro rfl
    cases hid
  cases kind with
  | activeVm | snapshotArtifact =>
    refine ⟨h, ?_, ⟨rfl, rfl, rfl⟩, fun _ _ hmem' _ => hmem'⟩
    simp only [reconcile, RestartStateRecord.action, if_neg hne]
    exact preserveMarker_ok hid hmem
  | logStream | staleRuntimeProcess =>
    have hrun := cleanupMarker_ok hid hmem
    refine ⟨_, ?_, ?_, fun _ _ hmem' hother => mem_ids_remove.mpr ⟨hmem', hother⟩⟩
    · simpa only [reconcile, RestartStateRecord.action, if_neg hne] using hrun
    · exact ⟨rfl, rfl, rfl⟩

theorem reconcile_all {rs : List RestartStateRecord} (hnodup : rs.Nodup)
    (hrs : ∀ r ∈ rs, r.id ∈ h.ids r.kind ∧ ∃ name, components r.id = [.normal name]) :
    ∃ h', (rs.forM fun r => mapErr (RuntimeRestartRecoveryError.reconcile r.id) (reconcile r)) h =
      .ok () h' ∧ SameVms h h' := by
  induction rs generalizing h with
  | nil => exact ⟨h, rfl, rfl, rfl, rfl⟩
  | cons r rs ih =>
    obtain ⟨hmem, name, hname⟩ := hrs r (by simp)
    obtain ⟨h₁, hrun, hsame, hkeep⟩ := reconcile_ok hname hmem
    rw [nodup_cons] at hnodup
    obtain ⟨h', hrest, hsame'⟩ := @ih h₁ hnodup.2 fun r' hr' => by
      obtain ⟨hmem', hname'⟩ := hrs r' (by simp [hr'])
      refine ⟨hkeep r'.kind r'.id hmem' ?_, hname'⟩
      rintro ⟨hkind, hid⟩
      have : r' = r := by
        cases r
        cases r'
        simp_all
      exact hnodup.1 (this ▸ hr')
    refine ⟨h', forM_cons_ok.mpr ⟨h₁, mapErr_eq_ok.mpr hrun, hrest⟩, ?_⟩
    exact ⟨hsame'.activeVms.trans hsame.activeVms, hsame'.commands.trans hsame.commands,
      hsame'.survives.trans hsame.survives⟩
end

section
variable {h h' : Host} {m : Marker}

theorem find_marker {ms : List Marker} (hm : m ∈ ms) (hnodup : (ms.map (·.id)).Nodup) :
    ms.find? (·.id = m.id) = some m := by
  induction ms with
  | nil => cases hm
  | cons m' ms ih =>
    rw [map_cons, nodup_cons] at hnodup
    rw [find?_cons]
    rcases mem_cons.mp hm with rfl | hm
    · simp
    · have hne : m'.id ≠ m.id := fun he => hnodup.1 (he ▸ mem_map_of_mem hm)
      simp [hne, ih hm hnodup.2]

theorem metadata_ok {name : Str} (hid : components m.id = [.normal name]) (hm : m ∈ h.activeVms)
    (hnodup : (h.activeVms.map (·.id)).Nodup) :
    activeVmRuntimeMetadata m.id h = .ok metadata h' ↔
      h' = h ∧ ∃ executable, m.owner = some metadata.pid ∧ m.runtimeExecutable = some executable ∧
        metadata.executable = trim executable := by
  rw [activeVmRuntimeMetadata, bind_of_ok (validateMarkerId_ok hid), bind_of_ok (run_get h)]
  simp only [find_marker hm hnodup, Option.bind_some, Marker.owner]
  obtain ⟨pid, executable⟩ := metadata
  cases m.runtimePid with
  | none => simp [run_throw]
  | some text =>
    cases hp : parse 32 (trim text) with
    | none => simp [hp, run_throw]
    | some pid =>
      cases m.runtimeExecutable with
      | none => simp [hp, run_throw]
      | some executable =>
        simp only [hp, run_pure, EStateM.Result.ok.injEq, ActiveVmRuntimeMetadata.mk.injEq,
          Option.bind_some, Option.some.injEq]
        constructor
        · rintro ⟨⟨rfl, rfl⟩, rfl⟩
          exact ⟨rfl, executable, rfl, rfl, rfl⟩
        · rintro ⟨rfl, _, rfl, rfl, rfl⟩
          exact ⟨⟨rfl, rfl⟩, rfl⟩

theorem terminateProcess_ok :
    terminateProcess metadata h = .ok () h' ↔
      (∃ stdout, h.commands metadata.pid = some stdout ∧
        processCommandMatchesExecutable (trim stdout) metadata.executable = true) ∧
      h' = h.signal metadata.pid := by
  rw [terminateProcess, bind_of_ok (run_get h)]
  cases h.commands metadata.pid with
  | none => simp [run_throw]
  | some stdout =>
    by_cases hmatch : processCommandMatchesExecutable (trim stdout) metadata.executable = true
    · simp only [hmatch, if_true, run_modify, EStateM.Result.ok.injEq, true_and]
      constructor
      · rintro rfl
        exact ⟨⟨stdout, rfl, hmatch⟩, rfl⟩
      · rintro ⟨-, rfl⟩
        rfl
    · simp [hmatch, run_throw]

@[simp] theorem signal_activeVms (h : Host) (pid : Nat) :
    (h.signal pid).activeVms = h.activeVms := by
  unfold Host.signal
  split <;> rfl

theorem cleanup_ok {name : Str} (hid : components m.id = [.normal name]) (hm : m ∈ h.activeVms)
    (hnodup : (h.activeVms.map (·.id)).Nodup) :
    cleanup m.id h = .ok () h' ↔ m.Running h.commands ∧
      ∃ pid, m.owner = some pid ∧ h' = (h.signal pid).remove m.id .activeVm := by
  have hmem (pid : Nat) : m.id ∈ (h.signal pid).ids .activeVm := by
    rw [Host.ids, signal_activeVms]
    exact mem_map_of_mem hm
  simp only [cleanup, bind_eq_ok, mapErr_eq_ok, metadata_ok hid hm hnodup]
  constructor
  · rintro ⟨metadata, _, ⟨rfl, executable, howner, hexe, hmeta⟩, ⟨⟩, _, hterm, hrun⟩
    obtain ⟨⟨stdout, hstdout, hmatch⟩, rfl⟩ := terminateProcess_ok.mp hterm
    rw [hmeta] at hmatch
    rw [cleanupMarker_ok hid (hmem metadata.pid)] at hrun
    cases hrun
    exact ⟨⟨metadata.pid, executable, stdout, howner, hexe, hstdout, hmatch⟩, metadata.pid, howner,
      rfl⟩
  · rintro ⟨⟨pid, executable, stdout, howner, hexe, hstdout, hmatch⟩, pid', howner', rfl⟩
    cases howner.symm.trans howner'
    exact ⟨⟨pid, trim executable⟩, h, ⟨rfl, executable, howner, hexe, rfl⟩, (), _,
      terminateProcess_ok.mpr ⟨⟨stdout, hstdout, hmatch⟩, rfl⟩, cleanupMarker_ok hid (hmem pid)⟩

/-- Every owner runs, and none has more markers than the times it is seen running. -/
structure Terminable (h : Host) (ms : List Marker) : Prop where
  running : ∀ m ∈ ms, m.Running h.commands
  listed : ∀ pid, (ms.filterMap Marker.owner).count pid ≤ h.survives pid + 1

theorem signal_commands (h : Host) (pid p : Nat) :
    (h.signal pid).commands p = if p = pid ∧ h.survives pid = 0 then none else h.commands p := by
  unfold Host.signal
  by_cases hs : h.survives pid = 0 <;> simp [hs, Function.update_apply]

theorem signal_survives (h : Host) (pid p : Nat) :
    (h.signal pid).survives p = if p = pid then h.survives pid - 1 else h.survives p := by
  unfold Host.signal
  by_cases hs : h.survives pid = 0
  · by_cases hp : p = pid <;> simp [hs, hp]
  · simp [hs, Function.update_apply]

theorem running_signal (h : Host) (pid : Nat) :
    m.Running (h.signal pid).commands ↔
      m.Running h.commands ∧ (m.owner = some pid → h.survives pid ≠ 0) := by
  constructor
  · rintro ⟨p, executable, stdout, howner, hexe, hcommand, hmatch⟩
    rw [signal_commands] at hcommand
    split at hcommand
    · cases hcommand
    · next hp =>
      refine ⟨⟨p, executable, stdout, howner, hexe, hcommand, hmatch⟩, fun hpid hs => hp ⟨?_, hs⟩⟩
      exact Option.some.inj (howner.symm.trans hpid)
  · rintro ⟨⟨p, executable, stdout, howner, hexe, hcommand, hmatch⟩, hs⟩
    refine ⟨p, executable, stdout, howner, hexe, ?_, hmatch⟩
    rw [signal_commands, if_neg, hcommand]
    rintro ⟨rfl, hzero⟩
    exact hs howner hzero

/-- A signal uses up one of the times its process is seen running. -/
theorem terminable_cons {pid : Nat} (howner : m.owner = some pid) :
    Terminable h (m :: ms) ↔ m.Running h.commands ∧ Terminable (h.signal pid) ms := by
  have hcount (p : Nat) : ((m :: ms).filterMap Marker.owner).count p =
      (ms.filterMap Marker.owner).count p + if p = pid then 1 else 0 := by
    rw [filterMap_cons_some howner, count_cons]
    simp only [beq_iff_eq, @eq_comm Nat pid]
  have hlisted {m' : Marker} (hm' : m' ∈ ms) (hpid : m'.owner = some pid) :
      0 < (ms.filterMap Marker.owner).count pid :=
    count_pos_iff.mpr (mem_filterMap.mpr ⟨m', hm', hpid⟩)
  constructor
  · rintro ⟨hrunning, hcounts⟩
    refine ⟨hrunning m (by simp), fun m' hm' => ?_, fun p => ?_⟩
    · refine (running_signal h pid).mpr ⟨hrunning m' (by simp [hm']), fun hpid => ?_⟩
      have hpos := hlisted hm' hpid
      have hle := hcounts pid
      rw [hcount, if_pos rfl] at hle
      omega
    · have hle := hcounts p
      rw [hcount] at hle
      rw [signal_survives]
      split at hle
      · next hp =>
        rw [if_pos hp]
        subst hp
        omega
      · next hp =>
        rw [if_neg hp]
        exact hle
  · rintro ⟨hm, hrunning, hcounts⟩
    refine ⟨fun m' hm' => ?_, fun p => ?_⟩
    · rcases mem_cons.mp hm' with rfl | hm'
      · exact hm
      · exact ((running_signal h pid).mp (hrunning m' hm')).1
    · have hle := hcounts p
      rw [hcount]
      rw [signal_survives] at hle
      split
      · next hp =>
        subst hp
        rw [if_pos rfl] at hle
        by_cases hs : h.survives p = 0
        · -- the process is gone, so no later marker records it
          have hzero : (ms.filterMap Marker.owner).count p = 0 := by
            by_contra hne
            obtain ⟨m', hm', hpid⟩ := mem_filterMap.mp (count_pos_iff.mp (Nat.pos_of_ne_zero hne))
            exact ((running_signal h p).mp (hrunning m' hm')).2 hpid hs
          omega
        · omega
      · next hp =>
        rw [if_neg hp] at hle
        omega

theorem cleanup_all (hsub : ∀ m ∈ ms, m ∈ h.activeVms)
    (hnamed : ∀ m ∈ ms, ∃ name, components m.id = [.normal name])
    (hnodup : (h.activeVms.map (·.id)).Nodup) (hms : (ms.map (·.id)).Nodup) :
    (∃ h', ((ms.map (·.id)).forM fun id =>
        mapErr (RuntimeRestartRecoveryError.stuckVm id) (cleanup id)) h = .ok () h' ∧
      h'.activeVms = h.activeVms.filter (·.id ∉ ms.map (·.id))) ↔ Terminable h ms := by
  induction ms generalizing h with
  | nil => exact iff_of_true ⟨h, rfl, by simp⟩ ⟨by simp, by simp⟩
  | cons m ms ih =>
    obtain ⟨name, hid⟩ := hnamed m (by simp)
    have hm := hsub m (by simp)
    rw [map_cons, nodup_cons] at hms
    have hrest (pid : Nat) := @ih ((h.signal pid).remove m.id .activeVm)
      (fun m' hm' => by
        have hne : m'.id ≠ m.id := fun he => hms.1 (he ▸ mem_map_of_mem hm')
        simp [Host.remove, hsub m' (by simp [hm']), hne])
      (fun m' hm' => hnamed m' (by simp [hm']))
      (by simpa [Host.remove] using hnodup.sublist (filter_sublist.map _)) hms.2
    have hfilter (pid : Nat) :
        ((h.signal pid).remove m.id .activeVm).activeVms.filter (·.id ∉ ms.map (·.id)) =
          h.activeVms.filter (·.id ∉ (m :: ms).map (·.id)) := by
      simp only [Host.remove, signal_activeVms, filter_filter]
      exact filter_congr fun m' _ => by simp [Bool.and_comm]
    simp only [map_cons, forM_cons_ok, mapErr_eq_ok, cleanup_ok hid hm hnodup]
    constructor
    · rintro ⟨h', ⟨_, ⟨hrunning, pid, howner, rfl⟩, hrun⟩, hleft⟩
      obtain ⟨hrun, hcount⟩ := (hrest pid).mp ⟨h', hrun, hleft.trans (hfilter pid).symm⟩
      exact (terminable_cons howner).mpr ⟨hrunning, hrun, hcount⟩
    · intro hterm
      obtain ⟨pid, _, _, howner, _⟩ := hterm.running m (by simp)
      obtain ⟨hrunning, hrun, hcount⟩ := (terminable_cons howner).mp hterm
      obtain ⟨h', hrun, hleft⟩ := (hrest pid).mpr ⟨hrun, hcount⟩
      exact ⟨h', ⟨_, ⟨hrunning, pid, howner, rfl⟩, hrun⟩, hleft.trans (hfilter pid)⟩
end

end RestartCleanup
