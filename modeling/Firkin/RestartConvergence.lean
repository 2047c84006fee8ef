import Firkin.RestartCleanup

/-! # Convergence of restart recovery

The pass on markers whose heartbeats are all too old, and on the markers that a crash leaves
behind: any part of the writes of a publication. -/
namespace RestartConvergence

open Ext4Types DecimalText RestartRecovery RestartCleanup FaultMonad List

section
variable {h : Host} {timeout now : Nat}

theorem scanMarker_ok (h : scanMarker now m = .ok o) : m.Scannable ∧ o.id = m.id := by
  unfold scanMarker at h
  split at h
  · cases h
  · next text htext =>
    split at h
    · cases h
    · next epoch hepoch =>
      split at h
      · cases h
      · next line hline =>
        split at h
        · cases h
        · next pid hpid =>
          cases h
          exact ⟨⟨⟨text, epoch, htext, hepoch⟩, pid, by simp [Marker.owner, hline, hpid]⟩, rfl⟩

theorem scanMarker_of_scannable (h : m.Scannable) :
    ∃ text epoch pid, m.heartbeat = some text ∧ parse 64 (trim text) = some epoch ∧
      scanMarker now m = .ok ⟨m.id, now - epoch, some pid⟩ := by
  obtain ⟨⟨text, epoch, htext, hepoch⟩, pid, howner⟩ := h
  obtain ⟨line, hline, hpid⟩ := Option.bind_eq_some_iff.mp howner
  exact ⟨text, epoch, pid, htext, hepoch, by simp [scanMarker, htext, hepoch, hline, hpid]⟩

theorem sortedMarkers_perm (markers : List Marker) : (sortedMarkers markers).Perm markers :=
  perm_insertionSort _ markers

theorem scan_ok (hscan : scan h now = .ok found) :
    List.Forall₂ (fun m o => scanMarker now m = .ok o) (sortedMarkers h.activeVms)
        found.stuckVmObservations ∧
      found.restartRecords = found.stuckVmObservations.map (fun o => ⟨o.id, .activeVm⟩) ++
        (sorted h.snapshots).map (fun id => ⟨id, .snapshotArtifact⟩) ++
        (sorted h.logs).map (fun id => ⟨id, .logStream⟩) ++
        (sorted h.processes).map (fun id => ⟨id, .staleRuntimeProcess⟩) := by
  unfold scan at hscan
  split at hscan
  · cases hscan
  · next observations hmap =>
    cases hscan
    exact ⟨FaultMonad.mapM_eq_ok.mp hmap, rfl⟩

theorem observed_ids (h : List.Forall₂ (fun m o => scanMarker now m = .ok o) ms os) :
    os.map (·.id) = ms.map (·.id) := by
  induction h with
  | nil => rfl
  | cons ho _ ih => rw [map_cons, map_cons, ih, (scanMarker_ok ho).2]

theorem perm_sorted : (sorted ids).Perm ids := perm_insertionSort _ ids

def kinds : List RestartResourceKind :=
  [.activeVm, .snapshotArtifact, .logStream, .staleRuntimeProcess]

def recordsOf (ids : RestartResourceKind → List Str) : List RestartStateRecord :=
  kinds.flatMap fun kind => (ids kind).map (⟨·, kind⟩)

theorem mem_recordsOf (hr : r ∈ recordsOf ids) : r.id ∈ ids r.kind := by
  obtain ⟨kind, _, hr⟩ := mem_flatMap.mp hr
  obtain ⟨id, hid, rfl⟩ := mem_map.mp hr
  exact hid

theorem nodup_recordsOf (hids : ∀ kind, (ids kind).Nodup) : (recordsOf ids).Nodup := by
  refine nodup_flatMap.mpr ⟨fun kind _ => ?_, ?_⟩
  · exact (hids kind).map fun a b hab => by simpa using hab
  · have hkinds : kinds.Nodup := by decide
    refine hkinds.imp fun hne r hr hr' => ?_
    obtain ⟨id, _, rfl⟩ := mem_map.mp hr
    obtain ⟨id', _, heq⟩ := mem_map.mp hr'
    exact hne (congrArg RestartStateRecord.kind heq).symm

def listed (h : Host) : RestartResourceKind → List Str
  | .activeVm => (sortedMarkers h.activeVms).map (·.id)
  | .snapshotArtifact => sorted h.snapshots
  | .logStream => sorted h.logs
  | .staleRuntimeProcess => sorted h.processes

theorem listed_perm (h : Host) (kind : RestartResourceKind) :
    (listed h kind).Perm (h.ids kind) := by
  cases kind with
  | activeVm => exact (sortedMarkers_perm h.activeVms).map _
  | snapshotArtifact | logStream | staleRuntimeProcess => exact perm_sorted

/-- The records of a scan are distinct entries of their roots. -/
theorem records_ok (hdir : h.Directories) (hscan : scan h now = .ok found) :
    found.restartRecords.Nodup ∧ ∀ r ∈ found.restartRecords,
      r.id ∈ h.ids r.kind ∧ ∃ name, components r.id = [.normal name] := by
  obtain ⟨hobserved, hrecords⟩ := scan_ok hscan
  have hvms : found.stuckVmObservations.map (fun o => (⟨o.id, .activeVm⟩ : RestartStateRecord)) =
      (listed h .activeVm).map (⟨·, .activeVm⟩) := by
    change _ = ((sortedMarkers h.activeVms).map (·.id)).map _
    rw [← observed_ids hobserved, map_map]
    rfl
  have hrecords : found.restartRecords = recordsOf (listed h) := by
    rw [hrecords, hvms]
    simp [recordsOf, kinds, listed]
  rw [hrecords]
  refine ⟨nodup_recordsOf fun kind => (listed_perm h kind).nodup_iff.mpr (hdir.distinct kind), ?_⟩
  intro r hr
  have hmem : r.id ∈ h.ids r.kind := (listed_perm h r.kind).mem_iff.mp (mem_recordsOf hr)
  exact ⟨hmem, hdir.named r.kind r.id hmem⟩

theorem scan_total (hscannable : ∀ m ∈ h.activeVms, m.Scannable) :
    ∃ found, scan h now = .ok found := by
  have hobserved : ∀ ms : List Marker, (∀ m ∈ ms, m.Scannable) →
      ∃ os, List.Forall₂ (fun m o => scanMarker now m = .ok o) ms os := by
    intro ms hms
    induction ms with
    | nil => exact ⟨[], .nil⟩
    | cons m ms ih =>
      obtain ⟨_, _, _, _, _, ho⟩ := @scanMarker_of_scannable now m (hms m (by simp))
      obtain ⟨os, hos⟩ := ih fun m' hm' => hms m' (by simp [hm'])
      exact ⟨_ :: os, .cons ho hos⟩
  obtain ⟨os, hos⟩ := hobserved (sortedMarkers h.activeVms) fun m hm =>
    hscannable m ((sortedMarkers_perm h.activeVms).mem_iff.mp hm)
  rw [scan, FaultMonad.mapM_eq_ok.mpr hos]
  exact ⟨_, rfl⟩

theorem scannable_of_observed
    (hobserved : List.Forall₂ (fun m o => scanMarker now m = .ok o) ms os) :
    ∀ m ∈ ms, m.Scannable := by
  induction hobserved with
  | nil => simp
  | cons ho _ ih => simpa using ⟨(scanMarker_ok ho).1, ih⟩

def Stale (timeout now : Nat) (ms : List Marker) : Prop :=
  ∀ m ∈ ms, ∀ text epoch, m.heartbeat = some text → parse 64 (trim text) = some epoch →
    timeout ≤ now - epoch

theorem scanMarker_stale (hne : m.id ≠ [])
    (hstale : ∀ text epoch, m.heartbeat = some text → parse 64 (trim text) = some epoch →
      timeout ≤ now - epoch)
    (ho : scanMarker now m = .ok o) : o.decision timeout = .cleanup := by
  obtain ⟨text, epoch, pid, htext, hepoch, hscan⟩ :=
    @scanMarker_of_scannable now m (scanMarker_ok ho).1
  cases ho.symm.trans hscan
  rw [StuckVmObservation.decision, if_neg hne, if_pos (hstale text epoch htext hepoch)]

/-- With every heartbeat too old, the second half of the pass cleans every marker up. -/
theorem clean_stale (hobserved : List.Forall₂ (fun m o => scanMarker now m = .ok o) ms os)
    (hne : ∀ m ∈ ms, m.id ≠ []) (hstale : Stale timeout now ms) :
    (os.forM fun o => mapErr (RuntimeRestartRecoveryError.stuckVm o.id) (cleanStuckVm timeout o)) =
      (ms.map (·.id)).forM fun id =>
        mapErr (RuntimeRestartRecoveryError.stuckVm id) (cleanup id) := by
  induction hobserved with
  | nil => rfl
  | @cons m o ms os ho _ ih =>
    have hid := (scanMarker_ok ho).2
    have hdecision := scanMarker_stale (hne m (by simp)) (hstale m (by simp)) ho
    have hrest := ih (fun m' hm' => hne m' (by simp [hm'])) fun m' hm' => hstale m' (by simp [hm'])
    have hhead : cleanStuckVm timeout o = cleanup m.id := by
      simp only [cleanStuckVm, hdecision, hid]
    simp only [List.map_cons, List.forM, hrest, hhead, hid]

theorem terminable_congr (hsame : SameVms h₁ h₂)
    (hperm : ms.Perm ms') : Terminable h₁ ms ↔ Terminable h₂ ms' := by
  have hcount (pid : Nat) := (hperm.filterMap Marker.owner).count_eq pid
  constructor
  · rintro ⟨hrunning, hlisted⟩
    refine ⟨fun m hm => ?_, fun pid => ?_⟩
    · rw [hsame.commands]
      exact hrunning m (hperm.mem_iff.mpr hm)
    · rw [hsame.survives, ← hcount]
      exact hlisted pid
  · rintro ⟨hrunning, hlisted⟩
    refine ⟨fun m hm => ?_, fun pid => ?_⟩
    · rw [← hsame.commands]
      exact hrunning m (hperm.mem_iff.mp hm)
    · rw [← hsame.survives, hcount]
      exact hlisted pid

/-- With every heartbeat too old, the pass succeeds and leaves no marker exactly if every marker
can be read and every owner terminated. -/
theorem execute_ok_iff (hdir : h.Directories) (hstale : Stale timeout now h.activeVms) :
    (∃ report h', executeWithTerminator timeout now h = .ok report h' ∧ h'.activeVms = []) ↔
      (∀ m ∈ h.activeVms, m.Scannable) ∧ Terminable h h.activeVms := by
  have hperm := sortedMarkers_perm h.activeVms
  have hne : ∀ m ∈ sortedMarkers h.activeVms, m.id ≠ [] := by
    rintro m hm hnil
    obtain ⟨name, hname⟩ := hdir.named .activeVm m.id (mem_map_of_mem (hperm.mem_iff.mp hm))
    rw [hnil] at hname
    cases hname
  have hstale' : Stale timeout now (sortedMarkers h.activeVms) :=
    fun m hm => hstale m (hperm.mem_iff.mp hm)
  rw [executeWithTerminator, bind_of_ok (run_get h)]
  cases hscan : scan h now with
  | error e =>
    refine iff_of_false (fun ⟨_, _, hrun, _⟩ => nomatch hrun) fun ⟨hscannable, _⟩ => ?_
    obtain ⟨found, hfound⟩ := @scan_total h now hscannable
    cases hscan.symm.trans hfound
  | ok found =>
    obtain ⟨hobserved, _⟩ := scan_ok hscan
    obtain ⟨hnodup, hrecords⟩ := records_ok hdir hscan
    obtain ⟨h₁, hreconcile, hsame⟩ := reconcile_all hnodup hrecords
    have hscannable : ∀ m ∈ h.activeVms, m.Scannable := fun m hm =>
      scannable_of_observed hobserved m (hperm.mem_iff.mpr hm)
    have hcleanup := @cleanup_all h₁ (sortedMarkers h.activeVms)
      (fun m hm => hsame.activeVms ▸ hperm.mem_iff.mp hm)
      (fun m hm => hdir.named .activeVm m.id (mem_map_of_mem (hperm.mem_iff.mp hm)))
      (hsame.activeVms ▸ hdir.distinct .activeVm)
      ((hperm.map _).nodup_iff.mpr (hdir.distinct .activeVm))
    have hnone : h₁.activeVms.filter (·.id ∉ (sortedMarkers h.activeVms).map (·.id)) = [] := by
      rw [filter_eq_nil_iff, hsame.activeVms]
      intro m hm
      simpa using ⟨m, hperm.mem_iff.mpr hm, rfl⟩
    rw [hnone] at hcleanup
    dsimp only
    rw [bind_of_ok hreconcile, clean_stale hobserved hne hstale', terminable_congr hsame hperm.symm,
      ← hcleanup, and_iff_right hscannable]
    simp only [bind_eq_ok]
    constructor
    · rintro ⟨report, h', ⟨_, _, hrun, hreport⟩, hleft⟩
      cases hreport
      exact ⟨_, hrun, hleft⟩
    · rintro ⟨h', hrun, hleft⟩
      exact ⟨_, h', ⟨_, _, hrun, rfl⟩, hleft⟩
end

/-- A marker whose last `write_active_vm_heartbeat` was cut off after some of its writes. -/
structure Leftover where
  id : Str
  epoch : UInt64
  pid : UInt32
  executable : Str
  written : Nat

def writeActiveVmHeartbeat (l : Leftover) : List (Marker → Marker) :=
  [fun m => { m with heartbeat := some (render l.epoch.toNat ++ [10]) },
    fun m => { m with runtimePid := some (render l.pid.toNat ++ [10]) },
    fun m => { m with runtimeExecutable := some l.executable }]

def Leftover.marker (l : Leftover) : Marker :=
  ((writeActiveVmHeartbeat l).take l.written).foldl (fun m write => write m) { id := l.id }

theorem marker_eq (l : Leftover) : l.marker =
    ⟨l.id, if 1 ≤ l.written then some (render l.epoch.toNat ++ [10]) else none,
      if 2 ≤ l.written then some (render l.pid.toNat ++ [10]) else none,
      if 3 ≤ l.written then some l.executable else none⟩ := by
  unfold Leftover.marker writeActiveVmHeartbeat
  rcases l.written with _ | _ | _ | n <;> simp

theorem marker_owner (l : Leftover) :
    l.marker.owner = if 2 ≤ l.written then some l.pid.toNat else none := by
  rw [marker_eq, Marker.owner]
  dsimp only
  split
  · exact parse_trim_line l.pid.toNat_lt
  · rfl

theorem marker_scannable (l : Leftover) : l.marker.Scannable ↔ 2 ≤ l.written := by
  rw [Marker.Scannable, marker_owner, marker_eq]
  constructor
  · rintro ⟨-, pid, hpid⟩
    by_contra hn
    rw [if_neg hn] at hpid
    cases hpid
  · intro hn
    refine ⟨⟨render l.epoch.toNat ++ [10], l.epoch.toNat, ?_, parse_trim_line l.epoch.toNat_lt⟩,
      l.pid.toNat, if_pos hn⟩
    exact if_pos (by omega)

/-- The owner of the marker is listed under the executable that the marker is to record. -/
def Leftover.Alive (commands : Nat → Option Str) (l : Leftover) : Prop :=
  ∃ stdout, commands l.pid.toNat = some stdout ∧
    processCommandMatchesExecutable (trim stdout) (trim l.executable) = true

theorem marker_running (commands : Nat → Option Str) (l : Leftover) :
    l.marker.Running commands ↔ 3 ≤ l.written ∧ l.Alive commands := by
  rw [Marker.Running, marker_owner, marker_eq]
  constructor
  · rintro ⟨pid, executable, stdout, hpid, hexe, hcommand, hmatch⟩
    dsimp only at hexe
    split at hexe
    · next hn =>
      cases hexe
      rw [if_pos (by omega)] at hpid
      cases hpid
      exact ⟨hn, stdout, hcommand, hmatch⟩
    · cases hexe
  · rintro ⟨hn, stdout, hcommand, hmatch⟩
    exact ⟨l.pid.toNat, l.executable, stdout, if_pos (by omega), if_pos hn, hcommand, hmatch⟩

theorem marker_stale {timeout now : Nat} {ls : List Leftover}
    (hold : ∀ l ∈ ls, timeout ≤ now - l.epoch.toNat) :
    Stale timeout now (ls.map Leftover.marker) := by
  intro m hm text epoch htext hepoch
  obtain ⟨l, hl, rfl⟩ := mem_map.mp hm
  rw [marker_eq] at htext
  split at htext
  · cases htext
    rw [parse_trim_line l.epoch.toNat_lt] at hepoch
    cases hepoch
    exact hold l hl
  · cases htext

theorem owners_eq {ls : List Leftover} (h : ∀ l ∈ ls, 3 ≤ l.written) :
    (ls.map Leftover.marker).filterMap Marker.owner = ls.map (·.pid.toNat) := by
  induction ls with
  | nil => rfl
  | cons l ls ih =>
    have howner : l.marker.owner = some l.pid.toNat := by
      rw [marker_owner, if_pos (Nat.le_of_succ_le (h l (by simp)))]
    rw [map_cons, filterMap_cons_some howner, map_cons, ih fun l' hl' => h l' (by simp [hl'])]

/-- Once every heartbeat is too old, recovery succeeds and leaves no marker exactly if every
marker was published completely, every owner still runs, and none is gone before the last of its
markers is reached. -/
theorem recovery_converges_iff (h : Host) (ls : List Leftover) (timeout now : Nat)
    (hdir : Host.Directories { h with activeVms := ls.map Leftover.marker })
    (hold : ∀ l ∈ ls, timeout ≤ now - l.epoch.toNat) :
    (∃ report h', executeWithTerminator timeout now { h with activeVms := ls.map Leftover.marker } =
        .ok report h' ∧ h'.activeVms = []) ↔
      (∀ l ∈ ls, 3 ≤ l.written ∧ l.Alive h.commands) ∧
        ∀ pid, (ls.map (·.pid.toNat)).count pid ≤ h.survives pid + 1 := by
  rw [execute_ok_iff hdir (marker_stale hold)]
  constructor
  · rintro ⟨-, hrunning, hlisted⟩
    have hall : ∀ l ∈ ls, 3 ≤ l.written ∧ l.Alive h.commands := fun l hl =>
      (marker_running h.commands l).mp (hrunning l.marker (mem_map_of_mem hl))
    refine ⟨hall, fun pid => ?_⟩
    rw [← owners_eq fun l hl => (hall l hl).1]
    exact hlisted pid
  · rintro ⟨hall, hlisted⟩
    refine ⟨fun m hm => ?_, fun m hm => ?_, fun pid => ?_⟩
    · obtain ⟨l, hl, rfl⟩ := mem_map.mp hm
      exact (marker_scannable l).mpr (Nat.le_of_succ_le (hall l hl).1)
    · obtain ⟨l, hl, rfl⟩ := mem_map.mp hm
      exact (marker_running h.commands l).mpr (hall l hl)
    · rw [owners_eq fun l hl => (hall l hl).1]
      exact hlisted pid

/-- Sandbox 1, published by process 4242 and cut off after some writes. -/
def leftover (written : Nat) : Leftover :=
  ⟨str "sbx_firkin_1", 1000, 4242, str "/usr/local/bin/firkin", written⟩

def host (stdout : Option Str) : Host where
  activeVms := []
  commands pid := if pid = 4242 then stdout else none

theorem recovery_converges_alive :
    ∃ report h', executeWithTerminator 60 2000
      { host (some (str "firkin\n")) with activeVms := [(leftover 3).marker] } = .ok report h' ∧
        h'.activeVms = [] := by
  have hdir : Host.Directories
      { host (some (str "firkin\n")) with activeVms := [leftover 3].map Leftover.marker } := by
    refine ⟨fun kind id hid => ?_, fun kind => by cases kind <;> decide +kernel⟩
    have hname : components (str "sbx_firkin_1") = [.normal (str "sbx_firkin_1")] := by
      decide +kernel
    cases kind with
    | activeVm =>
      obtain rfl : id = str "sbx_firkin_1" := mem_singleton.mp hid
      exact ⟨_, hname⟩
    | _ => cases hid
  refine (recovery_converges_iff (host (some (str "firkin\n"))) [leftover 3] 60 2000 hdir
    (by decide +kernel)).mpr ⟨fun l hl => ?_, fun pid => ?_⟩
  · obtain rfl := mem_singleton.mp hl
    exact ⟨by decide, str "firkin\n", rfl, by decide +kernel⟩
  · have hle := @List.count_le_length Nat _ pid ([leftover 3].map (·.pid.toNat))
    exact hle.trans (Nat.le_add_left 1 _)

def failure (x : EStateM.Result RuntimeRestartRecoveryError Host RuntimeRestartRecoveryReport) :
    Option (RuntimeRestartRecoveryError × List Str) :=
  match x with
  | .ok _ _ => none
  | .error error h => some (error, h.activeVms.map (·.id))

/-- A marker cut off before its pid fails every scan, and a marker whose owner is gone fails
every cleanup; both stay. -/
theorem recovery_stuck :
    failure (executeWithTerminator 60 2000
        { host (some (str "firkin\n")) with activeVms := [(leftover 1).marker] }) =
      some (.scan (.filesystem (str "read active VM runtime pid") (str "sbx_firkin_1")),
        [str "sbx_firkin_1"]) ∧
    failure (executeWithTerminator 60 2000
        { host none with activeVms := [(leftover 3).marker] }) =
      some (.stuckVm (str "sbx_firkin_1") (.terminate 4242 (.psStatus 4242)),
        [str "sbx_firkin_1"]) := by
  decide +kernel

end RestartConvergence
