import Firkin.GuardedRun
import Firkin.HostAdapter
import Firkin.SandboxCreation

/-! # Ids after a restart of the host backend

The backend over the host adapter, call by call, and what a restart makes of it: the registries
come back from the state file, the directories are still there, and the adapter counts sandboxes
on from the largest number it finds among the registered ones. Pods it counts from the
beginning. -/
namespace HostRestart

open Ext4Types DecimalText E2bTypes SortedTable FaultMonad Admission GuardedRun HostAdapter List
open HostRuntimeState LocalBackend
open PodRegistry (PodCreateRequest PodContainerCreateRequest)

structure Node where
  backend : LocalRuntimeBackend
  host : Host

def Node.new (now : Str) : Node := ⟨{ templates := .new now }, {}⟩

structure Outcomes where
  start : StartOutcomes := {}
  stop : StopOutcomes := {}
  pod : PodOutcomes := {}

def Failure.toBackend : Failure → BackendError
  | .backend error => error
  | .panic => .runtime (str "panic")

def respond {α : Type} (r : EStateM.Result Failure Host α) : Except BackendError α :=
  (answer r).mapError Failure.toBackend

variable (domain : Str)

/-- A backend call asks the adapter for one thing, or ignores what it answers to a second. -/
def adapter (o : Outcomes) (h : Host) : RuntimeAdapter :=
  { RuntimeAdapter.refusing with
    start := fun request => respond (start o.start domain request h)
    stop := fun sandboxId => respond (stop o.stop sandboxId h)
    startPod := fun request => respond (startPod o.pod request h)
    stopPod := fun podId => respond (stopPod o.pod podId h)
    applyNetwork := fun _ _ =>
      .error (.runtime (str "host runtime adapter does not enforce E2B network policy")) }

def perform (o : Outcomes) (h : Host) : AdapterCall → Host
  | .start request => left (start o.start domain request h)
  | .stop sandboxId => left (stop o.stop sandboxId h)
  | .startPod request => left (startPod o.pod request h)
  | .stopPod podId => left (stopPod o.pod podId h)
  | _ => h

def call {α : Type} (o : Outcomes) (method : RuntimeAdapter → Api α) (n : Node) :
    Except BackendError α × Node :=
  let r := method (adapter domain o n.host) n.backend
  let asked := (left r).calls.drop n.backend.calls.length
  (answer r, ⟨left r, asked.foldl (perform domain o) n.host⟩)

inductive Event where
  | create (o : Outcomes) (request : SandboxCreateRequest)
  | delete (o : Outcomes) (sandboxId : Str)
  | createPod (o : Outcomes) (request : PodCreateRequest)
  | deletePod (o : Outcomes) (podId : Str)

def step (n : Node) : Event → Node
  | .create o request => (call domain o (LocalBackend.create · request) n).2
  | .delete o sandboxId => (call domain o (LocalBackend.delete · sandboxId) n).2
  | .createPod o request => (call domain o (LocalBackend.createPod · request) n).2
  | .deletePod o podId => (call domain o (LocalBackend.deletePod · podId) n).2

/-- A new adapter on the same directory, restored from the registries. -/
def restart (o : Str → EnvdOutcomes) (n : Node) : Option Node :=
  match restoreFromState o n.backend.toLocalRuntimeState { podFiles := n.host.podFiles } with
  | .ok _ host => some ⟨{ n.backend with calls := [] }, host⟩
  | .error _ _ => none

def lastNumber (s : LocalBackend.LocalRuntimeState) : Nat :=
  ((values s.sandboxes.sandboxes).map fun record =>
    (sandboxNumber record.info.sandboxId).getD 0).foldl max 0

def followingId (s : LocalBackend.LocalRuntimeState) : Str :=
  str "sbx_host_" ++ render (min (lastNumber s + 1) (2 ^ 64 - 1))

def podPart (h : Host) : List Path × UInt64 := (h.podFiles, h.nextPod)

variable {α : Type}

theorem keeps_check : Keeps podPart (check what r) := by
  cases r with
  | ok a => exact (reads_pure a).keeps
  | error e => exact (reads_throw _).keeps

theorem keeps_lift : Keeps podPart (lift r) :=
  (reads_ofExcept _).keeps

theorem keeps_spawn : Keeps podPart spawn := keeps_modifyGet fun _ => rfl

theorem keeps_kill (tasks : List Nat) : Keeps podPart (kill tasks) := keeps_modify fun _ => rfl

theorem keeps_startEnvd {id : Str} :
    Keeps podPart (startEnvdForSandbox o id paused envs mounts children) := by
  refine keeps_lift.bind fun _ => keeps_spawn.bind fun _ => keeps_check.bind fun _ => ?_
  refine keeps_check.bind fun _ => keeps_spawn.bind fun _ => keeps_check.bind fun _ => ?_
  refine keeps_check.bind fun _ => keeps_spawn.bind fun _ => reads_get.keeps.bind fun h => ?_
  refine Keeps.bind (keeps_modify fun _ => rfl) fun _ => ?_
  cases h.sandboxes[id]? with
  | none => exact (reads_pure _).keeps
  | some previous => exact (keeps_kill _).bind fun _ => (reads_pure _).keeps

/-- The counter goes to the largest number; nothing else of a pod is restored. -/
theorem restore_ok (hr : restoreFromState o s h = .ok () t) :
    t.nextSandbox = UInt64.ofNat (lastNumber s) ∧ podPart t = podPart h := by
  obtain ⟨last, u, hfold, hset⟩ := bind_eq_ok.mp hr
  cases hset
  have hloop := foldlM_keeps (f := podPart)
    (g := fun last record => max last ((sandboxNumber record.info.sandboxId).getD 0))
    (fun last record h last' t hstep => by
      obtain ⟨_, u, henvd, hpure⟩ := bind_eq_ok.mp hstep
      cases hpure
      exact ⟨rfl, keeps_startEnvd.of_ok henvd⟩) hfold
  refine ⟨?_, hloop.2⟩
  rw [lastNumber, foldl_map, ← hloop.1]

theorem sandboxNumber_lt {id : Str} (h : sandboxNumber id = some k) : k < 2 ^ 64 := by
  unfold sandboxNumber at h
  split at h
  · exact parse_lt h
  · cases h

theorem sandboxNumber_idOf (k : UInt64) : sandboxNumber (sandboxIdOf k) = some k.toNat := by
  have hdrop : (sandboxIdOf k).drop 9 = render k.toNat := rfl
  have hprefix : str "sbx_host_" <+: sandboxIdOf k := prefix_append _ _
  rw [sandboxNumber, if_pos hprefix, hdrop, parse_render k.toNat_lt]

theorem foldl_max_le {l : List Nat} {a b : Nat} : l.foldl max a ≤ b ↔ a ≤ b ∧ ∀ k ∈ l, k ≤ b := by
  induction l generalizing a with
  | nil => simp
  | cons k l ih => rw [foldl_cons, ih, max_le_iff, forall_mem_cons, and_assoc]

theorem lastNumber_le {b : Nat} :
    lastNumber s ≤ b ↔ ∀ record ∈ values s.sandboxes.sandboxes,
      (sandboxNumber record.info.sandboxId).getD 0 ≤ b := by
  rw [lastNumber, foldl_max_le]
  simp

theorem lastNumber_lt (s : LocalBackend.LocalRuntimeState) : lastNumber s < 2 ^ 64 := by
  refine Nat.lt_of_le_pred (by decide) (lastNumber_le.mpr fun record _ => ?_)
  cases hk : sandboxNumber record.info.sandboxId with
  | none => decide
  | some k => exact Nat.le_pred_of_lt (sandboxNumber_lt hk)

theorem nextSandboxNumber_toNat (h : HostRuntimeState) :
    h.nextSandboxNumber.toNat = min (h.nextSandbox.toNat + 1) (2 ^ 64 - 1) := by
  have hadd : (saturatingAdd64 h.nextSandbox 1).toNat =
      min (h.nextSandbox.toNat + 1) (2 ^ 64 - 1) :=
    AdmissionAmounts.saturatingAdd64_toNat
  have hge : ¬saturatingAdd64 h.nextSandbox 1 ≤ 1 ∨ saturatingAdd64 h.nextSandbox 1 = 1 := by
    rw [UInt64.le_iff_toNat_le, ← UInt64.toNat_inj]
    change ¬_ ≤ 1 ∨ _ = 1
    omega
  rw [nextSandboxNumber, ← hadd]
  rcases hge with hgt | heq
  · exact congrArg UInt64.toNat (if_neg hgt)
  · rw [heq]
    rfl

section
variable (hr : restart o n = some n')
include hr

theorem restart_eq : n'.backend = { n.backend with calls := [] } ∧
    n'.host.podFiles = n.host.podFiles ∧
    n'.host.nextSandboxId = followingId n.backend.toLocalRuntimeState ∧
    n'.host.nextPodId = str "pod_host_1" := by
  unfold restart at hr
  split at hr
  · next u host hrun =>
    cases hr
    obtain ⟨hnext, hpart⟩ := restore_ok hrun
    have hfiles : host.podFiles = n.host.podFiles := congrArg Prod.fst hpart
    have hpod : host.nextPod = 0 := congrArg Prod.snd hpart
    refine ⟨rfl, hfiles, ?_, ?_⟩
    · rw [nextSandboxId, sandboxIdOf, nextSandboxNumber_toNat, hnext, followingId,
        UInt64.toNat_ofNat_of_lt' (lastNumber_lt _)]
    · rw [nextPodId, nextPodNumber, hpod]
      decide +kernel
  · cases hr
end

/-- A registered sandbox has its own id, and one that the adapter gave it. -/
def Keyed (r : SandboxRegistry.LocalSandboxRegistry) : Prop :=
  ∀ (id : Str) (record : SandboxRegistry.SandboxRecord), r.sandboxes[id]? = some record →
    record.info.sandboxId = id ∧ ∃ k, id = sandboxIdOf k

theorem Keyed.insert (h : Keyed r) (request : SandboxCreateRequest)
    (hk : config.sandboxId = sandboxIdOf k) :
    Keyed ⟨r.sandboxes.insert config.sandboxId (SandboxRegistry.newRecord request config),
      r.snapshots⟩ := by
  intro id record hr
  rw [get_insert] at hr
  split at hr
  · next hid =>
    cases hr
    exact ⟨hid, k, hid.symm.trans hk⟩
  · exact h id record hr

theorem Keyed.delete (h : Keyed r) (id : Str) : Keyed (r.delete id).2 := by
  intro id' record hr
  change (r.sandboxes.erase id)[id']? = some record at hr
  rw [get_erase] at hr
  split at hr
  · cases hr
  · exact h id' record hr

section
variable {s : LocalRuntimeBackend}

abbrev KeyedBackend (s : LocalRuntimeBackend) : Prop := Keyed s.sandboxes

theorem registerThenApply_keyed (hs : KeyedBackend s) (request : SandboxCreateRequest)
    (hk : config.sandboxId = sandboxIdOf k) :
    Settles (registerThenApply a request config) s (fun _ => KeyedBackend)
      KeyedBackend := by
  refine (SandboxCreation.registers_registerThenApply a request config s).mono
    (fun _ t ht => ?_) fun t ht => ?_
  · rw [KeyedBackend, ht.2]
    exact hs.insert request hk
  · rw [KeyedBackend, ht]
    exact hs

theorem create_keyed (hs : KeyedBackend s) (request : SandboxCreateRequest)
    (hstart : ∀ r runtime, a.start r = .ok runtime →
      ∃ k, runtime.config.sandboxId = sandboxIdOf k) :
    Settles (create a request) s (fun _ => KeyedBackend) KeyedBackend := by
  refine settles_bind.mpr (reads_get.settles_bind hs fun _ hget => ?_)
  refine (reads_ofExcept _).settles_bind hs fun prepared _ => ?_
  unfold Settles
  rw [ask_eq]
  cases ha : a.start ⟨request, prepared⟩ with
  | error e => exact hs
  | ok runtime =>
    obtain ⟨k, hk⟩ := hstart _ runtime ha
    exact registerThenApply_keyed (s := { s with calls := s.calls ++ [_] }) hs request hk

theorem delete_keyed (hs : KeyedBackend s) (id : Str) :
    Settles (delete a id) s (fun _ => KeyedBackend) KeyedBackend := by
  unfold Settles
  cases ha : a.stop id with
  | error e =>
    rw [delete_failed ha]
    exact hs
  | ok u =>
    rw [delete_stopped ha]
    exact hs.delete id

def sandboxPart (s : LocalRuntimeBackend) : SandboxRegistry.LocalSandboxRegistry := s.sandboxes

theorem keeps_deletePod (podId : Str) : Keeps sandboxPart (deletePod a podId) :=
  (keeps_ask (·.sandboxes)).bind fun _ => keeps_modifyGet fun _ => rfl
end

theorem finishStart_gives {id : Str}
    (hs : finishStart o domain request id metadata children h = .ok runtime t) :
    runtime.config.sandboxId = id := by
  obtain ⟨_, _, -, hs⟩ := bind_eq_ok.mp hs
  obtain ⟨_, _, -, hs⟩ := bind_eq_ok.mp hs
  obtain ⟨_, _, -, hs⟩ := bind_eq_ok.mp hs
  cases hs
  rfl

theorem start_gives (hs : start o domain request h = .ok runtime t) :
    runtime.config.sandboxId = h.nextSandboxId := by
  obtain ⟨_, u, hroot, hs⟩ := bind_eq_ok.mp hs
  have hu : u = h := by
    cases hr : o.createRuntimeRoot with
    | ok v => rw [hr] at hroot; cases hroot; rfl
    | error e => rw [hr] at hroot; cases hroot
  obtain ⟨_, _, hget, hs⟩ := bind_eq_ok.mp hs
  cases hget
  obtain ⟨_, _, -, hs⟩ := bind_eq_ok.mp hs
  obtain ⟨_, _, -, hs⟩ := bind_eq_ok.mp hs
  obtain ⟨_, _, -, hs⟩ := bind_eq_ok.mp hs
  rw [finishStart_gives domain hs, hu]

theorem respond_eq_ok (h : respond r = .ok x) : ∃ t, r = .ok x t := by
  cases r with
  | ok y t => cases h; exact ⟨t, rfl⟩
  | error e t => cases h

theorem mem_branch : q ∈ branch p ↔ q <+: p ∧ q ≠ [] := by
  rw [branch, mem_filter, mem_inits]
  simp

theorem go_append (path : Str) (label : String) (root child : Path) (saw : Bool)
    (parts : List RestartRecovery.Component) :
    rootedChildPath.go path label (root ++ child) saw parts =
      (rootedChildPath.go path label child saw parts).map (root ++ ·) := by
  induction parts generalizing child saw with
  | nil => cases saw <;> rfl
  | cons part parts ih =>
    cases part with
    | rootDir | curDir => exact ih child saw
    | parentDir => rfl
    | normal name =>
      rw [rootedChildPath.go, append_assoc]
      exact ih (child ++ [name]) true

theorem rootedChildPath_append (path : Str) :
    rootedChildPath root path label = (rootedChildPath [] path label).map (root ++ ·) := by
  have h := go_append path label root [] false (RestartRecovery.components path)
  rwa [append_nil] at h

theorem go_ne_nil (hs : saw = true → child ≠ [])
    (h : rootedChildPath.go path label child saw parts = .ok p) : p ≠ [] := by
  induction parts generalizing child saw with
  | nil =>
    rw [rootedChildPath.go] at h
    split at h
    · next hsaw =>
      cases h
      exact hs hsaw
    · cases h
  | cons part parts ih =>
    cases part with
    | rootDir | curDir => exact ih hs h
    | parentDir => cases h
    | normal name => exact ih (fun _ => by simp) h

theorem rootedChildPath_ok (h : rootedChildPath root path label = .ok p) :
    ∃ rest, rest ≠ [] ∧ rootedChildPath [] path label = .ok rest ∧ p = root ++ rest := by
  rw [rootedChildPath_append] at h
  cases hrest : rootedChildPath [] path label with
  | error e => rw [hrest] at h; cases h
  | ok rest =>
    rw [hrest] at h
    cases h
    exact ⟨rest, go_ne_nil (fun hsaw => by cases hsaw) hrest, rfl, rfl⟩

theorem hostPodContainerPath_ok (h : hostPodContainerPath podId name = .ok p) :
    ∃ podRoot rest, hostPodPath podId = .ok podRoot ∧ rest ≠ [] ∧
      rootedChildPath [] name "pod container name" = .ok rest ∧
      p = podRoot ++ str "containers" :: rest := by
  obtain ⟨podRoot, hroot, h⟩ := except_bind_eq_ok.mp h
  obtain ⟨rest, hne, hrest, rfl⟩ := rootedChildPath_ok h
  exact ⟨podRoot, rest, hroot, hne, hrest, by simp⟩

theorem keyed_new (now : Str) : KeyedBackend (Node.new now).backend := by
  intro id record h
  change (∅ : Table Str SandboxRegistry.SandboxRecord)[id]? = some record at h
  cases h

theorem keyed_step (hn : KeyedBackend n.backend) (e : Event) :
    KeyedBackend (step domain n e).backend := by
  cases e with
  | create o request =>
    refine (create_keyed hn request fun r runtime hr => ?_).left
    obtain ⟨t, hstart⟩ := respond_eq_ok hr
    exact ⟨_, start_gives domain hstart⟩
  | delete o sandboxId => exact (delete_keyed hn sandboxId).left
  | createPod o request =>
    have hkept : sandboxPart _ = _ :=
      (podsOnly_createPod (adapter domain o n.host) request).keeps (fun _ _ => rfl) n.backend
    exact Eq.mpr (congrArg Keyed hkept) hn
  | deletePod o podId =>
    have hkept := keeps_deletePod (a := adapter domain o n.host) podId n.backend
    exact Eq.mpr (congrArg Keyed hkept) hn

theorem keyed_run (now : Str) (events : List Event) :
    KeyedBackend (run (step domain) (Node.new now) events).backend := by
  suffices H : ∀ n, KeyedBackend n.backend → KeyedBackend (run (step domain) n events).backend from
    H _ (keyed_new now)
  induction events with
  | nil => exact fun n hn => hn
  | cons e events ih => exact fun n hn => ih _ (keyed_step domain hn e)

end HostRestart
