import Firkin.HostRestart

/-! # Fresh ids after a restart

Whether what is created next gets an id nothing else has. Sandboxes are numbered on from the
largest registered one, so only the end of the counter and pods with the sandbox's id are in the
way. Pods are numbered from one again. -/
namespace HostIds

open Ext4Types E2bTypes SortedTable FaultMonad GuardedRun HostAdapter HostRestart LocalBackend List
open PodRegistry (PodCreateRequest PodContainerCreateRequest PodContainerInfo)

variable (domain : Str)

/-- Nothing is left of the directory of a pod. -/
abbrev NoDirectory (h : Host) (id : Str) : Prop := ∀ path ∈ h.podFiles, ¬[id] <+: path

structure Unused (n : Node) (id : Str) : Prop where
  sandbox : id ∉ n.backend.sandboxes.sandboxes
  pod : id ∉ n.backend.pods.pods
  directory : NoDirectory n.host id

/-- The next sandbox gets an id that is not in use, and creating it does not fail because
something exists. -/
structure FreshSandbox (n : Node) (request : SandboxCreateRequest) : Prop where
  unused : Unused n n.host.nextSandboxId
  accepted : ∀ o id,
    (call domain o (LocalBackend.create · request) n).1 ≠ .error (.alreadyExists id)

structure FreshPod (n : Node) (request : PodCreateRequest) : Prop where
  unused : Unused n n.host.nextPodId
  accepted : ∀ o id,
    (call domain o (LocalBackend.createPod · request) n).1 ≠ .error (.alreadyExists id)

/-- A container's directory is that of an earlier one, leads to it or is the metadata in it. A
name that gives no directory ends the search. -/
def clashes (taken : List Path) : List PodContainerCreateRequest → Bool
  | [] => false
  | container :: containers =>
    match rootedChildPath [] container.name "pod container name" with
    | .error _ => false
    | .ok path => taken.any (fun earlier => path <+: earlier ++ [str "template_id"]) ||
        clashes (path :: taken) containers

structure SandboxIdFree (n : Node) : Prop where
  last : str "sbx_host_18446744073709551615" ∉ n.backend.sandboxes.sandboxes
  pod : followingId n.backend.toLocalRuntimeState ∉ n.backend.pods.pods
  directory : NoDirectory n.host (followingId n.backend.toLocalRuntimeState)

structure PodIdFree (n : Node) : Prop where
  pod : str "pod_host_1" ∉ n.backend.pods.pods
  directory : NoDirectory n.host (str "pod_host_1")

theorem following_registered_iff (hk : Keyed s.sandboxes) :
    followingId s ∈ s.sandboxes.sandboxes ↔
      str "sbx_host_18446744073709551615" ∈ s.sandboxes.sandboxes := by
  have hnumber {id : Str} {k : Nat} (hm : id ∈ s.sandboxes.sandboxes)
      (hid : sandboxNumber id = some k) : k ≤ lastNumber s := by
    obtain ⟨record, hr⟩ :=
      Option.isSome_iff_exists.mp (Std.ExtTreeMap.isSome_getElem?_iff_mem.mpr hm)
    have hle := lastNumber_le.mp (le_refl (lastNumber s)) record (mem_values.mpr ⟨id, hr⟩)
    rwa [(hk id record hr).1, hid] at hle
  have hlt := lastNumber_lt s
  by_cases hend : lastNumber s = 2 ^ 64 - 1
  · have hid : followingId s = str "sbx_host_18446744073709551615" := by
      rw [followingId, hend]
      decide +kernel
    rw [hid]
  · constructor
    · intro hm
      have hid : sandboxNumber (followingId s) = some (lastNumber s + 1) := by
        have h := sandboxNumber_idOf (UInt64.ofNat (lastNumber s + 1))
        rw [sandboxIdOf, UInt64.toNat_ofNat_of_lt' (show _ < 2 ^ 64 by omega)] at h
        rwa [followingId, Nat.min_eq_left (show lastNumber s + 1 ≤ 2 ^ 64 - 1 by omega)]
      have := hnumber hm hid
      omega
    · intro hm
      have := hnumber hm (k := 2 ^ 64 - 1) (by decide +kernel)
      omega

theorem pod_not_sandbox (hk : Keyed r) : str "pod_host_1" ∉ r.sandboxes := by
  intro hm
  obtain ⟨record, hr⟩ := Option.isSome_iff_exists.mp (Std.ExtTreeMap.isSome_getElem?_iff_mem.mpr hm)
  obtain ⟨-, k, hid⟩ := hk _ record hr
  have hhead := congrArg head? hid
  change some (112 : UInt8) = some 115 at hhead
  exact absurd hhead (by decide)

def Other (e : BackendError) : Prop := ∀ id, e ≠ .alreadyExists id

theorem other_runtime : Other (.runtime reason) := by
  intro id h
  cases h

theorem other_notFound {id : Str} : Other (.notFound id) := by
  intro id h
  cases h

def OtherFailure (f : Failure) : Prop := Other (Failure.toBackend f)
def Others {α : Type} (r : Except BackendError α) : Prop := ∀ e, r = .error e → Other e

section
variable {α β : Type}

theorem others_ok (a : α) : Others (.ok a : Except BackendError α) := by
  intro e h
  cases h

theorem others_error (he : Other e) : Others (.error e : Except BackendError α) := by
  intro e' h
  cases h
  exact he

theorem others_runtime {ε : Type} {r : Except ε α} {f : ε → Str} :
    Others (r.mapError fun e => .runtime (f e)) := by
  cases r with
  | ok a => exact others_ok a
  | error e => exact others_error other_runtime

theorem Others.bind (hr : Others r) (hk : ∀ a, Others (k a)) : Others (r >>= k) := by
  cases r with
  | ok a => exact hk a
  | error e => exact others_error (hr e rfl)

theorem others_forM {ι : Type} {f} (hf : ∀ i, Others (f i)) (l : List ι) : Others (l.forM f) := by
  induction l with
  | nil => exact others_ok _
  | cons i l ih => exact (hf i).bind fun _ => ih

theorem others_foldlM {ι : Type} {f} (hf : ∀ b i, Others (f b i))
    {l : List ι} (b : β) : Others (l.foldlM f b) := by
  induction l generalizing b with
  | nil => exact others_ok _
  | cons i l ih =>
    exact (hf b i).bind fun _ => ih _
end

theorem others_go
    (child : Path) (saw : Bool) : Others (rootedChildPath.go path label child saw parts) := by
  induction parts generalizing child saw with
  | nil =>
    rw [rootedChildPath.go]
    split
    · exact others_ok _
    · exact others_error other_runtime
  | cons part parts ih =>
    cases part with
    | rootDir | curDir => exact ih child saw
    | parentDir => exact others_error other_runtime
    | normal name => exact ih (child ++ [name]) true

theorem others_rootedChildPath :
    Others (rootedChildPath root path label) := others_go _ _

theorem others_hostPodContainerPath : Others (hostPodContainerPath podId name) :=
  others_rootedChildPath.bind fun _ => others_rootedChildPath

theorem others_attachHostVolume (o : EnvdOutcomes) (id : Str) (mount : VolumeMount) :
    Others (attachHostVolume o id mount) :=
  others_rootedChildPath.bind fun _ => others_runtime.bind fun _ =>
    others_rootedChildPath.bind fun _ => others_runtime.bind fun _ =>
      others_runtime.bind fun _ => others_runtime

theorem others_openEnvd (o : EnvdOutcomes) (id : Str) (mounts : List VolumeMount) :
    Others (openEnvd o id mounts) :=
  others_runtime.bind fun _ => (others_forM (others_attachHostVolume o id) mounts).bind fun _ =>
    others_runtime.bind fun _ => others_runtime.bind fun _ => others_runtime

theorem others_templateMetadata (o : StartOutcomes) : Others (templateMetadata o template) := by
  cases template with
  | none => exact others_ok _
  | some template =>
    unfold templateMetadata
    dsimp only
    split
    · exact others_ok _
    · exact others_runtime.bind fun _ => others_runtime.bind fun _ => others_ok _

theorem others_runReady (o : StartOutcomes) : Others (runReady o command) := by
  cases command with
  | none => exact others_ok _
  | some command => exact others_runtime

theorem others_findTemplate (s : LocalBackend.LocalRuntimeState) {id : Str} :
    Others (s.findTemplate id) := by
  unfold LocalBackend.LocalRuntimeState.findTemplate
  split
  · exact others_error other_notFound
  · exact others_ok _

theorem others_podPreparedTemplates {s : LocalBackend.LocalRuntimeState} :
    Others (s.podPreparedTemplates containers) := by
  refine others_foldlM (fun templates container => ?_) _
  split
  · exact others_ok _
  · exact (others_findTemplate s).bind fun _ => others_ok _

section
variable {α : Type} {h : Host}

theorem check_ends : Ends (check what r) h (fun a t => r = .ok a ∧ t = h) OtherFailure := by
  cases r with
  | ok a => exact ⟨rfl, rfl⟩
  | error e => exact other_runtime

theorem lift_ends (hr : Others r) :
    Ends (lift r) h (fun a t => r = .ok a ∧ t = h) OtherFailure := by
  cases r with
  | ok a => exact ⟨rfl, rfl⟩
  | error e => exact hr e rfl

theorem timestamps_ends :
    Ends (MonadExcept.ofExcept (timestamps clock timeout) : Adapter (Str × Str)) h
      (fun _ t => t = h) OtherFailure := by
  unfold timestamps
  dsimp only
  split
  · exact other_runtime
  · split
    · exact other_runtime
    · rfl

theorem orKill_ends (hm : Ends m h Q OtherFailure) : Ends (orKill children m) h Q OtherFailure := by
  refine hm.tryCatch fun failure t hf => ?_
  cases failure with
  | backend e => exact hf
  | panic => exact hf

theorem startEnvd_ends {id : Str} :
    Ends (startEnvdForSandbox o id paused envs mounts children) h
      (fun _ _ => True) OtherFailure := by
  refine (lift_ends (others_openEnvd o id mounts)).bind fun _ _ _ => ends_bind.mpr ?_
  refine check_ends.bind fun _ _ _ => check_ends.bind fun _ _ _ => ends_bind.mpr ?_
  refine check_ends.bind fun _ _ _ => check_ends.bind fun _ t _ => ?_
  refine ends_bind.mpr (ends_bind.mpr (ends_bind.mpr ?_))
  cases t.sandboxes[id]? with
  | none | some => exact trivial

theorem start_ends (o : StartOutcomes) :
    Ends (start o domain request) h (fun _ _ => True) OtherFailure := by
  refine check_ends.bind fun _ _ _ => ends_bind.mpr (ends_bind.mpr ?_)
  refine (lift_ends (others_templateMetadata o)).bind fun metadata _ _ => ?_
  have hchildren (u : Host) : Ends (startChildren o metadata.startCmd) u (fun _ _ => True)
      OtherFailure := by
    cases metadata.startCmd with
    | none => exact trivial
    | some command => exact (lift_ends others_runtime).bind fun _ _ _ => trivial
  refine (hchildren _).bind fun children _ _ => ?_
  refine (orKill_ends (lift_ends (others_runReady o))).bind fun _ _ _ => ?_
  refine (orKill_ends startEnvd_ends).bind fun _ _ _ => ?_
  exact timestamps_ends.bind fun _ _ _ => trivial
end

theorem clashes_cons (hpath : rootedChildPath [] container.name "pod container name" = .ok path) :
    clashes taken (container :: containers) = true ↔
      (∃ earlier ∈ taken, path <+: earlier ++ [str "template_id"]) ∨
        clashes (path :: taken) containers = true := by
  rw [clashes, hpath]
  simp

/-- What is below the directory of the containers belongs to those that are taken. -/
def Occupied (podRoot : Path) (taken : List Path) (h : Host) : Prop :=
  ∀ rest ≠ [], podRoot ++ str "containers" :: rest ∈ h.podFiles ↔
    ∃ earlier ∈ taken, rest <+: earlier ++ [str "template_id"]

theorem occupied_new (hnew : NoDirectory h name) : Occupied [name] [] h := by
  intro rest _
  constructor
  · intro hm
    exact absurd (prefix_append _ _) (hnew _ hm)
  · rintro ⟨earlier, hm, -⟩
    cases hm

theorem createDirAll_ends (o : PodOutcomes) (what : String) (path : Path) (h : Host) :
    Ends (createDirAll o what path) h
      (fun _ t => t = { h with podFiles := branch path ++ h.podFiles }) OtherFailure := by
  unfold createDirAll
  cases o.createDirAll path with
  | error e => exact other_runtime
  | ok u => rfl

theorem not_below_emptydir : ∀ rest ≠ [],
    ¬podRoot ++ str "containers" :: rest <+: podRoot ++ [str "emptydir"] := by
  intro rest _ hle
  rw [prefix_append_right_inj, cons_prefix_cons] at hle
  exact absurd hle.1 (by decide +kernel)

theorem not_below_containers : ∀ rest ≠ [],
    ¬podRoot ++ str "containers" :: rest <+: podRoot ++ [str "containers"] := by
  intro rest hne hle
  rw [prefix_append_right_inj, cons_prefix_cons] at hle
  exact hne (prefix_nil.mp hle.2)

section
variable {podRoot : Path} {taken : List Path} {h : Host} (hocc : Occupied podRoot taken h)
include hocc

theorem createDirAll_elsewhere (o : PodOutcomes) (what : String)
    (hpath : ∀ rest ≠ [], ¬podRoot ++ str "containers" :: rest <+: path) :
    Ends (createDirAll o what path) h (fun _ => Occupied podRoot taken) OtherFailure := by
  refine (createDirAll_ends o what path h).mono (fun _ t ht rest hne => ?_) fun _ he => he
  rw [← hocc rest hne, ht]
  simp [mem_branch, hpath rest hne]

theorem createEmptyDir_ends (o : PodOutcomes) (volume : PodRegistry.PodEmptyDir) :
    Ends (createEmptyDir o podRoot volume.name) h (fun _ => Occupied podRoot taken)
      OtherFailure := by
  refine (lift_ends others_rootedChildPath).bind fun path t ht => ?_
  obtain ⟨hpath, rfl⟩ := ht
  obtain ⟨child, -, -, rfl⟩ := rootedChildPath_ok hpath
  refine createDirAll_elsewhere hocc o _ fun rest _ hle => ?_
  rw [append_assoc, prefix_append_right_inj, singleton_append, cons_prefix_cons] at hle
  exact absurd hle.1 (by decide +kernel)

theorem Occupied.take (path : Path) :
    Occupied podRoot (path :: taken) { h with
      podFiles := (podRoot ++ str "containers" :: path ++ [str "template_id"]) ::
        (branch (podRoot ++ str "containers" :: path) ++ h.podFiles) } := by
  intro rest hne
  have hself : podRoot ++ str "containers" :: rest =
      podRoot ++ str "containers" :: path ++ [str "template_id"] ↔
      rest = path ++ [str "template_id"] := by simp
  have hbranch : podRoot ++ str "containers" :: rest ∈
      branch (podRoot ++ str "containers" :: path) ↔ rest <+: path := by simp [mem_branch]
  rw [mem_cons, mem_append, hself, hbranch, hocc rest hne, exists_mem_cons_iff, prefix_concat_iff,
    or_assoc]

theorem Occupied.free (hne : path ≠ [])
    (hfree : ¬∃ earlier ∈ taken, path <+: earlier ++ [str "template_id"]) :
    podRoot ++ str "containers" :: path ∉ h.podFiles :=
  fun hm => hfree ((hocc path hne).mp hm)

section
variable {podId : Str} (hroot : hostPodPath podId = .ok podRoot)
  {container : PodContainerCreateRequest} {path : Path}
  (hpath : rootedChildPath [] container.name "pod container name" = .ok path)
include hroot hpath

omit hocc in
theorem hostPodContainerPath_eq :
    hostPodContainerPath podId container.name = .ok (podRoot ++ str "containers" :: path) := by
  unfold hostPodContainerPath
  rw [hroot]
  change rootedChildPath (podRoot ++ [str "containers"]) _ _ = _
  rw [rootedChildPath_append, hpath]
  simp [Except.map]

theorem container_ends (o : PodOutcomes)
    (hfree : ¬∃ earlier ∈ taken, path <+: earlier ++ [str "template_id"]) :
    Ends (createHostPodContainer o podId container) h
      (fun info t => info.name = container.name ∧ Occupied podRoot (path :: taken) t)
      OtherFailure := by
  obtain ⟨_, hne, hrest, -⟩ := rootedChildPath_ok hpath
  cases hpath.symm.trans hrest
  unfold createHostPodContainer
  rw [hostPodContainerPath_eq hroot hpath, ends_bind_ok (lift_ok _), ends_get_bind]
  rw [if_neg (hocc.free hne hfree)]
  refine (createDirAll_ends o _ _ h).bind fun _ t ht => check_ends.bind fun _ u hu => ?_
  obtain ⟨-, rfl⟩ := hu
  rw [ht]
  exact ⟨rfl, hocc.take path⟩

end

theorem containers_end (o : PodOutcomes) (hroot : hostPodPath podId = .ok podRoot)
    (hclear : clashes taken containers = false) :
    Ends (containers.mapM (createHostPodContainer o podId)) h
      (fun infos _ => infos.map (·.name) = containers.map (·.name)) OtherFailure := by
  refine (ends_mapM (fun l t => ∃ taken, clashes taken l = false ∧ Occupied podRoot taken t)
    (fun container info => info.name = container.name) (fun container l t ht => ?_)
    ⟨taken, hclear, hocc⟩).mono (fun infos _ hinfos => ?_) fun _ he => he
  · obtain ⟨taken, hclear, hocc⟩ := ht
    cases hpath : rootedChildPath [] container.name "pod container name" with
    | error e =>
      refine (lift_ends others_hostPodContainerPath).bind fun root t ht => ?_
      obtain ⟨_, _, -, -, hrest, -⟩ := hostPodContainerPath_ok ht.1
      cases hpath.symm.trans hrest
    | ok path =>
      rw [Bool.eq_false_iff, ne_eq, clashes_cons hpath, not_or] at hclear
      refine (container_ends hocc hroot hpath o hclear.1).mono ?_ fun _ he => he
      exact fun info t hi => ⟨hi.1, path :: taken, Bool.eq_false_iff.mpr hclear.2, hi.2⟩
  · have hnames : List.Forall₂ (· = ·) (infos.map (·.name)) (containers.map (·.name)) :=
      forall₂_map_left_iff.mpr (forall₂_map_right_iff.mpr hinfos.1.flip)
    rwa [forall₂_eq_eq_eq] at hnames

theorem emptyDirs_end (o : PodOutcomes) {volumes : List PodRegistry.PodEmptyDir} :
    Ends (volumes.forM fun volume => createEmptyDir o podRoot volume.name) h
      (fun _ => Occupied podRoot taken) OtherFailure :=
  ends_forM (fun _ => Occupied podRoot taken)
    (fun _ volume _ _ _ ht => createEmptyDir_ends ht o volume) hocc
end

section
theorem podIdFor_none (hid : h.nextPodId = str "pod_host_1") :
    podIdFor none h = .ok (str "pod_host_1") { h with nextPod := h.nextPodNumber } := by
  rw [← hid]
  rfl

theorem hostPodPath_first : hostPodPath (str "pod_host_1") = .ok [str "pod_host_1"] := by
  decide +kernel

variable (hid : h.nextPodId = str "pod_host_1")
  (hnew : NoDirectory h (str "pod_host_1")) (request : PodRegistry.StartPodRequest)
  (hnone : request.createRequest.podId = none)
include hid hnew hnone

theorem startPod_ends (o : PodOutcomes)
    (hclear : clashes [] request.createRequest.containers = false) :
    Ends (startPod o request) h (fun pod _ => pod.config.podId = str "pod_host_1" ∧
      pod.containers.map (·.name) = request.createRequest.containers.map (·.name))
      OtherFailure := by
  unfold startPod
  rw [hnone]
  refine check_ends.bind fun _ t ht => ?_
  obtain ⟨-, rfl⟩ := ht
  rw [ends_bind_ok (podIdFor_none hid), hostPodPath_first, ends_bind_ok (lift_ok _), ends_get_bind]
  rw [if_neg fun hm => hnew _ hm (prefix_refl _)]
  have hocc : Occupied [str "pod_host_1"] [] { t with nextPod := t.nextPodNumber } :=
    occupied_new hnew
  refine (createDirAll_elsewhere hocc o _ not_below_emptydir).bind fun _ u hu => ?_
  refine (emptyDirs_end hu o).bind fun _ v hv => ?_
  refine (createDirAll_elsewhere hv o _ not_below_containers).bind fun _ w hw => ?_
  refine (containers_end hw o hostPodPath_first hclear).bind fun infos x hx => ?_
  refine (ends_foldlM (fun _ => True) (fun paths container s _ => ?_) trivial).bind
    fun paths y _ => ?_
  · exact (lift_ends others_hostPodContainerPath).bind fun _ _ _ => trivial
  · exact timestamps_ends.bind fun times z _ => ⟨rfl, hx⟩

end

theorem respond_eq_error {α : Type} {r : EStateM.Result Failure Host α} {e : BackendError}
    (h : respond r = .error e) : ∃ f t, r = .error f t ∧ Failure.toBackend f = e := by
  cases r with
  | ok y t => cases h
  | error f t =>
    cases h
    exact ⟨f, t, rfl, rfl⟩

theorem others_respond {α : Type} {m : Adapter α} {h : Host} {Q}
    (hm : Ends m h Q OtherFailure) : Others (respond (m h)) := by
  intro e he
  obtain ⟨f, t, hf, rfl⟩ := respond_eq_error he
  exact hm.of_error hf

section
variable {α : Type} {s : LocalRuntimeBackend}

theorem ofExcept_ends (hr : Others r) :
    Ends (MonadExcept.ofExcept r : Api α) s (fun a t => r = .ok a ∧ t = s) Other := by
  cases r with
  | ok a => exact ⟨rfl, rfl⟩
  | error e => exact hr e rfl

theorem ask_ends (hr : Others r) :
    Ends (ask asked r) s
      (fun a t => r = .ok a ∧ t.toLocalRuntimeState = s.toLocalRuntimeState) Other := by
  cases r with
  | ok a => exact ⟨rfl, rfl⟩
  | error e => exact hr e rfl

theorem startSandbox_ends (o : Outcomes) (h : Host) (request : SandboxCreateRequest) :
    Ends (startSandbox (adapter domain o h) request) s
      (fun runtime t => runtime.config.sandboxId = h.nextSandboxId ∧
        t.toLocalRuntimeState = s.toLocalRuntimeState) Other := by
  refine ends_get_bind.mpr ((ofExcept_ends (others_findTemplate _)).bind fun prepared t ht => ?_)
  obtain ⟨-, rfl⟩ := ht
  refine (ask_ends (others_respond (start_ends domain o.start))).mono
    (fun runtime u hu => ⟨?_, hu.2⟩) fun _ he => he
  obtain ⟨v, hv⟩ := respond_eq_ok hu.1
  exact start_gives domain hv

theorem create_ends (o : Outcomes) (request : SandboxCreateRequest)
    (hfree : h.nextSandboxId ∉ s.sandboxes.sandboxes) :
    Ends (create (adapter domain o h) request) s (fun _ _ => True) Other := by
  refine (startSandbox_ends domain o h request).bind fun runtime t ht => ends_get_bind.mpr ?_
  have hcreate : t.sandboxes.create request runtime.config =
      .ok (SandboxRegistry.newConnected runtime.config,
        ⟨t.sandboxes.sandboxes.insert runtime.config.sandboxId
          (SandboxRegistry.newRecord request runtime.config), t.sandboxes.snapshots⟩) := by
    refine if_neg ?_
    rwa [ht.1, show t.sandboxes = s.sandboxes from congrArg (·.sandboxes) ht.2]
  rw [hcreate]
  cases effectiveNetworkPolicyRequest request with
  | none => exact trivial
  | some policy => exact other_runtime

theorem createPod_ends (o : Outcomes) {h : Host} {request : PodCreateRequest}
    (hid : h.nextPodId = str "pod_host_1") (hnone : request.podId = none)
    (hfree : str "pod_host_1" ∉ s.pods.pods) (hnew : NoDirectory h (str "pod_host_1"))
    (hclear : clashes [] request.containers = false) :
    Ends (createPod (adapter domain o h) request) s (fun _ _ => True) Other := by
  refine (ofExcept_ends others_runtime).bind fun _ t ht => ?_
  obtain ⟨hvalid, rfl⟩ := ht
  have hvalid : request.validate = .ok () := by
    cases hv : request.validate with
    | ok u => rfl
    | error e =>
      rw [hv] at hvalid
      cases hvalid
  rw [hnone]
  refine ends_get_bind.mpr ((ofExcept_ends others_podPreparedTemplates).bind
    fun templates u hu => ?_)
  obtain ⟨-, rfl⟩ := hu
  have hstart := startPod_ends hid hnew ⟨request, templates⟩ hnone o.pod hclear
  refine (ask_ends (others_respond hstart)).bind fun runtime v hv => ?_
  obtain ⟨w, hw⟩ := respond_eq_ok hv.1
  obtain ⟨hpodId, hnames⟩ := hstart.of_ok hw
  have hpods : v.pods = u.pods := congrArg (·.pods) hv.2
  have hcreate : ∃ r, v.pods.create request runtime = .ok r := by
    unfold PodRegistry.LocalPodRegistry.create
    rw [hpodId, hpods, if_neg hfree, hnames, PodCreateRequest.validate_ok hvalid]
    exact ⟨_, rfl⟩
  obtain ⟨r, hcreate⟩ := hcreate
  rw [onPodsElse, ends_get_bind, hcreate]
  exact trivial

end

theorem accepted_of_ends {α : Type} {m : Api α} (h : Ends m s (fun _ _ => True) Other) (id : Str) :
    answer (m s) ≠ .error (.alreadyExists id) := by
  intro hfail
  cases hm : m s with
  | ok a t =>
    rw [hm] at hfail
    cases hfail
  | error e t =>
    rw [hm] at hfail
    exact h.of_error hm id (Except.error.inj hfail)

section
variable (hn : KeyedBackend n.backend) (hr : restart o n = some n')
include hn hr

theorem freshSandbox_iff (request : SandboxCreateRequest) :
    FreshSandbox domain n' request ↔ SandboxIdFree n := by
  obtain ⟨hbackend, hfiles, hid, -⟩ := restart_eq hr
  have hlast := following_registered_iff hn
  constructor
  · rintro ⟨⟨hsandbox, hpod, hdirectory⟩, -⟩
    rw [hid, hbackend] at hsandbox hpod
    rw [NoDirectory, hid, hfiles] at hdirectory
    exact ⟨fun h => hsandbox (hlast.mpr h), hpod, hdirectory⟩
  · rintro ⟨hnot, hpod, hdirectory⟩
    have hsandbox : n'.host.nextSandboxId ∉ n'.backend.sandboxes.sandboxes := by
      rw [hid, hbackend]
      exact fun h => hnot (hlast.mp h)
    refine ⟨⟨hsandbox, ?_, ?_⟩, fun o id => ?_⟩
    · rwa [hid, hbackend]
    · rwa [NoDirectory, hid, hfiles]
    · exact accepted_of_ends (create_ends domain o request hsandbox) id

theorem freshPod_iff (hnone : request.podId = none)
    (hclear : clashes [] request.containers = false) :
    FreshPod domain n' request ↔ PodIdFree n := by
  obtain ⟨hbackend, hfiles, -, hid⟩ := restart_eq hr
  constructor
  · rintro ⟨⟨-, hpod, hdirectory⟩, -⟩
    rw [hid, hbackend] at hpod
    rw [NoDirectory, hid, hfiles] at hdirectory
    exact ⟨hpod, hdirectory⟩
  · rintro ⟨hpod, hdirectory⟩
    rw [NoDirectory, ← hfiles] at hdirectory
    have hpod' : str "pod_host_1" ∉ n'.backend.pods.pods := by rwa [hbackend]
    refine ⟨⟨?_, by rwa [hid], by rwa [hid]⟩, fun o id => ?_⟩
    · rw [hid, hbackend]
      exact pod_not_sandbox hn
    · exact accepted_of_ends (createPod_ends domain o hid hnone hpod' hdirectory hclear) id
end

def onePod (podId : Option Str) : PodCreateRequest :=
  { podId, containers := [{ name := str "main", templateId := str "base" },
    { name := str "side/car", templateId := str "base" }] }

end HostIds
