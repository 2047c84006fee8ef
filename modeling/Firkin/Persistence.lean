import Firkin.ControlPlane
import Firkin.GuardedRun
import Firkin.SandboxCreation
import Firkin.TemplateRequests

/-! # The state file and the registries

A persistent server saves its registries after requests that say they change something and
succeed, and after a tick that expired something. What changes the registries otherwise is in
memory only: two `GET` routes store what the adapter reports, and some calls write before they
fail. -/
namespace Persistence

open Ext4Types DecimalText E2bTypes SortedTable FaultMonad GuardedRun LocalBackend Lifecycle
open TemplateRegistry ControlPlane
open SandboxRegistry (LocalSandboxRegistry SandboxRecord)

/-- The free JSON values and the floats that are read back as they were written: a float must be
finite, and a value must not be nested so deeply that the file is refused. -/
structure Survivors where
  json : JsonValue → Prop
  float : F64 → Prop

variable (v : Survivors)

structure ExactSandbox (record : SandboxRecord) : Prop where
  mcp : ∀ value ∈ record.createRequest.mcp, v.json value
  metric : ∀ metric ∈ record.metric, v.float metric.cpuUsedPct

def ExactStart (start : TemplateBuildStart) : Prop :=
  ∀ value ∈ start.fromImageRegistry, v.json value

structure Exact (s : LocalRuntimeState) : Prop where
  sandboxes : Each (ExactSandbox v) s.sandboxes.sandboxes
  templates : Each (fun record => Each (ExactStart v) record.buildInputs) s.templates.templates

/-- How registries are written and read; everything but those values comes back. -/
structure Codec (φ : Type) extends Survivors where
  encode : LocalRuntimeState → φ
  decode : φ → Option LocalRuntimeState
  decode_encode : ∀ s, Exact toSurvivors s → decode (encode s) = some s

variable {φ : Type} (c : Codec φ)

def store : Store (Option φ) := some fun s _ => .ok (some (c.encode s))
def registries (s : LocalRuntimeBackend) : LocalRuntimeState := s.toLocalRuntimeState

/-- The file holds the registries, or neither is any other than at the beginning. -/
def Agrees (s₀ s : Server (Option φ)) : Prop :=
  (∃ file, s.file = some file ∧ c.decode file = some (registries s.backend)) ∨
    s.file = s₀.file ∧ registries s.backend = registries s₀.backend

inductive Event where
  | request (a : RuntimeAdapter) (request : HttpRequest)
  | tick (a : RuntimeAdapter) (now : Str)

def step (d : Decoders) (apiKey : Option Str) (s : Server (Option φ)) :
    Event → Server (Option φ)
  | .request a request => (handleHttpRequest d apiKey (store c) a request s).2
  | .tick a now => left (tick a (store c) now s)

def nextVolume (s : LocalRuntimeState) : Str :=
  str "vol_" ++ render (Admission.saturatingAdd64 s.volumes.nextVolumeId 1).toNat

/-- What must be given for the operation to change the registries only if it succeeds, and only
if it is not asked for by a `GET`. -/
def CarefulOperation (a : RuntimeAdapter) (s : LocalRuntimeState) : Operation → Prop
  | .create body | .createDetached body => ∀ value ∈ body.mcp, v.json value
  | .createFollowup body | .createFollowupDetached body =>
    ∀ value ∈ body.createRequest.mcp, v.json value
  | .refreshMetrics sandboxId => ∀ samples, a.metrics sandboxId = .ok samples →
    ∀ metric ∈ samples.getLast?, ∀ record, s.sandboxes.sandboxes[sandboxId]? = some record →
      record.metric = some metric
  | .refreshLogs sandboxId => ∀ logs, a.logs sandboxId = .ok logs →
    logs.logs = [] ∨ sandboxId ∉ s.sandboxes.sandboxes
  | .requestTemplateBuild body => (a.prepareTemplate body).isOk = true
  | .startTemplateBuild templateId buildId start => ExactStart v start ∧
    ∀ uploadedFiles started,
      s.templates.uploadedFilesForBuild templateId start = .ok uploadedFiles →
      s.templates.startBuild templateId buildId start = .ok started →
      (a.buildTemplate { templateId, buildId, start, uploadedFiles }).isOk = true
  | .createVolume _ => nextVolume s ∈ s.volumes.volumes →
    s.volumes.nextVolumeId = Admission.saturatingAdd64 s.volumes.nextVolumeId 1
  | _ => True

/-- A request that gets as far as an operation needs that to be careful. A tick expires every
sandbox that is due, or fails at the first. -/
def Careful (d : Decoders) (apiKey : Option Str) (s : Server (Option φ)) : Event → Prop
  | .request a request => ∀ converted operation, authorized apiKey request = true →
    convertHttpRequest request = .ok converted → dispatch d converted = .ok operation →
    CarefulOperation c.toSurvivors a (registries s.backend) operation
  | .tick a now =>
    (∀ p ∈ dueRecords s.backend.sandboxes now, succeeds a p.2 p.1 = true) ∨
      ∀ p ∈ (dueRecords s.backend.sandboxes now).head?, succeeds a p.2 p.1 = false

/-- Called on the registries `r`: a failure leaves them, and what a success makes of them can be
read back. -/
def Clean {ε α : Type} (r : LocalRuntimeState) (m : EStateM ε LocalRuntimeBackend α) : Prop :=
  ∀ s, registries s = r →
    Settles m s (fun _ t => Exact v (registries t)) (fun t => registries t = r)

section
variable {v} {ε α β : Type}

theorem settles_of_keeps (hm : Keeps registries m) (hs : registries s = r) :
    Settles m s (fun _ t => registries t = r) (fun t => registries t = r) := by
  subst hs
  exact hm.settles s

theorem clean_after (hm : Keeps registries m) (hk : ∀ a, Clean v r (k a)) :
    Clean v r (m >>= k) := by
  intro s hs
  exact (settles_of_keeps hm hs).bind fun a t ht => hk a t ht

theorem Clean.map (hm : Clean v r m) (f : α → β) : Clean v r (m >>= fun a => pure (f a)) := by
  intro s hs
  exact (hm s hs).bind fun _ _ ht => ht
end

/-- The same for a method that says whether there was something to do; if not, nothing was
done. -/
def Confirms (r : LocalRuntimeState) (m : Api Bool) : Prop :=
  ∀ s, registries s = r → Settles m s
    (fun existed t => Exact v (registries t) ∧ (existed = false → registries t = r))
    (fun t => registries t = r)

section
variable {v} {α : Type} (hr : Exact v r)
include hr

theorem clean_onSandboxes
    {method : LocalSandboxRegistry → LocalBackend.Result (α × LocalSandboxRegistry)}
    (hm : ∀ a sandboxes, method r.sandboxes = .ok (a, sandboxes) →
      Each (ExactSandbox v) sandboxes.sandboxes) : Clean v r (onSandboxes method) := by
  rintro s rfl
  unfold Settles onSandboxes
  cases h : method s.sandboxes with
  | error e => rfl
  | ok p => exact ⟨hm p.1 p.2 h, hr.templates⟩

theorem clean_podsOnly (hm : PodsOnly m) : Clean v r m := by
  rintro s rfl
  refine (hm s).mono (fun _ t ht => ?_) fun _ ht => ht
  obtain ⟨pods, ht⟩ := ht
  rw [registries, ht]
  exact ⟨hr.sandboxes, hr.templates⟩

theorem clean_onVolumes {method : VolumeRegistry.LocalVolumeRegistry →
      LocalBackend.Result (α × VolumeRegistry.LocalVolumeRegistry)} :
    Clean v r (onVolumes method) := by
  rintro s rfl
  unfold Settles onVolumes
  cases h : method s.volumes with
  | error e => rfl
  | ok p => exact ⟨hr.sandboxes, hr.templates⟩

theorem clean_onTemplates (hm : Settles method r.templates
      (fun _ t => Each (fun record => Each (ExactStart v) record.buildInputs) t.templates)
      (fun t => t = r.templates)) : Clean v r (onTemplates method) := by
  rintro s rfl
  unfold Settles at hm ⊢
  unfold onTemplates
  rw [show (registries s).templates = s.templates from rfl] at hm
  cases h : method s.templates with
  | error e t =>
    rw [h] at hm
    rw [hm]
  | ok a t =>
    rw [h] at hm
    exact ⟨hr.sandboxes, hm⟩
end

section
variable {v} (hr : Exact v r) (a : RuntimeAdapter)
include hr

theorem deletePod_confirms (podId : Str) : Confirms v r (deletePod a podId) := by
  intro s hs
  refine (settles_of_keeps (keeps_ask id) hs).bind fun _ t ht => ?_
  subst ht
  refine ⟨⟨hr.sandboxes, hr.templates⟩, fun habsent => ?_⟩
  have herase := erase_absent (of_decide_eq_false habsent)
  change ({ registries t with pods := ⟨t.pods.pods.erase podId⟩ } : LocalRuntimeState) =
    registries t
  rw [herase]
  rfl
end

section
variable {v} {r : LocalRuntimeState} (hr : Exact v r) (a : RuntimeAdapter)
include hr

theorem clean_edit {α : Type} {id : Str}
    {k : SandboxRecord → LocalBackend.Result (α × LocalSandboxRegistry)}
    (hk : ∀ record x sandboxes, k record = .ok (x, sandboxes) → ExactSandbox v record →
      Each (ExactSandbox v) sandboxes.sandboxes)
    {method : LocalSandboxRegistry → LocalBackend.Result (α × LocalSandboxRegistry)}
    (hmethod : method r.sandboxes = r.sandboxes.record id >>= k) :
    Clean v r (onSandboxes method) := by
  refine clean_onSandboxes hr fun x sandboxes h => ?_
  rw [hmethod] at h
  obtain ⟨record, hrecord, h⟩ := except_bind_eq_ok.mp h
  rw [LocalSandboxRegistry.record_eq_ok] at hrecord
  exact hk record x sandboxes h (hr.sandboxes id record hrecord)

omit hr in
theorem ExactSandbox.withInfo (h : ExactSandbox v record)
    (info : SandboxInfo) : ExactSandbox v { record with info } := ⟨h.mcp, h.metric⟩

theorem connect_clean (sandboxId : Str) (body : ConnectRequest) :
    Clean v r (connect a sandboxId body) := by
  refine clean_after (reads_ofExcept _).keeps fun _ => clean_edit hr (fun record x t h he => ?_) rfl
  cases h
  exact hr.sandboxes.insert (he.withInfo _)

theorem setEndAt_clean (sandboxId endAt : Str) :
    Clean v r (onSandboxes (·.setEndAt sandboxId endAt)) := by
  refine clean_edit hr (fun record x t h he => ?_) rfl
  cases h
  exact hr.sandboxes.insert (he.withInfo _)

omit hr in
theorem reads_look {α : Type} (read : LocalRuntimeState → LocalBackend.Result α) :
    Reads (look read) := reads_get.bind fun _ => reads_ofExcept _

section
variable (sandboxId : Str)
include sandboxId

theorem setTimeout_clean (body : TimeoutRequest) :
    Clean v r (keepEndAt sandboxId (·.setTimeout sandboxId body ·)) :=
  clean_after (reads_look _).keeps fun info => setEndAt_clean hr sandboxId info.endAt

theorem refresh_clean (body : RefreshRequest) :
    Clean v r (keepEndAt sandboxId (·.refresh sandboxId body ·)) :=
  clean_after (reads_look _).keeps fun info => setEndAt_clean hr sandboxId info.endAt

theorem createSnapshot_clean (body : CreateSnapshotRequest) :
    Clean v r (createSnapshot a sandboxId body) := by
  refine clean_after (reads_ofExcept _).keeps fun snapshot => ?_
  refine clean_edit hr (fun record x t h _ => ?_) rfl
  split at h
  · cases h
  · cases h
    exact hr.sandboxes

theorem deleteRecord_confirms : Confirms v r (deleteRecord sandboxId) := by
  rintro s rfl
  refine ⟨⟨hr.sandboxes.erase sandboxId, hr.templates⟩, fun habsent => ?_⟩
  have herase := erase_absent (of_decide_eq_false habsent)
  change ({ registries s with sandboxes := ⟨s.sandboxes.sandboxes.erase sandboxId, _⟩ } :
    LocalRuntimeState) = registries s
  rw [herase]
  rfl

theorem delete_confirms : Confirms v r (delete a sandboxId) := by
  intro s hs
  refine (settles_of_keeps (keeps_ask id) hs).bind fun _ t ht => ?_
  exact deleteRecord_confirms hr sandboxId t ht

theorem pause_confirms : Confirms v r (pause a sandboxId) := by
  intro s hs
  refine (settles_of_keeps (keeps_ask id) hs).bind fun _ t ht => ?_
  subst ht
  unfold Settles onSandboxes
  dsimp only
  cases h : t.sandboxes.pause sandboxId with
  | error e => rfl
  | ok p =>
    obtain ⟨record, hrecord, h⟩ := except_bind_eq_ok.mp h
    rw [LocalSandboxRegistry.record_eq_ok] at hrecord
    split at h
    · cases h
      exact ⟨hr, fun _ => rfl⟩
    · cases h
      refine ⟨⟨hr.sandboxes.insert ?_, hr.templates⟩, fun hfalse => by cases hfalse⟩
      exact (hr.sandboxes sandboxId record hrecord).withInfo _
end

section
variable {request : SandboxCreateRequest} (hmcp : ∀ value ∈ request.mcp, v.json value)
include hmcp

theorem registers_clean (hm : SandboxCreation.Registers request runtime m) : Clean v r m := by
  rintro s rfl
  refine (hm s).mono (fun _ t ht => ?_) fun _ ht => ht
  rw [registries, ht.2]
  exact ⟨hr.sandboxes.insert ⟨hmcp, fun _ hmetric => by cases hmetric⟩, hr.templates⟩

omit hr hmcp in
theorem keeps_startSandbox : Keeps registries (startSandbox a request) :=
  reads_get.keeps.bind fun _ => (reads_ofExcept _).keeps.bind fun _ => keeps_ask id

theorem create_clean : Clean v r (create a request) :=
  clean_after (keeps_startSandbox a) fun _ =>
    registers_clean hr hmcp (SandboxCreation.registers_registerThenApply a _ _)

theorem createDetached_clean : Clean v r (createWithDetachedRuntimeStart a request) :=
  clean_after (keeps_startSandbox a) fun _ =>
    registers_clean hr hmcp (SandboxCreation.registers_applyThenRegister a _ _)
end

section
variable {request : FollowupSandboxCreateRequest}
  (hmcp : ∀ value ∈ request.createRequest.mcp, v.json value)
include hmcp

omit hr in
/-- A follow-up is created from the client's request but for the template. -/
theorem followup_clean {finish : SandboxCreateRequest → SandboxRuntimeConfig → Api ConnectedSandbox}
    (hfinish : ∀ created runtime, (∀ value ∈ created.mcp, v.json value) →
      Clean v r (finish created runtime)) :
    Clean v r (do
      let (created, runtime) ← startFollowupSandbox a request
      finish created runtime.config) := by
  intro s hs
  refine Settles.bind (Q := fun p t => p.1.mcp = request.createRequest.mcp ∧ registries t = r) ?_
    fun p t ht => hfinish _ _ (ht.1 ▸ hmcp) t ht.2
  refine reads_get.settles_bind hs fun _ _ => ?_
  refine (reads_ofExcept _).settles_bind hs fun snapshot _ => ?_
  exact (settles_of_keeps (keeps_ask id) hs).bind fun runtime t ht => ⟨rfl, ht⟩

theorem createFollowup_clean : Clean v r (createFollowup a request) :=
  followup_clean a hmcp fun _ _ h =>
    registers_clean hr h (SandboxCreation.registers_registerThenApply a _ _)

theorem createFollowupDetached_clean :
    Clean v r (createFollowupWithDetachedRuntimeStart a request) :=
  followup_clean a hmcp fun _ _ h =>
    registers_clean hr h (SandboxCreation.registers_applyThenRegister a _ _)
end

end

section
abbrev ExactTemplates (t : LocalTemplateRegistry) : Prop :=
  Each (fun record => Each (ExactStart v) record.buildInputs) t.templates

variable {v} {r : LocalRuntimeState} (hr : Exact v r) (a : RuntimeAdapter)
include hr

theorem clean_onTemplateRegistry {α : Type}
    {method : LocalTemplateRegistry → LocalBackend.Result (α × LocalTemplateRegistry)}
    (hm : ∀ x t, method r.templates = .ok (x, t) → ExactTemplates v t) :
    Clean v r (onTemplateRegistry method) := by
  exact clean_onTemplates hr (settles_attempt rfl hm)

theorem clean_templateEdit {α : Type} {id : Str}
    {k : TemplateRecord → LocalBackend.Result (α × LocalTemplateRegistry)}
    (hk : ∀ record x t, k record = .ok (x, t) →
      ∃ record', t = r.templates.put id record' ∧ record'.buildInputs = record.buildInputs)
    {method : LocalTemplateRegistry → LocalBackend.Result (α × LocalTemplateRegistry)}
    (hmethod : method r.templates = r.templates.template id >>= k) :
    Clean v r (onTemplateRegistry method) := by
  refine clean_onTemplateRegistry hr fun x t h => ?_
  rw [hmethod] at h
  obtain ⟨record, hrecord, h⟩ := except_bind_eq_ok.mp h
  rw [LocalTemplateRegistry.template_eq_ok] at hrecord
  obtain ⟨record', rfl, hinputs⟩ := hk record x t h
  exact hr.templates.insert (hinputs ▸ hr.templates id record hrecord)

theorem updateTemplate_clean (id : Str) (body : TemplateUpdateRequest) :
    Clean v r (onTemplateRegistry (·.update id body)) :=
  clean_templateEdit hr (fun record x t h => by cases h; exact ⟨_, rfl, rfl⟩) rfl

theorem uploadFile_clean (id hash : Str) (bytes : List UInt8) :
    Clean v r (onTemplateRegistry (·.uploadFile id hash bytes)) :=
  clean_templateEdit hr (fun record x t h => by cases h; exact ⟨_, rfl, rfl⟩) rfl

theorem assignTags_clean (body : AssignTemplateTags) :
    Clean v r (onTemplateRegistry (·.assignTags body)) :=
  clean_templateEdit hr (fun record x t h => by cases h; exact ⟨_, rfl, rfl⟩) rfl

theorem removeTags_clean (body : RemoveTemplateTags) :
    Clean v r (onTemplateRegistry (·.removeTags body)) := by
  cases halias : r.templates.aliases[body.name]? with
  | none =>
    refine clean_onTemplateRegistry hr fun x t h => ?_
    rw [LocalTemplateRegistry.removeTags, halias] at h
    cases h
  | some id =>
    refine clean_templateEdit hr (fun record x t h => ?_)
      (by rw [LocalTemplateRegistry.removeTags, halias])
    cases h
    exact ⟨_, rfl, rfl⟩

theorem requestTemplateBuild_clean (hok : (a.prepareTemplate body).isOk = true) :
    Clean v r (onTemplates (requestTemplateBuild a.prepareTemplate body)) := by
  refine clean_onTemplates hr ?_
  cases hp : a.prepareTemplate body with
  | error e =>
    rw [hp] at hok
    cases hok
  | ok prepared =>
    unfold Settles
    rw [TemplateRequests.requestTemplateBuild_ok hp]
    refine (hr.templates.insert each_empty).insert (each_empty.insert ?_)
    intro value hvalue
    cases hvalue

theorem startTemplateBuild_clean {id buildId : Str} {start} (hstart : ExactStart v start)
    (hok : ∀ uploadedFiles started,
      r.templates.uploadedFilesForBuild id start = .ok uploadedFiles →
      r.templates.startBuild id buildId start = .ok started →
      (a.buildTemplate ⟨id, buildId, start, uploadedFiles⟩).isOk = true) :
    Clean v r (onTemplates
      (startTemplateBuild a.buildTemplate id buildId start)) := by
  refine clean_onTemplates hr (reads_get.settles_bind rfl fun _ hget => ?_)
  cases hget
  refine (reads_ofExcept _).settles_bind rfl fun files hfiles => ?_
  obtain ⟨hfiles, -⟩ := run_ofExcept_eq_ok.mp hfiles
  cases hs : r.templates.startBuild id buildId start with
  | error e =>
    rw [Settles, bind_of_error (by rw [attempt, hs])]
  | ok p =>
    obtain ⟨⟨⟩, t⟩ := p
    rw [settles_bind_ok (attempt_of_ok hs)]
    have hbuild := hok files _ hfiles hs
    obtain ⟨record, builds, hrecord, hbuilds, rfl⟩ := LocalTemplateRegistry.startBuild_eq_ok hs
    obtain ⟨settled, hsettled⟩ := TemplateRecord.updateBuild_again
      (f := TemplateRecord.startedBuild r.templates.now) (fun _ => rfl)
      (TemplateRecord.settledBuild r.templates.now .ready) hbuilds
    cases hb : a.buildTemplate ⟨id, buildId, start, files⟩ with
    | error e =>
      rw [hb] at hbuild
      cases hbuild
    | ok prepared =>
      rw [settles_bind_ok (attempt_of_ok
        (LocalTemplateRegistry.setPreparedTemplate_eq prepared LocalTemplateRegistry.put_get_self)),
        Settles, attempt_of_ok (LocalTemplateRegistry.setBuildStatus_eq
          LocalTemplateRegistry.put_get_self hsettled)]
      rw [LocalTemplateRegistry.put_put, LocalTemplateRegistry.put_put]
      exact hr.templates.insert ((hr.templates id record hrecord).insert hstart)

theorem deleteTemplate_clean (id : Str) : Clean v r (ControlPlane.deleteTemplate a id) := by
  rintro s rfl
  refine reads_get.settles_bind rfl fun _ hget => ?_
  cases hget
  cases hrecord : s.templates.templates[id]? with
  | some record =>
    rw [LocalTemplateRegistry.delete, hrecord]
    exact ⟨hr.sandboxes, hr.templates.erase id⟩
  | none =>
    rw [LocalTemplateRegistry.delete, hrecord]
    rw [settles_bind_ok (run_modify s)]
    refine reads_get.settles_bind rfl fun _ hget => ?_
    split
    · cases a.deleteSnapshot id with
      | ok u => exact ⟨hr.sandboxes, hr.templates⟩
      | error e => rfl
    · rfl
end

section
variable {v} (hr : Exact v r)
include hr

theorem createVolume_clean (hc : nextVolume r ∈ r.volumes.volumes →
    r.volumes.nextVolumeId = Admission.saturatingAdd64 r.volumes.nextVolumeId 1) :
    Clean v r (ControlPlane.createVolume name) := by
  rintro s rfl
  unfold Settles ControlPlane.createVolume
  by_cases hm : nextVolume (registries s) ∈ s.volumes.volumes
  · have hcreate : s.volumes.create name = (.error (.alreadyExists (nextVolume (registries s))),
        ⟨s.volumes.volumes, Admission.saturatingAdd64 s.volumes.nextVolumeId 1⟩) := if_pos hm
    have hcounter : (⟨s.volumes.volumes, Admission.saturatingAdd64 s.volumes.nextVolumeId 1⟩ :
        VolumeRegistry.LocalVolumeRegistry) = s.volumes := by
      exact congrArg _ (hc hm).symm
    rw [hcreate, hcounter]
  · have hcreate : ∃ volume volumes, s.volumes.create name = (.ok volume, volumes) :=
      ⟨_, _, if_neg hm⟩
    obtain ⟨volume, volumes, hcreate⟩ := hcreate
    rw [hcreate]
    exact ⟨hr.sandboxes, hr.templates⟩

theorem deleteVolume_confirms (volumeId : Str) :
    Confirms v r (ControlPlane.deleteVolume volumeId) := by
  rintro s rfl
  refine ⟨⟨hr.sandboxes, hr.templates⟩, fun habsent => ?_⟩
  have herase := erase_absent (of_decide_eq_false habsent)
  change ({ registries s with volumes := ⟨s.volumes.volumes.erase volumeId, _⟩ } :
    LocalRuntimeState) = registries s
  rw [herase]
  rfl
end

section
theorem edit_unchanged {id : Str} {f : SandboxRecord → SandboxRecord} {s : LocalRuntimeBackend}
    (hf : ∀ record, s.sandboxes.sandboxes[id]? = some record → f record = record) :
    Settles (onSandboxes fun sandboxes => do
      let record ← sandboxes.record id
      pure ((), sandboxes.put id (f record))) s (fun _ t => registries t = registries s)
      (fun t => registries t = registries s) := by
  unfold Settles onSandboxes
  dsimp only
  cases hrecord : s.sandboxes.sandboxes[id]? with
  | none =>
    have hnone : s.sandboxes.record id = .error (.notFound id) := by
      rw [LocalSandboxRegistry.record, hrecord]
    rw [except_bind_error hnone]
  | some record =>
    rw [except_bind_ok (LocalSandboxRegistry.record_eq_ok.mpr hrecord), hf record hrecord]
    have hput : s.sandboxes.put id record = s.sandboxes := by
      rw [LocalSandboxRegistry.put, insert_get hrecord]
    rw [hput]
    rfl

variable {id : Str}
  (hs : registries s = r)
include hs

theorem refreshMetrics_unchanged
    (hc : ∀ samples, a.metrics id = .ok samples → ∀ metric ∈ samples.getLast?, ∀ record,
      r.sandboxes.sandboxes[id]? = some record → record.metric = some metric) :
    Settles (refreshMetrics a id) s (fun _ t => registries t = r) (fun t => registries t = r) := by
  subst hs
  refine (reads_ofExcept _).settles_bind rfl fun samples hsamples => ?_
  obtain ⟨hsamples, -⟩ := run_ofExcept_eq_ok.mp hsamples
  cases hlast : samples.getLast? with
  | none => rfl
  | some metric =>
    refine Settles.bind (Q := fun _ t => registries t = registries s) ?_ fun _ _ ht => ht
    refine edit_unchanged fun record hrecord => ?_
    have hsame := hc samples hsamples metric hlast record hrecord
    rw [← hsame]

theorem refreshLogs_unchanged
    (hc : ∀ logs, a.logs id = .ok logs → logs.logs = [] ∨ id ∉ r.sandboxes.sandboxes) :
    Settles (refreshLogs a id) s (fun _ t => registries t = r) (fun t => registries t = r) := by
  subst hs
  refine (reads_ofExcept _).settles_bind rfl fun logs hlogs => ?_
  obtain ⟨hlogs, -⟩ := run_ofExcept_eq_ok.mp hlogs
  refine Settles.bind (Q := fun _ t => registries t = registries s) ?_ fun _ _ ht => ht
  rcases hc logs hlogs with hnone | habsent
  · rw [hnone]
    rfl
  · refine settles_forM (fun _ t => registries t = registries s) (fun log _ t ht => ?_) rfl
    rw [← ht] at habsent ⊢
    refine edit_unchanged fun record hrecord => ?_
    cases hrecord.symm.trans (Std.ExtTreeMap.getElem?_eq_none habsent)
end

def Unchanged {ε α : Type} (r : LocalRuntimeState) (m : EStateM ε LocalRuntimeBackend α) : Prop :=
  ∀ s, registries s = r → Settles m s (fun _ t => registries t = r) (fun t => registries t = r)

section
variable {v} {α : Type} {r : LocalRuntimeState} {m : Api α}

theorem settles_viaBackend (h : Settles m s Q R) : Settles (viaBackend m) s Q R := by
  unfold Settles viaBackend at *
  cases hm : m s with
  | ok | error => rwa [hm] at h

theorem Clean.jsonResponse (h : Clean v r m) (payload : α → Payload) :
    Clean v r (jsonResponse payload m) :=
  Clean.map (m := viaBackend m) (fun s hs => settles_viaBackend (h s hs)) fun a =>
    (⟨200, payload a⟩ : ControlPlaneResponse)

theorem Clean.emptyResponse {m} (h : Clean v r m) : Clean v r (emptyResponse m) :=
  Clean.map (fun s hs => settles_viaBackend (h s hs)) fun _ => noContent

theorem Confirms.confirmed {m} (h : Confirms v r m) (error : ControlPlaneError) :
    Clean v r (confirmed m error) := by
  intro s hs
  refine (settles_viaBackend (h s hs)).bind fun existed t ht => ?_
  cases existed with
  | true => exact ht.1
  | false => exact ht.2 rfl

theorem Unchanged.jsonResponse (h : Unchanged r m) (payload : α → Payload) :
    Unchanged r (jsonResponse payload m) := by
  intro s hs
  exact (settles_viaBackend (h s hs)).bind fun _ _ ht => ht

theorem unchanged_look {read : LocalRuntimeState → LocalBackend.Result α} :
    Unchanged r (look read) := fun _ hs => settles_of_keeps (reads_look read).keeps hs

theorem unchanged_lookupAlias (name : Str) : Unchanged r (lookupAlias name) := by
  intro s hs
  refine reads_get.settles_bind hs fun _ _ => ?_
  split <;> exact hs
end

/-- One case for each operation: a careful one changes nothing if a `GET` asks for it, and
otherwise fails without a trace. -/
theorem perform_careful {v a r}
    (hr : Exact v r) {operation} (hc : CarefulOperation v a r operation) :
    if operation.reads then Unchanged r (perform a operation)
    else Clean v r (perform a operation) := by
  cases operation with
  | listPods | getPod | listSandboxes | metricsMany | listSnapshots | getSandbox | listTemplates
  | getTemplate | fileUpload | buildStatus | buildLogs | tags | listVolumes | getVolume | listDir
  | pathInfo | readFile => exact unchanged_look.jsonResponse _
  | lookupAlias name => exact unchanged_lookupAlias name
  | refreshMetrics sandboxId =>
    exact Unchanged.jsonResponse (fun _ hs => refreshMetrics_unchanged hs hc) _
  | refreshLogs sandboxId =>
    exact Unchanged.jsonResponse (fun _ hs => refreshLogs_unchanged hs hc) _
  | createPod body => exact (clean_podsOnly hr (podsOnly_createPod a body)).jsonResponse _
  | deletePod podId => exact (deletePod_confirms hr a podId).confirmed _
  | addPodContainer podId body =>
    exact (clean_podsOnly hr (podsOnly_addPodContainer a podId body)).jsonResponse _
  | waitPodContainer podId name =>
    exact (clean_podsOnly hr (podsOnly_waitPodContainer a podId name)).jsonResponse _
  | deletePodContainer podId name =>
    exact (clean_podsOnly hr (podsOnly_deletePodContainer a podId name)).emptyResponse
  | create body => exact (create_clean hr a hc).jsonResponse _
  | createFollowup body => exact (createFollowup_clean hr a hc).jsonResponse _
  | createDetached body => exact (createDetached_clean hr a hc).jsonResponse _
  | createFollowupDetached body => exact (createFollowupDetached_clean hr a hc).jsonResponse _
  | deleteSandbox sandboxId => exact (delete_confirms hr a sandboxId).confirmed _
  | connect sandboxId body => exact (connect_clean hr a sandboxId body).jsonResponse _
  | pause sandboxId => exact (pause_confirms hr a sandboxId).confirmed _
  | setTimeout sandboxId body => exact (setTimeout_clean hr sandboxId body).emptyResponse
  | refresh sandboxId body => exact (refresh_clean hr sandboxId body).emptyResponse
  | createSnapshot sandboxId body => exact (createSnapshot_clean hr a sandboxId body).jsonResponse _
  | removeTags body => exact (removeTags_clean hr body).emptyResponse
  | deleteTemplate id => exact deleteTemplate_clean hr a id
  | requestTemplateBuild body => exact (requestTemplateBuild_clean hr a hc).jsonResponse _
  | updateTemplate templateId body => exact (updateTemplate_clean hr templateId body).jsonResponse _
  | uploadFile templateId hash bytes =>
    exact (uploadFile_clean hr templateId hash bytes).emptyResponse
  | startTemplateBuild templateId buildId body =>
    exact (startTemplateBuild_clean hr a hc.1 hc.2).emptyResponse
  | assignTags body => exact (assignTags_clean hr body).jsonResponse _
  | createVolume name => exact (createVolume_clean hr hc).jsonResponse _
  | deleteVolume volumeId => exact (deleteVolume_confirms hr volumeId).confirmed _
  | makeDir | updateMetadata | writeFile => exact (clean_onVolumes hr).jsonResponse _
  | removePath volumeId path => exact (clean_onVolumes hr).emptyResponse

section
variable {v}

theorem expireSandbox_exact {id : Str} {record}
    (h : s.sandboxes.sandboxes[id]? = some record) (hs : Exact v (registries s)) :
    Settles (expireSandbox a id) s (fun _ t => Exact v (registries t)) (fun _ => True) := by
  have hexact : ∀ (m : Api Bool) (x : SandboxExpiration), Confirms v (registries s) m →
      Settles (m >>= fun _ => pure x) s (fun _ t => Exact v (registries t)) (fun _ => True) := by
    intro m x hm
    exact settles_bind.mpr ((hm s rfl).mono (fun _ _ ht => ht.1) fun _ _ => trivial)
  unfold Settles
  rw [expireSandbox_eq h]
  by_cases hp : autoPauses record = true
  · rw [if_pos hp]
    exact hexact _ _ (pause_confirms hs a id)
  · rw [if_neg hp]
    exact hexact _ _ (delete_confirms hs a id)

theorem expire_all {ps : List Due}
    (hreg : ∀ p ∈ ps, s.sandboxes.sandboxes[p.1]? = some p.2) (hnd : (ps.map (·.1)).Nodup)
    (hok : ∀ p ∈ ps, succeeds a p.2 p.1 = true) (hs : Exact v (registries s)) :
    ∃ expired t, (ps.map (·.1)).mapM (expireSandbox a) s = .ok expired t ∧
      expired.length = ps.length ∧ Exact v (registries t) := by
  induction ps generalizing s with
  | nil => exact ⟨[], s, rfl, rfl, hs⟩
  | cons p ps ih =>
    rw [List.map_cons, List.nodup_cons] at hnd
    have hp := hreg p List.mem_cons_self
    obtain ⟨x, t, hrun, -, hother⟩ := expireSandbox_ok hp (hok p List.mem_cons_self)
    have hreg' : ∀ q ∈ ps, t.sandboxes.sandboxes[q.1]? = some q.2 := by
      intro q hq
      rw [hother q.1 fun he => hnd.1 (he ▸ List.mem_map_of_mem hq)]
      exact hreg q (List.mem_cons_of_mem p hq)
    obtain ⟨expired, u, hrest, hlength, hu⟩ := ih hreg' hnd.2
      (fun q hq => hok q (List.mem_cons_of_mem p hq)) ((expireSandbox_exact hp hs).of_ok hrun)
    refine ⟨x :: expired, u, ?_, congrArg (· + 1) hlength, hu⟩
    rw [List.map_cons, List.mapM_cons, bind_of_ok hrun, bind_of_ok hrest]
    rfl

/-- If the first one fails, or there is none, the registries stay. -/
theorem expire_none {ps : List Due} (hreg : ∀ p ∈ ps, s.sandboxes.sandboxes[p.1]? = some p.2)
    (hfail : ∀ p ∈ ps.head?, succeeds a p.2 p.1 = false) :
    Settles ((ps.map (·.1)).mapM (expireSandbox a)) s
      (fun expired t => expired = [] ∧ registries t = registries s)
      (fun t => registries t = registries s) := by
  cases ps with
  | nil => exact ⟨rfl, rfl⟩
  | cons p ps =>
    obtain ⟨e, hrun⟩ := expireSandbox_failed (hreg p List.mem_cons_self) (hfail p rfl)
    rw [List.map_cons, List.mapM_cons, Settles, bind_of_error hrun]
    rfl
end

section
variable {c} {s₀ s : Server (Option φ)}

structure Saved (c : Codec φ) (s₀ s : Server (Option φ)) : Prop where
  exact : Exact c.toSurvivors (registries s.backend)
  agrees : Agrees c s₀ s

theorem Saved.same (h : Saved c s₀ s) (hfile : t.file = s.file)
    (hbackend : registries t.backend = registries s.backend) : Saved c s₀ t := by
  refine ⟨hbackend ▸ h.exact, ?_⟩
  unfold Agrees
  rw [hfile, hbackend]
  exact h.agrees

theorem saved_write (hs : Exact c.toSurvivors (registries s.backend)) :
    Saved c s₀ { s with file := some (c.encode (registries s.backend)) } :=
  ⟨hs, .inl ⟨_, rfl, c.decode_encode _ hs⟩⟩

section
variable (h : Saved c s₀ s)
include h

theorem saved_handleRequest {a request} (hc : ∀ operation, dispatch d request = .ok operation →
      CarefulOperation c.toSurvivors a (registries s.backend) operation) :
    Saved c s₀ (handleRequest d (store c) a request s).2 := by
  unfold handleRequest
  cases hd : dispatch d request with
  | error e => exact h
  | ok operation =>
    have hfits := fits_dispatch operation hd
    have hperform := perform_careful h.exact (hc operation hd)
    dsimp only
    cases hm : request.method.mutatesState with
    | true =>
      rw [hfits, hm] at hperform
      have hclean := hperform s.backend rfl
      unfold Settles at hclean
      cases hrun : perform a operation s.backend with
      | error e t =>
        rw [hrun] at hclean
        exact h.same rfl hclean
      | ok response t =>
        rw [hrun] at hclean
        exact saved_write (s := { s with backend := t }) hclean
    | false =>
      rw [hfits, hm] at hperform
      have hsame := Settles.left (R := fun t => registries t = _) (hperform s.backend rfl)
      cases hrun : perform a operation s.backend <;> rw [hrun] at hsame <;> exact h.same rfl hsame

theorem saved_handleHttpRequest (hc : Careful c d apiKey s (.request a request)) :
    Saved c s₀ (handleHttpRequest d apiKey (store c) a request s).2 := by
  unfold handleHttpRequest
  split
  · next hauthorized =>
    cases hconverted : convertHttpRequest request with
    | error e => exact h
    | ok converted =>
      exact saved_handleRequest h fun operation => hc converted operation hauthorized hconverted
  · exact h

theorem saved_tick
    (hc : Careful c d apiKey s (.tick a now)) : Saved c s₀ (left (tick a (store c) now s)) := by
  have hreg : ∀ p ∈ dueRecords s.backend.sandboxes now,
      s.backend.sandboxes.sandboxes[p.1]? = some p.2 := fun p hp => (mem_dueRecords.mp hp).1
  have hexpire : expireDueSandboxes a now s.backend =
      ((dueRecords s.backend.sandboxes now).map (·.1)).mapM (expireSandbox a) s.backend := rfl
  rcases hc with hall | hfirst
  · obtain ⟨expired, t, hrun, hlength, ht⟩ := expire_all hreg (nodup_dueRecords _ _) hall h.exact
    have hback : onBackend (expireDueSandboxes a now) s = .ok expired { s with backend := t } := by
      rw [onBackend, hexpire, hrun]
    rw [tick, bind_of_ok hback]
    cases expired with
    | nil =>
      rw [List.eq_nil_of_length_eq_zero hlength.symm] at hrun
      cases hrun
      exact h
    | cons x expired => exact saved_write (s := { s with backend := t }) ht
  · have hnone := expire_none hreg hfirst
    unfold Settles at hnone
    rw [← hexpire] at hnone
    cases hrun : expireDueSandboxes a now s.backend with
    | error e t =>
      have hback : onBackend (expireDueSandboxes a now) s = .error e { s with backend := t } := by
        rw [onBackend, hrun]
      rw [hrun] at hnone
      rw [tick, bind_of_error hback]
      exact h.same rfl hnone
    | ok expired t =>
      have hback : onBackend (expireDueSandboxes a now) s =
        .ok expired { s with backend := t } := by
        rw [onBackend, hrun]
      rw [hrun] at hnone
      obtain ⟨rfl, hsame⟩ := hnone
      rw [tick, bind_of_ok hback]
      exact h.same rfl hsame

theorem saved_step (hc : Careful c d apiKey s event) : Saved c s₀ (step c d apiKey s event) := by
  cases event with
  | request a request => exact saved_handleHttpRequest h hc
  | tick a now => exact saved_tick h hc
end
end

/-- As long as every request and tick is careful, the file holds the registries. -/
theorem file_agrees (c : Codec φ) (d : Decoders) (apiKey : Option Str) (s₀ : Server (Option φ))
    (h₀ : Exact c.toSurvivors (registries s₀.backend)) (events : List Event)
    (h : Meets (step c d apiKey) (Careful c d apiKey) s₀ events) :
    Agrees c s₀ (run (step c d apiKey) s₀ events) := by
  have hstart : Saved c s₀ s₀ := ⟨h₀, .inr ⟨rfl, rfl⟩⟩
  exact (h.keeps (fun s event hs hc => saved_step hs hc) hstart).agrees

def plain : Codec LocalRuntimeState where
  json _ := True
  float _ := True
  encode := id
  decode := some
  decode_encode _ _ := rfl

def emptyBodies : Decoders :=
  { Decoders.refusing with sandboxCreate := fun _ => .ok {}, templateBuild := fun _ => .ok {} }

def fresh : Server (Option LocalRuntimeState) :=
  { backend := { templates := .new [] }, file := none }

def postTemplates : HttpRequest :=
  { method := str "POST", pathAndQuery := some (str "/v3/templates"), body := .ok [123, 125] }

def preparing : RuntimeAdapter :=
  { RuntimeAdapter.refusing with prepareTemplate := fun _ => .ok ⟨[], [], [], false, none⟩ }

/-- Saved twice: a template that could be prepared, and a tick with nothing to do. -/
theorem file_agrees_prepared : Agrees plain fresh (run (step plain emptyBodies none) fresh
    [.request preparing postTemplates, .tick .refusing []]) := by
  refine file_agrees plain emptyBodies none fresh ⟨each_empty, each_empty⟩ _ ⟨?_, ?_, trivial⟩
  · intro converted operation _ hconverted hdispatch
    cases hconverted
    have hroute : dispatch emptyBodies ⟨.post, str "/v3/templates", some [123, 125], none⟩ =
        .ok (.requestTemplateBuild {}) := by rfl
    cases hroute.symm.trans hdispatch
    rfl
  · refine .inl fun p hp => ?_
    cases hp

/-- The adapter could not prepare the template: it is registered, and not in the file. -/
theorem failed_template_not_saved : ¬Agrees plain fresh
    (step plain emptyBodies none fresh (.request .refusing postTemplates)) := by
  rintro (⟨file, hfile, -⟩ | ⟨-, hsame⟩)
  · cases hfile
  · have hsize := congrArg (·.templates.templates.size) hsame
    revert hsize
    decide +kernel

end Persistence
