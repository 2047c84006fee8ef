import Firkin.AdmissionAmounts
import Firkin.DecimalText
import Firkin.E2bTypes
import Firkin.FaultMonad

/-! # The template registry

`LocalTemplateRegistry` and the two backend methods that work on it alone besides the runtime
adapter. A fallible registry method gives the registry back only when it succeeds: it looks up
and checks before it writes. `request_template_build` and `start_template_build` write before
they ask the adapter, so they are written with a state that survives the error. -/
namespace TemplateRegistry

open Ext4Types DecimalText E2bTypes SortedTable Admission

structure TemplateRecord where
  info : TemplateInfo
  builds : List TemplateBuild
  buildLogs : Table Str (List BuildLogEntry)
  buildInputs : Table Str TemplateBuildStart
  preparedTemplates : Table Str PreparedTemplate
  tags : Table Str TemplateTag
  uploadedFiles : Table Str (List UInt8)
  deriving DecidableEq

structure LocalTemplateRegistry where
  templates : Table Str TemplateRecord := ∅
  aliases : Table Str Str := ∅
  nextTemplateId : UInt64 := 0
  nextBuildId : UInt64 := 0
  now : Str

abbrev Result := Except BackendError
def templateIdOf (n : UInt64) : Str := str "tpl_" ++ render n.toNat
def buildIdOf (n : UInt64) : Str := str "bld_" ++ render n.toNat

theorem templateIdOf_inj (h : templateIdOf m = templateIdOf n) : m = n := by
  have hr : render m.toNat = render n.toNat := List.append_cancel_left h
  have hv := value_render m.toNat
  rw [hr, value_render] at hv
  exact (UInt64.toNat_inj.mp (Option.some.inj hv)).symm

theorem saturatingAdd64_one (h : n.toNat < 2 ^ 64 - 1) :
    (saturatingAdd64 n 1).toNat = n.toNat + 1 := by
  rw [AdmissionAmounts.saturatingAdd64_toNat]
  change min (n.toNat + 1) _ = _
  omega

def newBuild (now buildId : Str) (request : TemplateBuildRequest) : TemplateBuild :=
  { buildId, status := .waiting, createdAt := now, updatedAt := now, finishedAt := none
    cpuCount := request.cpuCount.getD 2, memoryMb := request.memoryMb.getD 1024
    diskSizeMb := none, envdVersion := none }

def newInfo (now templateId buildId : Str) (request : TemplateBuildRequest) : TemplateInfo :=
  { templateId, buildId := some buildId, isPublic := false, aliases := []
    names := request.name.toList, createdAt := now, updatedAt := now, lastSpawnedAt := none
    spawnCount := 0, buildCount := 1, envdVersion := none, buildStatus := some .waiting }

def assign (now buildId : Str) (tags : Table Str TemplateTag) (names : List Str) :
    Table Str TemplateTag :=
  names.foldl (fun tags tag => tags.insert tag ⟨tag, buildId, now⟩) tags

def newRecord (now templateId buildId : Str) (request : TemplateBuildRequest) : TemplateRecord :=
  { info := newInfo now templateId buildId request
    builds := [newBuild now buildId request]
    buildLogs := ∅, buildInputs := ∅, preparedTemplates := ∅
    tags := assign now buildId ∅ request.tags, uploadedFiles := ∅ }

namespace TemplateRecord

/-- The build that `iter_mut().find` stops at, changed in place. -/
def updateBuild (buildId : Str) (f : TemplateBuild → TemplateBuild) :
    List TemplateBuild → Option (List TemplateBuild)
  | [] => none
  | build :: builds =>
    if build.buildId = buildId then some (f build :: builds)
    else (updateBuild buildId f builds).map (build :: ·)

/-- A build that was found once is found again, if its id stays. -/
theorem updateBuild_again {buildId : Str} {f}
    (hf : ∀ build, (f build).buildId = build.buildId) (g : TemplateBuild → TemplateBuild)
    {builds builds'} (h : updateBuild buildId f builds = some builds') :
    ∃ builds'', updateBuild buildId g builds' = some builds'' := by
  induction builds generalizing builds' with
  | nil => cases h
  | cons build builds ih =>
    rw [updateBuild] at h
    split at h
    · next hid =>
      cases h
      exact ⟨_, if_pos ((hf build).trans hid)⟩
    · next hid =>
      obtain ⟨rest, hrest, rfl⟩ := Option.map_eq_some_iff.mp h
      obtain ⟨rest', hrest'⟩ := ih hrest
      refine ⟨build :: rest', ?_⟩
      rw [updateBuild, if_neg hid, hrest']
      rfl

def startedBuild (now : Str) (build : TemplateBuild) : TemplateBuild :=
  { build with status := .building, updatedAt := now }

def settledBuild (now : Str) (status : TemplateBuildStatus) (build : TemplateBuild) :
    TemplateBuild :=
  { build with
    status, updatedAt := now
    finishedAt := if status = .ready ∨ status = .error then some now else build.finishedAt }

def withBuilds (self : TemplateRecord) (now : Str) (builds : List TemplateBuild)
    (status : TemplateBuildStatus) : TemplateRecord :=
  { self with builds, info := { self.info with buildStatus := some status, updatedAt := now } }

def validateStep (self : TemplateRecord) (step : TemplateStep) : Result Unit :=
  if step.kind = .copy then
    match step.filesHash with
    | none => .error (.runtime (str "template COPY step is missing filesHash"))
    | some hash => if hash ∈ self.uploadedFiles then .ok () else .error (.notFound hash)
  else .ok ()

/-- `validate_template_build_inputs`. -/
def validateBuildInputs (self : TemplateRecord) (start : TemplateBuildStart) : Result Unit :=
  start.steps.forM self.validateStep

/-- One step of the loop in `uploaded_files_for_build`. -/
def collectUpload (self : TemplateRecord) (files : Table Str (List UInt8)) (step : TemplateStep) :
    Result (Table Str (List UInt8)) :=
  if step.kind = .copy then
    match step.filesHash with
    | none => .error (.runtime (str "template COPY step is missing filesHash"))
    | some hash =>
      match self.uploadedFiles[hash]? with
      | none => .error (.notFound hash)
      | some bytes => .ok (files.insert hash bytes)
  else .ok files

def latestReady (self : TemplateRecord) : Option TemplateBuild :=
  self.builds.reverse.find? (·.status = .ready)

def latestPrepared (self : TemplateRecord) : Option PreparedTemplate :=
  self.latestReady.bind fun build => self.preparedTemplates[build.buildId]?

def logsOf (self : TemplateRecord) (buildId : Str) : List BuildLogEntry :=
  self.buildLogs[buildId]?.getD []

end TemplateRecord

/-- One character of a path segment, percent-encoded unless it is unreserved. -/
def encodePathByte (b : UInt8) : Str :=
  if 97 ≤ b ∧ b ≤ 122 ∨ 65 ≤ b ∧ b ≤ 90 ∨ 48 ≤ b ∧ b ≤ 57 ∨ b = 45 ∨ b = 46 ∨ b = 95 ∨ b = 126
  then [b]
  else 37 :: [b / 16, b % 16].map fun d => if d < 10 then 48 + d else 55 + d

def encodePathSegment (segment : Str) : Str := segment.flatMap encodePathByte

namespace LocalTemplateRegistry

def new (now : Str) : LocalTemplateRegistry := { now }

def nextTemplate (self : LocalTemplateRegistry) : Str :=
  templateIdOf (saturatingAdd64 self.nextTemplateId 1)

def nextBuild (self : LocalTemplateRegistry) : Str :=
  buildIdOf (saturatingAdd64 self.nextBuildId 1)

def requestBuild (self : LocalTemplateRegistry) (request : TemplateBuildRequest) :
    TemplateBuildRequestInfo × LocalTemplateRegistry :=
  let names := request.name.toList
  ({ templateId := self.nextTemplate, buildId := self.nextBuild, isPublic := false, names,
     tags := request.tags, aliases := [] },
    { self with
      nextTemplateId := saturatingAdd64 self.nextTemplateId 1
      nextBuildId := saturatingAdd64 self.nextBuildId 1
      aliases :=
        names.foldl (fun aliases name => aliases.insert name self.nextTemplate) self.aliases
      templates := self.templates.insert self.nextTemplate
        (newRecord self.now self.nextTemplate self.nextBuild request) })

def list (self : LocalTemplateRegistry) : List TemplateInfo :=
  (values self.templates).map (·.info)

def template (self : LocalTemplateRegistry) (templateId : Str) : Result TemplateRecord :=
  match self.templates[templateId]? with
  | some record => .ok record
  | none => .error (.notFound templateId)

/-- A record that was looked up, changed through `template_mut`. -/
def put (self : LocalTemplateRegistry) (templateId : Str) (record : TemplateRecord) :
    LocalTemplateRegistry :=
  { self with templates := self.templates.insert templateId record }

def get (self : LocalTemplateRegistry) (templateId : Str) :
    Result TemplateWithBuilds := do
  let record ← self.template templateId
  pure {
    templateId := record.info.templateId, isPublic := record.info.isPublic
    aliases := record.info.aliases, names := record.info.names
    createdAt := record.info.createdAt, updatedAt := record.info.updatedAt
    lastSpawnedAt := record.info.lastSpawnedAt, spawnCount := record.info.spawnCount
    builds := record.builds }

def delete (self : LocalTemplateRegistry) (templateId : Str) : Bool × LocalTemplateRegistry :=
  match self.templates[templateId]? with
  | none => (false, self)
  | some record =>
    (true, { self with
      templates := self.templates.erase templateId
      aliases := record.info.names.foldl (fun aliases name => aliases.erase name) self.aliases })

def update (self : LocalTemplateRegistry) (templateId : Str) (request : TemplateUpdateRequest) :
    Result (List Str × LocalTemplateRegistry) := do
  let record ← self.template templateId
  let info := { record.info with
    isPublic := request.isPublic.getD record.info.isPublic, updatedAt := self.now }
  pure (info.names, self.put templateId { record with info })

def fileUpload (self : LocalTemplateRegistry) (templateId hash : Str) (origin : Option Str) :
    Result TemplateFileUpload := do
  let record ← self.template templateId
  let present := decide (hash ∈ record.uploadedFiles)
  pure {
    present
    url := if present then none else some
      (origin.getD (str "http://upload.local") ++ str "/templates/" ++
        encodePathSegment templateId ++ str "/files/" ++ encodePathSegment hash ++
        str "/upload") }

def uploadFile (self : LocalTemplateRegistry) (templateId hash : Str) (bytes : List UInt8) :
    Result (Unit × LocalTemplateRegistry) := do
  let record ← self.template templateId
  pure ((), self.put templateId
    { record with uploadedFiles := record.uploadedFiles.insert hash bytes })

def startBuild (self : LocalTemplateRegistry) (templateId buildId : Str)
    (start : TemplateBuildStart) : Result (Unit × LocalTemplateRegistry) := do
  let record ← self.template templateId
  record.validateBuildInputs start
  match TemplateRecord.updateBuild buildId (TemplateRecord.startedBuild self.now) record.builds with
  | none => .error (.notFound buildId)
  | some builds =>
    pure ((), self.put templateId { record.withBuilds self.now builds .building with
      buildInputs := record.buildInputs.insert buildId start })

def uploadedFilesForBuild (self : LocalTemplateRegistry) (templateId : Str)
    (start : TemplateBuildStart) : Result (Table Str (List UInt8)) := do
  let record ← self.template templateId
  start.steps.foldlM record.collectUpload ∅

def setPreparedTemplate (self : LocalTemplateRegistry) (templateId : Str)
    (prepared : PreparedTemplate) : Result (Unit × LocalTemplateRegistry) := do
  let record ← self.template templateId
  pure ((), self.put templateId
    { record with preparedTemplates := record.preparedTemplates.insert prepared.buildId prepared })

/-- The id a client's template id or name stands for: names are consulted first. -/
def resolve (self : LocalTemplateRegistry) (templateIdOrAlias : Str) : Str :=
  self.aliases[templateIdOrAlias]?.getD templateIdOrAlias

def latestPreparedTemplate (self : LocalTemplateRegistry) (templateIdOrAlias : Str) :
    Option PreparedTemplate := do
  let record ← self.templates[self.resolve templateIdOrAlias]?
  record.latestPrepared

def setBuildStatus (self : LocalTemplateRegistry) (templateId buildId : Str)
    (status : TemplateBuildStatus) : Result (Unit × LocalTemplateRegistry) := do
  let record ← self.template templateId
  match TemplateRecord.updateBuild buildId (TemplateRecord.settledBuild self.now status)
    record.builds with
  | none => .error (.notFound buildId)
  | some builds => pure ((), self.put templateId (record.withBuilds self.now builds status))

def buildStatus (self : LocalTemplateRegistry) (templateId buildId : Str) :
    Result TemplateBuildInfo := do
  let record ← self.template templateId
  match record.builds.find? (·.buildId = buildId) with
  | none => .error (.notFound buildId)
  | some build =>
    let logEntries := record.logsOf buildId
    pure {
      templateId, buildId, status := build.status
      logs := logEntries.map (·.message), logEntries }

def buildLogs (self : LocalTemplateRegistry) (templateId buildId : Str) :
    Result (List BuildLogEntry) := do
  let record ← self.template templateId
  pure (record.logsOf buildId)

/-- `alias`. -/
def lookupAlias (self : LocalTemplateRegistry) (name : Str) : Option TemplateAliasInfo := do
  let templateId ← self.aliases[name]?
  let record ← self.templates[templateId]?
  pure ⟨templateId, record.info.isPublic⟩

def assignTags (self : LocalTemplateRegistry) (request : AssignTemplateTags) :
    Result (AssignedTemplateTags × LocalTemplateRegistry) := do
  let templateId := self.aliases[request.target.takeWhile (· ≠ 58)]?.getD request.target
  let record ← self.template templateId
  let buildId := record.info.buildId.getD []
  pure (⟨request.tags, buildId⟩, self.put templateId
    { record with tags := assign self.now buildId record.tags request.tags })

def removeTags (self : LocalTemplateRegistry) (request : RemoveTemplateTags) :
    Result (Unit × LocalTemplateRegistry) :=
  match self.aliases[request.name]? with
  | none => .error (.notFound request.name)
  | some templateId => do
    let record ← self.template templateId
    pure ((), self.put templateId
      { record with tags := request.tags.foldl (fun tags tag => tags.erase tag) record.tags })

def tags (self : LocalTemplateRegistry) (templateId : Str) :
    Result (List TemplateTag) := do
  let record ← self.template templateId
  pure (values record.tags)

end LocalTemplateRegistry

section
variable {s : LocalTemplateRegistry} {id : Str} {record : TemplateRecord}

namespace LocalTemplateRegistry

theorem template_eq_ok : s.template id = .ok record ↔ s.templates[id]? = some record := by
  unfold template
  cases s.templates[id]? <;> simp

theorem template_of_get (h : s.templates[id]? = some record) : s.template id = .ok record :=
  template_eq_ok.mpr h

theorem put_get (id' : Str) :
    (s.put id record).templates[id']? = if id = id' then some record else s.templates[id']? :=
  get_insert s.templates id id' record

@[simp] theorem put_get_self : (s.put id record).templates[id]? = some record := by
  rw [put_get, if_pos rfl]

@[simp] theorem put_put : (s.put id record).put id record' = s.put id record' := by
  unfold put
  congr 1
  exact insert_insert s.templates id record record'

theorem requestBuild_templates :
    (s.requestBuild request).2.templates = s.templates.insert s.nextTemplate
      (newRecord s.now s.nextTemplate s.nextBuild request) := rfl

/-- The requested name points at the new template, whatever it pointed at before. -/
theorem requestBuild_aliases (name : Str) :
    (s.requestBuild request).2.aliases[name]? =
      if request.name = some name then some s.nextTemplate else s.aliases[name]? := by
  unfold requestBuild
  cases hname : request.name with
  | none => simp
  | some other =>
    change (s.aliases.insert other s.nextTemplate)[name]? = _
    rw [get_insert]
    by_cases h : other = name
    · rw [if_pos h, if_pos (congrArg some h)]
    · rw [if_neg h, if_neg fun he => h (Option.some.inj he)]

theorem startBuild_eq {start builds}
    (h : s.templates[id]? = some record) (hv : record.validateBuildInputs start = .ok ())
    (hb : TemplateRecord.updateBuild buildId (TemplateRecord.startedBuild s.now) record.builds =
      some builds) :
    s.startBuild id buildId start =
      .ok ((), s.put id { record.withBuilds s.now builds .building with
        buildInputs := record.buildInputs.insert buildId start }) := by
  rw [startBuild, template_of_get h]
  change (record.validateBuildInputs start >>= _) = _
  rw [hv]
  rw [hb]
  rfl

theorem startBuild_eq_ok {start t}
    (h : s.startBuild id buildId start = .ok (u, t)) : ∃ record builds,
      s.templates[id]? = some record ∧
      TemplateRecord.updateBuild buildId (TemplateRecord.startedBuild s.now) record.builds =
        some builds ∧
      t = s.put id { record.withBuilds s.now builds .building with
        buildInputs := record.buildInputs.insert buildId start } := by
  obtain ⟨record, hr, h⟩ := FaultMonad.except_bind_eq_ok.mp h
  obtain ⟨-, -, h⟩ := FaultMonad.except_bind_eq_ok.mp h
  rw [template_eq_ok] at hr
  split at h
  · cases h
  · rename_i builds hb
    cases h
    exact ⟨record, builds, hr, hb, rfl⟩

theorem setPreparedTemplate_eq (prepared : PreparedTemplate) (h : s.templates[id]? = some record) :
    s.setPreparedTemplate id prepared = .ok ((), s.put id { record with
      preparedTemplates := record.preparedTemplates.insert prepared.buildId prepared }) := by
  rw [setPreparedTemplate, template_of_get h]
  rfl

theorem setBuildStatus_eq (h : s.templates[id]? = some record)
    (hb : TemplateRecord.updateBuild buildId (TemplateRecord.settledBuild s.now status)
      record.builds = some builds) :
    s.setBuildStatus id buildId status =
      .ok ((), s.put id (record.withBuilds s.now builds status)) := by
  rw [setBuildStatus, template_of_get h]
  change (match TemplateRecord.updateBuild buildId _ record.builds with
    | none => _
    | some builds => _) = _
  rw [hb]
  rfl

end LocalTemplateRegistry
end

abbrev Builder := EStateM BackendError LocalTemplateRegistry

/-- A registry method as a step: on an error the registry is as it was. -/
def attempt {α : Type}
    (method : LocalTemplateRegistry → Result (α × LocalTemplateRegistry)) : Builder α := fun s =>
  match method s with
  | .ok (a, s') => .ok a s'
  | .error e => .error e s

theorem attempt_of_ok {α : Type} {method s s'} {a : α} (h : method s = .ok (a, s')) :
    attempt method s = .ok a s' := by
  rw [attempt, h]

theorem settles_attempt {α : Type} {s : LocalTemplateRegistry} {R : LocalTemplateRegistry → Prop}
    {Q : α → LocalTemplateRegistry → Prop}
    {method : LocalTemplateRegistry → Result (α × LocalTemplateRegistry)}
    (hR : R s) (hQ : ∀ a t, method s = .ok (a, t) → Q a t) :
    FaultMonad.Settles (attempt method) s Q R := by
  unfold FaultMonad.Settles attempt
  cases hm : method s with
  | ok p => exact hQ p.1 p.2 hm
  | error e => exact hR

def requestTemplateBuild
    (prepareTemplate : TemplateBuildRequest → Result PreparedTemplate)
    (request : TemplateBuildRequest) : Builder TemplateBuildRequestInfo := do
  let requested ← modifyGet (·.requestBuild request)
  let prepared ← MonadExcept.ofExcept (prepareTemplate request)
  let prepared := { prepared with
    templateId := requested.templateId, buildId := requested.buildId }
  attempt (·.startBuild requested.templateId requested.buildId {})
  attempt (·.setPreparedTemplate requested.templateId prepared)
  attempt (·.setBuildStatus requested.templateId requested.buildId .ready)
  pure requested

def startTemplateBuild
    (buildTemplate : RuntimeTemplateBuild → Result PreparedTemplate)
    (templateId buildId : Str) (start : TemplateBuildStart) : Builder Unit := do
  let uploadedFiles ← MonadExcept.ofExcept ((← get).uploadedFilesForBuild templateId start)
  attempt (·.startBuild templateId buildId start)
  match buildTemplate { templateId, buildId, start, uploadedFiles } with
  | .ok prepared =>
    attempt (·.setPreparedTemplate templateId prepared)
    attempt (·.setBuildStatus templateId buildId .ready)
  | .error error =>
    attempt (·.setBuildStatus templateId buildId .error)
    throw error

end TemplateRegistry
