import Firkin.TemplateRegistry

/-! # Template requests that fail

`request_template_build` registers the template and points its name at it before the adapter
prepares anything. Nothing takes that back when the adapter fails, and nothing after the
adapter can fail. -/
namespace TemplateRequests

open Ext4Types E2bTypes SortedTable TemplateRegistry FaultMonad LocalTemplateRegistry

structure SameView (s s' : LocalTemplateRegistry) : Prop where
  list : s'.list = s.list
  aliases : ∀ name, s'.lookupAlias name = s.lookupAlias name
  get : ∀ id, s'.get id = s.get id
  prepared : ∀ id, s'.latestPreparedTemplate id = s.latestPreparedTemplate id

/-- The template the request would write is registered already, its name pointing at it. -/
def Repeats (s : LocalTemplateRegistry) (request : TemplateBuildRequest) : Prop :=
  (∃ record : TemplateRecord, s.templates[s.nextTemplate]? = some record ∧
    record.info = newInfo s.now s.nextTemplate s.nextBuild request ∧
    record.builds = [newBuild s.now s.nextBuild request]) ∧
  ∀ name, request.name = some name → s.aliases[name]? = some s.nextTemplate

variable {s : LocalTemplateRegistry} {request : TemplateBuildRequest}
  {prepareTemplate : TemplateBuildRequest → Except BackendError PreparedTemplate}

theorem requestTemplateBuild_error (h : prepareTemplate request = .error e) :
    requestTemplateBuild prepareTemplate request s = .error e (s.requestBuild request).2 := by
  unfold requestTemplateBuild
  rw [bind_of_ok (run_modifyGet s), h]
  exact bind_of_error (run_ofExcept_error e)

theorem requestBuild_get :
    (s.requestBuild request).2.templates[s.nextTemplate]? =
      some (newRecord s.now s.nextTemplate s.nextBuild request) := by
  rw [requestBuild_templates, get_insert, if_pos rfl]

/-- The record of a request whose template was prepared, at its three writes. -/
def startedRecord (s : LocalTemplateRegistry) (request : TemplateBuildRequest) : TemplateRecord :=
  let record := newRecord s.now s.nextTemplate s.nextBuild request
  { record.withBuilds s.now
      [TemplateRecord.startedBuild s.now (newBuild s.now s.nextBuild request)] .building with
    buildInputs := record.buildInputs.insert s.nextBuild {} }

def preparedRecord (s : LocalTemplateRegistry) (request : TemplateBuildRequest)
    (prepared : PreparedTemplate) : TemplateRecord :=
  let prepared := { prepared with templateId := s.nextTemplate, buildId := s.nextBuild }
  let record := startedRecord s request
  { record with preparedTemplates := record.preparedTemplates.insert s.nextBuild prepared }

def readyRecord (s : LocalTemplateRegistry) (request : TemplateBuildRequest)
    (prepared : PreparedTemplate) : TemplateRecord :=
  (preparedRecord s request prepared).withBuilds s.now
    [TemplateRecord.settledBuild s.now .ready
      (TemplateRecord.startedBuild s.now (newBuild s.now s.nextBuild request))] .ready

theorem updateBuild_single (h : build.buildId = buildId) :
    TemplateRecord.updateBuild buildId f [build] = some [f build] := by
  rw [TemplateRecord.updateBuild, if_pos h]

theorem requestTemplateBuild_ok (h : prepareTemplate request = .ok prepared) :
    requestTemplateBuild prepareTemplate request s = .ok (s.requestBuild request).1
      ((s.requestBuild request).2.put s.nextTemplate (readyRecord s request prepared)) := by
  have hstart : (s.requestBuild request).2.startBuild s.nextTemplate s.nextBuild {} =
      .ok ((), (s.requestBuild request).2.put s.nextTemplate (startedRecord s request)) :=
    startBuild_eq requestBuild_get rfl (updateBuild_single rfl)
  have hprepare : ((s.requestBuild request).2.put s.nextTemplate
        (startedRecord s request)).setPreparedTemplate s.nextTemplate
          { prepared with templateId := s.nextTemplate, buildId := s.nextBuild } =
      .ok ((), (s.requestBuild request).2.put s.nextTemplate
        (preparedRecord s request prepared)) := by
    rw [setPreparedTemplate_eq _ put_get_self, put_put]
    rfl
  have hready : ((s.requestBuild request).2.put s.nextTemplate
        (preparedRecord s request prepared)).setBuildStatus s.nextTemplate s.nextBuild .ready =
      .ok ((), (s.requestBuild request).2.put s.nextTemplate (readyRecord s request prepared)) := by
    rw [setBuildStatus_eq put_get_self (updateBuild_single rfl), put_put]
    rfl
  unfold requestTemplateBuild
  rw [bind_of_ok (run_modifyGet s), h]
  refine (bind_of_ok (attempt_of_ok hstart)).trans ?_
  refine (bind_of_ok (attempt_of_ok hprepare)).trans ?_
  exact bind_of_ok (attempt_of_ok hready)

theorem list_eq (s : LocalTemplateRegistry) :
    s.list = values (s.templates.map fun _ record => record.info) :=
  (values_map s.templates (·.info)).symm

theorem list_requestBuild_iff :
    (s.requestBuild request).2.list = s.list ↔
      s.templates[s.nextTemplate]?.map (·.info) =
        some (newInfo s.now s.nextTemplate s.nextBuild request) := by
  rw [list_eq, list_eq, requestBuild_templates, map_insert, values_insert_iff,
    Std.ExtTreeMap.getElem?_map]
  rfl

/-- What `get` shows of a record. -/
def shown (info : TemplateInfo) (builds : List TemplateBuild) : TemplateWithBuilds :=
  { templateId := info.templateId, isPublic := info.isPublic, aliases := info.aliases
    names := info.names, createdAt := info.createdAt, updatedAt := info.updatedAt
    lastSpawnedAt := info.lastSpawnedAt, spawnCount := info.spawnCount, builds }

theorem get_eq (s : LocalTemplateRegistry) (id : Str) :
    s.get id = ((s.templates[id]?.map fun r => shown r.info r.builds).elim
      (.error (.notFound id)) .ok) := by
  unfold LocalTemplateRegistry.get LocalTemplateRegistry.template
  cases s.templates[id]? <;> rfl

theorem lookupAlias_eq (s : LocalTemplateRegistry) (name : Str) :
    s.lookupAlias name = s.aliases[name]?.bind fun id =>
      (s.templates[id]?.map (·.info.isPublic)).map (⟨id, ·⟩) := by
  unfold lookupAlias
  cases s.aliases[name]? with
  | none => rfl
  | some id => cases h : s.templates[id]? <;> simp [h]

theorem latestPreparedTemplate_eq (s : LocalTemplateRegistry) (id : Str) :
    s.latestPreparedTemplate id = (s.templates[s.resolve id]?.map (·.latestPrepared)).join := by
  unfold latestPreparedTemplate
  cases s.templates[s.resolve id]? <;> simp

theorem repeats_of_sameView (h : SameView s (s.requestBuild request).2) : Repeats s request := by
  obtain ⟨record, hr, hinfo⟩ := Option.map_eq_some_iff.mp (list_requestBuild_iff.mp h.list)
  have hget := h.get s.nextTemplate
  rw [get_eq, get_eq, requestBuild_get, hr] at hget
  refine ⟨⟨record, hr, hinfo, ?_⟩, fun name hname => ?_⟩
  · exact (congrArg TemplateWithBuilds.builds (Except.ok.inj hget)).symm
  · have halias := h.aliases name
    rw [lookupAlias_eq, lookupAlias_eq, requestBuild_aliases, if_pos hname, Option.bind_some,
      requestBuild_get] at halias
    obtain ⟨id, hid, hsome⟩ := Option.bind_eq_some_iff.mp halias.symm
    obtain ⟨_, -, he⟩ := Option.map_eq_some_iff.mp hsome
    exact hid.trans (congrArg (some ·.templateId) he)

/-- A view of the records that does not tell the new record from the old one. -/
theorem map_requestBuild {α : Type} {f : TemplateRecord → α}
    (hr : s.templates[s.nextTemplate]? = some record)
    (hf : f (newRecord s.now s.nextTemplate s.nextBuild request) = f record) (id : Str) :
    (s.requestBuild request).2.templates[id]?.map f = s.templates[id]?.map f := by
  rw [requestBuild_templates, get_insert]
  by_cases hid : s.nextTemplate = id
  · rw [if_pos hid, ← hid, hr, Option.map_some, Option.map_some, hf]
  · rw [if_neg hid]

theorem latestPrepared_waiting {record : TemplateRecord}
    (h : record.builds = [build]) (hw : build.status = .waiting) :
    record.latestPrepared = none := by
  simp [TemplateRecord.latestPrepared, TemplateRecord.latestReady, h, hw]

theorem sameView_of_repeats (h : Repeats s request) : SameView s (s.requestBuild request).2 := by
  obtain ⟨⟨record, hr, hinfo, hbuilds⟩, halias⟩ := h
  have haliases : (s.requestBuild request).2.aliases = s.aliases := by
    refine SortedTable.ext fun name => ?_
    rw [requestBuild_aliases]
    by_cases hname : request.name = some name
    · rw [if_pos hname, halias name hname]
    · rw [if_neg hname]
  refine ⟨?_, fun name => ?_, fun id => ?_, fun id => ?_⟩
  · rw [list_requestBuild_iff, hr, Option.map_some, hinfo]
  · rw [lookupAlias_eq, lookupAlias_eq, haliases]
    congr 1
    funext id
    rw [map_requestBuild hr (by rw [hinfo]; rfl)]
  · rw [get_eq, get_eq, map_requestBuild hr (by rw [hinfo, hbuilds]; rfl)]
  · rw [latestPreparedTemplate_eq, latestPreparedTemplate_eq, resolve, haliases,
      map_requestBuild hr]
    · rfl
    · rw [latestPrepared_waiting hbuilds rfl, latestPrepared_waiting rfl rfl]

/-- A failed request is unseen exactly when the adapter does not fail, or when what the
request writes is there already. -/
theorem failed_request_unseen_iff (s : LocalTemplateRegistry) (request : TemplateBuildRequest)
    (prepareTemplate : TemplateBuildRequest → Except BackendError PreparedTemplate) :
    (∀ e s', requestTemplateBuild prepareTemplate request s = .error e s' → SameView s s') ↔
      (∃ prepared, prepareTemplate request = .ok prepared) ∨ Repeats s request := by
  cases h : prepareTemplate request with
  | ok prepared => simp [requestTemplateBuild_ok h]
  | error e =>
    simp only [requestTemplateBuild_error h, EStateM.Result.error.injEq, reduceCtorEq, exists_false,
      false_or, and_imp]
    refine ⟨fun hview => repeats_of_sameView (hview e _ rfl rfl), ?_⟩
    rintro hrepeats _ _ rfl rfl
    exact sameView_of_repeats hrepeats

/-- The adapter fails on a second request for a name: the name has moved to a template that
was never built. -/
theorem failed_request_takes_name :
    ∃ e s', requestTemplateBuild (fun _ => .error (.runtime (str "disk full")))
        { name := some (str "web") }
        ((LocalTemplateRegistry.new []).requestBuild { name := some (str "web") }).2 =
      .error e s' ∧
      ¬SameView ((LocalTemplateRegistry.new []).requestBuild { name := some (str "web") }).2
        s' := by
  refine ⟨_, _, requestTemplateBuild_error rfl, fun h => ?_⟩
  have halias := h.aliases (str "web")
  revert halias
  decide +kernel

end TemplateRequests
