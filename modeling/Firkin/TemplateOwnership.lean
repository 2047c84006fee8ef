import Firkin.LocalBackend
import Firkin.TemplateNames
import Firkin.TemplateRequests

/-! # Whose artifact a template id stands for

A sandbox is created from a template id or a name, and names are looked up first. Template ids
are generated as `tpl_1`, `tpl_2`, ..., and nothing keeps a client from requesting a template
under such a name. -/
namespace TemplateOwnership

open Ext4Types DecimalText E2bTypes SortedTable Admission FaultMonad GuardedRun TemplateRegistry
open Std.ExtTreeMap TemplateRequests LocalTemplateRegistry
open TemplateNames (delete_templates delete_aliases delete_nextTemplateId)
open LocalBackend (Api LocalRuntimeBackend RuntimeAdapter AdapterCall create startSandbox
  createWithDetachedRuntimeStart registerThenApply applyThenRegister)

/-- What clients do to the template registry, with what the adapter answers. -/
inductive Call where
  | requestTemplateBuild (request : TemplateBuildRequest) (answer : Result PreparedTemplate)
  | startTemplateBuild (templateId buildId : Str) (start : TemplateBuildStart)
      (answer : Result PreparedTemplate)
  | delete (templateId : Str)
  | update (templateId : Str) (request : TemplateUpdateRequest)
  | uploadFile (templateId hash : Str) (bytes : List UInt8)
  | assignTags (request : AssignTemplateTags)
  | removeTags (request : RemoveTemplateTags)

def step (s : LocalTemplateRegistry) : Call → LocalTemplateRegistry
  | .requestTemplateBuild request answer => left (requestTemplateBuild (fun _ => answer) request s)
  | .startTemplateBuild templateId buildId start answer =>
    left (startTemplateBuild (fun _ => answer) templateId buildId start s)
  | .delete templateId => (s.delete templateId).2
  | .update templateId request => left (attempt (·.update templateId request) s)
  | .uploadFile templateId hash bytes => left (attempt (·.uploadFile templateId hash bytes) s)
  | .assignTags request => left (attempt (·.assignTags request) s)
  | .removeTags request => left (attempt (·.removeTags request) s)

def firstCall {α : Type} (method : Api α) (b : LocalRuntimeBackend) : Option AdapterCall :=
  ((left (method b)).calls.drop b.calls.length).head?

/-- Whatever else the backend holds, a sandbox created with the id of a template that has a
ready build starts from an artifact stored for that template. -/
def UsesOwn (s : LocalTemplateRegistry) : Prop :=
  ∀ (id : Str) (record : TemplateRecord), s.templates[id]? = some record →
    (∃ build ∈ record.builds, build.status = .ready) →
    ∀ (a : RuntimeAdapter) (b : LocalRuntimeBackend) (request : SandboxCreateRequest),
      b.templates = s → request.templateId = id →
      ∃ (buildId : Str) (prepared : PreparedTemplate),
        record.preparedTemplates[buildId]? = some prepared ∧
        firstCall (create a request) b = some (.start ⟨request, some prepared⟩) ∧
        firstCall (createWithDetachedRuntimeStart a request) b =
          some (.start ⟨request, some prepared⟩)

def numberOf (name : Str) : Option UInt64 :=
  ((parse 64 (name.drop 4)).map UInt64.ofNat).filter fun n => templateIdOf n = name

theorem numberOf_eq_some : numberOf name = some n ↔ name = templateIdOf n := by
  constructor
  · intro h
    have hid := (Option.filter_eq_some_iff.mp h).2
    exact (of_decide_eq_true hid).symm
  · rintro rfl
    have hdrop : (templateIdOf n).drop 4 = render n.toNat := rfl
    simp [numberOf, hdrop, parse_render n.toNat_lt]

/-- A name that is no template id, or the id of a deleted template that is never issued
again: the counter is past it, and it is not the one at which the counter stays. -/
def harmless (s : LocalTemplateRegistry) (name : Str) : Bool :=
  match numberOf name with
  | none => true
  | some n => n ≤ s.nextTemplateId && n < UInt64.ofNat (2 ^ 64 - 1) && name ∉ s.templates

/-- A requested name is harmless or the very id the request gets, and a build answers with the
build id it was asked for. -/
def honest (s : LocalTemplateRegistry) : Call → Bool
  | .requestTemplateBuild request _ =>
    request.name.all fun name => name = s.nextTemplate || harmless s name
  | .startTemplateBuild _ buildId _ answer =>
    answer.toOption.all fun prepared => prepared.buildId = buildId
  | _ => true

def Stored (record : TemplateRecord) : Prop :=
  ∀ build ∈ record.builds, build.status = .ready → build.buildId ∈ record.preparedTemplates

structure Owned (s : LocalTemplateRegistry) : Prop where
  issued : ∀ id ∈ s.templates, ∃ n ≤ s.nextTemplateId, id = templateIdOf n
  pointed : ∀ (name id : Str), s.aliases[name]? = some id → id = name ∨ harmless s name = true
  stored : ∀ (id : Str) (record : TemplateRecord), s.templates[id]? = some record → Stored record

variable {s : LocalTemplateRegistry} {id buildId name : Str} {record : TemplateRecord}

theorem owned_new (now : Str) : Owned (.new now) where
  issued := by simp [new]
  pointed := by simp [new]
  stored := by simp [new]

theorem harmless_iff : harmless s name = true ↔ ∀ n, name = templateIdOf n →
      n ≤ s.nextTemplateId ∧ n < UInt64.ofNat (2 ^ 64 - 1) ∧ name ∉ s.templates := by
  unfold harmless
  cases hn : numberOf name with
  | none =>
    refine iff_of_true rfl fun n hname => ?_
    rw [numberOf_eq_some.mpr hname] at hn
    cases hn
  | some m =>
    have hm := numberOf_eq_some.mp hn
    constructor
    · intro h n hname
      obtain rfl := templateIdOf_inj (hm.symm.trans hname)
      simpa [and_assoc] using h
    · intro h
      simpa [and_assoc] using h m hm

theorem Owned.resolve_self (h : Owned s) (hid : id ∈ s.templates) : s.resolve id = id := by
  unfold resolve
  cases ha : s.aliases[id]? with
  | none => rfl
  | some target =>
    rcases h.pointed id target ha with hself | hharmless
    · exact hself
    · obtain ⟨n, -, hn⟩ := h.issued id hid
      exact absurd hid (harmless_iff.mp hharmless n hn).2.2

theorem Owned.put (h : Owned s) (hr : s.templates[id]? = some record) (hs : Stored record') :
    Owned (s.put id record') := by
  have hmem : ∀ id', id' ∈ (s.put id record').templates ↔ id' ∈ s.templates := by
    intro id'
    rw [mem_iff_isSome_getElem?, mem_iff_isSome_getElem?, put_get]
    by_cases hid : id = id'
    · rw [if_pos hid, ← hid, hr]
      exact iff_of_true rfl rfl
    · rw [if_neg hid]
  refine ⟨fun id' hid' => h.issued id' ((hmem id').mp hid'), fun name id' ha => ?_,
    fun id' r hr' => ?_⟩
  · refine (h.pointed name id' ha).imp_right fun hh => ?_
    rw [harmless_iff] at hh ⊢
    intro n hn
    exact ⟨(hh n hn).1, (hh n hn).2.1, fun hm => (hh n hn).2.2 ((hmem name).mp hm)⟩
  · rw [put_get] at hr'
    split at hr'
    · cases hr'
      exact hs
    · exact h.stored id' r hr'

theorem Owned.delete (h : Owned s) (id : Str) : Owned (s.delete id).2 := by
  have hkept : ∀ (id' : Str) (r : TemplateRecord),
      (s.delete id).2.templates[id']? = some r → s.templates[id']? = some r := by
    intro id' r hr
    rw [delete_templates] at hr
    split at hr
    · cases hr
    · exact hr
  have hmem : ∀ id' ∈ (s.delete id).2.templates, id' ∈ s.templates := by
    intro id' hm
    rw [mem_iff_isSome_getElem?, Option.isSome_iff_exists] at hm ⊢
    exact hm.imp (hkept id')
  refine ⟨fun id' hm => ?_, fun name id' ha => ?_, fun id' r hr => h.stored id' r (hkept id' r hr)⟩
  · rw [delete_nextTemplateId]
    exact h.issued id' (hmem id' hm)
  · rw [delete_aliases] at ha
    split at ha
    · cases ha
    · refine (h.pointed name id' ha).imp_right fun hh => ?_
      rw [harmless_iff] at hh ⊢
      rw [delete_nextTemplateId]
      intro n hn
      exact ⟨(hh n hn).1, (hh n hn).2.1, fun hm => (hh n hn).2.2 (hmem name hm)⟩

theorem le_saturatingAdd64 (n : UInt64) : n ≤ saturatingAdd64 n 1 := by
  have hn := n.toNat_lt
  rw [UInt64.le_iff_toNat_le, AdmissionAmounts.saturatingAdd64_toNat]
  omega

/-- The counter has left a harmless number behind, so the next id is a different one. -/
theorem harmless_request (request : TemplateBuildRequest) (h : harmless s name = true) :
    harmless (s.requestBuild request).2 name = true := by
  rw [harmless_iff] at h ⊢
  intro n hn
  obtain ⟨hle, hlt, hfree⟩ := h n hn
  have hmono : n < saturatingAdd64 s.nextTemplateId 1 := by
    rw [UInt64.lt_iff_toNat_lt] at hlt ⊢
    rw [UInt64.le_iff_toNat_le] at hle
    rw [AdmissionAmounts.saturatingAdd64_toNat]
    change n.toNat < min (s.nextTemplateId.toNat + 1) _
    change n.toNat < 2 ^ 64 - 1 at hlt
    omega
  refine ⟨UInt64.le_of_lt hmono, hlt, ?_⟩
  rw [requestBuild_templates, mem_insert]
  rintro (heq | hm)
  · have hid := Std.compare_eq_iff_eq.mp heq
    have := templateIdOf_inj (hid.trans hn)
    exact absurd (this ▸ hmono) (UInt64.lt_irrefl _)
  · exact hfree hm

theorem Owned.request (h : Owned s) {request : TemplateBuildRequest}
    (hname : ∀ name, request.name = some name → name = s.nextTemplate ∨ harmless s name = true) :
    Owned (s.requestBuild request).2 where
  issued := by
    intro id hid
    rw [requestBuild_templates, mem_insert] at hid
    rcases hid with heq | hm
    · exact ⟨_, UInt64.le_refl _, (Std.compare_eq_iff_eq.mp heq).symm⟩
    · obtain ⟨n, hle, hn⟩ := h.issued id hm
      exact ⟨n, UInt64.le_trans hle (le_saturatingAdd64 s.nextTemplateId), hn⟩
  pointed := by
    intro name id ha
    rw [requestBuild_aliases] at ha
    split at ha
    · rename_i hreq
      cases ha
      exact (hname name hreq).imp Eq.symm (harmless_request request)
    · exact (h.pointed name id ha).imp_right (harmless_request request)
  stored := by
    intro id record hr
    rw [requestBuild_templates, get_insert] at hr
    split at hr
    · cases hr
      intro build hb hready
      rw [List.mem_singleton.mp hb] at hready
      cases hready
    · exact h.stored id record hr

/-- A build is changed in place; it may become ready only if its artifact is there. -/
theorem stored_updateBuild {f : TemplateBuild → TemplateBuild} {builds builds' : List TemplateBuild}
    {prepared : Table Str PreparedTemplate} (hf : ∀ build, (f build).buildId = build.buildId)
    (hready : ∀ build, (f build).status = .ready → buildId ∈ prepared)
    (hs : ∀ build ∈ builds, build.status = .ready → build.buildId ∈ prepared)
    (hu : TemplateRecord.updateBuild buildId f builds = some builds') :
    ∀ build ∈ builds', build.status = .ready → build.buildId ∈ prepared := by
  induction builds generalizing builds' with
  | nil => cases hu
  | cons b builds ih =>
    have htail : ∀ build ∈ builds, build.status = .ready → build.buildId ∈ prepared :=
      fun build hb => hs build (List.mem_cons_of_mem b hb)
    rw [TemplateRecord.updateBuild] at hu
    split at hu
    · rename_i hid
      cases hu
      refine List.forall_mem_cons.mpr ⟨fun hr => ?_, htail⟩
      rw [hf, hid]
      exact hready b hr
    · obtain ⟨rest, hrest, rfl⟩ := Option.map_eq_some_iff.mp hu
      exact List.forall_mem_cons.mpr ⟨hs b List.mem_cons_self, ih htail hrest⟩

theorem Stored.insert (h : Stored record) (prepared : PreparedTemplate) :
    Stored { record with
      preparedTemplates := record.preparedTemplates.insert prepared.buildId prepared } :=
  fun build hb hr => mem_insert.mpr (.inr (h build hb hr))

section
variable (h : Owned s)
include h

theorem startBuild_keeps (start : TemplateBuildStart) :
    Settles (attempt (·.startBuild id buildId start)) s (fun _ => Owned) Owned := by
  refine settles_attempt h fun _ t ht => ?_
  obtain ⟨record, builds, hr, hb, rfl⟩ := LocalTemplateRegistry.startBuild_eq_ok ht
  exact h.put hr (stored_updateBuild (f := TemplateRecord.startedBuild s.now) (fun _ => rfl)
    (fun _ hready => by cases hready) (h.stored id record hr) hb)

theorem setPreparedTemplate_keeps (prepared : PreparedTemplate) :
    Settles (attempt (·.setPreparedTemplate id prepared)) s
      (fun _ t => Owned t ∧ ∀ record : TemplateRecord, t.templates[id]? = some record →
        prepared.buildId ∈ record.preparedTemplates) Owned := by
  refine settles_attempt h fun _ t ht => ?_
  obtain ⟨record, hr, ht⟩ := except_bind_eq_ok.mp ht
  rw [template_eq_ok] at hr
  cases ht
  refine ⟨h.put hr ((h.stored id record hr).insert prepared), fun r hr' => ?_⟩
  rw [put_get_self] at hr'
  cases hr'
  exact mem_insert_self

theorem setBuildStatus_keeps
    (hready : status = .ready → ∀ record : TemplateRecord, s.templates[id]? = some record →
      buildId ∈ record.preparedTemplates) :
    Settles (attempt (·.setBuildStatus id buildId status)) s (fun _ => Owned) Owned := by
  refine settles_attempt h fun _ t ht => ?_
  obtain ⟨record, hr, ht⟩ := except_bind_eq_ok.mp ht
  rw [template_eq_ok] at hr
  split at ht
  · cases ht
  · rename_i builds hb
    cases ht
    refine h.put hr ?_
    exact stored_updateBuild (f := TemplateRecord.settledBuild s.now status) (fun _ => rfl)
      (fun _ hst => hready hst record hr)
      (h.stored id record hr) hb

theorem startTemplateBuild_keeps (start : TemplateBuildStart) {answer}
    (hid : ∀ prepared, answer = .ok prepared → prepared.buildId = buildId) :
    Owned (left (startTemplateBuild (fun _ => answer) id buildId start s)) := by
  refine Settles.left (reads_get.settles_bind h fun _ _ => ?_)
  refine (reads_ofExcept _).settles_bind h fun files _ => ?_
  refine (startBuild_keeps h start).bind fun _ t ht => ?_
  cases answer with
  | ok prepared =>
    refine (setPreparedTemplate_keeps ht prepared).bind fun _ u hu => ?_
    refine setBuildStatus_keeps hu.1 fun _ record hr => ?_
    rw [← hid prepared rfl]
    exact hu.2 record hr
  | error e =>
    refine (setBuildStatus_keeps ht fun hready => ?_).bind fun _ u hu => hu
    cases hready

theorem requestTemplateBuild_keeps (answer : Except BackendError PreparedTemplate)
    (hname : ∀ name, request.name = some name → name = s.nextTemplate ∨ harmless s name = true) :
    Owned (left (requestTemplateBuild (fun _ => answer) request s)) := by
  cases answer with
  | error e =>
    exact h.request hname
  | ok prepared =>
    rw [requestTemplateBuild_ok rfl]
    refine (h.request hname).put requestBuild_get fun build hb _ => ?_
    rw [List.mem_singleton.mp hb]
    exact mem_insert_self

/-- A registered record is replaced by one with the same builds and artifacts. -/
theorem edit_keeps {α : Type} {t} {x : α} {k} (ht : (s.template id >>= k) = .ok (x, t))
    (hk : ∀ record, ∃ y record', k record = .ok (y, s.put id record') ∧
      (Stored record → Stored record')) : Owned t := by
  obtain ⟨record, hr, ht⟩ := except_bind_eq_ok.mp ht
  rw [template_eq_ok] at hr
  obtain ⟨y, record', hput, hstored⟩ := hk record
  cases hput.symm.trans ht
  exact h.put hr (hstored (h.stored id record hr))

theorem step_keeps {call : Call} (hc : honest s call = true) : Owned (step s call) := by
  cases call with
  | requestTemplateBuild request answer =>
    refine requestTemplateBuild_keeps h answer fun name hname => ?_
    rw [honest, hname] at hc
    simpa using hc
  | startTemplateBuild templateId buildId start answer =>
    refine startTemplateBuild_keeps h start fun prepared hp => ?_
    rw [hp] at hc
    exact of_decide_eq_true hc
  | delete templateId => exact h.delete templateId
  | update | uploadFile | assignTags =>
    refine Settles.left (settles_attempt h fun _ t ht => ?_)
    exact edit_keeps h ht fun _ => ⟨_, _, rfl, fun hs => hs⟩
  | removeTags request =>
    refine Settles.left (settles_attempt h fun _ t ht => ?_)
    unfold removeTags at ht
    split at ht
    · cases ht
    · exact edit_keeps h ht fun _ => ⟨_, _, rfl, fun hs => hs⟩
end

theorem Stored.latestPrepared (h : Stored record)
    (hready : ∃ build ∈ record.builds, build.status = .ready) :
    ∃ (buildId : Str) (prepared : PreparedTemplate),
      record.preparedTemplates[buildId]? = some prepared ∧
      record.latestPrepared = some prepared := by
  obtain ⟨build, hb, hst⟩ := hready
  have hsome : record.latestReady.isSome := by
    refine List.find?_isSome.mpr ⟨build, List.mem_reverse.mpr hb, ?_⟩
    exact decide_eq_true hst
  obtain ⟨latest, hl⟩ := Option.isSome_iff_exists.mp hsome
  have hmem : latest ∈ record.builds := List.mem_reverse.mp (List.mem_of_find?_eq_some hl)
  have hlatest : latest.status = .ready := by simpa using List.find?_some hl
  obtain ⟨prepared, hp⟩ := Option.isSome_iff_exists.mp
    (mem_iff_isSome_getElem?.mp (h latest hmem hlatest))
  refine ⟨latest.buildId, prepared, hp, ?_⟩
  rw [TemplateRecord.latestPrepared, hl]
  exact hp

/-- The adapter is asked to start from the template that was found. -/
theorem firstCall_start {a : RuntimeAdapter} {request : SandboxCreateRequest}
    {b : LocalRuntimeBackend} {prepared : PreparedTemplate}
    {finish : SandboxRuntimeConfig → Api ConnectedSandbox}
    (hfind : b.preparedTemplate request.templateId = some prepared)
    (hgrows : ∀ config, LocalBackend.Grows (finish config)) :
    firstCall (startSandbox a request >>= fun runtime => finish runtime.config) b =
      some (.start ⟨request, some prepared⟩) := by
  have hstart : startSandbox a request b =
      LocalBackend.ask (.start ⟨request, some prepared⟩) (a.start ⟨request, some prepared⟩) b := by
    unfold startSandbox LocalBackend.LocalRuntimeState.findTemplate
    rw [bind_of_ok (run_get b), hfind]
    rfl
  unfold firstCall
  cases hs : a.start ⟨request, some prepared⟩ with
  | error e =>
    rw [hs] at hstart
    rw [bind_of_error hstart]
    simp [left]
  | ok runtime =>
    rw [hs] at hstart
    rw [bind_of_ok hstart]
    obtain ⟨more, hmore⟩ := hgrows runtime.config _
    rw [← hmore]
    simp

theorem Owned.usesOwn (h : Owned s) : UsesOwn s := by
  intro id record hr hready a b request hb hid
  obtain ⟨buildId, prepared, hp, hlatest⟩ := (h.stored id record hr).latestPrepared hready
  have hmem : id ∈ s.templates := by
    rw [mem_iff_isSome_getElem?, hr]
    rfl
  have hfind : b.preparedTemplate request.templateId = some prepared := by
    rw [LocalBackend.LocalRuntimeState.preparedTemplate, hb, hid, latestPreparedTemplate_eq,
      h.resolve_self hmem, hr, Option.map_some, hlatest]
    rfl
  exact ⟨buildId, prepared, hp,
    firstCall_start hfind (LocalBackend.grows_registerThenApply a request),
    firstCall_start hfind (LocalBackend.grows_applyThenRegister a request)⟩

/-- In every run of client requests with harmless names, a template id stands for the template
it was issued to. -/
theorem template_ids_own (now : Str) (calls : List Call)
    (h : Meets step (fun s call => honest s call = true) (.new now) calls) :
    UsesOwn (run step (.new now) calls) :=
  (h.keeps (fun _ _ hs hc => step_keeps hs hc) (owned_new now)).usesOwn

def artifact (path : String) : PreparedTemplate := ⟨[], [], str path, true, none⟩

def asked (name : Option String) (path : String) : Call :=
  .requestTemplateBuild { name := name.map str } (.ok (artifact path))

def renamed : List Call :=
  [asked (some "web") "a", asked none "b", .delete (str "tpl_1"), asked (some "tpl_1") "c"]

theorem template_ids_own_renamed :
    Meets step (fun s call => honest s call = true) (.new []) renamed ∧
      UsesOwn (run step (.new []) renamed) :=
  ⟨by decide +kernel, template_ids_own [] renamed (by decide +kernel)⟩

def hijacked : LocalTemplateRegistry :=
  run step (.new []) [asked none "a", asked (some "tpl_1") "b"]

/-- The second client's template is named like the first one's id, and what is started under
that id is the second client's artifact. -/
theorem template_id_hijacked : ¬UsesOwn hijacked := by
  intro h
  have hr : hijacked.templates[str "tpl_1"]? =
      some (readyRecord (.new []) {} (artifact "a")) := by
    decide +kernel
  obtain ⟨buildId, prepared, hp, hcall, -⟩ := h (str "tpl_1") _ hr (by decide +kernel)
    .refusing { templates := hijacked } { templateId := str "tpl_1" } rfl rfl
  change (insert ∅ _ _)[buildId]? = some prepared at hp
  rw [get_insert] at hp
  split at hp
  · cases hp
    revert hcall
    decide +kernel
  · cases hp

end TemplateOwnership
