import Firkin.GuardedRun
import Firkin.TemplateRegistry

/-! # Template names over runs of requests and deletions

Beside the registry stands the book of what was requested: the templates not deleted since,
newest first, each with the name it was requested under. A name should stand for the newest
of them that carries it. -/
namespace TemplateNames

open Ext4Types DecimalText E2bTypes SortedTable TemplateRegistry GuardedRun LocalTemplateRegistry
open Option

theorem toList_inj {α : Type} {a b : Option α} : a.toList = b.toList ↔ a = b := by
  cases a <;> cases b <;> simp

inductive Call where
  | requestBuild (request : TemplateBuildRequest)
  | delete (templateId : Str)

structure Entry where
  templateId : Str
  name : Option Str

structure Books where
  registry : LocalTemplateRegistry
  live : List Entry := []

def step (s : Books) : Call → Books
  | .requestBuild request =>
    let (info, registry) := s.registry.requestBuild request
    ⟨registry, ⟨info.templateId, request.name⟩ :: s.live⟩
  | .delete templateId =>
    ⟨(s.registry.delete templateId).2, s.live.filter (·.templateId ≠ templateId)⟩

def start (now : Str) : Books := ⟨.new now, []⟩

def newest (live : List Entry) (name : Str) : Option Str :=
  (live.find? (·.name = some name)).map (·.templateId)

/-- Names resolve as the book says, and fail to only where no template carries them. -/
def Resolves (s : Books) : Prop :=
  ∀ name, (s.registry.lookupAlias name).map (·.templateId) = newest s.live name ∧
    (s.registry.lookupAlias name = none →
      ∀ (id : Str) (record : TemplateRecord), s.registry.templates[id]? = some record →
        name ∉ record.info.names)

def namesOf (s : LocalTemplateRegistry) (templateId : Str) : List Str :=
  (s.templates[templateId]?.map (·.info.names)).getD []

def sharesName (s : LocalTemplateRegistry) (templateId : Str) : Bool :=
  s.templates.toList.any fun p =>
    p.1 ≠ templateId && (namesOf s templateId).any (· ∈ p.2.info.names)

/-- Requests are made while ids are left, and a deleted template shares no name. -/
def Undisturbed (s : Books) : Call → Prop
  | .requestBuild _ => s.registry.nextTemplateId.toNat < 2 ^ 64 - 1
  | .delete templateId => sharesName s.registry templateId = false

instance : ∀ s call, Decidable (Undisturbed s call)
  | _, .requestBuild _ => inferInstanceAs (Decidable (_ < _))
  | _, .delete _ => inferInstanceAs (Decidable (_ = _))

theorem sharesName_false {id : Str} :
    sharesName s id = false ↔
      ∀ (id' : Str) (record : TemplateRecord), s.templates[id']? = some record → id' ≠ id →
        ∀ name ∈ namesOf s id, name ∉ record.info.names := by
  simp only [sharesName, List.any_eq_false, Bool.and_eq_true, decide_eq_true_eq, List.any_eq_true,
    not_and, not_exists, Prod.forall,
    Std.ExtTreeMap.mem_toList_iff_getElem?_eq_some]

structure Recorded (s : Books) : Prop where
  registered : ∀ id name, ⟨id, name⟩ ∈ s.live ↔
    ∃ record : TemplateRecord, s.registry.templates[id]? = some record ∧
      record.info.names = name.toList
  named : ∀ (id : Str) (record : TemplateRecord), s.registry.templates[id]? = some record →
    ∃ name : Option Str, record.info.names = name.toList
  issued : ∀ id ∈ s.registry.templates,
    ∃ n ≤ s.registry.nextTemplateId.toNat, id = str "tpl_" ++ render n
  resolved : ∀ name, s.registry.aliases[name]? = newest s.live name

theorem recorded_start (now : Str) : Recorded (start now) where
  registered := by simp [start, new]
  named := by simp [start, new]
  issued := by simp [start, new]
  resolved := by simp [start, new, newest]

variable {s : Books}

theorem Recorded.fresh (h : Recorded s) (hn : s.registry.nextTemplateId.toNat < 2 ^ 64 - 1) :
    s.registry.templates[s.registry.nextTemplate]? = none := by
  by_contra hne
  obtain ⟨n, hle, hid⟩ := h.issued _ (Std.ExtTreeMap.mem_iff_isSome_getElem?.mpr
    (isSome_iff_ne_none.mpr hne))
  have hv := congrArg value (List.append_cancel_left hid)
  rw [value_render, value_render, saturatingAdd64_one hn, some.injEq] at hv
  omega

theorem recorded_request (h : Recorded s) (request : TemplateBuildRequest)
    (hn : s.registry.nextTemplateId.toNat < 2 ^ 64 - 1) :
    Recorded (step s (.requestBuild request)) where
  registered := by
    intro id name
    have hfresh := h.fresh hn
    simp only [step, requestBuild, get_insert]
    by_cases hid : s.registry.nextTemplate = id
    · subst hid
      simp [h.registered, hfresh, newRecord, newInfo, eq_comm, toList_inj]
    · simp [h.registered, hid, Ne.symm hid]
  named := by
    intro id record hr
    simp only [step, requestBuild, get_insert] at hr
    by_cases hid : s.registry.nextTemplate = id
    · rw [if_pos hid, some.injEq] at hr
      exact ⟨request.name, hr ▸ rfl⟩
    · rw [if_neg hid] at hr
      exact h.named id record hr
  issued := by
    intro id hid
    simp only [step, requestBuild] at hid ⊢
    rw [saturatingAdd64_one hn]
    rcases Std.ExtTreeMap.mem_insert.mp hid with he | hold
    · refine ⟨_, le_rfl, ?_⟩
      rw [← Std.compare_eq_iff_eq.mp he, nextTemplate, templateIdOf, saturatingAdd64_one hn]
    · obtain ⟨n, hle, hn⟩ := h.issued id hold
      exact ⟨n, by omega, hn⟩
  resolved := by
    intro name
    change (s.registry.requestBuild request).2.aliases[name]? =
      newest (⟨s.registry.nextTemplate, request.name⟩ :: s.live) name
    rw [requestBuild_aliases, h.resolved]
    by_cases hn : request.name = some name <;> simp [newest, hn]

theorem delete_nextTemplateId (s : LocalTemplateRegistry) (id : Str) :
    (s.delete id).2.nextTemplateId = s.nextTemplateId := by
  unfold delete
  cases s.templates[id]? <;> rfl

theorem delete_templates (s : LocalTemplateRegistry) (id id' : Str) :
    (s.delete id).2.templates[id']? = if id = id' then none else s.templates[id']? := by
  unfold delete
  cases h : s.templates[id]? with
  | none =>
    by_cases hid : id = id'
    · rw [if_pos hid, ← hid]
      exact h
    · rw [if_neg hid]
  | some record => exact get_erase s.templates id id'

/-- Deleting a template takes all its names away, whoever they stand for. -/
theorem delete_aliases {s} (id name : Str) :
    (s.delete id).2.aliases[name]? =
      if name ∈ namesOf s id then none else s.aliases[name]? := by
  unfold delete namesOf
  cases h : s.templates[id]? with
  | none => simp
  | some record =>
    change (record.info.names.foldl _ s.aliases)[name]? =
      if name ∈ record.info.names then none else s.aliases[name]?
    by_cases hn : name ∈ record.info.names
    · rw [if_pos hn, get_eraseAll_of_mem s.aliases hn]
    · rw [if_neg hn, get_eraseAll_of_not_mem s.aliases hn]

theorem Recorded.name_of (h : Recorded s) {id : Str}
    (hm : ⟨id, name⟩ ∈ s.live) : namesOf s.registry id = name.toList := by
  obtain ⟨record, hr, hn⟩ := (h.registered id name).mp hm
  rw [namesOf, hr]
  exact hn

theorem newest_filter {id name : Str} (h : ∀ e ∈ live, e.name = some name → e.templateId ≠ id) :
    newest (live.filter (·.templateId ≠ id)) name = newest live name := by
  rw [newest, List.find?_filter]
  congr 1
  refine List.find?_congr fun e he => ?_
  by_cases hn : e.name = some name
  · simp [h e he hn]
  · simp [hn]

theorem newest_eq_none : newest live name = none ↔ ∀ e ∈ live, e.name ≠ some name := by
  simp [newest]

theorem recorded_delete (h : Recorded s) {id : Str}
    (hs : sharesName s.registry id = false) : Recorded (step s (.delete id)) where
  registered := by
    intro id' name
    simp only [step, delete_templates, List.mem_filter, h.registered]
    by_cases hid : id = id'
    · simp [hid]
    · simp [hid, Ne.symm hid]
  named := by
    intro id' record hr
    simp only [step, delete_templates] at hr
    exact h.named id' record (ite_none_left_eq_some.mp hr).2
  issued := by
    intro id' hid'
    simp only [step, delete_nextTemplateId]
    rw [Std.ExtTreeMap.mem_iff_isSome_getElem?] at hid'
    refine h.issued id' (Std.ExtTreeMap.mem_iff_isSome_getElem?.mpr ?_)
    simp only [step, delete_templates] at hid'
    by_cases hid : id = id'
    · simp [hid] at hid'
    · rwa [if_neg hid] at hid'
  resolved := by
    intro name
    simp only [step, delete_aliases]
    by_cases hn : name ∈ namesOf s.registry id
    · rw [if_pos hn, eq_comm, newest_eq_none]
      rintro ⟨id', name'⟩ he rfl
      obtain ⟨hlive, hid⟩ := List.mem_filter.mp he
      obtain ⟨record, hr, hnames⟩ := (h.registered _ _).mp hlive
      refine sharesName_false.mp hs id' record hr (by simpa using hid) name hn ?_
      rw [hnames]
      exact mem_toList.mpr rfl
    · rw [if_neg hn, h.resolved, newest_filter]
      rintro ⟨id', name'⟩ he rfl rfl
      exact hn (by rw [h.name_of he]; exact mem_toList.mpr rfl)

theorem recorded_step (h : Recorded s) (hc : Undisturbed s call) : Recorded (step s call) := by
  cases call with
  | requestBuild request => exact recorded_request h request hc
  | delete id => exact recorded_delete h hc

theorem Recorded.resolves (h : Recorded s) : Resolves s := by
  intro name
  cases hn : newest s.live name with
  | none =>
    have ha : s.registry.lookupAlias name = none := by
      simp [lookupAlias, h.resolved, hn]
    refine ⟨by rw [ha]; rfl, fun _ id record hr hcarries => ?_⟩
    obtain ⟨name', hname'⟩ := h.named id record hr
    have hlive := (h.registered id name').mpr ⟨record, hr, hname'⟩
    rw [hname', mem_toList] at hcarries
    exact newest_eq_none.mp hn _ hlive hcarries
  | some id =>
    obtain ⟨⟨id', name'⟩, he, rfl⟩ := map_eq_some_iff.mp hn
    obtain ⟨record, hr, -⟩ := (h.registered id' name').mp (List.mem_of_find?_eq_some he)
    have ha : s.registry.lookupAlias name = some ⟨id', record.info.isPublic⟩ := by
      simp [lookupAlias, h.resolved, hn, hr]
    exact ⟨by rw [ha]; rfl, fun hnone => by rw [ha] at hnone; cases hnone⟩

/-- In every run that deletes no template whose name another one carries, each name stands for
the newest live template with it. -/
theorem names_resolve (now : Str) (calls : List Call)
    (h : Meets step Undisturbed (start now) calls) : Resolves (run step (start now) calls) :=
  (h.keeps (fun _ _ hs hc => recorded_step hs hc) (recorded_start now)).resolves

def named (name : String) : Call := .requestBuild { name := some (str name) }

/-- Two names, one of them deleted and requested again. -/
theorem names_resolve_again :
    Meets step Undisturbed (start []) [named "a", named "b", .delete (str "tpl_1"), named "a"] ∧
      Resolves (run step (start []) [named "a", named "b", .delete (str "tpl_1"), named "a"]) :=
  ⟨by decide +kernel, names_resolve [] _ (by decide +kernel)⟩

/-- A name requested twice stands for nothing once the older template is deleted. -/
theorem name_lost_with_older_template :
    ¬Resolves (run step (start []) [named "a", named "a", .delete (str "tpl_1")]) := by
  intro h
  have hname := (h (str "a")).1
  revert hname
  decide +kernel

theorem resolves_delete_iff (h : Recorded s) (id : Str) :
    Resolves (step s (.delete id)) ↔ sharesName s.registry id = false := by
  refine ⟨fun hres => sharesName_false.mpr fun id' record hr hid name hname hcarries => ?_,
    fun hs => (recorded_delete h hs).resolves⟩
  have hnone : (step s (.delete id)).registry.lookupAlias name = none := by
    simp [step, lookupAlias, delete_aliases, hname]
  refine (hres name).2 hnone id' record ?_ hcarries
  rw [step, delete_templates, if_neg (Ne.symm hid), hr]

def twice : Books := run step (start []) [named "a", named "a", named "b"]

/-- Of two templates with one name neither can be deleted, a third one can. -/
theorem resolves_delete_twice : ¬Resolves (step twice (.delete (str "tpl_1"))) ∧
    Resolves (step twice (.delete (str "tpl_3"))) := by
  have hmeets : Meets step Undisturbed (start []) [named "a", named "a", named "b"] := by
    decide +kernel
  have hs : Recorded twice :=
    hmeets.keeps (fun _ _ hs hc => recorded_step hs hc) (recorded_start [])
  exact ⟨fun h => absurd ((resolves_delete_iff hs _).mp h) (by decide +kernel),
    (resolves_delete_iff hs _).mpr (by decide +kernel)⟩

end TemplateNames
